import PhpSyntax.Proofs.Regex.Language

namespace PhpSyntax.Regex

open Program (Match)

namespace Program.Match

def take (m : Match) (c : Char) (cs : List Char) : Match :=
  { m with stop := m.stop.advance c cs }

def openGroup (m : Match) (index : Nat) : Match :=
  { m with trace := m.trace.openGroup index m.stop }

def closeGroup (m : Match) (index : Nat) : Match :=
  { m with trace := m.trace.closeGroup index m.stop }

end Program.Match

/-- The match behind the next character, if that is in a set. -/
def taking (s : CharSet) (m : Match) : List Match :=
  match m.stop.rest with
  | [] => []
  | c :: cs => if s.has c then [m.take c cs] else []

def spelling : List Char → Match → List Match
  | [], m => [m]
  | c :: cs, m => (taking (.single c) m).flatMap (spelling cs)

def exactly (round : Match → List Match) : Nat → Match → List Match
  | 0, m => [m]
  | n + 1, m => (round m).flatMap (exactly round n)

/-- At most `n` rounds; every round can be the last. -/
def atMost (round : Match → List Match) (greedy : Bool) : Nat → Match → List Match
  | 0, m => [m]
  | n + 1, m =>
    let more := (round m).flatMap (atMost round greedy n)
    if greedy then more ++ [m] else m :: more

/-- Any number of rounds that take something: no more than there are characters left. -/
def many (round : Match → List Match) (greedy : Bool) (m : Match) : List Match :=
  atMost round greedy m.stop.rest.length m

/-- The matches of a regex that go on from a match in progress, the preferred ones first. -/
def explore : Regex → Match → List Match
  | .empty, m => [m]
  | .text cs, m => spelling cs m
  | .set s, m => taking s m
  | .anchor a, m => if m.stop.meets a then [m] else []
  | .seq a b, m => (a.explore m).flatMap b.explore
  | .alt a b, m => a.explore m ++ b.explore m
  | .rounds least none greedy body, m =>
    (exactly body.explore least m).flatMap (many body.explore greedy)
  | .rounds least (some most) greedy body, m =>
    (exactly body.explore least m).flatMap (atMost body.explore greedy (most - least))
  | .group index body, m => (body.explore (m.openGroup index)).map (·.closeGroup index)

/-- Whether every round of a loop without a bound takes something. -/
def productive : Regex → Bool
  | .empty => true
  | .text _ => true
  | .set _ => true
  | .anchor _ => true
  | .seq a b => a.productive && b.productive
  | .alt a b => a.productive && b.productive
  | .rounds _ none _ body => body.takesSome && body.productive
  | .rounds _ (some _) _ body => body.productive
  | .group _ body => body.productive

section Language

/-- The place behind some of the next characters. -/
def Place.past (p : Place) : List Char → Place
  | [] => p
  | c :: cs => (p.advance c p.rest.tail).past cs

theorem Place.past_append (p : Place) (front behind : List Char) :
    p.past (front ++ behind) = (p.past front).past behind := by
  induction front generalizing p with
  | nil => rfl
  | cons c front ih => exact ih _

/-- A match goes on behind some characters. -/
structure Onward (m : Match) (front : List Char) (m' : Match) : Prop where
  rest : m.stop.rest = front ++ m'.stop.rest
  stop : m'.stop = m.stop.past front
  origin : m'.trace.origin = m.trace.origin

theorem Onward.refl (m : Match) : Onward m [] m :=
  ⟨rfl, rfl, rfl⟩

theorem Onward.trans {m m' m'' : Match} {front behind : List Char} (h : Onward m front m')
    (h' : Onward m' behind m'') : Onward m (front ++ behind) m'' := by
  refine ⟨?_, ?_, h'.origin.trans h.origin⟩
  · rw [h.rest, h'.rest, List.append_assoc]
  · rw [h'.stop, h.stop, Place.past_append]

theorem mem_taking {s : CharSet} {m m' : Match} :
    m' ∈ taking s m ↔ ∃ c cs, m.stop.rest = c :: cs ∧ s.has c = true ∧ m' = m.take c cs := by
  simp only [taking]
  cases m.stop.rest with
  | nil => simp
  | cons c cs => by_cases hc : s.has c = true <;> simp [hc]

theorem onward_take {m : Match} {c : Char} {cs : List Char} (h : m.stop.rest = c :: cs) :
    Onward m [c] (m.take c cs) := by
  refine ⟨h, ?_, rfl⟩
  show m.stop.advance c cs = m.stop.advance c m.stop.rest.tail
  rw [h]
  rfl

/-- What is taken from a match in progress on is of a language. -/
def TakenFrom (l : Language Char) (round : Match → List Match) : Prop :=
  ∀ m, ∀ m' ∈ round m, ∃ front ∈ l, Onward m front m'

open scoped Computability

theorem takenFrom_bind {l l' : Language Char} {f g : Match → List Match} (hf : TakenFrom l f)
    (hg : TakenFrom l' g) : TakenFrom (l * l') fun m => (f m).flatMap g := by
  intro m m'' hm
  obtain ⟨m', hm', hm''⟩ := List.mem_flatMap.1 hm
  obtain ⟨front, hfront, hon⟩ := hf m m' hm'
  obtain ⟨behind, hbehind, hon'⟩ := hg m' m'' hm''
  exact ⟨front ++ behind, Language.append_mem_mul hfront hbehind, hon.trans hon'⟩

theorem takenFrom_mono {l l' : Language Char} {f : Match → List Match} (hf : TakenFrom l f)
    (hle : l ≤ l') : TakenFrom l' f := by
  intro m m' hm
  obtain ⟨front, hfront, hon⟩ := hf m m' hm
  exact ⟨front, hle hfront, hon⟩

theorem takenFrom_one : TakenFrom 1 fun m : Match => [m] := by
  intro m m' hm
  obtain rfl := List.mem_singleton.1 hm
  exact ⟨[], Language.nil_mem_one, .refl m'⟩

theorem takenFrom_taking (s : CharSet) : TakenFrom (language (.set s)) (taking s) := by
  intro m m' hm
  obtain ⟨c, cs, hrest, hc, rfl⟩ := mem_taking.1 hm
  exact ⟨[c], ⟨c, hc, rfl⟩, onward_take hrest⟩

theorem takenFrom_spelling (cs : List Char) : TakenFrom {cs} (spelling cs) := by
  induction cs with
  | nil => exact takenFrom_one
  | cons c cs ih =>
    refine takenFrom_mono (takenFrom_bind (takenFrom_taking (.single c)) ih) ?_
    rintro _ ⟨_, ⟨d, hd, rfl⟩, _, rfl, rfl⟩
    rw [single_has, decide_eq_true_eq] at hd
    rw [hd]
    rfl

theorem exactly_flatMap (round : Match → List Match) (n : Nat) (m : Match) :
    (exactly round n m).flatMap round = exactly round (n + 1) m := by
  induction n generalizing m with
  | zero => simp [exactly]
  | succ n ih =>
    rw [exactly, List.flatMap_assoc, exactly]
    exact List.flatMap_congr fun m' _ => ih m'

theorem mem_atMost_succ {round : Match → List Match} {greedy : Bool} {n : Nat} {m m' : Match} :
    m' ∈ atMost round greedy (n + 1) m ↔
      m' ∈ (round m).flatMap (atMost round greedy n) ∨ m' = m := by
  cases greedy
  · simp only [atMost, Bool.false_eq_true, if_false, List.mem_cons, or_comm]
  · simp only [atMost, if_true, List.mem_append, List.mem_singleton]

theorem self_mem_atMost (round : Match → List Match) (greedy : Bool) (n : Nat) (m : Match) :
    m ∈ atMost round greedy n m := by
  cases n with
  | zero => exact List.mem_singleton.2 rfl
  | succ n => exact mem_atMost_succ.2 (.inr rfl)

section Rounds

variable {l : Language Char} {round : Match → List Match} (h : TakenFrom l round)

include h

theorem takenFrom_exactly (n : Nat) : TakenFrom (l ^ n) (exactly round n) := by
  induction n with
  | zero => exact takenFrom_one
  | succ n ih =>
    rw [pow_succ']
    exact takenFrom_bind h ih

theorem takenFrom_atMost (greedy : Bool) (n : Nat) :
    TakenFrom ((1 + l) ^ n) (atMost round greedy n) := by
  induction n with
  | zero => exact takenFrom_one
  | succ n ih =>
    have hone : 1 ≤ 1 + l := le_self_add
    intro m m' hm
    obtain hm | rfl := mem_atMost_succ.1 hm
    · rw [pow_succ']
      have hmore : l * (1 + l) ^ n ≤ (1 + l) * (1 + l) ^ n := mul_le_mul_left le_add_self _
      exact takenFrom_mono (takenFrom_bind h ih) hmore m m' hm
    · exact ⟨[], Left.one_le_pow_of_le hone _ Language.nil_mem_one, .refl m'⟩

end Rounds

theorem one_add_pow_le_kstar (l : Language Char) (n : Nat) : (1 + l) ^ n ≤ l∗ := by
  induction n with
  | zero => exact one_le_kstar
  | succ n ih =>
    rw [pow_succ']
    refine (mul_le_mul' (add_le one_le_kstar le_kstar) ih).trans ?_
    rw [kstar_mul_kstar]

/-- What a regex goes on with is a word of its language. -/
theorem takenFrom_explore : (r : Regex) → TakenFrom r.language r.explore
  | .empty => takenFrom_one
  | .text cs => takenFrom_spelling cs
  | .set s => takenFrom_taking s
  | .anchor a => by
    intro m m' hm
    simp only [explore] at hm
    split at hm
    · exact takenFrom_one m m' hm
    · cases hm
  | .seq a b => takenFrom_bind (takenFrom_explore a) (takenFrom_explore b)
  | .alt a b => by
    intro m m' hm
    obtain hm | hm := List.mem_append.1 hm
    · exact takenFrom_mono (takenFrom_explore a) le_self_add m m' hm
    · exact takenFrom_mono (takenFrom_explore b) le_add_self m m' hm
  | .rounds least none greedy body =>
    takenFrom_bind (takenFrom_exactly (takenFrom_explore body) least) fun m m' hm =>
      takenFrom_mono (takenFrom_atMost (takenFrom_explore body) greedy m.stop.rest.length)
        (one_add_pow_le_kstar _ _) m m' hm
  | .rounds least (some most) greedy body =>
    takenFrom_bind (takenFrom_exactly (takenFrom_explore body) least)
      (takenFrom_atMost (takenFrom_explore body) greedy (most - least))
  | .group index body => by
    intro m m' hm
    obtain ⟨m₁, hm₁, rfl⟩ := List.mem_map.1 hm
    obtain ⟨front, hfront, hon⟩ := takenFrom_explore body _ m₁ hm₁
    refine ⟨front, hfront, hon.rest, hon.stop, ?_⟩
    exact (Program.origin_closeGroup m₁.trace index m₁.stop).trans hon.origin

theorem explore_shorter {r : Regex} (h : r.takesSome = true) {m m' : Match}
    (hm : m' ∈ r.explore m) : m'.stop.rest.length < m.stop.rest.length := by
  obtain ⟨front, hfront, hon⟩ := takenFrom_explore r m m' hm
  rw [takesSome, Option.any_eq_true] at h
  obtain ⟨k, hk, hpos⟩ := h
  have hlength := shortest_le_length r hk front hfront
  rw [decide_eq_true_eq] at hpos
  rw [hon.rest, List.length_append]
  omega

end Language

/-- The matches that steps lead to from a match in progress on, in their order. `rank` is the number
of steps that may come one behind the other before a character is taken. -/
inductive Tries (steps : Steps) : Nat → Nat → Match → List Match → Prop where
  | take {i rank next : Nat} {s : CharSet} {m : Match} {c : Char} {cs : List Char}
    {found : List Match} : steps[i]? = some (.take s next) → m.stop.rest = c :: cs →
    s.has c = true → Tries steps rank next (m.take c cs) found → Tries steps 0 i m found
  | stuck {i next : Nat} {s : CharSet} {m : Match} : steps[i]? = some (.take s next) →
    taking s m = [] → Tries steps 0 i m []
  | fork {i first second rank rank' : Nat} {m : Match} {found found' : List Match} :
    steps[i]? = some (.fork first second) → Tries steps rank first m found →
    Tries steps rank' second m found' → Tries steps (max rank rank' + 1) i m (found ++ found')
  | pass {i next rank : Nat} {a : Anchor} {m : Match} {found : List Match} :
    steps[i]? = some (.check a next) → m.stop.meets a = true → Tries steps rank next m found →
    Tries steps (rank + 1) i m found
  | fail {i next : Nat} {a : Anchor} {m : Match} : steps[i]? = some (.check a next) →
    m.stop.meets a = false → Tries steps 0 i m []
  | openGroup {i index next rank : Nat} {m : Match} {found : List Match} :
    steps[i]? = some (.openGroup index next) → Tries steps rank next (m.openGroup index) found →
    Tries steps (rank + 1) i m found
  | closeGroup {i index next rank : Nat} {m : Match} {found : List Match} :
    steps[i]? = some (.closeGroup index next) → Tries steps rank next (m.closeGroup index) found →
    Tries steps (rank + 1) i m found
  | accept {i : Nat} {m : Match} : steps[i]? = some .accept → Tries steps 0 i m [m]

/-- The matches that steps lead to, whatever the rank. -/
def Gives (steps : Steps) (i : Nat) (m : Match) (found : List Match) : Prop :=
  ∃ rank, Tries steps rank i m found

namespace Emit

/-- What adds steps leaves those that are there as they are. -/
structure Keeps (e : Emit) : Prop where
  size : ∀ next steps, steps.size ≤ (e next steps).2.size
  same : ∀ next (steps : Steps), ∀ i < steps.size, (e next steps).2[i]? = steps[i]?

/-- The steps that were added are those of a program. -/
def Laid (prog steps steps' : Steps) : Prop :=
  ∀ i, steps.size ≤ i → i < steps'.size → prog[i]? = steps'[i]?

/-- What adds steps adds some that lead to the given matches, and from these on to what follows. -/
structure Explores (e : Emit) (f : Match → List Match) : Prop extends e.Keeps where
  gives : ∀ next steps prog, Laid prog steps (e next steps).2 → ∀ m g,
    (∀ m' ∈ f m, Gives prog next m' (g m')) → Gives prog (e next steps).1 m ((f m).flatMap g)

theorem step_keeps (s : Step) (steps : Steps) : steps.size ≤ (step s steps).2.size ∧
    ∀ i < steps.size, (step s steps).2[i]? = steps[i]? := by
  refine ⟨by simp [step], fun i hi => ?_⟩
  rw [step, Array.getElem?_push_lt hi, Array.getElem?_eq_getElem hi]

theorem keeps_step (s : Nat → Step) : Keeps fun next steps => step (s next) steps :=
  ⟨fun next steps => (step_keeps (s next) steps).1, fun next steps => (step_keeps (s next) steps).2⟩

theorem laid_step {prog steps : Steps} {s : Step} (h : Laid prog steps (step s steps).2) :
    prog[(step s steps).1]? = some s := by
  have hhere := h steps.size (Nat.le_refl _) (by simp [step])
  simpa [step] using hhere

theorem Laid.left {prog steps steps' steps'' : Steps} (h : Laid prog steps steps'')
    (hsize : steps'.size ≤ steps''.size) (hsame : ∀ i < steps'.size, steps''[i]? = steps'[i]?) :
    Laid prog steps steps' := by
  intro i hi hi'
  rw [h i hi (hi'.trans_le hsize), hsame i hi']

theorem Laid.right {prog steps steps' steps'' : Steps} (h : Laid prog steps steps'')
    (hsize : steps.size ≤ steps'.size) : Laid prog steps' steps'' :=
  fun i hi hi' => h i (hsize.trans hi) hi'

theorem Keeps.trans {e e' : Emit} (h : e.Keeps) (h' : e'.Keeps) :
    Keeps fun next steps => e (e' next steps).1 (e' next steps).2 where
  size next steps := (h'.size next steps).trans (h.size _ _)
  same next steps i hi := by
    rw [h.same _ _ i (hi.trans_le (h'.size next steps)), h'.same next steps i hi]

theorem Explores.trans {e e' : Emit} {f f' : Match → List Match} (h : e.Explores f)
    (h' : e'.Explores f') : Explores (fun next steps => e (e' next steps).1 (e' next steps).2)
      fun m => (f m).flatMap f' where
  toKeeps := h.toKeeps.trans h'.toKeeps
  gives next steps prog hlaid m g hg := by
    have hleft := hlaid.left (h.size _ _) (h.same _ _)
    have hright := hlaid.right (h'.size next steps)
    rw [List.flatMap_assoc]
    refine h.gives _ _ prog hright m _ fun m' hm' => ?_
    exact h'.gives next steps prog hleft m' g fun m'' hm'' =>
      hg m'' (List.mem_flatMap.2 ⟨m', hm', hm''⟩)

theorem Explores.congr {e : Emit} {f f' : Match → List Match} (h : e.Explores f)
    (hf : ∀ m, f m = f' m) : e.Explores f' := by
  rwa [← funext hf]

theorem nothing_explores : Explores (fun next steps => (next, steps)) fun m => [m] where
  size _ _ := Nat.le_refl _
  same _ _ _ _ := rfl
  gives next steps prog _ m g hg := by
    rw [List.flatMap_singleton]
    exact hg m (List.mem_singleton.2 rfl)

theorem take_explores (s : CharSet) :
    Explores (fun next steps => step (.take s next) steps) (taking s) where
  toKeeps := keeps_step _
  gives next steps prog hlaid m g hg := by
    have hstep := laid_step hlaid
    simp only [taking] at hg ⊢
    cases hrest : m.stop.rest with
    | nil => exact ⟨0, .stuck hstep (by simp [taking, hrest])⟩
    | cons c cs =>
      by_cases hc : s.has c = true
      · simp only [hrest, hc, if_true, List.mem_singleton, forall_eq] at hg
        obtain ⟨rank, hg⟩ := hg
        simp only [hc, if_true, List.flatMap_singleton]
        exact ⟨0, .take hstep hrest hc hg⟩
      · simp only [hc, Bool.false_eq_true, if_false, List.flatMap_nil]
        exact ⟨0, .stuck hstep (by simp [taking, hrest, hc])⟩

theorem text_explores (cs : List Char) : (text cs).Explores (spelling cs) := by
  induction cs with
  | nil => exact nothing_explores
  | cons c cs ih =>
    rw [text_cons]
    exact (take_explores (.single c)).trans ih

theorem anchor_explores (a : Anchor) : Explores (fun next steps => step (.check a next) steps)
    (explore (.anchor a)) where
  toKeeps := keeps_step _
  gives next steps prog hlaid m g hg := by
    have hstep := laid_step hlaid
    simp only [explore] at hg ⊢
    split at hg
    · rename_i ha
      obtain ⟨rank, hg⟩ := hg m (List.mem_singleton.2 rfl)
      rw [if_pos ha, List.flatMap_singleton]
      exact ⟨rank + 1, .pass hstep ha hg⟩
    · rename_i ha
      rw [if_neg ha]
      exact ⟨0, .fail hstep (by simpa using ha)⟩

theorem openGroup_explores (index : Nat) :
    Explores (fun next steps => step (.openGroup index next) steps)
      fun m => [m.openGroup index] where
  toKeeps := keeps_step _
  gives next steps prog hlaid m g hg := by
    obtain ⟨rank, hg⟩ := hg _ (List.mem_singleton.2 rfl)
    rw [List.flatMap_singleton]
    exact ⟨rank + 1, .openGroup (laid_step hlaid) hg⟩

theorem closeGroup_explores (index : Nat) :
    Explores (fun next steps => step (.closeGroup index next) steps)
      fun m => [m.closeGroup index] where
  toKeeps := keeps_step _
  gives next steps prog hlaid m g hg := by
    obtain ⟨rank, hg⟩ := hg _ (List.mem_singleton.2 rfl)
    rw [List.flatMap_singleton]
    exact ⟨rank + 1, .closeGroup (laid_step hlaid) hg⟩

theorem gives_fork {prog : Steps} {i first second : Nat} {m : Match} {found found' : List Match}
    (h : prog[i]? = some (.fork first second)) (hfirst : Gives prog first m found)
    (hsecond : Gives prog second m found') : Gives prog i m (found ++ found') := by
  obtain ⟨rank, hfirst⟩ := hfirst
  obtain ⟨rank', hsecond⟩ := hsecond
  exact ⟨_, .fork h hfirst hsecond⟩

/-- A choice between a round and what comes behind all of them. -/
theorem gives_round {prog : Steps} {greedy : Bool} {i first next : Nat} {m : Match}
    {more found : List Match} (h : prog[i]? = some (fork greedy first next))
    (hfirst : Gives prog first m more) (hnext : Gives prog next m found) :
    Gives prog i m (if greedy then more ++ found else found ++ more) := by
  cases greedy
  · exact gives_fork h hnext hfirst
  · exact gives_fork h hfirst hnext

theorem flatMap_atMost (round : Match → List Match) (greedy : Bool) (n : Nat) (m : Match)
    (g : Match → List Match) : (atMost round greedy (n + 1) m).flatMap g =
      if greedy then ((round m).flatMap (atMost round greedy n)).flatMap g ++ g m
      else g m ++ ((round m).flatMap (atMost round greedy n)).flatMap g := by
  simp only [atMost]
  split <;> simp

section Body

variable {body : Emit} {f : Match → List Match} (hbody : body.Explores f)

include hbody

theorem times_explores (n : Nat) : (times body n).Explores (exactly f n) := by
  induction n with
  | zero => exact nothing_explores
  | succ n ih => exact (ih.trans hbody).congr (exactly_flatMap f n)

theorem upTo_keeps (greedy : Bool) (next n entry : Nat) (steps : Steps) :
    steps.size ≤ (upTo body greedy next n entry steps).2.size ∧
      ∀ i < steps.size, (upTo body greedy next n entry steps).2[i]? = steps[i]? := by
  induction n generalizing entry steps with
  | zero => exact ⟨Nat.le_refl _, fun _ _ => rfl⟩
  | succ n ih =>
    obtain ⟨hsize, hsame⟩ := step_keeps (fork greedy (body entry steps).1 next)
      (body entry steps).2
    have hle := (hbody.size entry steps).trans hsize
    obtain ⟨hsize', hsame'⟩ := ih _ (step (fork greedy (body entry steps).1 next)
      (body entry steps).2).2
    refine ⟨hle.trans hsize', fun i hi => (hsame' i (hi.trans_le hle)).trans ?_⟩
    rw [hsame i (hi.trans_le (hbody.size entry steps)), hbody.same entry steps i hi]

/-- At most `n` rounds in front of an entry that stands for at most `done` rounds. -/
theorem upTo_gives (greedy : Bool) (next n done entry : Nat) (steps prog : Steps)
    (hlaid : Laid prog steps (upTo body greedy next n entry steps).2) (g : Match → List Match)
    (hentry : ∀ m, (∀ m' ∈ atMost f greedy done m, Gives prog next m' (g m')) →
      Gives prog entry m ((atMost f greedy done m).flatMap g)) (m : Match)
    (hg : ∀ m' ∈ atMost f greedy (n + done) m, Gives prog next m' (g m')) :
    Gives prog (upTo body greedy next n entry steps).1 m
      ((atMost f greedy (n + done) m).flatMap g) := by
  induction n generalizing entry steps done with
  | zero =>
    rw [Nat.zero_add] at hg ⊢
    exact hentry m hg
  | succ n ih =>
    let s := fork greedy (body entry steps).1 next
    obtain ⟨hsize, hsame⟩ := step_keeps s (body entry steps).2
    obtain ⟨hsize', hsame'⟩ := upTo_keeps hbody greedy next n (step s (body entry steps).2).1
      (step s (body entry steps).2).2
    have hbegin := hlaid.left hsize' hsame'
    have hround := hbegin.left hsize hsame
    have hfork := laid_step (hbegin.right (hbody.size entry steps))
    rw [Nat.add_right_comm, Nat.add_assoc] at hg ⊢
    refine ih (done + 1) _ _ (hlaid.right ((hbody.size entry steps).trans hsize)) (fun m hm => ?_) hg
    have hmore : Gives prog (body entry steps).1 m
        (((f m).flatMap (atMost f greedy done)).flatMap g) := by
      rw [List.flatMap_assoc]
      refine hbody.gives entry steps prog hround m _ fun m' hm' => hentry m' fun m'' hm'' => ?_
      exact hm m'' (mem_atMost_succ.2 (.inl (List.mem_flatMap.2 ⟨m', hm', hm''⟩)))
    rw [flatMap_atMost]
    exact gives_round hfork hmore (hm m (self_mem_atMost f greedy _ m))

theorem upTo_explores (greedy : Bool) (n : Nat) :
    Explores (fun next steps => upTo body greedy next n next steps) (atMost f greedy n) where
  size next steps := (upTo_keeps hbody greedy next n next steps).1
  same next steps := (upTo_keeps hbody greedy next n next steps).2
  gives next steps prog hlaid m g hg := by
    refine upTo_gives hbody greedy next n 0 next steps prog hlaid g (fun m hm => ?_) m hg
    rw [atMost, List.flatMap_singleton]
    exact hm m (List.mem_singleton.2 rfl)

theorem loop_keeps (greedy : Bool) (next : Nat) (steps : Steps) :
    steps.size < (loop body greedy next steps).2.2.size ∧
      ∀ i < steps.size, (loop body greedy next steps).2.2[i]? = steps[i]? := by
  obtain ⟨-, hsame⟩ := step_keeps (.fork next next) steps
  let placed := (step (.fork next next) steps).2
  have hsize : placed.size = steps.size + 1 := Array.size_push ..
  have hle : placed.size ≤ (body steps.size placed).2.size := hbody.size steps.size placed
  have hloop : (loop body greedy next steps).2.2 = (body steps.size placed).2.setIfInBounds
      steps.size (fork greedy (body steps.size placed).1 next) := rfl
  rw [hloop]
  refine ⟨by rw [Array.size_setIfInBounds]; omega, fun i hi => ?_⟩
  rw [Array.getElem?_setIfInBounds_ne hi.ne', hbody.same steps.size placed i (by omega), hsame i hi]

/-- What the first step of a loop and that of a round in it lead to. -/
theorem loop_laid {greedy : Bool} {next : Nat} {steps prog : Steps}
    (hlaid : Laid prog steps (loop body greedy next steps).2.2) :
    prog[(loop body greedy next steps).1]? =
        some (fork greedy (loop body greedy next steps).2.1 next) ∧
      ∀ m g, (∀ m' ∈ f m, Gives prog (loop body greedy next steps).1 m' (g m')) →
        Gives prog (loop body greedy next steps).2.1 m ((f m).flatMap g) := by
  let placed := (step (.fork next next) steps).2
  have hsize : placed.size = steps.size + 1 := Array.size_push ..
  have hle : placed.size ≤ (body steps.size placed).2.size := hbody.size steps.size placed
  have hloop : (loop body greedy next steps).2.2 = (body steps.size placed).2.setIfInBounds
      steps.size (fork greedy (body steps.size placed).1 next) := rfl
  rw [hloop] at hlaid
  refine ⟨?_, fun m g hg => hbody.gives steps.size placed prog (fun i hi hi' => ?_) m g hg⟩
  · have hhere := hlaid steps.size (Nat.le_refl _) (by rw [Array.size_setIfInBounds]; omega)
    rw [Array.getElem?_setIfInBounds_self, if_pos (by omega)] at hhere
    exact hhere
  · have hthere := hlaid i (by omega) (by rwa [Array.size_setIfInBounds])
    rwa [Array.getElem?_setIfInBounds_ne (by omega)] at hthere

end Body

end Emit

/-- With more rounds than there are characters left there are no more matches. -/
theorem atMost_eq_many {round : Match → List Match}
    (hshorter : ∀ m, ∀ m' ∈ round m, m'.stop.rest.length < m.stop.rest.length) (greedy : Bool)
    {n : Nat} {m : Match} (h : m.stop.rest.length ≤ n) :
    atMost round greedy n m = many round greedy m := by
  induction n using Nat.strong_induction_on generalizing m with
  | _ n ih =>
    rw [many]
    cases n with
    | zero => rw [Nat.le_zero.1 h]
    | succ n =>
      have hnext : ∀ m' ∈ round m, atMost round greedy n m' = many round greedy m' := by
        intro m' hm'
        have hlt := hshorter m m' hm'
        exact ih n (Nat.lt_succ_self n) (by omega)
      cases hlength : m.stop.rest.length with
      | zero =>
        have hnone : round m = [] := by
          refine List.eq_nil_iff_forall_not_mem.2 fun m' hm' => ?_
          have hlt := hshorter m m' hm'
          omega
        simp [atMost, hnone]
      | succ k =>
        have hsame : ∀ m' ∈ round m, atMost round greedy k m' = many round greedy m' := by
          intro m' hm'
          have hlt := hshorter m m' hm'
          exact ih k (by omega) (by omega)
        simp only [atMost, List.flatMap_congr hnext, List.flatMap_congr hsame]

/-- A loop makes a round and goes on, or ends. -/
theorem many_eq {round : Match → List Match}
    (hshorter : ∀ m, ∀ m' ∈ round m, m'.stop.rest.length < m.stop.rest.length) (greedy : Bool)
    (m : Match) : many round greedy m =
      if greedy then (round m).flatMap (many round greedy) ++ [m]
      else m :: (round m).flatMap (many round greedy) := by
  have hnext : ∀ m' ∈ round m, atMost round greedy m.stop.rest.length m' =
      many round greedy m' :=
    fun m' hm' => atMost_eq_many hshorter greedy (hshorter m m' hm').le
  rw [← atMost_eq_many hshorter greedy (Nat.le_succ _)]
  simp only [atMost, List.flatMap_congr hnext]

namespace Emit

section Loop

variable {body : Emit} {f : Match → List Match} (hbody : body.Explores f)
  (hshorter : ∀ m, ∀ m' ∈ f m, m'.stop.rest.length < m.stop.rest.length) (greedy : Bool)

include hbody hshorter

theorem loop_explores : Explores
    (fun next steps => ((loop body greedy next steps).1, (loop body greedy next steps).2.2))
    (many f greedy) where
  size next steps := (loop_keeps hbody greedy next steps).1.le
  same next steps := (loop_keeps hbody greedy next steps).2
  gives next steps prog hlaid m g hg := by
    obtain ⟨hagain, hround⟩ := loop_laid hbody hlaid
    induction hlength : m.stop.rest.length using Nat.strong_induction_on generalizing m with
    | _ n ih =>
      have hmore : Gives prog (loop body greedy next steps).2.1 m
          (((f m).flatMap (many f greedy)).flatMap g) := by
        rw [List.flatMap_assoc]
        refine hround m _ fun m' hm' => ?_
        refine ih _ (hlength ▸ hshorter m m' hm') m' (fun m'' hm'' => hg m'' ?_) rfl
        have hmem := List.mem_flatMap.2 ⟨m', hm', hm''⟩
        rw [many_eq hshorter]
        split
        · exact List.mem_append_left _ hmem
        · exact List.mem_cons_of_mem _ hmem
      have hlast := hg m (self_mem_atMost f greedy _ m)
      have hgives := gives_round hagain hmore hlast
      rw [many_eq hshorter]
      split at hgives
      · rw [if_pos ‹_›, List.flatMap_append, List.flatMap_singleton]
        exact hgives
      · rw [if_neg ‹_›, List.flatMap_cons]
        exact hgives

theorem round_explores : Explores
    (fun next steps => ((loop body greedy next steps).2.1, (loop body greedy next steps).2.2))
    fun m => (f m).flatMap (many f greedy) where
  size next steps := (loop_keeps hbody greedy next steps).1.le
  same next steps := (loop_keeps hbody greedy next steps).2
  gives next steps prog hlaid m g hg := by
    rw [List.flatMap_assoc]
    refine (loop_laid hbody hlaid).2 m _ fun m' hm' => ?_
    exact (loop_explores hbody hshorter greedy).gives next steps prog hlaid m' g fun m'' hm'' =>
      hg m'' (List.mem_flatMap.2 ⟨m', hm', hm''⟩)

end Loop

end Emit

/-- The steps of a regex lead to what it explores. -/
theorem emit_explores : (r : Regex) → r.productive = true → Emit.Explores r.emit r.explore
  | .empty, _ => Emit.nothing_explores
  | .text cs, _ => Emit.text_explores cs
  | .set s, _ => Emit.take_explores s
  | .anchor a, _ => Emit.anchor_explores a
  | .seq a b, h => by
    obtain ⟨ha, hb⟩ := Bool.and_eq_true_iff.1 h
    exact (emit_explores a ha).trans (emit_explores b hb)
  | .alt a b, h => by
    obtain ⟨ha, hb⟩ := Bool.and_eq_true_iff.1 h
    have ha := emit_explores a ha
    have hb := emit_explores b hb
    refine ⟨⟨fun next steps => ?_, fun next steps i hi => ?_⟩, fun next steps prog hlaid m g hg => ?_⟩
    all_goals
      let first := a.emit next steps
      let second := b.emit next first.2
      have hsize : first.2.size ≤ second.2.size := hb.size next first.2
      have hle : steps.size ≤ first.2.size := ha.size next steps
      obtain ⟨hsize', hsame'⟩ := Emit.step_keeps (.fork first.1 second.1) second.2
    · exact hle.trans (hsize.trans hsize')
    · exact (hsame' i (hi.trans_le (hle.trans hsize))).trans
        ((hb.same next first.2 i (hi.trans_le hle)).trans (ha.same next steps i hi))
    · have hboth : Emit.Laid prog steps second.2 := hlaid.left hsize' hsame'
      have hfork := Emit.laid_step (hlaid.right (hle.trans hsize))
      simp only [explore, List.mem_append, List.flatMap_append] at hg ⊢
      refine Emit.gives_fork hfork ?_ ?_
      · exact ha.gives next steps prog (hboth.left hsize (hb.same next first.2)) m g fun m' hm' =>
          hg m' (.inl hm')
      · exact hb.gives next first.2 prog (hboth.right hle) m g fun m' hm' => hg m' (.inr hm')
  | .rounds 0 none greedy body, h => by
    obtain ⟨htakes, hbody⟩ := Bool.and_eq_true_iff.1 h
    have hemit : (rounds 0 none greedy body).emit = fun next steps =>
        ((Emit.loop body.emit greedy next steps).1, (Emit.loop body.emit greedy next steps).2.2) := by
      funext next steps
      simp only [emit, htakes, if_true]
    rw [hemit]
    refine (Emit.loop_explores (emit_explores body hbody)
      (fun m m' hm => explore_shorter htakes hm) greedy).congr fun m => ?_
    rw [explore, exactly, List.flatMap_singleton]
  | .rounds (least + 1) none greedy body, h => by
    obtain ⟨htakes, hbody⟩ := Bool.and_eq_true_iff.1 h
    have hbody := emit_explores body hbody
    have hround := Emit.round_explores hbody (fun m m' hm => explore_shorter htakes hm) greedy
    have hemit : (rounds (least + 1) none greedy body).emit = fun next steps =>
        Emit.times body.emit least (Emit.loop body.emit greedy next steps).2.1
          (Emit.loop body.emit greedy next steps).2.2 := by
      funext next steps
      rw [emit]
    rw [hemit]
    refine ((Emit.times_explores hbody least).trans hround).congr fun m => ?_
    rw [explore, ← List.flatMap_assoc, exactly_flatMap]
  | .rounds least (some most) greedy body, h => by
    have hbody := emit_explores body h
    have hemit : (rounds least (some most) greedy body).emit = fun next steps =>
        Emit.times body.emit least
          (Emit.upTo body.emit greedy next (most - least) next steps).1
          (Emit.upTo body.emit greedy next (most - least) next steps).2 := by
      funext next steps
      rw [emit]
    rw [hemit]
    exact (Emit.times_explores hbody least).trans (Emit.upTo_explores hbody greedy (most - least))
  | .group index body, h => by
    have hbody := emit_explores body h
    refine (((Emit.openGroup_explores index).trans hbody).trans
      (Emit.closeGroup_explores index)).congr fun m => ?_
    rw [List.flatMap_singleton, explore, List.map_eq_flatMap]

end PhpSyntax.Regex
