import PhpSyntax.Proofs.Regex.Words

namespace PhpSyntax.Regex

open Program (Match)

/-- Of what stands there `front` is taken before anything else is tried. -/
def Prefers (f : Match → List Match) (front rest : List Char) : Prop :=
  ∀ m, m.stop.rest = front ++ rest → ∃ m', (f m).head? = some m' ∧ Onward m front m'

/-- Nothing goes on where some characters stand. -/
def Fails (f : Match → List Match) (cs : List Char) : Prop :=
  ∀ m, m.stop.rest = cs → f m = []

theorem head?_flatMap {α β : Type} {xs : List α} {x : α} {y : β} {f : α → List β}
    (hx : xs.head? = some x) (hy : (f x).head? = some y) : (xs.flatMap f).head? = some y := by
  obtain ⟨tail, rfl⟩ := List.head?_eq_some_iff.1 hx
  rw [List.flatMap_cons, List.head?_append, hy, Option.some_or]

section Parts

variable {f g : Match → List Match} {cs front behind rest : List Char}

theorem prefers_nothing (rest : List Char) : Prefers (fun m => [m]) [] rest :=
  fun m _ => ⟨m, rfl, .refl m⟩

theorem Prefers.bind (hf : Prefers f front (behind ++ rest)) (hg : Prefers g behind rest) :
    Prefers (fun m => (f m).flatMap g) (front ++ behind) rest := by
  intro m hm
  rw [List.append_assoc] at hm
  obtain ⟨m', hm', hon⟩ := hf m hm
  have hleft := List.append_cancel_left (hon.rest.symm.trans hm)
  obtain ⟨m'', hm'', hon'⟩ := hg m' hleft
  exact ⟨m'', head?_flatMap hm' hm'', hon.trans hon'⟩

theorem Prefers.first (hf : Prefers f front rest) : Prefers (fun m => f m ++ g m) front rest := by
  intro m hm
  obtain ⟨m', hm', hon⟩ := hf m hm
  exact ⟨m', by simp only [List.head?_append, hm', Option.some_or], hon⟩

theorem Prefers.second (hf : Fails f (front ++ rest)) (hg : Prefers g front rest) :
    Prefers (fun m => f m ++ g m) front rest := by
  intro m hm
  obtain ⟨m', hm', hon⟩ := hg m hm
  exact ⟨m', by simp only [hf m hm, List.nil_append, hm'], hon⟩

theorem Fails.bind (hf : Fails f cs) : Fails (fun m => (f m).flatMap g) cs := by
  intro m hm
  simp only [hf m hm, List.flatMap_nil]

theorem Fails.later {l : Language Char} (hf : TakenFrom l f)
    (hg : ∀ front ∈ l, ∀ rest, cs = front ++ rest → Fails g rest) :
    Fails (fun m => (f m).flatMap g) cs := by
  intro m hm
  refine List.flatMap_eq_nil_iff.2 fun m' hm' => ?_
  obtain ⟨front, hfront, hon⟩ := hf m m' hm'
  exact hg front hfront m'.stop.rest (hm.symm.trans hon.rest) m' rfl

theorem Fails.both (hf : Fails f cs) (hg : Fails g cs) : Fails (fun m => f m ++ g m) cs := by
  intro m hm
  simp only [hf m hm, hg m hm, List.append_nil]

theorem prefers_taking {s : CharSet} {c : Char} (hc : s.has c = true) (rest : List Char) :
    Prefers (taking s) [c] rest := by
  intro m hm
  refine ⟨m.take c rest, ?_, onward_take hm⟩
  rw [taking, hm]
  simp [hc]

theorem fails_taking {s : CharSet} (h : cs.head?.any s.has = false) : Fails (taking s) cs := by
  intro m hm
  rw [taking, hm]
  cases cs with
  | nil => rfl
  | cons c cs => simp at h ⊢; simp [h]

theorem prefers_spelling (cs rest : List Char) : Prefers (spelling cs) cs rest := by
  induction cs with
  | nil => exact prefers_nothing rest
  | cons c cs ih => exact (prefers_taking (by rw [single_has, decide_eq_true_eq]) _).bind ih

theorem fails_spelling {word : List Char} (h : ¬word <+: cs) : Fails (spelling word) cs := by
  intro m hm
  refine List.eq_nil_iff_forall_not_mem.2 fun m' hm' => h ?_
  obtain ⟨_, rfl, hon⟩ := takenFrom_spelling word m m' hm'
  exact ⟨m'.stop.rest, hon.rest.symm.trans hm⟩

end Parts

section Loops

variable {round : Match → List Match}
  (hshorter : ∀ m, ∀ m' ∈ round m, m'.stop.rest.length < m.stop.rest.length)
  {front behind rest : List Char}

include hshorter

theorem prefers_many_nil (h : Fails round rest) : Prefers (many round true) [] rest := by
  intro m hm
  refine ⟨m, ?_, .refl m⟩
  rw [many_eq hshorter, h m hm]
  rfl

theorem prefers_many_cons (h : Prefers round front (behind ++ rest))
    (hmore : Prefers (many round true) behind rest) :
    Prefers (many round true) (front ++ behind) rest := by
  intro m hm
  obtain ⟨m', hm', hon⟩ := h.bind hmore m hm
  refine ⟨m', ?_, hon⟩
  rw [many_eq hshorter, if_pos rfl, List.head?_append, hm', Option.some_or]

end Loops

theorem explore_char (c : Char) : (text [c]).explore = taking (.single c) := by
  funext m
  rw [explore, spelling]
  exact List.flatMap_singleton' _

theorem explore_optional (body : Regex) :
    (rounds 0 (some 1) true body).explore = fun m => body.explore m ++ [m] := by
  funext m
  rw [explore, exactly, List.flatMap_singleton]
  exact congrArg (· ++ [m]) (List.flatMap_singleton' _)

theorem explore_rounds (greedy : Bool) (body : Regex) :
    (rounds 0 none greedy body).explore = many body.explore greedy := by
  funext m
  rw [explore, exactly, List.flatMap_singleton]

theorem explore_rounds_one (greedy : Bool) (body : Regex) :
    (rounds 1 none greedy body).explore =
      fun m => (body.explore m).flatMap (many body.explore greedy) := by
  funext m
  rw [explore, ← exactly_flatMap, exactly, List.flatMap_singleton]

/-- A greedy loop over a set takes as many of its characters as there are. -/
theorem prefers_many_taking {s : CharSet} {run rest : List Char} (hrun : ∀ c ∈ run, s.has c = true)
    (hrest : rest.head?.any s.has = false) : Prefers (many (taking s) true) run rest := by
  have hshorter : ∀ m, ∀ m' ∈ taking s m, m'.stop.rest.length < m.stop.rest.length := by
    intro m m' hm'
    obtain ⟨c, cs, hm, -, rfl⟩ := mem_taking.1 hm'
    rw [hm]
    exact Nat.lt_succ_self _
  induction run with
  | nil => exact prefers_many_nil hshorter (fails_taking hrest)
  | cons c run ih =>
    obtain ⟨hc, hrun⟩ := List.forall_mem_cons.1 hrun
    exact prefers_many_cons hshorter (prefers_taking hc _) (ih hrun)

section Alike

/-- Whether a regex asks nothing of what stands in front of a place. -/
def forward : Regex → Bool
  | .empty => true
  | .text _ => true
  | .set _ => true
  | .anchor a => a == .textEnd
  | .seq a b => a.forward && b.forward
  | .alt a b => a.forward && b.forward
  | .rounds _ _ _ body => body.forward
  | .group _ body => body.forward

def Alike (f : Match → List Match) : Prop :=
  ∀ m n, m.stop.rest = n.stop.rest →
    List.Forall₂ (fun m' n' => m'.stop.rest = n'.stop.rest) (f m) (f n)

variable {f g : Match → List Match}

theorem alike_nothing : Alike fun m => [m] :=
  fun _ _ h => .cons h .nil

theorem Alike.bind (hf : Alike f) (hg : Alike g) : Alike fun m => (f m).flatMap g :=
  fun m n h => List.rel_flatMap (hf m n h) fun m' n' h' => hg m' n' h'

theorem Alike.append (hf : Alike f) (hg : Alike g) : Alike fun m => f m ++ g m :=
  fun m n h => List.rel_append (hf m n h) (hg m n h)

theorem alike_taking (s : CharSet) : Alike (taking s) := by
  intro m n h
  rw [taking, taking, h]
  split
  · exact .nil
  · split
    · exact .cons rfl .nil
    · exact .nil

theorem alike_spelling (cs : List Char) : Alike (spelling cs) := by
  induction cs with
  | nil => exact alike_nothing
  | cons c cs ih => exact (alike_taking (.single c)).bind ih

theorem Alike.exactly (hf : Alike f) (n : Nat) : Alike (exactly f n) := by
  induction n with
  | zero => exact alike_nothing
  | succ n ih => exact hf.bind ih

theorem Alike.atMost (hf : Alike f) (greedy : Bool) (n : Nat) : Alike (atMost f greedy n) := by
  induction n with
  | zero => exact alike_nothing
  | succ n ih =>
    have hmore := hf.bind ih
    cases greedy with
    | false => exact fun m n h => .cons h (hmore m n h)
    | true => exact hmore.append alike_nothing

theorem Alike.many (hf : Alike f) (greedy : Bool) : Alike (many f greedy) := by
  intro m n h
  rw [Regex.many, Regex.many, h]
  exact hf.atMost greedy _ m n h

theorem alike_explore : (r : Regex) → r.forward = true → Alike r.explore
  | .empty, _ => alike_nothing
  | .text cs, _ => alike_spelling cs
  | .set s, _ => alike_taking s
  | .anchor a, h => by
    obtain rfl := beq_iff_eq.1 h
    intro m n hrest
    have hmeets : m.stop.meets .textEnd = n.stop.meets .textEnd := congrArg List.isEmpty hrest
    rw [explore, explore, hmeets]
    by_cases hend : n.stop.meets .textEnd = true
    · rw [if_pos hend, if_pos hend]
      exact .cons hrest .nil
    · rw [if_neg hend, if_neg hend]
      exact .nil
  | .seq a b, h => by
    obtain ⟨ha, hb⟩ := Bool.and_eq_true_iff.1 h
    exact (alike_explore a ha).bind (alike_explore b hb)
  | .alt a b, h => by
    obtain ⟨ha, hb⟩ := Bool.and_eq_true_iff.1 h
    exact (alike_explore a ha).append (alike_explore b hb)
  | .rounds least none greedy body, h =>
    ((alike_explore body h).exactly least).bind ((alike_explore body h).many greedy)
  | .rounds least (some most) greedy body, h =>
    ((alike_explore body h).exactly least).bind
      ((alike_explore body h).atMost greedy (most - least))
  | .group index body, h => by
    intro m n hrest
    have hbody := alike_explore body h (m.openGroup index) (n.openGroup index) hrest
    rw [explore, explore, List.forall₂_map_left_iff, List.forall₂_map_right_iff]
    exact hbody

/-- Wherever some characters stand, the same of them are taken, or nothing goes on. -/
theorem Alike.prefers_or_fails {l : Language Char} (hf : Alike f) (htaken : TakenFrom l f)
    (m : Match) : Fails f m.stop.rest ∨
      ∃ front rest, m.stop.rest = front ++ rest ∧ Prefers f front rest := by
  cases hm : f m with
  | nil =>
    left
    intro n hn
    have hsame := hf m n hn.symm
    rw [hm, List.forall₂_nil_left_iff] at hsame
    exact hsame
  | cons m' ms =>
    right
    obtain ⟨front, -, hon⟩ := htaken m m' (by simp [hm])
    refine ⟨front, m'.stop.rest, hon.rest, fun n hn => ?_⟩
    have hsame := hf m n (hon.rest.trans hn.symm)
    rw [hm, List.forall₂_cons_left_iff] at hsame
    obtain ⟨n', ns, hrest, -, hn'⟩ := hsame
    obtain ⟨front', -, hon'⟩ := htaken n n' (by simp [hn'])
    have hfront : front' = front := by
      have hsplit := hon'.rest.symm.trans hn
      rw [← hrest] at hsplit
      exact List.append_cancel_right hsplit
    subst hfront
    exact ⟨n', by rw [hn']; rfl, hon'⟩

end Alike

end PhpSyntax.Regex
