import PhpSyntax.Proofs.Regex.Reached

namespace PhpSyntax.Regex

/-- What was taken when a step is reached: some of the characters in front of the group, those and
part of the group, or those, the group and some of the characters behind it. -/
inductive Stage where
  | before (taken : Nat)
  | inside
  | after (taken : Nat)
  deriving DecidableEq

/-- The stage behind one more character of a set. -/
def Stage.take? (front back : List CharSet) (s : CharSet) : Stage → Option Stage
  | .before n => if front[n]? = some s then some (.before (n + 1)) else none
  | .inside => some .inside
  | .after n => if back[n]? = some s then some (.after (n + 1)) else none

/-- Whether a step leads from its stage to the stages of the steps behind it. -/
def Step.Fits (front back : List CharSet) (stages : List Stage) (here : Stage) : Step → Prop
  | .take s next => ∃ stage ∈ here.take? front back s, stages[next]? = some stage
  | .fork first second => stages[first]? = some here ∧ stages[second]? = some here
  | .check _ next => stages[next]? = some here
  | .openGroup index next =>
    index = 1 ∧ here = .before front.length ∧ stages[next]? = some .inside
  | .closeGroup index next => index = 1 ∧ here = .inside ∧ stages[next]? = some (.after 0)
  | .accept => here = .after back.length

instance (front back : List CharSet) (stages : List Stage) (here : Stage) (s : Step) :
    Decidable (s.Fits front back stages here) :=
  match s with
  | .take .. => inferInstanceAs (Decidable (∃ _ ∈ Stage.take? .., _))
  | .fork .. => inferInstanceAs (Decidable (_ ∧ _))
  | .check .. => inferInstanceAs (Decidable (_ = _))
  | .openGroup .. => inferInstanceAs (Decidable (_ ∧ _))
  | .closeGroup .. => inferInstanceAs (Decidable (_ ∧ _))
  | .accept => inferInstanceAs (Decidable (_ = _))

namespace Program

/-- The stages of all steps of a program, one by one. -/
structure Framed (prog : Program) (front back : List CharSet) (stages : List Stage) : Prop where
  starts : prog.startsText = true
  start : stages[prog.start]? = some (.before 0)
  fits : ∀ i < prog.steps.size, ∀ s ∈ prog.steps[i]?, ∃ here ∈ stages[i]?,
    s.Fits front back stages here

instance (prog : Program) (front back : List CharSet) (stages : List Stage) :
    Decidable (prog.Framed front back stages) :=
  decidable_of_iff
    (prog.startsText = true ∧ stages[prog.start]? = some (.before 0) ∧
      ∀ i < prog.steps.size, ∀ s ∈ prog.steps[i]?, ∃ here ∈ stages[i]?,
        s.Fits front back stages here)
    ⟨fun ⟨h, h', h''⟩ => ⟨h, h', h''⟩, fun h => ⟨h.starts, h.start, h.fits⟩⟩

/-- Characters of the sets, one of each. -/
abbrev Spell (sets : List CharSet) (cs : List Char) : Prop :=
  List.Forall₂ (fun s c => CharSet.has s c = true) sets cs

/-- What a thread has taken at a place, by the stage of its step. -/
def Took (front back : List CharSet) (cs : List Char) (p : Place) (t : Trace) : Stage → Prop
  | .before n => ∃ taken, cs = taken ++ p.rest ∧ Spell (front.take n) taken ∧ n ≤ front.length ∧
    t.opened = [] ∧ t.closed = []
  | .inside => ∃ taken body start, cs = taken ++ (body ++ p.rest) ∧ Spell front taken ∧
    t.opened = [(1, start)] ∧ t.closed = [] ∧ start.rest = body ++ p.rest ∧
    start.left = byteLength start.rest
  | .after n => ∃ taken body more covered, cs = taken ++ (body ++ (more ++ p.rest)) ∧
    Spell front taken ∧ Spell (back.take n) more ∧ n ≤ back.length ∧ t.closed = [(1, covered)] ∧
    covered.text = String.ofList body

theorem eq_of_has_single {c d : Char} (h : (CharSet.single c).has d = true) : d = c := by
  simp only [CharSet.has, Unicode.covers, CharSet.single, CharSet.range, List.any_cons,
    List.any_nil, Bool.or_false, Bool.and_eq_true, decide_eq_true_eq] at h
  exact Char.toNat_inj.1 (Nat.le_antisymm h.2 h.1)

theorem Spell.literal {text cs : List Char} (h : Spell (text.map CharSet.single) cs) :
    cs = text := by
  rw [Spell, List.forall₂_map_left_iff] at h
  exact (List.forall₂_eq_eq_eq ▸ h.imp fun _ _ hc => (eq_of_has_single hc).symm).symm

variable {prog : Program} {front back : List CharSet} {stages : List Stage} {cs : List Char}
  {p : Place} {t : Thread}

theorem Spell.snoc {sets : List CharSet} {n : Nat} {s : CharSet} (hs : sets[n]? = some s)
    {taken : List Char} (h : Spell (sets.take n) taken) {c : Char} (hc : s.has c = true) :
    Spell (sets.take (n + 1)) (taken ++ [c]) ∧ n + 1 ≤ sets.length := by
  obtain ⟨hlt, rfl⟩ := List.getElem?_eq_some_iff.1 hs
  rw [List.take_succ_eq_append_getElem hlt]
  exact ⟨List.rel_append h (.cons hc .nil), hlt⟩

theorem Framed.step (h : prog.Framed front back stages) {i : Nat} {s : Step}
    (hs : prog.steps[i]? = some s) {here : Stage} (hi : stages[i]? = some here) :
    s.Fits front back stages here := by
  obtain ⟨hlt, -⟩ := Array.getElem?_eq_some_iff.1 hs
  obtain ⟨here', hhere, hfits⟩ := h.fits i hlt s hs
  obtain rfl := Option.some.inj (hhere.symm.trans hi)
  exact hfits

/-- Threads of a framed program take what the stages say. -/
theorem Reached.took (h : prog.Framed front back stages)
    (ht : Reached prog (· = .start cs (byteLength cs)) p t) :
    ∃ here, stages[t.step]? = some here ∧ Took front back cs p t.trace here := by
  have halong : ∀ {p : Place} {t : Thread},
      Reached prog (· = .start cs (byteLength cs)) p t → p.left = byteLength p.rest := by
    intro p t ht
    have hplace : p.Along cs := by
      refine ht.along fun q hq => ?_
      rw [hq]
      exact Place.along_start cs
    exact hplace.left
  induction ht with
  | start hp =>
    refine ⟨_, h.start, [], ?_, .nil, Nat.zero_le _, rfl, rfl⟩
    rw [hp]
    rfl
  | first _ hs ih =>
    obtain ⟨here, hhere, htook⟩ := ih
    exact ⟨here, (h.step hs hhere).1, htook⟩
  | second _ hs ih =>
    obtain ⟨here, hhere, htook⟩ := ih
    exact ⟨here, (h.step hs hhere).2, htook⟩
  | check _ hs ih =>
    obtain ⟨here, hhere, htook⟩ := ih
    exact ⟨here, h.step hs hhere, htook⟩
  | openGroup ht hs ih =>
    obtain ⟨here, hhere, htook⟩ := ih
    obtain ⟨rfl, rfl, hnext⟩ := h.step hs hhere
    obtain ⟨taken, hcs, hspell, -, hopened, hclosed⟩ := htook
    rw [List.take_length] at hspell
    refine ⟨_, hnext, taken, [], _, hcs, hspell, ?_, hclosed, rfl, halong ht⟩
    rw [Trace.openGroup, hopened]
  | @closeGroup p t index next ht hs ih =>
    obtain ⟨here, hhere, htook⟩ := ih
    obtain ⟨rfl, rfl, hnext⟩ := h.step hs hhere
    obtain ⟨taken, body, start, hcs, hspell, hopened, hclosed, hstart, hleft⟩ := htook
    refine ⟨_, hnext, taken, body, [], start.upTo p, hcs, hspell, .nil, Nat.zero_le _, ?_, ?_⟩
    · simp [Trace.closeGroup, hopened, hclosed]
    · rw [Capture.text, Place.upTo, hleft, halong ht, hstart, byteLength_append,
        Nat.add_sub_cancel, pushBytes_append]
  | @take p t s next c rest ht hs hc hp ih =>
    obtain ⟨here, hhere, htook⟩ := ih
    obtain ⟨stage, hstage, hnext⟩ := h.step hs hhere
    refine ⟨stage, hnext, ?_⟩
    cases here with
    | before n =>
      simp only [Stage.take?, Option.mem_def, Option.ite_none_right_eq_some] at hstage
      obtain ⟨hset, hstage⟩ := hstage
      obtain rfl := Option.some.inj hstage
      obtain ⟨taken, rfl, hspell, -, hopened, hclosed⟩ := htook
      obtain ⟨hspell, hle⟩ := hspell.snoc hset hc
      exact ⟨taken ++ [c], by simp [hp, Place.advance], hspell, hle, hopened, hclosed⟩
    | inside =>
      cases hstage
      obtain ⟨taken, body, start, rfl, hspell, hopened, hclosed, hstart, hleft⟩ := htook
      refine ⟨taken, body ++ [c], start, ?_, hspell, hopened, hclosed, ?_, hleft⟩
      · simp [hp, Place.advance]
      · simp [hstart, hp, Place.advance]
    | after n =>
      simp only [Stage.take?, Option.mem_def, Option.ite_none_right_eq_some] at hstage
      obtain ⟨hset, hstage⟩ := hstage
      obtain rfl := Option.some.inj hstage
      obtain ⟨taken, body, more, covered, rfl, hspell, hmore, -, hclosed, htext⟩ := htook
      obtain ⟨hmore, hle⟩ := hmore.snoc hset hc
      exact ⟨taken, body, more ++ [c], covered, by simp [hp, Place.advance], hspell, hmore, hle,
        hclosed, htext⟩

/-- A match of a framed program. -/
theorem find?_framed (h : prog.Framed front back stages) {groups : Bool} {f : Found}
    (hf : prog.find? groups cs (byteLength cs) = some f) :
    ∃ taken body more rest, cs = taken ++ (body ++ (more ++ rest)) ∧ Spell front taken ∧
      Spell back more ∧ f.stop = byteLength (taken ++ (body ++ more)) ∧
      f.text 1 = String.ofList body := by
  obtain ⟨m, ⟨step, hreached, haccept⟩, rfl⟩ := find?_accepts hf
  obtain ⟨before, hcs, hsize⟩ := (hreached.along fun p hp => Begins.along hp).front
  rw [begins_of_startsText h.starts] at hreached
  obtain ⟨here, hhere, htook⟩ := hreached.took h
  obtain rfl := h.step haccept hhere
  obtain ⟨taken, body, more, covered, hsplit, hspell, hmore, -, hclosed, htext⟩ := htook
  rw [List.take_length] at hmore
  refine ⟨taken, body, more, m.stop.rest, hsplit, hspell, hmore, ?_, ?_⟩
  · refine hsize.trans (congrArg byteLength (List.append_cancel_right (hcs.symm.trans ?_)))
    rw [hsplit, List.append_assoc, List.append_assoc]
  · change m.trace.closed = [(1, covered)] at hclosed
    simp [Found.text, hclosed, htext]

/-- A match at the start of a text as a whole. -/
theorem find?_whole (hstarts : prog.startsText = true) {groups : Bool} {f : Found}
    (hf : prog.find? groups cs (byteLength cs) = some f) :
    ∃ front rest, cs = front ++ rest ∧ f.stop = byteLength front ∧
      f.text 0 = String.ofList front := by
  obtain ⟨m, ⟨step, hreached, -⟩, rfl⟩ := find?_accepts hf
  obtain ⟨front, hcs, hsize⟩ := (hreached.along fun p hp => Begins.along hp).front
  rw [begins_of_startsText hstarts] at hreached
  refine ⟨front, m.stop.rest, hcs, hsize, ?_⟩
  have horigin : m.trace.origin = .start cs (byteLength cs) := hreached.origin
  simp only [Found.text, if_true, horigin, Capture.text, Place.upTo, Place.start, hsize]
  rw [hcs, pushBytes_append]

end Program

end PhpSyntax.Regex
