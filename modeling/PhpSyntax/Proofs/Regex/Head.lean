import PhpSyntax.Proofs.Regex.Framed

namespace PhpSyntax.Regex.Program

/-- The sets of the characters that are taken from a step on, as long as no step forks. -/
def head (prog : Program) : Nat → Nat → List CharSet
  | 0, _ => []
  | fuel + 1, i =>
    match prog.steps[i]? with
    | some (.take s next) => s :: prog.head fuel next
    | some (.check _ next) => prog.head fuel next
    | some (.openGroup _ next) => prog.head fuel next
    | some (.closeGroup _ next) => prog.head fuel next
    | _ => []

variable {prog : Program} {sets : List CharSet} {cs : List Char} {p : Place} {t : Thread}

/-- What was taken begins with characters of the sets, or the rest of these comes from the step of
the thread on. -/
def Heads (prog : Program) (sets : List CharSet) (cs : List Char) (p : Place) (t : Thread) : Prop :=
  ∃ begun more taken rest, cs = begun ++ (more ++ p.rest) ∧ Spell taken begun ∧
    sets = taken ++ rest ∧ (rest = [] ∨ more = [] ∧ ∃ fuel, rest = prog.head fuel t.step)

/-- A step that takes nothing leaves as much to be taken as before, or ends the head. -/
theorem Heads.idle (h : prog.Heads sets cs p t) {u : Thread}
    (hnext : ∀ fuel, prog.head (fuel + 1) t.step = prog.head fuel u.step ∨
      prog.head (fuel + 1) t.step = []) : prog.Heads sets cs p u := by
  obtain ⟨begun, more, taken, rest, hsplit, hspell, hsets, hrest⟩ := h
  refine ⟨begun, more, taken, rest, hsplit, hspell, hsets, ?_⟩
  obtain hrest | ⟨hmore, fuel, hrest⟩ := hrest
  · exact .inl hrest
  · cases fuel with
    | zero => exact .inl hrest
    | succ fuel =>
      obtain hsame | hnone := hnext fuel
      · exact .inr ⟨hmore, fuel, hrest.trans hsame⟩
      · exact .inl (hrest.trans hnone)

theorem Heads.take (h : prog.Heads sets cs p t) {s : CharSet} {next : Nat} {c : Char}
    {behind : List Char} (hs : prog.steps[t.step]? = some (.take s next)) (hc : s.has c = true)
    (hp : p.rest = c :: behind) : prog.Heads sets cs (p.advance c behind) ⟨next, t.trace⟩ := by
  obtain ⟨begun, more, taken, rest, rfl, hspell, rfl, hrest⟩ := h
  have hgoesOn : rest = [] → prog.Heads (taken ++ rest) (begun ++ (more ++ p.rest))
      (p.advance c behind) ⟨next, t.trace⟩ := by
    intro hrest
    refine ⟨begun, more ++ [c], taken, rest, ?_, hspell, rfl, .inl hrest⟩
    rw [hp, List.append_assoc, List.singleton_append]
    rfl
  obtain hrest | ⟨rfl, fuel, hrest⟩ := hrest
  · exact hgoesOn hrest
  · cases fuel with
    | zero => exact hgoesOn hrest
    | succ fuel =>
      simp only [head, hs] at hrest
      subst hrest
      refine ⟨begun ++ [c], [], taken ++ [s], prog.head fuel next, ?_,
        List.rel_append hspell (.cons hc .nil), ?_, .inr ⟨rfl, fuel, rfl⟩⟩
      · rw [hp, List.nil_append, List.nil_append, List.append_assoc, List.singleton_append]
        rfl
      · rw [List.append_assoc, List.singleton_append]

theorem Reached.heads (fuel : Nat) (ht : Reached prog (· = .start cs (byteLength cs)) p t) :
    prog.Heads (prog.head fuel prog.start) cs p t := by
  induction ht with
  | start hp => exact ⟨[], [], [], _, by rw [hp]; rfl, .nil, rfl, .inr ⟨rfl, fuel, rfl⟩⟩
  | first _ hs ih => exact ih.idle fun fuel => .inr (by simp only [head, hs])
  | second _ hs ih => exact ih.idle fun fuel => .inr (by simp only [head, hs])
  | check _ hs ih => exact ih.idle fun fuel => .inl (by simp only [head, hs])
  | openGroup _ hs ih => exact ih.idle fun fuel => .inl (by simp only [head, hs])
  | closeGroup _ hs ih => exact ih.idle fun fuel => .inl (by simp only [head, hs])
  | take _ hs hc hp ih => exact ih.take hs hc hp

/-- A match at the start of a text begins with the head of the program. -/
theorem find?_head (hstarts : prog.startsText = true) (fuel : Nat) {groups : Bool} {f : Found}
    (hf : prog.find? groups cs (byteLength cs) = some f) :
    ∃ begun more rest, cs = begun ++ (more ++ rest) ∧ Spell (prog.head fuel prog.start) begun ∧
      f.stop = byteLength (begun ++ more) := by
  obtain ⟨m, ⟨step, hreached, haccept⟩, rfl⟩ := find?_accepts hf
  obtain ⟨front, hcs, hsize⟩ := (hreached.along fun p hp => Begins.along hp).front
  rw [begins_of_startsText hstarts] at hreached
  obtain ⟨begun, more, taken, rest, hsplit, hspell, hsets, hrest⟩ := hreached.heads fuel
  have hnone : rest = [] := by
    obtain hrest | ⟨-, fuel, hrest⟩ := hrest
    · exact hrest
    · cases fuel with
      | zero => exact hrest
      | succ fuel => simpa only [head, haccept] using hrest
  rw [hnone, List.append_nil] at hsets
  refine ⟨begun, more, m.stop.rest, hsplit, hsets ▸ hspell, ?_⟩
  refine hsize.trans (congrArg byteLength (List.append_cancel_right (hcs.symm.trans ?_)))
  rw [hsplit, List.append_assoc]

end PhpSyntax.Regex.Program
