import PhpSyntax.Proofs.Regex.Foresight

namespace PhpSyntax.Regex

deriving instance DecidableEq for Step, Program

theorem toNat_le_greatest (c : Char) : c.toNat ≤ 0x10FFFF := by
  have hc := c.valid
  simp only [UInt32.isValidChar, Nat.isValidChar] at hc
  simp only [Char.toNat]
  omega

theorem single_has (c d : Char) : (CharSet.single c).has d = decide (d = c) := by
  rw [Bool.eq_iff_iff]
  simp only [CharSet.has, Unicode.covers, CharSet.single, CharSet.range, List.any_cons,
    List.any_nil, Bool.or_false, Bool.and_eq_true, decide_eq_true_eq, ← Char.toNat_inj]
  omega

namespace Seen

def Valid (s : Seen) : Prop :=
  ∀ n, s.stamps.getD n 0 ≤ s.now

theorem valid_add {s : Seen} (h : s.Valid) (n : Nat) : (s.add n).Valid := by
  intro k
  have hk := h k
  simp only [add, Array.getD_eq_getD_getElem?, Array.getElem?_setIfInBounds] at hk ⊢
  split
  · split
    · exact Nat.le_refl _
    · exact Nat.zero_le _
  · exact hk

theorem valid_none (bound : Nat) : (none bound).Valid := by
  intro k
  simp only [none, Array.getD_eq_getD_getElem?, Array.getElem?_replicate]
  split <;> simp

theorem valid_clear {s : Seen} (h : s.Valid) : s.clear.Valid :=
  fun n => Nat.le_succ_of_le (h n)

theorem has_clear {s : Seen} (h : s.Valid) (n : Nat) : s.clear.has n = false := by
  have hn := h n
  simp only [clear, has, beq_eq_false_iff_ne]
  omega

theorem has_none (bound n : Nat) : (none bound).has n = false := by
  simp only [none, has, Array.getD_eq_getD_getElem?, Array.getElem?_replicate]
  split <;> simp

theorem has_add_of_ne {s : Seen} {n k : Nat} (h : n ≠ k) : (s.add n).has k = s.has k := by
  simp only [add, has, Array.getD_eq_getD_getElem?, Array.getElem?_setIfInBounds_ne h]

end Seen

namespace Program

variable {prog : Program}

/-- Threads of which none accepts read on. -/
theorem read_on (hwords : prog.seesWords = false) {ahead : Bool} {left : Nat} {c : Char}
    {cs : List Char} {p : Place} {threads ts : List Thread} {seen : Seen} (best : Option Match)
    (hthreads : threads.isEmpty = false)
    (hsettle : prog.settle ahead p ⟨threads, seen⟩ = ⟨threads, seen⟩)
    (haccepted : prog.accepted threads.reverse = (ts, none)) (hleft : ¬p.left ≤ left) :
    prog.read ahead false left (c :: cs) p ⟨threads, seen⟩ best =
      prog.read ahead false left cs (p.advance c cs)
        (prog.advance ahead c (p.advance c cs) ts seen.clear) best := by
  simp only [read, hthreads, hwords, hsettle, haccepted, hleft, Bool.false_and, Bool.and_false,
    Bool.false_eq_true, if_false]

/-- Groups are found by a second search, up to the end that the first one found. -/
theorem find?_of_searches (hstarts : prog.startsText = true) (hgroups : prog.hasGroups = true)
    {front rest : List Char} {groups : List (Nat × Capture)}
    (h : ∀ ahead left, left ≤ byteLength rest → ∃ stop : Place, stop.left = byteLength rest ∧
      prog.searchFrom ahead false left (.start (front ++ rest) (byteLength (front ++ rest))) =
        .done (some ⟨⟨.start (front ++ rest) (byteLength (front ++ rest)), [], groups⟩, stop⟩)) :
    ∃ whole, prog.find? true (front ++ rest) (byteLength (front ++ rest)) =
      some ⟨byteLength front, whole, groups⟩ := by
  obtain ⟨stop, hstop, hsearch⟩ := h false 0 (Nat.zero_le _)
  obtain ⟨stop', hstop', hsearch'⟩ := h true stop.left (Nat.le_of_eq hstop)
  have hsize : byteLength (front ++ rest) - byteLength rest = byteLength front := by
    rw [byteLength_append, Nat.add_sub_cancel_right]
  refine ⟨(Place.start (front ++ rest) (byteLength (front ++ rest))).upTo stop', ?_⟩
  simp only [find?, hstarts, hgroups, Bool.not_true, Bool.and_self, if_true, hsearch, hsearch',
    foundIn, hstop', hsize]

end Program

end PhpSyntax.Regex
