import Mathlib.Data.Set.Card
import PhpSyntax.Proofs.Source.Text
import PhpSyntax.Source.Position

namespace PhpSyntax

/-- Whether a line ends between two texts: behind a line feed, or behind a carriage return that no
line feed follows. -/
def EndsLine (front rest : List Char) : Prop :=
  front.getLast? = some '\n' ∨ front.getLast? = some '\r' ∧ rest.head? ≠ some '\n'

/-- A line other than the first begins at an offset. -/
def Text.BeginsLine (t : Text) (offset : Nat) : Prop :=
  ∃ front rest, t = .ofList (front ++ rest) ∧ offset = byteLength front ∧ EndsLine front rest

theorem Text.Boundary.position_offset {source : Text} {offset : Nat} (h : source.Boundary offset) :
    ((Lines.ofText source).position offset).offset = offset :=
  Nat.min_eq_left h.le_size

theorem endsLine_cons {c : Char} {front rest : List Char} (h : front ≠ []) :
    EndsLine (c :: front) rest ↔ EndsLine front rest := by
  obtain ⟨d, front, rfl⟩ := List.exists_cons_of_ne_nil h
  simp only [EndsLine, List.getLast?_cons_cons]

/-- The places behind line terminators that start with one of some characters. -/
theorem exists_endsLine_cons {c : Char} {cs : List Char} {offset o : Nat} :
    (∃ front rest, c :: cs = front ++ rest ∧ o = offset + byteLength front ∧
      EndsLine front rest) ↔ (o = offset + c.utf8Size ∧ EndsLine [c] cs) ∨
        ∃ front rest, cs = front ++ rest ∧ o = offset + c.utf8Size + byteLength front ∧
          EndsLine front rest := by
  constructor
  · rintro ⟨front, rest, hsplit, ho, hends⟩
    cases front with
    | nil => simp [EndsLine] at hends
    | cons d front =>
      obtain ⟨rfl, rfl⟩ := List.cons.inj hsplit
      rw [byteLength, ← Nat.add_assoc] at ho
      by_cases hfront : front = []
      · subst hfront
        exact .inl ⟨ho, hends⟩
      · exact .inr ⟨front, rest, rfl, ho, (endsLine_cons hfront).1 hends⟩
  · rintro (⟨ho, hends⟩ | ⟨front, rest, rfl, ho, hends⟩)
    · refine ⟨[c], cs, rfl, ?_, hends⟩
      rw [ho, byteLength, byteLength, Nat.add_zero]
    · have hfront : front ≠ [] := by
        rintro rfl
        simp [EndsLine] at hends
      refine ⟨c :: front, rest, rfl, ?_, (endsLine_cons hfront).2 hends⟩
      rw [ho, byteLength, Nat.add_assoc]

theorem mem_lineStartsFrom {offset : Nat} {cs : List Char} {o : Nat} :
    o ∈ lineStartsFrom offset cs ↔
      ∃ front rest, cs = front ++ rest ∧ o = offset + byteLength front ∧ EndsLine front rest := by
  have hcr : Char.utf8Size '\r' = 1 := rfl
  have hlf : Char.utf8Size '\n' = 1 := rfl
  fun_induction lineStartsFrom offset cs with
  | case1 offset =>
    simp only [List.not_mem_nil, false_iff]
    rintro ⟨front, rest, hnil, -, hends⟩
    obtain ⟨rfl, rfl⟩ := List.append_eq_nil_iff.1 hnil.symm
    simp [EndsLine] at hends
  | case2 offset cs ih =>
    simp only [List.mem_cons, ih, exists_endsLine_cons, hcr, hlf]
    simp [EndsLine]
  | case3 offset c cs hpair hbreak ih =>
    have hends : EndsLine [c] cs := by
      obtain rfl | rfl := hbreak
      · refine .inr ⟨rfl, fun hhead => ?_⟩
        obtain ⟨rest, rfl⟩ := List.head?_eq_some_iff.1 hhead
        exact hpair rest rfl rfl
      · exact .inl rfl
    have hone : c.utf8Size = 1 := by
      obtain rfl | rfl := hbreak
      · exact hcr
      · exact hlf
    simp only [List.mem_cons, ih, exists_endsLine_cons, hone]
    simp [hends]
  | case4 offset c cs hpair hbreak ih =>
    have hends : ¬EndsLine [c] cs := by
      rintro (h | ⟨h, -⟩)
      · exact hbreak (.inr (Option.some.inj h))
      · exact hbreak (.inl (Option.some.inj h))
    simp only [ih, exists_endsLine_cons]
    simp [hends]

theorem Text.beginsLine_iff {cs : List Char} {o : Nat} :
    (Text.ofList cs).BeginsLine o ↔ o ∈ lineStartsFrom 0 cs := by
  rw [mem_lineStartsFrom]
  constructor
  · rintro ⟨front, rest, hsplit, ho, hends⟩
    have hcs : cs = front ++ rest := congrArg Text.chars hsplit
    exact ⟨front, rest, hcs, by rw [ho, Nat.zero_add], hends⟩
  · rintro ⟨front, rest, rfl, ho, hends⟩
    exact ⟨front, rest, rfl, by rw [ho, Nat.zero_add], hends⟩

/-- Lines begin one behind the other. -/
theorem lineStartsFrom_increases (offset : Nat) (cs : List Char) :
    (offset :: lineStartsFrom offset cs).Pairwise (· < ·) := by
  have hcons : ∀ {offset next : Nat} {starts : List Nat}, offset < next →
      (next :: starts).Pairwise (· < ·) → (offset :: next :: starts).Pairwise (· < ·) := by
    intro offset next starts hlt h
    refine List.pairwise_cons.2 ⟨fun o ho => ?_, h⟩
    obtain rfl | ho := List.mem_cons.1 ho
    · exact hlt
    · exact hlt.trans ((List.pairwise_cons.1 h).1 o ho)
  fun_induction lineStartsFrom offset cs with
  | case1 offset => exact List.pairwise_singleton _ _
  | case2 offset cs ih => exact hcons (by omega) ih
  | case3 offset c cs hpair hbreak ih => exact hcons (by omega) ih
  | case4 offset c cs hpair hbreak ih =>
    have hpos := utf8Size_pos c
    obtain ⟨hbehind, hrest⟩ := List.pairwise_cons.1 ih
    refine List.pairwise_cons.2 ⟨fun o ho => ?_, hrest⟩
    have hlt := hbehind o ho
    omega

namespace Lines

theorem locate_line (offset line start : Nat) {starts : List Nat}
    (h : starts.Pairwise (· < ·)) :
    (locate offset line start starts).1 = line + (starts.filter (· ≤ offset)).length := by
  induction starts generalizing line start with
  | nil => rfl
  | cons next rest ih =>
    obtain ⟨hbehind, hrest⟩ := List.pairwise_cons.1 h
    rw [locate]
    by_cases hle : next ≤ offset
    · rw [if_pos hle, ih _ _ hrest, List.filter_cons_of_pos (by simpa using hle), List.length_cons]
      omega
    · have hnone : rest.filter (· ≤ offset) = [] := by
        refine List.filter_eq_nil_iff.2 fun o ho => ?_
        have hlt := hbehind o ho
        simp only [decide_eq_true_eq]
        omega
      rw [if_neg hle, List.filter_cons_of_neg (by simpa using hle), hnone, List.length_nil]
      rfl

theorem line_eq (cs : List Char) {offset : Nat} (h : offset ≤ (Text.ofList cs).size) :
    (ofText (.ofList cs)).line offset =
      1 + {o | o ≤ offset ∧ (Text.ofList cs).BeginsLine o}.ncard := by
  have hincreases := (List.pairwise_cons.1 (lineStartsFrom_increases 0 cs)).2
  have hset : {o | o ≤ offset ∧ (Text.ofList cs).BeginsLine o} =
      ((lineStartsFrom 0 cs).filter (· ≤ offset)).toFinset := by
    ext o
    rw [Set.mem_ofPred_eq, Finset.mem_coe, List.mem_toFinset, List.mem_filter, Text.beginsLine_iff,
      decide_eq_true_eq, and_comm]
  have hnodup : ((lineStartsFrom 0 cs).filter (· ≤ offset)).Nodup :=
    (hincreases.filter _).imp Nat.ne_of_lt
  rw [hset, Set.ncard_coe_finset, List.toFinset_card_of_nodup hnodup]
  simp only [line, position, ofText, Nat.min_eq_left h, Text.chars_ofList]
  exact locate_line _ _ _ hincreases

end Lines

end PhpSyntax
