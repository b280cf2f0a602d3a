import PhpSyntax.Proofs.Source.Lines

namespace PhpSyntax

/-- What stands between two offsets. -/
theorem Text.Has.between {t : Text} {start stop : Nat} {cs rest : List Char} (h : t.Has start cs)
    (h' : t.Has stop rest) (hle : start ≤ stop) :
    ∃ mid, cs = mid ++ rest ∧ stop = start + byteLength mid := by
  obtain ⟨front, rfl, hstart⟩ := h
  obtain ⟨front', hchars, hstop⟩ := h'
  have hsplit : front ++ cs = front' ++ rest := congrArg Text.chars hchars
  rcases List.append_eq_append_iff.1 hsplit with ⟨mid, hfront, hcs⟩ | ⟨mid, hfront, hrest⟩
  · refine ⟨mid, hcs, ?_⟩
    rw [hstop, hfront, byteLength_append, hstart]
  · have hnil : mid = [] := by
      by_contra hne
      have hpos := byteLength_pos hne
      rw [hstart, hstop, hfront, byteLength_append] at hle
      omega
    subst hnil
    refine ⟨[], hrest.symm, ?_⟩
    rw [hstart, hstop, hfront]
    simp [byteLength]

/-- An offset of a text is told: by the line terminators that end in front of it, and by the
characters between the last of them and the offset. -/
structure Position.Tells (p : Position) (t : Text) (offset : Nat) : Prop where
  offset_eq : p.offset = offset
  line : p.line = 1 + {o | o ≤ offset ∧ t.BeginsLine o}.ncard
  column : ∃ start current rest, t.Has start (current ++ rest) ∧
    offset = start + byteLength current ∧ (start = 0 ∨ t.BeginsLine start) ∧
    (∀ o ≤ offset, t.BeginsLine o → o ≤ start) ∧ p.column = 1 + current.length

def Position.Before (p q : Position) : Prop :=
  p.line < q.line ∨ p.line = q.line ∧ p.column < q.column

/-- What a search for a number in an increasing table may answer: its index, or else the index at
which it would have to be inserted. -/
def SearchAnswers (table : List Nat) (n : Nat) : Except Nat Nat → Prop
  | .ok i => table[i]? = some n
  | .error i => i ≤ table.length ∧ (∀ m ∈ table.take i, m < n) ∧ ∀ m ∈ table.drop i, n < m

namespace Lines

def table (ls : Lines) : List Nat :=
  0 :: ls.starts

theorem table_increases (t : Text) : (ofText t).table.Pairwise (· < ·) :=
  lineStartsFrom_increases 0 t.chars

/-- The table of line starts at a position: the lines in front, the line that the position is in,
and the lines behind. -/
structure Splits (ls : Lines) (p : Position) (front : List Nat) (start : Nat) (back : List Nat) :
    Prop where
  table : ls.table = front ++ start :: back
  line : p.line = front.length + 1
  begun : start ≤ p.offset
  behind : ∀ o ∈ back, p.offset < o
  column : p.column = (ls.source.distance? start p.offset).getD (p.offset - start) + 1

theorem locate_splits (line : Nat) {offset start : Nat} {starts : List Nat} (hle : start ≤ offset)
    (h : (start :: starts).Pairwise (· < ·)) :
    ∃ front back, start :: starts = front ++ (locate offset line start starts).2 :: back ∧
      (locate offset line start starts).1 = line + front.length ∧
      (locate offset line start starts).2 ≤ offset ∧ ∀ o ∈ back, offset < o := by
  induction starts generalizing line start with
  | nil => exact ⟨[], [], rfl, rfl, hle, by simp⟩
  | cons next rest ih =>
    obtain ⟨-, hrest⟩ := List.pairwise_cons.1 h
    by_cases hnext : next ≤ offset
    · have hlocate : locate offset line start (next :: rest) = locate offset (line + 1) next rest := by
        rw [locate, if_pos hnext]
      obtain ⟨front, back, hsplit, hline, hstart, hback⟩ := ih (line + 1) hnext hrest
      rw [hlocate]
      refine ⟨start :: front, back, ?_, ?_, hstart, hback⟩
      · rw [hsplit, List.cons_append]
      · rw [hline, List.length_cons]
        omega
    · have hlocate : locate offset line start (next :: rest) = (line, start) := by
        rw [locate, if_neg hnext]
      have hbehind : ∀ o ∈ next :: rest, offset < o := by
        intro o ho
        obtain rfl | ho := List.mem_cons.1 ho
        · omega
        · have hlt := (List.pairwise_cons.1 hrest).1 o ho
          omega
      rw [hlocate]
      exact ⟨[], next :: rest, rfl, rfl, hle, hbehind⟩

theorem position_splits (t : Text) (offset : Nat) :
    ∃ front start back, (ofText t).Splits ((ofText t).position offset) front start back := by
  obtain ⟨front, back, htable, hline, hstart, hback⟩ :=
    locate_splits 1 (Nat.zero_le (min offset t.size)) (table_increases t)
  exact ⟨front, _, back, htable, by rw [Nat.add_comm]; exact hline, hstart, hback, rfl⟩

namespace Splits

variable {ls : Lines} {p q : Position} {front back : List Nat} {start : Nat}
  (h : ls.Splits p front start back)

include h

theorem here : ls.table[front.length]? = some start := by
  rw [h.table]
  simp

theorem index_le {i o : Nat} (hi : ls.table[i]? = some o) (ho : o ≤ p.offset) :
    i ≤ front.length := by
  by_contra hlt
  obtain ⟨k, hk⟩ : ∃ k, i - front.length = k + 1 := ⟨i - front.length - 1, by omega⟩
  rw [h.table, List.getElem?_append_right (by omega), hk, List.getElem?_cons_succ] at hi
  have hbehind := h.behind o (List.mem_of_getElem? hi)
  omega

theorem start_eq {front' back' : List Nat} {start' : Nat} (h' : ls.Splits q front' start' back')
    (hline : p.line = q.line) : start = start' := by
  have hlength : front.length = front'.length := by
    have hp := h.line
    have hq := h'.line
    omega
  have hhere := h.here
  rw [hlength, h'.here] at hhere
  exact (Option.some.inj hhere).symm

/-- A line that begins at or before the position begins at the start of its line at the latest. -/
theorem le_start (hinc : ls.table.Pairwise (· < ·)) {o : Nat} (ho : o ∈ ls.table)
    (hle : o ≤ p.offset) : o ≤ start := by
  rw [h.table] at ho hinc
  obtain ho | ho := List.mem_append.1 ho
  · exact ((List.pairwise_append.1 hinc).2.2 o ho start List.mem_cons_self).le
  · obtain rfl | ho := List.mem_cons.1 ho
    · exact le_rfl
    · have hbehind := h.behind o ho
      omega

/-- A search of the table ends at the line that the position is in, or right behind its start. -/
theorem search (hinc : ls.table.Pairwise (· < ·)) {answer : Except Nat Nat}
    (ha : SearchAnswers ls.table p.offset answer) :
    answer = .ok front.length ∨ answer = .error (front.length + 1) := by
  have hstart := h.begun
  cases answer with
  | ok i =>
    have hi : i ≤ front.length := h.index_le ha le_rfl
    have hlt : ¬i < front.length := by
      intro hlt
      have hmem : p.offset ∈ front := by
        rw [SearchAnswers, h.table, List.getElem?_append_left hlt] at ha
        exact List.mem_of_getElem? ha
      rw [h.table] at hinc
      have hless := (List.pairwise_append.1 hinc).2.2 _ hmem start List.mem_cons_self
      omega
    exact .inl (congrArg Except.ok (by omega))
  | error i =>
    obtain ⟨hlength, hbefore, hbehind⟩ := ha
    rw [h.table] at hlength hbefore hbehind
    have hlt : front.length < i := by
      by_contra hle
      have hmem : start ∈ (front ++ start :: back).drop i := by
        rw [List.drop_append_of_le_length (by omega)]
        simp
      have hless := hbehind start hmem
      omega
    have hle : i ≤ front.length + 1 := by
      by_contra hgt
      obtain ⟨k, rfl⟩ : ∃ k, i = front.length + (k + 2) := ⟨i - front.length - 2, by omega⟩
      cases back with
      | nil => simp at hlength
      | cons next back =>
        have hmem : next ∈ (front ++ start :: next :: back).take (front.length + (k + 2)) := by
          simp [List.take_append]
        have hless := hbefore next hmem
        have hgreater := h.behind next List.mem_cons_self
        omega
    exact .inr (congrArg Except.error (by omega))

theorem search_exists (hinc : ls.table.Pairwise (· < ·)) :
    ∃ answer, SearchAnswers ls.table p.offset answer := by
  have hfront : ∀ o ∈ front, o < start := by
    intro o ho
    rw [h.table] at hinc
    exact (List.pairwise_append.1 hinc).2.2 o ho start List.mem_cons_self
  by_cases heq : start = p.offset
  · refine ⟨.ok front.length, ?_⟩
    rw [SearchAnswers, h.here, heq]
  · have hlt : start < p.offset := lt_of_le_of_ne h.begun heq
    have htake : (front ++ start :: back).take (front.length + 1) = front ++ [start] := by
      simp [List.take_append]
    have hdrop : (front ++ start :: back).drop (front.length + 1) = back := by
      simp [List.drop_append]
    refine ⟨.error (front.length + 1), ?_, ?_, ?_⟩
    · rw [h.table]
      simp
    · intro o ho
      rw [h.table, htake] at ho
      obtain ho | ho := List.mem_append.1 ho
      · exact (hfront o ho).trans hlt
      · rw [List.mem_singleton.1 ho]
        exact hlt
    · intro o ho
      rw [h.table, hdrop] at ho
      exact h.behind o ho

end Splits

section Exact

variable {cs : List Char} {p : Position} {front back : List Nat} {start : Nat}

/-- What stands between the start of a line and a position in it. -/
theorem Splits.current (h : (ofText (.ofList cs)).Splits p front start back)
    (hp : (Text.ofList cs).Boundary p.offset) :
    ∃ current rest, (Text.ofList cs).Has start (current ++ rest) ∧
      (Text.ofList cs).Has p.offset rest ∧ p.offset = start + byteLength current ∧
      p.column = 1 + current.length := by
  have hmem : start ∈ (ofText (.ofList cs)).table := List.mem_of_getElem? h.here
  have hstart : (Text.ofList cs).Boundary start := by
    obtain rfl | hmem := List.mem_cons.1 hmem
    · exact ⟨cs, Text.has_start cs⟩
    · obtain ⟨before, behind, hsplit, hlength, -⟩ := Text.beginsLine_iff.2 hmem
      exact ⟨behind, before, hsplit, hlength⟩
  obtain ⟨behind, hbehind⟩ := hstart
  obtain ⟨rest, hrest⟩ := hp
  obtain ⟨current, rfl, hoffset⟩ := hbehind.between hrest h.begun
  have hslice : (Text.ofList cs).slice? start p.offset = some current := by
    rw [hoffset]
    exact hbehind.slice?
  refine ⟨current, rest, hbehind, hrest, hoffset, ?_⟩
  rw [h.column, Text.distance?_eq, show (ofText (.ofList cs)).source = .ofList cs from rfl, hslice,
    Option.map_some, Option.getD_some, Nat.add_comm]

theorem position_tells {offset : Nat} (hb : (Text.ofList cs).Boundary offset) :
    ((ofText (.ofList cs)).position offset).Tells (.ofList cs) offset := by
  obtain ⟨front, start, back, h⟩ := position_splits (.ofList cs) offset
  have hoffset := hb.position_offset
  obtain ⟨current, rest, hstart, -, hlength, hcolumn⟩ := h.current (by rw [hoffset]; exact hb)
  refine ⟨hoffset, line_eq cs hb.le_size, start, current, rest, hstart, ?_, ?_, ?_, hcolumn⟩
  · rw [← hlength, hoffset]
  · have hmem : start ∈ (ofText (.ofList cs)).table := List.mem_of_getElem? h.here
    exact (List.mem_cons.1 hmem).imp_right Text.beginsLine_iff.2
  · intro o ho hbegins
    have hmem : o ∈ (ofText (.ofList cs)).table :=
      List.mem_cons_of_mem 0 (Text.beginsLine_iff.1 hbegins)
    exact h.le_start (table_increases _) hmem (by rw [hoffset]; exact ho)

/-- Of two offsets between characters, the first has the first position. -/
theorem position_before {o o' : Nat} (hb : (Text.ofList cs).Boundary o)
    (hb' : (Text.ofList cs).Boundary o') (hlt : o < o') :
    ((ofText (.ofList cs)).position o).Before ((ofText (.ofList cs)).position o') := by
  obtain ⟨front, start, back, h⟩ := position_splits (.ofList cs) o
  obtain ⟨front', start', back', h'⟩ := position_splits (.ofList cs) o'
  have hoffset := hb.position_offset
  have hoffset' := hb'.position_offset
  have hlines : front.length ≤ front'.length := by
    have hstart := h.begun
    refine h'.index_le h.here ?_
    omega
  have hline := h.line
  have hline' := h'.line
  by_cases hsame : front.length = front'.length
  · have hstart : start = start' := h.start_eq h' (by omega)
    subst hstart
    obtain ⟨current, rest, hcurrent, hrest, hlength, hcolumn⟩ := h.current (by rwa [hoffset])
    obtain ⟨current', rest', hcurrent', hrest', hlength', hcolumn'⟩ :=
      h'.current (by rwa [hoffset'])
    obtain ⟨mid, rfl, hmid⟩ := hrest.between hrest' (by omega)
    have hmore : current' = current ++ mid := by
      have hunique := hcurrent'.unique hcurrent
      rw [← List.append_assoc] at hunique
      exact List.append_cancel_right hunique
    have hne : mid ≠ [] := by
      rintro rfl
      rw [byteLength] at hmid
      omega
    have hpos := List.length_pos_iff.2 hne
    rw [hmore, List.length_append] at hcolumn'
    exact .inr ⟨by omega, by omega⟩
  · exact .inl (by omega)

end Exact

/-- Every offset between two characters is told by its position, and told apart from every other
one: positions follow one another as the offsets do. The table of line starts increases from zero,
so a search of it for any offset, one past the end counting as the end, finds a line; it never
answers that the offset belongs in front of the first one. -/
theorem positions_exact (source : String) :
    let text := Text.ofString source
    let lines := ofText text
    (∀ o, text.Boundary o → (lines.position o).Tells text o) ∧
    (∀ o o', text.Boundary o → text.Boundary o' → o < o' →
      (lines.position o).Before (lines.position o')) ∧
    (∀ o o', text.Boundary o → text.Boundary o' →
      (lines.position o).line = (lines.position o').line →
      (lines.position o).column = (lines.position o').column → o = o') ∧
    lines.table.head? = some 0 ∧ lines.table.Pairwise (· < ·) ∧
    ∀ o, (∃ answer, SearchAnswers lines.table (min o text.size) answer) ∧
      ∀ answer, SearchAnswers lines.table (min o text.size) answer →
        ∃ i start, (answer = .ok i ∨ answer = .error (i + 1)) ∧ lines.table[i]? = some start ∧
          start ≤ min o text.size ∧ (lines.position o).offset = min o text.size ∧
          (lines.position o).line = i + 1 := by
  intro text lines
  have hbefore : ∀ o o', text.Boundary o → text.Boundary o' → o < o' →
      (lines.position o).Before (lines.position o') :=
    fun o o' hb hb' hlt => position_before hb hb' hlt
  have hinc := table_increases text
  refine ⟨fun o hb => position_tells hb, hbefore, ?_, rfl, hinc, fun o => ?_⟩
  · intro o o' hb hb' hline hcolumn
    have hnot : ∀ {p q : Position}, p.line = q.line → p.column = q.column → ¬p.Before q := by
      intro p q hline hcolumn hpq
      obtain hlt | ⟨-, hlt⟩ := hpq <;> omega
    rcases Nat.lt_trichotomy o o' with hlt | heq | hgt
    · exact absurd (hbefore o o' hb hb' hlt) (hnot hline hcolumn)
    · exact heq
    · exact absurd (hbefore o' o hb' hb hgt) (hnot hline.symm hcolumn.symm)
  · obtain ⟨front, start, back, h⟩ := position_splits text o
    refine ⟨h.search_exists hinc, fun answer ha => ?_⟩
    exact ⟨front.length, start, h.search hinc ha, h.here, h.begun, rfl, h.line⟩

/-- Between the two characters of a line terminator the line has not ended yet. -/
theorem positions_exact_terminator :
    ((ofText (.ofString "é\r\nx")).position 3).Before
      ((ofText (.ofString "é\r\nx")).position 4) :=
  (positions_exact "é\r\nx").2.1 3 4 ⟨['\n', 'x'], ['é', '\r'], rfl, rfl⟩
    ⟨['x'], ['é', '\r', '\n'], rfl, rfl⟩ (by decide)

end Lines

end PhpSyntax
