import PhpSyntax.Source.Text

namespace PhpSyntax

@[simp]
theorem byteLength_append (front cs : List Char) :
    byteLength (front ++ cs) = byteLength front + byteLength cs := by
  induction front with
  | nil => simp [byteLength]
  | cons c front ih =>
    rw [List.cons_append, byteLength, byteLength, ih]
    omega

theorem byteLength_pos {cs : List Char} (h : cs ≠ []) : 0 < byteLength cs := by
  cases cs with
  | nil => exact absurd rfl h
  | cons c cs =>
    have := utf8Size_pos c
    rw [byteLength]
    omega

theorem length_le_byteLength (cs : List Char) : cs.length ≤ byteLength cs := by
  induction cs with
  | nil => exact Nat.zero_le _
  | cons c cs ih =>
    have hc := utf8Size_pos c
    rw [List.length_cons, byteLength]
    omega

theorem byteLength_cons_pos (c : Char) (cs : List Char) : 0 < byteLength (c :: cs) :=
  byteLength_pos (List.cons_ne_nil c cs)

theorem dropBytes?_append (front cs : List Char) :
    dropBytes? (byteLength front) (front ++ cs) = some cs := by
  induction front with
  | nil => simp [byteLength, dropBytes?]
  | cons c front ih =>
    have hc := utf8Size_pos c
    obtain ⟨n, hn⟩ : ∃ n, byteLength (c :: front) = n + 1 := ⟨byteLength (c :: front) - 1, by
      rw [byteLength]
      omega⟩
    have hrest : n + 1 - c.utf8Size = byteLength front := by
      rw [byteLength] at hn
      omega
    rw [hn, List.cons_append, dropBytes?, hrest, if_pos (by rw [byteLength] at hn; omega)]
    exact ih

theorem dropBytes?_eq_some {n : Nat} {cs rest : List Char} :
    dropBytes? n cs = some rest ↔ ∃ front, cs = front ++ rest ∧ n = byteLength front := by
  refine ⟨fun h => ?_, ?_⟩
  · induction cs generalizing n with
    | nil => cases n with
      | zero =>
        cases h
        exact ⟨[], rfl, rfl⟩
      | succ n => cases h
    | cons c cs ih => cases n with
      | zero =>
        cases h
        exact ⟨[], rfl, rfl⟩
      | succ n =>
        rw [dropBytes?] at h
        split at h
        · obtain ⟨front, rfl, hn⟩ := ih h
          refine ⟨c :: front, rfl, ?_⟩
          rw [byteLength]
          omega
        · cases h
  · rintro ⟨front, rfl, rfl⟩
    exact dropBytes?_append front rest

theorem takeBytes_append (front cs : List Char) :
    takeBytes (byteLength front) (front ++ cs) = front := by
  induction front with
  | nil =>
    have hzero : ∀ c : Char, ¬c.utf8Size ≤ 0 := by
      intro c
      have := utf8Size_pos c
      omega
    cases cs with
    | nil => rfl
    | cons c cs => exact if_neg (hzero c)
  | cons c front ih =>
    rw [byteLength, List.cons_append, takeBytes, if_pos (by omega), Nat.add_sub_cancel_left, ih]

theorem pushBytes_append (front cs : List Char) :
    pushBytes "" (byteLength front) (front ++ cs) = String.ofList front := by
  apply String.toList_inj.1
  simp [toList_pushBytes, takeBytes_append]

/-- No more than the first characters tell what lies within their bytes. -/
theorem pushBytes_of_le {n : Nat} {cs : List Char} (h : n ≤ byteLength cs) (rest : List Char)
    (front : String) : pushBytes front n (cs ++ rest) = pushBytes front n cs := by
  induction cs generalizing front n with
  | nil =>
    cases rest with
    | nil => rfl
    | cons c rest =>
      have := utf8Size_pos c
      rw [byteLength] at h
      rw [List.nil_append, pushBytes, pushBytes, if_neg (by omega)]
  | cons c cs ih =>
    rw [byteLength] at h
    rw [List.cons_append, pushBytes, pushBytes]
    split
    · exact ih (by omega) _
    · rfl

namespace Text

/-- What stands at an offset, up to the end of the text. -/
def Has (t : Text) (offset : Nat) (cs : List Char) : Prop :=
  ∃ front, t = .ofList (front ++ cs) ∧ offset = byteLength front

theorem has_start (cs : List Char) : (ofList cs).Has 0 cs :=
  ⟨[], rfl, rfl⟩

namespace Has

variable {t : Text} {offset : Nat} {cs rest : List Char}

theorem after? (h : t.Has offset cs) : t.after? offset = some cs := by
  obtain ⟨front, rfl, rfl⟩ := h
  rw [after?_ofList, dropBytes?_append]

theorem size (h : t.Has offset cs) : t.size = offset + byteLength cs := by
  obtain ⟨front, rfl, rfl⟩ := h
  rw [size_ofList, byteLength_append]

theorem unique {cs' : List Char} (h : t.Has offset cs) (h' : t.Has offset cs') : cs = cs' :=
  Option.some.inj (h.after?.symm.trans h'.after?)

theorem left (h : t.Has offset cs) : t.size - offset = byteLength cs := by
  rw [h.size, Nat.add_sub_cancel_left]

theorem move (h : t.Has offset (cs ++ rest)) : t.Has (offset + byteLength cs) rest := by
  obtain ⟨front, rfl, rfl⟩ := h
  exact ⟨front ++ cs, by rw [List.append_assoc], (byteLength_append front cs).symm⟩

theorem cut (h : t.Has offset (cs ++ rest)) :
    t.cut offset (offset + byteLength cs) = String.ofList cs := by
  rw [Text.cut, h.after?, h.move.after?]
  simp only [Nat.le_add_right, if_true, Nat.add_sub_cancel_left, pushBytes_append]

theorem slice (h : t.Has offset (cs ++ rest)) :
    t.slice offset (offset + byteLength cs) = cs := by
  rw [← toList_cut, h.cut, String.toList_ofList]

theorem slice? (h : t.Has offset (cs ++ rest)) :
    t.slice? offset (offset + byteLength cs) = some cs := by
  rw [Text.slice?, h.after?, h.move.after?]
  simp only [Nat.le_add_right, if_true, Nat.add_sub_cancel_left, takeBytes_append]

end Has

theorem after?_eq_some {chars : List Char} {offset : Nat} {cs : List Char} :
    (ofList chars).after? offset = some cs ↔ (ofList chars).Has offset cs := by
  refine ⟨fun h => ?_, Has.after?⟩
  rw [after?_ofList] at h
  obtain ⟨front, rfl, rfl⟩ := dropBytes?_eq_some.1 h
  exact ⟨front, rfl, rfl⟩

/-- An offset between two characters, or at one of the ends of a text. -/
def Boundary (t : Text) (offset : Nat) : Prop :=
  ∃ cs, t.Has offset cs

theorem Boundary.le_size {t : Text} {offset : Nat} (h : t.Boundary offset) : offset ≤ t.size := by
  obtain ⟨cs, h⟩ := h
  exact Nat.le.intro h.size.symm

end Text

end PhpSyntax
