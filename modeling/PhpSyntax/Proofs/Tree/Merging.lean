import Mathlib.Data.List.Nodup
import PhpSyntax.Tree.Fields

namespace PhpSyntax.Fields

variable {α : Type} (fs : Fields α) {key other : String} (v w : α)

theorem contains_iff : fs.contains key = true ↔ key ∈ fs.keys := by
  obtain ⟨es⟩ := fs
  simp only [contains, get?, keys]
  induction es with
  | nil => simp
  | cons e es ih =>
    obtain ⟨k, a⟩ := e
    by_cases hk : key = k
    · subst hk
      simp
    · simp [List.lookup_cons, beq_false_of_ne hk, hk, ih]

theorem assign_keys (es : List (String × α)) : (assign key v es).map (·.1) = es.map (·.1) := by
  induction es with
  | nil => rfl
  | cons e es ih =>
    simp only [assign]
    split
    · rfl
    · simp only [List.map_cons, ih]

@[simp]
theorem update_keys : (fs.update key v).keys = fs.keys :=
  assign_keys v fs.entries

theorem contains_update : (fs.update key v).contains other = fs.contains other := by
  rw [Bool.eq_iff_iff, contains_iff, contains_iff, update_keys]

theorem insert_of_mem (h : key ∈ fs.keys) : fs.insert key v = fs.update key v := by
  rw [insert, if_pos (fs.contains_iff.2 h)]

theorem insert_of_notMem (h : key ∉ fs.keys) :
    fs.insert key v = ⟨fs.entries ++ [(key, v)]⟩ := by
  rw [insert, if_neg (mt fs.contains_iff.1 h)]

theorem insert_keys :
    (fs.insert key v).keys = if key ∈ fs.keys then fs.keys else fs.keys ++ [key] := by
  split
  · rename_i h
    rw [insert_of_mem fs v h, update_keys]
  · rename_i h
    rw [insert_of_notMem fs v h]
    simp only [keys, List.map_append, List.map_cons, List.map_nil]

theorem mem_insert_keys : other ∈ (fs.insert key v).keys ↔ other = key ∨ other ∈ fs.keys := by
  rw [insert_keys]
  split
  · rename_i h
    constructor
    · exact .inr
    · rintro (rfl | ho)
      · exact h
      · exact ho
  · rw [List.mem_append, List.mem_singleton, or_comm]

theorem insert_nodup (h : fs.keys.Nodup) : (fs.insert key v).keys.Nodup := by
  rw [insert_keys]
  split
  · exact h
  · rename_i hkey
    exact List.nodup_append.2 ⟨h, List.nodup_singleton key, by
      intro a ha b hb hab
      rw [List.mem_singleton] at hb
      exact hkey (hb ▸ hab ▸ ha)⟩

theorem assign_comm (hne : key ≠ other) (es : List (String × α)) :
    assign key v (assign other w es) = assign other w (assign key v es) := by
  induction es with
  | nil => rfl
  | cons e es ih =>
    obtain ⟨k, a⟩ := e
    by_cases hk : key = k
    · have ho : other ≠ k := fun h => hne (hk.trans h.symm)
      simp [assign, hk, ho]
    · by_cases ho : other = k
      · have hk' : key ≠ other := hne
        simp [assign, ho, ho ▸ hk']
      · simp [assign, hk, ho, ih]

theorem assign_append (hne : key ≠ other) (es : List (String × α)) :
    assign key v (es ++ [(other, w)]) = assign key v es ++ [(other, w)] := by
  induction es with
  | nil => simp [assign, hne]
  | cons e es ih =>
    simp only [List.cons_append, assign, ih]
    split <;> rfl

theorem assign_assign (es : List (String × α)) :
    assign key v (assign key w es) = assign key v es := by
  induction es with
  | nil => rfl
  | cons e es ih =>
    obtain ⟨k, a⟩ := e
    by_cases hk : key = k
    · simp [assign, hk]
    · simp [assign, hk, ih]

theorem assign_new {es : List (String × α)} (h : key ∉ es.map (·.1)) :
    assign key v (es ++ [(key, w)]) = es ++ [(key, v)] := by
  induction es with
  | nil => simp [assign]
  | cons e es ih =>
    obtain ⟨k, a⟩ := e
    simp only [List.map_cons, List.mem_cons, not_or] at h
    obtain ⟨hk, hes⟩ := h
    simp [assign, hk, ih hes]

theorem update_insert_self : (fs.insert key w).update key v = fs.insert key v := by
  by_cases h : key ∈ fs.keys
  · rw [insert_of_mem fs w h, insert_of_mem fs v h]
    exact congrArg mk (assign_assign v w fs.entries)
  · rw [insert_of_notMem fs w h, insert_of_notMem fs v h]
    exact congrArg mk (assign_new v w h)

theorem update_insert_comm (hne : key ≠ other) :
    (fs.insert other w).update key v = (fs.update key v).insert other w := by
  simp only [insert, contains_update]
  split
  · exact congrArg mk (assign_comm v w hne fs.entries)
  · exact congrArg mk (assign_append v w hne fs.entries)

theorem insertAll_nodup (h : fs.keys.Nodup) (es : List (String × α)) :
    (fs.insertAll es).keys.Nodup := by
  induction es generalizing fs with
  | nil => exact h
  | cons e es ih => exact ih _ (fs.insert_nodup e.2 h)

theorem mem_insertAll_keys {es : List (String × α)} :
    other ∈ (fs.insertAll es).keys ↔ other ∈ fs.keys ∨ other ∈ es.map (·.1) := by
  induction es generalizing fs with
  | nil => simp [insertAll]
  | cons e es ih =>
    have hstep := ih (fs.insert e.1 e.2)
    rw [mem_insert_keys] at hstep
    simp only [List.map_cons, List.mem_cons]
    exact hstep.trans (by tauto)

theorem insertAll_append (es es' : List (String × α)) :
    fs.insertAll (es ++ es') = (fs.insertAll es).insertAll es' :=
  List.foldl_append

theorem update_insertAll {es : List (String × α)} (h : key ∉ es.map (·.1)) :
    (fs.update key v).insertAll es = (fs.insertAll es).update key v := by
  induction es generalizing fs with
  | nil => rfl
  | cons e es ih =>
    obtain ⟨k, a⟩ := e
    simp only [List.map_cons, List.mem_cons, not_or] at h
    obtain ⟨hk, hes⟩ := h
    calc (fs.update key v).insertAll ((k, a) :: es)
        = ((fs.insert k a).update key v).insertAll es := by
          rw [update_insert_comm fs v a hk]
          rfl
      _ = ((fs.insert k a).insertAll es).update key v := ih _ hes

theorem insertAll_assign {es : List (String × α)} (hnodup : (es.map (·.1)).Nodup)
    (hkey : key ∈ es.map (·.1)) :
    fs.insertAll (assign key v es) = (fs.insertAll es).update key v := by
  induction es generalizing fs with
  | nil => cases hkey
  | cons e es ih =>
    obtain ⟨k, a⟩ := e
    simp only [List.map_cons, List.nodup_cons] at hnodup
    by_cases hk : key = k
    · subst hk
      calc fs.insertAll (assign key v ((key, a) :: es))
          = ((fs.insert key a).update key v).insertAll es := by
            rw [update_insert_self]
            simp [assign, insertAll]
        _ = ((fs.insert key a).insertAll es).update key v := update_insertAll _ v hnodup.1
    · have hes : key ∈ es.map (·.1) := by
        obtain h | h := List.mem_cons.1 hkey
        · exact absurd h hk
        · exact h
      simp only [assign, beq_iff_eq, hk, if_false]
      exact ih (fs.insert k a) hnodup.2 hes

/-- What is inserted into the fields to merge may be inserted behind the merge. -/
theorem extend_insert {gs : Fields α} (hnodup : gs.keys.Nodup) :
    fs.extend (gs.insert key v) = (fs.extend gs).insert key v := by
  by_cases hkey : key ∈ gs.keys
  · rw [insert_of_mem gs v hkey, insert_of_mem]
    · exact insertAll_assign fs v hnodup hkey
    · exact fs.mem_insertAll_keys.2 (.inr hkey)
  · rw [insert_of_notMem gs v hkey]
    exact insertAll_append fs gs.entries [(key, v)]

theorem extend_insertAll {gs : Fields α} (hnodup : gs.keys.Nodup) (es : List (String × α)) :
    fs.extend (gs.insertAll es) = (fs.extend gs).insertAll es := by
  induction es generalizing gs with
  | nil => rfl
  | cons e es ih =>
    calc fs.extend ((gs.insert e.1 e.2).insertAll es)
        = (fs.extend (gs.insert e.1 e.2)).insertAll es := ih (gs.insert_nodup e.2 hnodup)
      _ = ((fs.extend gs).insert e.1 e.2).insertAll es := by rw [extend_insert fs e.2 hnodup]

theorem lookup_assign (hne : key ≠ other) (es : List (String × α)) :
    (assign other v es).lookup key = es.lookup key := by
  induction es with
  | nil => rfl
  | cons e es ih =>
    obtain ⟨k, a⟩ := e
    simp only [assign]
    split
    · rename_i hk
      obtain rfl := eq_of_beq hk
      simp only [List.lookup_cons, beq_false_of_ne hne]
    · simp only [List.lookup_cons, ih]

theorem get?_insert_of_ne (hne : key ≠ other) : (fs.insert other v).get? key = fs.get? key := by
  by_cases hother : other ∈ fs.keys
  · rw [insert_of_mem fs v hother]
    exact lookup_assign v hne fs.entries
  · rw [insert_of_notMem fs v hother, get?, get?, List.lookup_append]
    simp [List.lookup_cons, beq_false_of_ne hne]

theorem get?_insertAll {es : List (String × α)} (h : key ∉ es.map (·.1)) :
    (fs.insertAll es).get? key = fs.get? key := by
  induction es generalizing fs with
  | nil => rfl
  | cons e es ih =>
    rw [List.map_cons, List.mem_cons, not_or] at h
    exact (ih (fs.insert e.1 e.2) h.2).trans (get?_insert_of_ne fs e.2 h.1)

end PhpSyntax.Fields
