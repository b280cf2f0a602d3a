import PhpSyntax.Proofs.Peg.Relation

namespace PhpSyntax

namespace Value

theorem stripList_eq (vs : List Value) : stripList vs = vs.map strip := by
  induction vs with
  | nil => rfl
  | cons v vs ih => rw [stripList, ih, List.map_cons]

theorem stripEntries_eq (es : List (String × Value)) :
    stripEntries es = es.map fun e => (e.1, e.2.strip) := by
  induction es with
  | nil => rfl
  | cons e es ih => rw [stripEntries, ih, List.map_cons]

theorem strip_list (vs : List Value) : (Value.list vs).strip = .list (vs.map strip) := by
  rw [strip, stripList_eq]

@[simp]
theorem strip_node (n : Node) : (Value.node n).strip = .node n.strip :=
  rfl

@[simp]
theorem isNull_strip (v : Value) : v.strip.isNull = v.isNull := by
  cases v <;> rfl

@[simp]
theorem isEmpty_strip (v : Value) : v.strip.isEmpty = v.isEmpty := by
  cases v with
  | list items => simp only [strip_list, isEmpty, List.isEmpty_map]
  | _ => rfl

@[simp]
theorem toList_strip (v : Value) : v.strip.toList = v.toList.map strip := by
  cases v with
  | list items => simp only [strip_list, toList]
  | _ => rfl

@[simp]
theorem asNode?_strip (v : Value) : v.strip.asNode? = v.asNode?.map NodeOf.strip := by
  cases v <;> rfl

@[simp]
theorem asText?_strip (v : Value) : v.strip.asText? = v.asText? := by
  cases v <;> rfl

@[simp]
theorem asBool?_strip (v : Value) : v.strip.asBool? = v.asBool? := by
  cases v <;> rfl

@[simp]
theorem asList?_strip (v : Value) : v.strip.asList? = v.asList?.map (List.map strip) := by
  cases v with
  | list items => simp only [strip_list, asList?, Option.map_some]
  | _ => rfl

end Value

namespace Fields

/-- The fields without the places of the nodes in them. -/
def strip (fs : Captures) : Captures :=
  ⟨Value.stripEntries fs.entries⟩

@[simp]
theorem get?_strip (fs : Captures) (key : String) :
    fs.strip.get? key = (fs.get? key).map Value.strip := by
  obtain ⟨es⟩ := fs
  simp only [get?, strip]
  induction es with
  | nil => rfl
  | cons e es ih =>
    obtain ⟨k, v⟩ := e
    simp only [Value.stripEntries, List.lookup]
    split
    · rfl
    · exact ih

theorem strip_assign (key : String) (v : Value) (es : List (String × Value)) :
    Value.stripEntries (assign key v es) = assign key v.strip (Value.stripEntries es) := by
  induction es with
  | nil => rfl
  | cons e es ih =>
    obtain ⟨k, w⟩ := e
    simp only [assign, Value.stripEntries]
    split
    · rfl
    · simp only [Value.stripEntries, ih]

theorem strip_remove (key : String) (es : List (String × Value)) :
    Value.stripEntries (remove key es) = remove key (Value.stripEntries es) := by
  induction es with
  | nil => rfl
  | cons e es ih =>
    obtain ⟨k, w⟩ := e
    simp only [remove, Value.stripEntries]
    split
    · rfl
    · simp only [Value.stripEntries, ih]

@[simp]
theorem erase_strip (fs : Captures) (key : String) : fs.strip.erase key = (fs.erase key).strip :=
  congrArg Fields.mk (strip_remove key fs.entries).symm

@[simp]
theorem insert_strip (fs : Captures) (key : String) (v : Value) :
    fs.strip.insert key v.strip = (fs.insert key v).strip := by
  have hc : fs.strip.contains key = fs.contains key := by
    simp only [contains, get?_strip, Option.isSome_map]
  cases hk : fs.contains key with
  | true =>
    simp only [insert, hc, hk, if_true]
    exact congrArg Fields.mk (strip_assign key v fs.entries).symm
  | false =>
    simp only [insert, hc, hk, Bool.false_eq_true, if_false]
    simp only [strip, Value.stripEntries_eq, List.map_append, List.map_cons, List.map_nil]

@[simp]
theorem take_strip (fs : Captures) (key : String) :
    fs.strip.take key = ((fs.take key).1.strip, (fs.take key).2.strip) := by
  simp only [take, get?_strip, erase_strip]
  cases fs.get? key <;> rfl

end Fields

namespace NodeOf

@[simp]
theorem strip_name (n : Node) : n.strip.name = n.name :=
  rfl

@[simp]
theorem strip_fields (n : Node) : n.strip.fields = n.fields.strip :=
  rfl

theorem strip_ofEntries (name : String) (entries : List (String × Value)) :
    (ofEntries name entries).strip = ofEntries name (Value.stripEntries entries) :=
  rfl

@[simp]
theorem get?_strip (n : Node) (key : String) : n.strip.get? key = (n.get? key).map Value.strip :=
  n.fields.get?_strip key

@[simp]
theorem set_strip (n : Node) (key : String) (v : Value) :
    n.strip.set key v.strip = (n.set key v).strip := by
  simp only [set, strip_fields, Fields.insert_strip]
  rfl

@[simp]
theorem take_strip (n : Node) (key : String) :
    n.strip.take key = ((n.take key).1.strip, (n.take key).2.strip) := by
  simp only [take, strip_fields, Fields.take_strip]
  rfl

@[simp]
theorem text?_strip (n : Node) (key : String) : n.strip.text? key = n.text? key := by
  simp only [text?, get?_strip]
  cases n.get? key with
  | none => rfl
  | some v => exact v.asText?_strip

@[simp]
theorem list?_strip (n : Node) (key : String) :
    n.strip.list? key = (n.list? key).map (List.map Value.strip) := by
  simp only [list?, get?_strip]
  cases n.get? key with
  | none => rfl
  | some v => exact v.asList?_strip

end NodeOf

/-- The second value is the first without places. -/
def Stripped (a b : Value) : Prop :=
  a.strip = b

theorem entries_stripped {es fs : List (String × Value)} :
    EntriesRel Stripped es fs ↔ Value.stripEntries es = fs := by
  refine ⟨fun h => ?_, ?_⟩
  · induction h with
    | nil => rfl
    | @cons e f es fs hef _ ih =>
      obtain ⟨k, v⟩ := e
      obtain ⟨l, w⟩ := f
      obtain ⟨rfl, hvw⟩ : k = l ∧ v.strip = w := hef
      rw [Value.stripEntries, ih, hvw]
  · rintro rfl
    induction es with
    | nil => exact .nil
    | cons e es ih => exact .cons ⟨rfl, rfl⟩ ih

theorem list_stripped {as bs : List Value} :
    List.Forall₂ Stripped as bs ↔ as.map Value.strip = bs := by
  refine ⟨fun h => ?_, ?_⟩
  · induction h with
    | nil => rfl
    | cons hab _ ih => rw [List.map_cons, ih, hab]
  · rintro rfl
    exact List.forall₂_map_right_iff.2 (List.forall₂_same.2 fun _ _ => rfl)

theorem Congruence.stripped : Congruence Stripped where
  null := rfl
  bool _ := rfl
  text _ := rfl
  list h := by
    rw [Stripped, Value.strip_list, list_stripped.1 h]
  record h := by
    rw [Stripped, Value.strip, entries_stripped.1 h]
  isNull h := by
    rw [← h, Value.isNull_strip]
  toList h := by
    rw [list_stripped, ← h, Value.toList_strip]
  ofRecord h := ⟨_, h.symm, entries_stripped.2 rfl⟩
  toRecord {a fs} h := by
    cases a with
    | record fields => exact ⟨fields.entries, rfl⟩
    | _ => cases h

end PhpSyntax
