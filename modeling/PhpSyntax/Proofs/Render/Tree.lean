import PhpSyntax.Proofs.Tree.Finished
import PhpSyntax.Render.Document

namespace PhpSyntax.Document

section Places

def position? : Document → Option Position
  | .object [(k, .number offset), (l, .number line), (m, .number column)] =>
    if [k, l, m] = ["offset", "line", "column"] then some ⟨offset, line, column⟩ else none
  | _ => none

def bounds? : Document → Option Bounds
  | .object [(k, start), (l, stop)] =>
    if [k, l] = ["start", "end"] then
      start.position?.bind fun start => stop.position?.map fun stop => ⟨start, stop⟩
    else none
  | _ => none

def extent? : Document → Option Extent
  | .object [(k, .number offset), (l, .number line), (m, .number column), (n, .number length)] =>
    if [k, l, m, n] = ["offset", "line", "column", "length"] then
      some ⟨offset, line, column, length⟩
    else none
  | _ => none

end Places

section Last

variable {α : Type}

def splitLast (key : String) (ms : List (String × α)) : List (String × α) × Option α :=
  match ms.getLast? with
  | some (k, d) => if k = key then (ms.dropLast, some d) else (ms, none)
  | none => (ms, none)

theorem splitLast_append (key : String) (ms : List (String × α)) (d : α) :
    splitLast key (ms ++ [(key, d)]) = (ms, some d) := by
  simp [splitLast]

theorem splitLast_of_notMem {key : String} {ms : List (String × α)} (h : key ∉ ms.map (·.1)) :
    splitLast key ms = (ms, none) := by
  rw [splitLast]
  split
  · rename_i k d hlast
    refine if_neg ?_
    rintro rfl
    exact h (List.mem_map.2 ⟨_, List.mem_of_getLast? hlast, rfl⟩)
  · rfl

end Last

/-- A member of a map: what is written, and the value that it is. -/
structure Member where
  document : Document
  value? : Option Value

def Member.text? (m : Member) : Option String :=
  match m.document with
  | .text s => some s
  | _ => none

/-- What is read from a member that may be missing. -/
def Member.read? {α : Type} (read : Document → Option α) : Option Member → Option (Option α)
  | some m => (read m.document).map some
  | none => some none

def fields? : List (String × Member) → Option (List (String × Value))
  | [] => some []
  | (k, m) :: ms => m.value?.bind fun v => (fields? ms).map ((k, v) :: ·)

/-- The node that a map is. -/
def node? (ms : List (String × Member)) : Option Node :=
  ((ms.lookup "name").bind Member.text?).bind fun name =>
    let (ms, extent) := splitLast "offset" (Fields.remove "name" ms)
    let (ms, bounds) := splitLast "bounds" ms
    (fields? ms).bind fun fields => (Member.read? bounds? bounds).bind fun bounds =>
      (Member.read? extent? extent).map fun extent => ⟨name, ⟨fields⟩, bounds, extent⟩

mutual

/-- The value that a document is. -/
def value? : Document → Option Value
  | .null => some .null
  | .bool b => some (.bool b)
  | .number _ => none
  | .text s => some (.text s)
  | .list ds => (values? ds).map .list
  | .object ms => (node? (members ms)).map .node

def values? : List Document → Option (List Value)
  | [] => some []
  | d :: ds => (value? d).bind fun v => (values? ds).map (v :: ·)

def members : List (String × Document) → List (String × Member)
  | [] => []
  | (k, d) :: ms => (k, ⟨d, value? d⟩) :: members ms

end

theorem members_append (ms ns : List (String × Document)) :
    members (ms ++ ns) = members ms ++ members ns := by
  induction ms with
  | nil => rfl
  | cons m ms ih => rw [List.cons_append, members, members, ih, List.cons_append]

theorem keys_members (es : List (String × Value)) :
    (members (ofEntries es)).map (·.1) = es.map (·.1) := by
  induction es with
  | nil => rfl
  | cons e es ih => rw [ofEntries, members, List.map_cons, List.map_cons, ih]

/-- No field is called as the members are that tell a place. -/
def Unplaced (n : Node) : Prop :=
  "bounds" ∉ n.fields.keys ∧ "offset" ∉ n.fields.keys

section Places

variable {ms : List (String × Member)}

def asMember (d : Document) : Member :=
  ⟨d, value? d⟩

theorem splitLast_extent (hoffset : "offset" ∉ ms.map (·.1)) (bounds : Option Bounds)
    (extent : Option Extent) : splitLast "offset" (ms ++ members (placeMembers bounds extent)) =
      (ms ++ members (placeMembers bounds none), extent.map fun e => asMember (ofExtent e)) := by
  cases extent with
  | some e =>
    have hlast : placeMembers bounds (some e) = placeMembers bounds none ++
        [("offset", ofExtent e)] := by
      simp [placeMembers]
    rw [hlast, members_append, ← List.append_assoc]
    exact splitLast_append _ _ _
  | none =>
    refine splitLast_of_notMem ?_
    rw [List.map_append, List.mem_append, not_or]
    refine ⟨hoffset, ?_⟩
    cases bounds <;> simp [placeMembers, members]

theorem splitLast_bounds (hbounds : "bounds" ∉ ms.map (·.1)) (bounds : Option Bounds) :
    splitLast "bounds" (ms ++ members (placeMembers bounds none)) =
      (ms, bounds.map fun b => asMember (ofBounds b)) := by
  cases bounds with
  | some b => exact splitLast_append _ _ _
  | none =>
    have hnone : ms ++ members (placeMembers none none) = ms := List.append_nil ms
    rw [hnone]
    exact splitLast_of_notMem hbounds

/-- A node is read from its tag, its fields and its place. -/
theorem node?_placed {name : String} {es : List (String × Value)}
    (hkeys : ms.map (·.1) = es.map (·.1)) (hfields : fields? ms = some es)
    (bounds : Option Bounds) (extent : Option Extent)
    (h : Unplaced ⟨name, ⟨es⟩, bounds, extent⟩) :
    node? (("name", asMember (.text name)) :: (ms ++ members (placeMembers bounds extent))) =
      some ⟨name, ⟨es⟩, bounds, extent⟩ := by
  obtain ⟨hbounds, hoffset⟩ : "bounds" ∉ ms.map (·.1) ∧ "offset" ∉ ms.map (·.1) := by
    rw [hkeys]
    exact h
  have hlookup : ∀ rest : List (String × Member), (List.lookup "name"
      (("name", asMember (.text name)) :: rest)).bind Member.text? = some name := fun _ => rfl
  have hremove : ∀ rest : List (String × Member),
      Fields.remove "name" (("name", asMember (.text name)) :: rest) = rest := fun _ => rfl
  have hplace : Member.read? bounds? (bounds.map fun b => asMember (ofBounds b)) = some bounds ∧
      Member.read? extent? (extent.map fun e => asMember (ofExtent e)) = some extent :=
    ⟨by cases bounds <;> rfl, by cases extent <;> rfl⟩
  simp only [node?, hlookup, hremove, splitLast_extent hoffset, splitLast_bounds hbounds, hfields,
    hplace, Option.bind_some, Option.map_some]

end Places

mutual

/-- A finished tree can be read from the document that it is written as. -/
theorem value?_ofValue : (v : Value) → v.Finished Unplaced → value? (ofValue v) = some v
  | .null, _ => rfl
  | .bool _, _ => rfl
  | .text _, _ => rfl
  | .list vs, h => by rw [ofValue, value?, values?_ofValues vs h, Option.map_some]
  | .record _, h => h.elim
  | .node ⟨name, ⟨es⟩, bounds, extent⟩, ⟨hn, hes⟩ => by
    have hnode := node?_placed (keys_members es) (fields?_ofEntries es hes) bounds extent hn
    rw [ofValue, value?, List.cons_append, members, members_append]
    exact congrArg (Option.map Value.node) hnode

theorem values?_ofValues : (vs : List Value) → Value.AllFinished Unplaced vs →
    values? (ofValues vs) = some vs
  | [], _ => rfl
  | v :: vs, ⟨hv, hvs⟩ => by
    rw [ofValues, values?, value?_ofValue v hv, values?_ofValues vs hvs]
    rfl

theorem fields?_ofEntries : (es : List (String × Value)) → Value.EntriesFinished Unplaced es →
    fields? (members (ofEntries es)) = some es
  | [], _ => rfl
  | (k, v) :: es, ⟨hv, hes⟩ => by
    rw [ofEntries, members, fields?, value?_ofValue v hv, fields?_ofEntries es hes]
    rfl

end

end PhpSyntax.Document
