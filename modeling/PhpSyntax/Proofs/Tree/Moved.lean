import PhpSyntax.Proofs.Tree.Strip

namespace PhpSyntax

/-- Offsets of which the first lies `b` bytes behind the second, which lies within a text of `size`
bytes. -/
structure Ahead (b size offset offset' : Nat) : Prop where
  eq : offset = offset' + b
  within : offset' ≤ size

/-- Bounds of which the first lie `b` bytes behind the second. -/
structure Bounds.Moved (b size : Nat) (x y : Bounds) : Prop where
  start : Ahead b size x.start.offset y.start.offset
  stop : Ahead b size x.stop.offset y.stop.offset

/-- Extents of which the first lies `b` bytes behind the second. -/
structure Extent.Moved (b size : Nat) (x y : Extent) : Prop where
  start : Ahead b size x.offset y.offset
  stop : Ahead b size x.stop y.stop

mutual

/-- The same values but for the places of nodes, which lie `b` bytes further on in the first. Those
in the second lie within a text of `size` bytes. -/
def Value.Moved (b size : Nat) : Value → Value → Prop
  | .null, .null => True
  | .bool c, .bool d => c = d
  | .text s, .text t => s = t
  | .list vs, .list ws => Value.AllMoved b size vs ws
  | .record ⟨es⟩, .record ⟨fs⟩ => Value.EntriesMoved b size es fs
  | .node ⟨name, ⟨es⟩, bounds, extent⟩, .node ⟨name', ⟨fs⟩, bounds', extent'⟩ =>
    name = name' ∧ Value.EntriesMoved b size es fs ∧
      Option.Rel (Bounds.Moved b size) bounds bounds' ∧
      Option.Rel (Extent.Moved b size) extent extent'
  | _, _ => False

def Value.AllMoved (b size : Nat) : List Value → List Value → Prop
  | [], [] => True
  | v :: vs, w :: ws => v.Moved b size w ∧ Value.AllMoved b size vs ws
  | _, _ => False

def Value.EntriesMoved (b size : Nat) :
    List (String × Value) → List (String × Value) → Prop
  | [], [] => True
  | (k, v) :: es, (l, w) :: fs => k = l ∧ v.Moved b size w ∧ Value.EntriesMoved b size es fs
  | _, _ => False

end

/-- The same nodes but for places, which lie `b` bytes further on in the first. -/
structure NodeOf.Moved (b size : Nat) (n n' : Node) : Prop where
  name : n.name = n'.name
  fields : EntriesRel (Value.Moved b size) n.fields.entries n'.fields.entries
  bounds : Option.Rel (Bounds.Moved b size) n.bounds n'.bounds
  extent : Option.Rel (Extent.Moved b size) n.extent n'.extent

variable {b size : Nat}

namespace Value

theorem allMoved_iff {vs ws : List Value} :
    AllMoved b size vs ws ↔ List.Forall₂ (Moved b size) vs ws := by
  induction vs generalizing ws with
  | nil => cases ws <;> simp [AllMoved]
  | cons v vs ih => cases ws <;> simp [AllMoved, ih]

theorem entriesMoved_iff {es fs : List (String × Value)} :
    EntriesMoved b size es fs ↔ EntriesRel (Moved b size) es fs := by
  induction es generalizing fs with
  | nil => cases fs <;> simp [EntriesMoved]
  | cons e es ih => cases fs <;> simp [EntriesMoved, ih, and_assoc]

@[simp]
theorem moved_list {vs ws : List Value} :
    Moved b size (.list vs) (.list ws) ↔ List.Forall₂ (Moved b size) vs ws :=
  allMoved_iff

@[simp]
theorem moved_record {fs gs : Captures} :
    Moved b size (.record fs) (.record gs) ↔
      EntriesRel (Moved b size) fs.entries gs.entries :=
  entriesMoved_iff

@[simp]
theorem moved_node {n n' : Node} : Moved b size (.node n) (.node n') ↔ n.Moved b size n' := by
  refine ⟨fun ⟨hname, hfields, hbounds, hextent⟩ => ?_, fun h => ?_⟩
  · exact ⟨hname, entriesMoved_iff.1 hfields, hbounds, hextent⟩
  · exact ⟨h.name, entriesMoved_iff.2 h.fields, h.bounds, h.extent⟩

theorem moved_null : Moved b size .null .null :=
  trivial

/-- How values can be related, by what they are. -/
inductive MovedView (b size : Nat) : Value → Value → Prop where
  | null : MovedView b size .null .null
  | bool (c : Bool) : MovedView b size (.bool c) (.bool c)
  | text (s : String) : MovedView b size (.text s) (.text s)
  | list {vs ws : List Value} : List.Forall₂ (Moved b size) vs ws →
    MovedView b size (.list vs) (.list ws)
  | record {fs gs : Captures} : EntriesRel (Moved b size) fs.entries gs.entries →
    MovedView b size (.record fs) (.record gs)
  | node {n n' : Node} : n.Moved b size n' → MovedView b size (.node n) (.node n')

theorem Moved.view {v w : Value} (h : v.Moved b size w) : MovedView b size v w := by
  cases v <;> cases w <;> try exact h.elim
  case null.null => exact .null
  case bool.bool c d =>
    obtain rfl : c = d := h
    exact .bool c
  case text.text s t =>
    obtain rfl : s = t := h
    exact .text s
  case list.list vs ws => exact .list (moved_list.1 h)
  case record.record fs gs => exact .record (moved_record.1 h)
  case node.node n n' => exact .node (moved_node.1 h)

end Value

theorem Congruence.moved (b size : Nat) : Congruence (Value.Moved b size) where
  null := trivial
  bool _ := rfl
  text _ := rfl
  list h := Value.moved_list.2 h
  record h := Value.moved_record.2 h
  isNull h := by
    cases h.view <;> rfl
  toList h := by
    cases h.view with
    | null => exact .nil
    | list hs => exact hs
    | bool c => exact .cons rfl .nil
    | text s => exact .cons rfl .nil
    | record _ => exact .cons h .nil
    | node _ => exact .cons h .nil
  ofRecord {es w} h := by
    cases w with
    | record gs => exact ⟨gs.entries, rfl, Value.moved_record.1 h⟩
    | _ => exact h.elim
  toRecord {v fs} h := by
    cases v with
    | record gs => exact ⟨gs.entries, rfl⟩
    | _ => exact h.elim

namespace Value

theorem Moved.isEmpty {v w : Value} (h : v.Moved b size w) : v.isEmpty = w.isEmpty := by
  cases h.view with
  | list hs => cases hs <;> rfl
  | _ => rfl

theorem Moved.asText? {v w : Value} (h : v.Moved b size w) : v.asText? = w.asText? := by
  cases h.view <;> rfl

theorem Moved.asBool? {v w : Value} (h : v.Moved b size w) : v.asBool? = w.asBool? := by
  cases h.view <;> rfl

theorem Moved.asNode? {v w : Value} (h : v.Moved b size w) :
    Option.Rel (NodeOf.Moved b size) v.asNode? w.asNode? := by
  cases h.view with
  | node hn => exact .some hn
  | _ => exact .none

theorem Moved.asList? {v w : Value} (h : v.Moved b size w) :
    Option.Rel (List.Forall₂ (Moved b size)) v.asList? w.asList? := by
  cases h.view with
  | list hs => exact .some hs
  | _ => exact .none

theorem Moved.entry {v w : Value} (h : v.Moved b size w) {es fs : List (String × Value)}
    (hrest : EntriesRel (Moved b size) es fs) (key : String) :
    EntriesRel (Moved b size) ((key, v) :: es) ((key, w) :: fs) :=
  .cons ⟨rfl, h⟩ hrest

theorem Moved.getD {o p : Option Value} (h : Option.Rel (Moved b size) o p) :
    (o.getD .null).Moved b size (p.getD .null) := by
  cases h with
  | none => exact moved_null
  | some hv => exact hv

mutual

theorem moved_of_strip : (v : Value) → v.strip = v → v.Moved b size v
  | .null, _ => trivial
  | .bool _, _ => rfl
  | .text _, _ => rfl
  | .list vs, h => allMoved_of_strip vs (Value.list.inj h)
  | .record ⟨es⟩, h => entriesMoved_of_strip es (Fields.mk.inj (Value.record.inj h))
  | .node ⟨name, ⟨es⟩, bounds, extent⟩, h => by
    obtain ⟨-, hes, hbounds, hextent⟩ := NodeOf.mk.inj (Value.node.inj h)
    cases hbounds
    cases hextent
    exact ⟨rfl, entriesMoved_of_strip es (Fields.mk.inj hes), .none, .none⟩

theorem allMoved_of_strip : (vs : List Value) → stripList vs = vs → AllMoved b size vs vs
  | [], _ => trivial
  | v :: vs, h => by
    obtain ⟨hv, hvs⟩ := List.cons.inj h
    exact ⟨moved_of_strip v hv, allMoved_of_strip vs hvs⟩

theorem entriesMoved_of_strip : (es : List (String × Value)) → stripEntries es = es →
    EntriesMoved b size es es
  | [], _ => trivial
  | (k, v) :: es, h => by
    obtain ⟨he, hes⟩ := List.cons.inj h
    exact ⟨rfl, moved_of_strip v (Prod.mk.inj he).2, entriesMoved_of_strip es hes⟩

end

end Value

theorem Fields.take_moved {fs gs : Captures}
    (h : EntriesRel (Value.Moved b size) fs.entries gs.entries) (key : String) :
    (fs.take key).1.Moved b size (gs.take key).1 ∧
      EntriesRel (Value.Moved b size) (fs.take key).2.entries (gs.take key).2.entries :=
  ⟨Value.Moved.getD (Fields.rel_get? h key), Fields.rel_remove h key⟩

namespace NodeOf

theorem moved_ofFields (name : String) {fs gs : Captures}
    (h : EntriesRel (Value.Moved b size) fs.entries gs.entries) :
    (ofFields name fs).Moved b size (ofFields name gs) :=
  ⟨rfl, h, .none, .none⟩

namespace Moved

variable {n n' : Node} (h : n.Moved b size n')

include h

theorem get? (key : String) : Option.Rel (Value.Moved b size) (n.get? key) (n'.get? key) :=
  Fields.rel_get? h.fields key

theorem text? (key : String) : n.text? key = n'.text? key := by
  have hk := h.get? key
  simp only [NodeOf.text?]
  generalize n.get? key = o, n'.get? key = p at hk ⊢
  cases hk with
  | none => rfl
  | some hv => exact hv.asText?

theorem list? (key : String) :
    Option.Rel (List.Forall₂ (Value.Moved b size)) (n.list? key) (n'.list? key) := by
  have hk := h.get? key
  simp only [NodeOf.list?]
  generalize n.get? key = o, n'.get? key = p at hk ⊢
  cases hk with
  | none => exact .none
  | some hv => exact hv.asList?

theorem take (key : String) : (n.take key).1.Moved b size (n'.take key).1 ∧
    NodeOf.Moved b size (n.take key).2 (n'.take key).2 := by
  obtain ⟨hvalue, hfields⟩ := Fields.take_moved h.fields key
  exact ⟨hvalue, h.name, hfields, h.bounds, h.extent⟩

theorem set (key : String) {v w : Value} (hvw : v.Moved b size w) :
    NodeOf.Moved b size (n.set key v) (n'.set key w) :=
  ⟨h.name, Fields.rel_insert h.fields hvw, h.bounds, h.extent⟩

theorem isInstrumented : n.isInstrumented = n'.isInstrumented := by
  obtain ⟨name, fields, bounds, extent⟩ := n
  obtain ⟨name', fields', bounds', extent'⟩ := n'
  obtain ⟨-, -, hbounds, hextent⟩ := h
  cases hbounds <;> cases hextent <;> rfl

end Moved

end NodeOf

section Range

/-- Byte ranges of which the first lies `b` bytes behind the second. -/
structure RangeMoved (b size : Nat) (r r' : Nat × Nat) : Prop where
  start : Ahead b size r.1 r'.1
  stop : Ahead b size r.2 r'.2

theorem NodeOf.Moved.byteRange? {n n' : Node} (h : n.Moved b size n') :
    Option.Rel (RangeMoved b size) n.byteRange? n'.byteRange? := by
  obtain ⟨name, fields, bounds, extent⟩ := n
  obtain ⟨name', fields', bounds', extent'⟩ := n'
  obtain ⟨-, -, hbounds, hextent⟩ := h
  cases hbounds with
  | some hb => exact .some ⟨hb.start, hb.stop⟩
  | none =>
    cases hextent with
    | none => exact .none
    | some he => exact .some ⟨he.start, he.stop⟩

mutual

theorem Value.Moved.byteRange? : (v w : Value) → v.Moved b size w →
    Option.Rel (RangeMoved b size) v.byteRange? w.byteRange?
  | .list vs, .list ws, h => by
    have hfirst := Value.AllMoved.firstRange? vs ws h
    have hlast := Value.AllMoved.lastRange? vs ws h
    simp only [Value.byteRange?]
    generalize Value.firstRange? vs = r, Value.firstRange? ws = r' at hfirst ⊢
    generalize Value.lastRange? vs = s, Value.lastRange? ws = s' at hlast ⊢
    cases hfirst with
    | none => exact .none
    | some hr =>
      cases hlast with
      | none => exact .none
      | some hs => exact .some ⟨hr.start, hs.stop⟩
  | .node n, .node n', h => (Value.moved_node.1 h).byteRange?
  | .null, .null, _ => .none
  | .bool _, .bool _, _ => .none
  | .text _, .text _, _ => .none
  | .record _, .record _, _ => .none

theorem Value.AllMoved.firstRange? : (vs ws : List Value) → Value.AllMoved b size vs ws →
    Option.Rel (RangeMoved b size) (Value.firstRange? vs) (Value.firstRange? ws)
  | [], [], _ => .none
  | v :: vs, w :: ws, h => by
    have hhead := Value.Moved.byteRange? v w h.1
    simp only [Value.firstRange?]
    generalize v.byteRange? = r, w.byteRange? = r' at hhead ⊢
    cases hhead with
    | none => exact Value.AllMoved.firstRange? vs ws h.2
    | some hr => exact .some hr

theorem Value.AllMoved.lastRange? : (vs ws : List Value) → Value.AllMoved b size vs ws →
    Option.Rel (RangeMoved b size) (Value.lastRange? vs) (Value.lastRange? ws)
  | [], [], _ => .none
  | v :: vs, w :: ws, h => by
    have htail := Value.AllMoved.lastRange? vs ws h.2
    simp only [Value.lastRange?]
    generalize Value.lastRange? vs = r, Value.lastRange? ws = r' at htail ⊢
    cases htail with
    | none => exact Value.Moved.byteRange? v w h.1
    | some hr => exact .some hr

end

end Range

end PhpSyntax
