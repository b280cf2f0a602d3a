import PhpSyntax.Source.Position
import PhpSyntax.Tree.Fields

namespace PhpSyntax

/-- A tagged record over values of any kind, with its place in the source where that is known. -/
structure NodeOf (α : Type) where
  name : String
  fields : Fields α
  bounds : Option Bounds
  extent : Option Extent

inductive Value where
  | null
  | bool (b : Bool)
  | text (s : String)
  | list (items : List Value)
  /-- Named captures that no rule has tagged yet. -/
  | record (fields : Fields Value)
  | node (n : NodeOf Value)

instance : Inhabited Value := ⟨.null⟩

abbrev Node := NodeOf Value

abbrev Captures := Fields Value

/-- Removes a field and gives its value, null if there was none. -/
def Fields.take (fs : Captures) (key : String) : Value × Captures :=
  ((fs.get? key).getD .null, fs.erase key)

namespace Value

def isNull : Value → Bool
  | .null => true
  | _ => false

/-- Null or an empty list: nothing was captured. -/
def isEmpty : Value → Bool
  | .null => true
  | .list items => items.isEmpty
  | _ => false

def asNode? : Value → Option Node
  | .node n => some n
  | _ => none

def asText? : Value → Option String
  | .text s => some s
  | _ => none

def asList? : Value → Option (List Value)
  | .list items => some items
  | _ => none

def asBool? : Value → Option Bool
  | .bool b => some b
  | _ => none

/-- The items of a list; null counts as none and any other value as one. -/
def toList : Value → List Value
  | .list items => items
  | .null => []
  | v => [v]

def kind? : Value → Option String
  | .node n => some n.name
  | _ => none

end Value

namespace NodeOf

def ofFields (name : String) (fields : Captures) : Node :=
  ⟨name, fields, none, none⟩

def ofEntries (name : String) (entries : List (String × Value)) : Node :=
  ofFields name ⟨entries⟩

def get? (n : Node) (key : String) : Option Value :=
  n.fields.get? key

def set (n : Node) (key : String) (v : Value) : Node :=
  { n with fields := n.fields.insert key v }

def take (n : Node) (key : String) : Value × Node :=
  let (v, fields) := n.fields.take key
  (v, { n with fields := fields })

def node? (n : Node) (key : String) : Option Node :=
  (n.get? key).bind Value.asNode?

def text? (n : Node) (key : String) : Option String :=
  (n.get? key).bind Value.asText?

def list? (n : Node) (key : String) : Option (List Value) :=
  (n.get? key).bind Value.asList?

def flag? (n : Node) (key : String) : Option Bool :=
  (n.get? key).bind Value.asBool?

def isInstrumented (n : Node) : Bool :=
  n.bounds.isSome || n.extent.isSome

/-- The bytes of the source that a node covers, as far as it knows its place. -/
def byteRange? (n : Node) : Option (Nat × Nat) :=
  match n.bounds with
  | some b => some (b.start.offset, b.stop.offset)
  | none => n.extent.map fun e => (e.offset, e.stop)

end NodeOf

namespace Value

mutual

/-- The bytes of a node, or of a list from its first item with a place to its last. -/
def byteRange? : Value → Option (Nat × Nat)
  | .node n => n.byteRange?
  | .list items =>
    match firstRange? items, lastRange? items with
    | some (start, _), some (_, stop) => some (start, stop)
    | _, _ => none
  | _ => none

def firstRange? : List Value → Option (Nat × Nat)
  | [] => none
  | v :: vs => match byteRange? v with
    | some r => some r
    | none => firstRange? vs

def lastRange? : List Value → Option (Nat × Nat)
  | [] => none
  | v :: vs => match lastRange? vs with
    | some r => some r
    | none => byteRange? v

end

mutual

/-- Forgets the places of all nodes. -/
def strip : Value → Value
  | .null => .null
  | .bool b => .bool b
  | .text s => .text s
  | .list items => .list (stripList items)
  | .record ⟨es⟩ => .record ⟨stripEntries es⟩
  | .node ⟨name, ⟨es⟩, _, _⟩ => .node ⟨name, ⟨stripEntries es⟩, none, none⟩

def stripList : List Value → List Value
  | [] => []
  | v :: vs => strip v :: stripList vs

def stripEntries : List (String × Value) → List (String × Value)
  | [] => []
  | (k, v) :: es => (k, strip v) :: stripEntries es

end

mutual

def same : Value → Value → Bool
  | .null, .null => true
  | .bool a, .bool b => a == b
  | .text a, .text b => a == b
  | .list as, .list bs => sameList as bs
  | .record ⟨as⟩, .record ⟨bs⟩ => sameEntries as bs
  | .node ⟨a, ⟨as⟩, b, e⟩, .node ⟨a', ⟨as'⟩, b', e'⟩ =>
    a == a' && sameEntries as as' && b == b' && e == e'
  | _, _ => false

def sameList : List Value → List Value → Bool
  | [], [] => true
  | a :: as, b :: bs => same a b && sameList as bs
  | _, _ => false

def sameEntries : List (String × Value) → List (String × Value) → Bool
  | [], [] => true
  | (k, a) :: as, (l, b) :: bs => k == l && same a b && sameEntries as bs
  | _, _ => false

end

instance : BEq Value := ⟨same⟩

end Value

def NodeOf.strip (n : Node) : Node :=
  ⟨n.name, ⟨Value.stripEntries n.fields.entries⟩, none, none⟩

end PhpSyntax
