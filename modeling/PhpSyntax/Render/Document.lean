import PhpSyntax.Tree.Value

namespace PhpSyntax

inductive Document where
  | null
  | bool (b : Bool)
  | number (n : Nat)
  | text (s : String)
  | list (items : List Document)
  /-- Members in writing order; a key may come again. -/
  | object (members : List (String × Document))

instance : Inhabited Document := ⟨.null⟩

namespace Document

def ofPosition (p : Position) : Document :=
  .object [("offset", .number p.offset), ("line", .number p.line), ("column", .number p.column)]

def ofBounds (b : Bounds) : Document :=
  .object [("start", ofPosition b.start), ("end", ofPosition b.stop)]

def ofExtent (e : Extent) : Document :=
  .object [("offset", .number e.offset), ("line", .number e.line), ("column", .number e.column),
    ("length", .number e.length)]

def placeMembers (bounds : Option Bounds) (extent : Option Extent) : List (String × Document) :=
  (bounds.map fun b => ("bounds", ofBounds b)).toList
    ++ (extent.map fun e => ("offset", ofExtent e)).toList

mutual

/-- A node is its name, its fields and its place. -/
def ofValue : Value → Document
  | .null => .null
  | .bool b => .bool b
  | .text s => .text s
  | .list items => .list (ofValues items)
  | .record ⟨es⟩ => .object (ofEntries es)
  | .node ⟨name, ⟨es⟩, bounds, extent⟩ =>
    .object (("name", .text name) :: ofEntries es ++ placeMembers bounds extent)

def ofValues : List Value → List Document
  | [] => []
  | v :: vs => ofValue v :: ofValues vs

def ofEntries : List (String × Value) → List (String × Document)
  | [] => []
  | (k, v) :: es => (k, ofValue v) :: ofEntries es

end

def ofNode (n : Node) : Document :=
  ofValue (.node n)

end Document

end PhpSyntax
