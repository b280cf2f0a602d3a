import PhpSyntax.Source.Text

namespace PhpSyntax

/-- A stretch of bytes, from `start` up to `stop`. -/
structure Span where
  start : Nat
  stop : Nat
  deriving DecidableEq

namespace Span

def length (s : Span) : Nat :=
  s.stop - s.start

def isEmpty (s : Span) : Bool :=
  s.length == 0

/-- The same stretch in a text that begins `base` bytes earlier. -/
def shift (s : Span) (base : Nat) : Span :=
  ⟨s.start + base, s.stop + base⟩

end Span

structure Position where
  offset : Nat
  line : Nat
  column : Nat
  deriving DecidableEq

/-- Where a node starts and ends. -/
structure Bounds where
  start : Position
  stop : Position
  deriving DecidableEq

/-- Where a node starts, and the number of its bytes. -/
structure Extent where
  offset : Nat
  line : Nat
  column : Nat
  length : Nat
  deriving DecidableEq

def Extent.stop (e : Extent) : Nat :=
  e.offset + e.length

/-- The offsets right behind each line terminator of a text that starts at `offset`. -/
def lineStartsFrom (offset : Nat) : List Char → List Nat
  | [] => []
  | '\r' :: '\n' :: cs => (offset + 2) :: lineStartsFrom (offset + 2) cs
  | c :: cs =>
    if c = '\r' ∨ c = '\n' then (offset + 1) :: lineStartsFrom (offset + 1) cs
    else lineStartsFrom (offset + c.utf8Size) cs

/-- A source text with the starts of its lines after the first. -/
structure Lines where
  source : Text
  starts : List Nat

namespace Lines

def ofText (t : Text) : Lines :=
  ⟨t, lineStartsFrom 0 t.chars⟩

/-- The number and the start of the last line that begins at or before `offset`, given a line that
does and the starts of the lines behind it. -/
def locate (offset : Nat) : Nat → Nat → List Nat → Nat × Nat
  | line, start, [] => (line, start)
  | line, start, next :: rest =>
    if next ≤ offset then locate offset (line + 1) next rest else (line, start)

/-- An offset past the end counts as the end. Inside a character the column counts bytes. -/
def position (ls : Lines) (offset : Nat) : Position :=
  let offset := min offset ls.source.size
  let (line, start) := locate offset 1 0 ls.starts
  ⟨offset, line, (ls.source.distance? start offset).getD (offset - start) + 1⟩

def line (ls : Lines) (offset : Nat) : Nat :=
  (ls.position offset).line

def bounds (ls : Lines) (s : Span) : Bounds :=
  ⟨ls.position s.start, ls.position s.stop⟩

def extent (ls : Lines) (s : Span) : Extent :=
  let p := ls.position s.start
  ⟨p.offset, p.line, p.column, s.length⟩

end Lines

end PhpSyntax
