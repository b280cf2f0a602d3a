import PhpSyntax.Unicode.CaseFold
import PhpSyntax.Unicode.Digit
import PhpSyntax.Unicode.Space
import PhpSyntax.Unicode.Word

namespace PhpSyntax

structure CharSet where
  ranges : List Unicode.Range
  deriving DecidableEq

namespace CharSet

def has (s : CharSet) (c : Char) : Bool :=
  Unicode.covers s.ranges c.toNat

def greatest : Nat := 0x10FFFF

/-- The code point behind `n`, past those that are no characters. -/
def next (n : Nat) : Nat :=
  if n = 0xD7FF then 0xE000 else n + 1

/-- The code point in front of `n`, past those that are no characters. -/
def previous (n : Nat) : Nat :=
  if n = 0xE000 then 0xD7FF else n - 1

/-- Joins ranges that touch, among ranges in the order of their starts. -/
def join : List Unicode.Range → List Unicode.Range
  | [] => []
  | r :: rest => joinFrom r rest
where
  joinFrom (r : Unicode.Range) : List Unicode.Range → List Unicode.Range
    | [] => [r]
    | q :: rest =>
      if q.1 ≤ r.2 + 1 then joinFrom (r.1, max r.2 q.2) rest else r :: joinFrom q rest

/-- Puts a range in front of the first that does not start before it. -/
def place (r : Unicode.Range) : List Unicode.Range → List Unicode.Range
  | [] => [r]
  | q :: rest => if r.1 ≤ q.1 then r :: q :: rest else q :: place r rest

def sorted (ranges : List Unicode.Range) : List Unicode.Range :=
  ranges.foldr place []

def ofRanges (ranges : List Unicode.Range) : CharSet :=
  ⟨join (sorted ranges)⟩

def none : CharSet := ⟨[]⟩

def all : CharSet := ⟨[(0, greatest)]⟩

def range (lo hi : Char) : CharSet := ⟨[(lo.toNat, hi.toNat)]⟩

def single (c : Char) : CharSet := range c c

def union (a b : CharSet) : CharSet :=
  ofRanges (a.ranges ++ b.ranges)

def unionAll (sets : List CharSet) : CharSet :=
  ofRanges (sets.flatMap (·.ranges))

/-- The gaps between ranges from a code point on. -/
def gaps (start : Nat) : List Unicode.Range → List Unicode.Range
  | [] => if start ≤ greatest then [(start, greatest)] else []
  | (lo, hi) :: rest =>
    if start < lo then (start, previous lo) :: gaps (next hi) rest else gaps (next hi) rest

def complement (s : CharSet) : CharSet :=
  ⟨gaps 0 s.ranges⟩

def inter (a b : CharSet) : CharSet :=
  (a.complement.union b.complement).complement

def diff (a b : CharSet) : CharSet :=
  a.inter b.complement

/-- The characters that simple case folding identifies with `c`. -/
def orbit (c : Char) : CharSet :=
  ofRanges ((Unicode.caseOrbit c).map fun d => (d.toNat, d.toNat))

/-- The characters that simple case folding identifies with a member. -/
def folded (s : CharSet) : CharSet :=
  ofRanges (s.ranges ++
    (Unicode.foldImages (Unicode.covers s.ranges)).map fun n => (n, n))

/-- A set of ASCII characters with the letters of both cases for each of its letters. -/
def asciiFolded (s : CharSet) : CharSet :=
  ofRanges (s.ranges ++ (List.range 26).flatMap fun i =>
    let (upper, lower) := (0x41 + i, 0x61 + i)
    if Unicode.covers s.ranges upper || Unicode.covers s.ranges lower then
      [(upper, upper), (lower, lower)]
    else [])

def member? (s : CharSet) : Option Char :=
  match s.ranges with
  | [(lo, hi)] => if lo = hi then some (Char.ofNat lo) else Option.none
  | _ => Option.none

def isAscii (s : CharSet) : Bool :=
  s.ranges.all (·.2 ≤ 0x7F)

def ascii : CharSet := ⟨[(0, 0x7F)]⟩

def word : CharSet :=
  ⟨[(0x30, 0x39), (0x41, 0x5A), (0x5F, 0x5F), (0x61, 0x7A)] ++ Unicode.wideWordRanges⟩

def digit : CharSet :=
  ⟨(0x30, 0x39) :: Unicode.wideDigitRanges⟩

def space : CharSet :=
  ⟨Unicode.spaceRanges⟩

/-- The set of ASCII characters that has the given name. -/
def asciiClass? : String → Option CharSet
  | "alnum" => some ⟨[(0x30, 0x39), (0x41, 0x5A), (0x61, 0x7A)]⟩
  | "alpha" => some ⟨[(0x41, 0x5A), (0x61, 0x7A)]⟩
  | "ascii" => some ascii
  | "blank" => some ⟨[(0x09, 0x09), (0x20, 0x20)]⟩
  | "cntrl" => some ⟨[(0x00, 0x1F), (0x7F, 0x7F)]⟩
  | "digit" => some ⟨[(0x30, 0x39)]⟩
  | "graph" => some ⟨[(0x21, 0x7E)]⟩
  | "lower" => some ⟨[(0x61, 0x7A)]⟩
  | "print" => some ⟨[(0x20, 0x7E)]⟩
  | "punct" => some ⟨[(0x21, 0x2F), (0x3A, 0x40), (0x5B, 0x60), (0x7B, 0x7E)]⟩
  | "space" => some ⟨[(0x09, 0x0D), (0x20, 0x20)]⟩
  | "upper" => some ⟨[(0x41, 0x5A)]⟩
  | "word" => some ⟨[(0x30, 0x39), (0x41, 0x5A), (0x5F, 0x5F), (0x61, 0x7A)]⟩
  | "xdigit" => some ⟨[(0x30, 0x39), (0x41, 0x46), (0x61, 0x66)]⟩
  | _ => Option.none

end CharSet

end PhpSyntax
