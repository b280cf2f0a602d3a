namespace PhpSyntax.Regex

/-- The bytes from the first to the second, both included. -/
abbrev ByteRange := Nat × Nat

/-- The bytes of a code point. -/
def encode (n : Nat) : List Nat :=
  if n < 0x80 then [n]
  else if n < 0x800 then [0xC0 + n / 0x40, 0x80 + n % 0x40]
  else if n < 0x10000 then [0xE0 + n / 0x1000, 0x80 + n / 0x40 % 0x40, 0x80 + n % 0x40]
  else [0xF0 + n / 0x40000, 0x80 + n / 0x1000 % 0x40, 0x80 + n / 0x40 % 0x40, 0x80 + n % 0x40]

/-- Where a range has to be cut for all of its characters to have as many bytes. -/
def lengthCut? (lo hi : Nat) : Option Nat :=
  [0x7F, 0x7FF, 0xFFFF].find? fun n => lo ≤ n && n < hi

/-- Where a range has to be cut for its last bytes to vary on their own; it starts or stops within a
block of characters with the same first bytes. -/
def blockCut? (lo hi : Nat) : Option Nat :=
  [0x40, 0x1000, 0x40000].findSome? fun block =>
    if lo / block = hi / block then none
    else if lo % block ≠ 0 then some (lo / block * block + (block - 1))
    else if hi % block ≠ block - 1 then some (hi / block * block - 1)
    else none

/-- The sequences of a range of code points, in order; `fuel` bounds how often it is cut. -/
def byteRangesFrom : Nat → Nat → Nat → List (List ByteRange)
  | 0, _, _ => []
  | fuel + 1, lo, hi =>
    if lo < 0xE000 ∧ 0xD7FF < hi then byteRangesFrom fuel lo 0xD7FF ++ byteRangesFrom fuel 0xE000 hi
    else if hi < lo then []
    else match (lengthCut? lo hi).or (if hi ≤ 0x7F then none else blockCut? lo hi) with
      | some n => byteRangesFrom fuel lo n ++ byteRangesFrom fuel (n + 1) hi
      | none => [(encode lo).zip (encode hi)]

def byteRanges (lo hi : Nat) : List (List ByteRange) :=
  byteRangesFrom 32 lo hi

end PhpSyntax.Regex
