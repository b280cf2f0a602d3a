namespace PhpSyntax.Literal

/-- The value of a digit in a radix of at most sixteen. -/
def digitValue? (radix : Nat) (c : Char) : Option Nat :=
  let value :=
    if c.isDigit then c.toNat - '0'.toNat
    else if 'a' ≤ c ∧ c ≤ 'z' then c.toNat - 'a'.toNat + 10
    else if 'A' ≤ c ∧ c ≤ 'Z' then c.toNat - 'A'.toNat + 10
    else radix
  if value < radix then some value else none

/-- The value of digits, the most significant first. -/
def digitsValue? (radix : Nat) (digits : List Char) : Option Nat :=
  digits.foldlM (fun n c => (digitValue? radix c).map (n * radix + ·)) 0

/-- The values that an integer literal can have lie below this bound. -/
def integerBound : Nat :=
  Nat.pow 2 128

/-- The number that a numeral denotes; a plus sign may stand in front of its digits. -/
def numeralValue? (radix : Nat) (numeral : List Char) : Option Nat := do
  let digits := match numeral with
    | '+' :: digits => digits
    | digits => digits
  guard !digits.isEmpty
  let n ← digitsValue? radix digits
  guard (n < integerBound)
  return n

/-- The radix that the start of a literal announces, and the numeral behind it. -/
def radixOf? : List Char → Option (Nat × List Char)
  | '0' :: 'x' :: cs | '0' :: 'X' :: cs => some (16, cs)
  | '0' :: 'b' :: cs | '0' :: 'B' :: cs => some (2, cs)
  | '0' :: c :: cs => some (8, c :: cs)
  | _ => none

/-- Hexadecimal, binary and octal literals become decimal; what is no such literal, or has too great
a value, stays as it is. -/
def normalizeInteger (s : String) : String :=
  match radixOf? s.toList with
  | none => s
  | some (radix, numeral) =>
    match numeralValue? radix numeral with
    | some n => toString n
    | none => s

end PhpSyntax.Literal
