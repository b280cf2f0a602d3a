import PhpSyntax.Literal.Integer

namespace PhpSyntax.Yaml

def isNullWord (s : String) : Bool :=
  s ∈ ["", "null", "Null", "NULL", "~"]

def isBoolWord (s : String) : Bool :=
  s ∈ ["true", "True", "TRUE", "false", "False", "FALSE"]

def unsigned : List Char → List Char
  | '+' :: cs => cs
  | '-' :: cs => cs
  | cs => cs

/-- Digits with a zero in front, which read as a text in one version of the format and as a number
in another. -/
def isPaddedDigits (cs : List Char) : Bool :=
  match unsigned cs with
  | '0' :: d :: ds => (d :: ds).all Char.isDigit
  | _ => false

/-- The radix that an integer announces, and the digits behind it. -/
def radixDigits : List Char → Nat × List Char
  | '0' :: 'x' :: cs => (16, cs)
  | '0' :: 'o' :: cs => (8, cs)
  | '0' :: 'b' :: cs => (2, cs)
  | cs => (10, cs)

def magnitude? (cs : List Char) : Option Nat :=
  let (radix, digits) := radixDigits cs
  if digits.isEmpty then none else Literal.digitsValue? radix digits

/-- Integers of 128 bits, with a sign in front of their radix. -/
def isInteger : List Char → Bool
  | '-' :: cs => (magnitude? cs).any (· ≤ Nat.pow 2 127)
  | '+' :: cs => (magnitude? cs).any (· < Nat.pow 2 128)
  | cs => (magnitude? cs).any (· < Nat.pow 2 128)

def isInfinityOrNan (cs : List Char) : Bool :=
  String.ofList cs ∈ [".inf", ".Inf", ".INF", "+.inf", "+.Inf", "+.INF", "-.inf", "-.Inf", "-.INF",
    ".nan", ".NaN", ".NAN"]

/-- An exponent at the end of a number, zero if there is none. -/
def exponent? : List Char → Option Int
  | [] => some 0
  | c :: cs =>
    if c = 'e' ∨ c = 'E' then
      let digits := unsigned cs
      if digits.isEmpty then none
      else (Literal.digitsValue? 10 digits).map fun n =>
        if cs.head? = some '-' then -(n : Int) else n
    else none

/-- The digits of a number taken as an integer, and the power of ten to scale it by. -/
def decimal? (cs : List Char) : Option (List Char × Int) :=
  let (whole, rest) := cs.span Char.isDigit
  let (fraction, rest) := match rest with
    | '.' :: rest => rest.span Char.isDigit
    | rest => ([], rest)
  if whole.isEmpty && fraction.isEmpty then none
  else (exponent? rest).map fun e => (whole ++ fraction, e - fraction.length)

/-- The least value that is rounded beyond the greatest number of double precision. -/
def overflowBound : Nat :=
  Nat.pow 2 1024 - Nat.pow 2 970

/-- Whether the value of digits, scaled by a power of ten, has a number of double precision near
it. Only values close to the bound need to be worked out. -/
def isFinite (digits : List Char) (power : Int) : Bool :=
  let digits := digits.dropWhile (· == '0')
  let size := digits.length + power
  if digits.isEmpty ∨ size < 300 then true
  else if 320 < size then false
  else
    let value := (Literal.digitsValue? 10 digits).getD 0
    match power with
    | .ofNat p => value * Nat.pow 10 p < overflowBound
    | .negSucc p => value < overflowBound * Nat.pow 10 (p + 1)

def isDecimal (cs : List Char) : Bool :=
  match decimal? cs with
  | some (digits, power) => isFinite digits power
  | none => false

def isFloat (cs : List Char) : Bool :=
  isInfinityOrNan cs || isDecimal (unsigned cs)

/-- Whether a text in plain style would not read as itself. -/
def readsAsOther (s : String) : Bool :=
  let cs := s.toList
  isNullWord s || isBoolWord s || isPaddedDigits cs || isInteger cs || isFloat cs

end PhpSyntax.Yaml
