import PhpSyntax.Literal.Integer
import PhpSyntax.Source.Text

namespace PhpSyntax.JsonScan

def isBlank (c : Char) : Bool :=
  c = ' ' || c = '\n' || c = '\t' || c = '\r'

def skipBlanks (cs : List Char) : List Char :=
  cs.dropWhile isBlank

def afterDigits? : List Char → Option (List Char)
  | c :: cs => if c.isDigit then some (cs.dropWhile Char.isDigit) else none
  | [] => none

/-- Behind the whole part of a number, which has no leading zero. -/
def afterWhole? : List Char → Option (List Char)
  | '0' :: cs => if cs.head?.any Char.isDigit then none else some cs
  | cs => afterDigits? cs

def afterFraction? : List Char → Option (List Char)
  | '.' :: cs => afterDigits? cs
  | cs => some cs

def skipSign : List Char → List Char
  | '+' :: cs => cs
  | '-' :: cs => cs
  | cs => cs

def afterExponent? : List Char → Option (List Char)
  | 'e' :: cs => afterDigits? (skipSign cs)
  | 'E' :: cs => afterDigits? (skipSign cs)
  | cs => some cs

def afterNumber? : List Char → Option (List Char)
  | '-' :: cs => ((afterWhole? cs).bind afterFraction?).bind afterExponent?
  | cs => ((afterWhole? cs).bind afterFraction?).bind afterExponent?

/-- A part of a string: a character, or a 16-bit code unit written in hexadecimal. -/
inductive Unit16 where
  | char (c : Char)
  | code (n : Nat)

/-- The character of a one-letter escape. -/
def escaped? : Char → Option Char
  | '\x22' => some '\x22'
  | '\\' => some '\\'
  | '/' => some '/'
  | 'b' => some '\x08'
  | 'f' => some '\x0c'
  | 'n' => some '\n'
  | 'r' => some '\r'
  | 't' => some '\t'
  | _ => none

/-- The parts of a string up to its closing quote, and what follows that. -/
def string? : List Char → Option (List Unit16 × List Char)
  | [] => none
  | '\x22' :: cs => some ([], cs)
  | '\\' :: 'u' :: a :: b :: c :: d :: cs => do
    let n ← Literal.digitsValue? 16 [a, b, c, d]
    let (units, rest) ← string? cs
    return (.code n :: units, rest)
  | '\\' :: c :: cs => do
    let c ← escaped? c
    let (units, rest) ← string? cs
    return (.char c :: units, rest)
  | c :: cs => do
    guard (32 ≤ c.toNat)
    let (units, rest) ← string? cs
    return (.char c :: units, rest)

def isHighSurrogate (n : Nat) : Bool :=
  0xD800 ≤ n && n < 0xDC00

def isLowSurrogate (n : Nat) : Bool :=
  0xDC00 ≤ n && n < 0xE000

/-- The text of a string, unless one half of a surrogate pair lacks the other. -/
def text? : List Unit16 → Option (List Char)
  | [] => some []
  | .char c :: units => (text? units).map (c :: ·)
  | .code n :: .code k :: units =>
    if isHighSurrogate n && isLowSurrogate k then
      (text? units).map (Char.ofNat (0x10000 + (n - 0xD800) * 0x400 + (k - 0xDC00)) :: ·)
    else if isHighSurrogate n || isLowSurrogate n then none
    else (text? (.code k :: units)).map (Char.ofNat n :: ·)
  | .code n :: units =>
    if isHighSurrogate n || isLowSurrogate n then none else (text? units).map (Char.ofNat n :: ·)

def nextString? (cs : List Char) : Option (List Unit16 × List Char) :=
  match skipBlanks cs with
  | '\x22' :: cs => string? cs
  | _ => none

def afterColon? (cs : List Char) : Option (List Char) :=
  afterText? [':'] (skipBlanks cs)

mutual

/-- Behind a value of any kind. -/
def afterValue? : Nat → List Char → Option (List Char)
  | 0, _ => none
  | fuel + 1, cs =>
    match skipBlanks cs with
    | '[' :: cs =>
      match skipBlanks cs with
      | ']' :: cs => some cs
      | cs => afterItems? fuel cs
    | '\x7b' :: cs =>
      match skipBlanks cs with
      | '\x7d' :: cs => some cs
      | cs => afterMembers? fuel cs
    | '\x22' :: cs => (string? cs).map (·.2)
    | 't' :: cs => afterText? ['r', 'u', 'e'] cs
    | 'f' :: cs => afterText? ['a', 'l', 's', 'e'] cs
    | 'n' :: cs => afterText? ['u', 'l', 'l'] cs
    | cs => afterNumber? cs

/-- Behind the items of an array and its closing bracket. -/
def afterItems? : Nat → List Char → Option (List Char)
  | 0, _ => none
  | fuel + 1, cs => do
    match skipBlanks (← afterValue? fuel cs) with
    | ',' :: cs => afterItems? fuel cs
    | ']' :: cs => some cs
    | _ => none

/-- Behind the members of an object and its closing brace. -/
def afterMembers? : Nat → List Char → Option (List Char)
  | 0, _ => none
  | fuel + 1, cs => do
    let (_, cs) ← nextString? cs
    match skipBlanks (← afterValue? fuel (← afterColon? cs)) with
    | ',' :: cs => afterMembers? fuel cs
    | '\x7d' :: cs => some cs
    | _ => none

end

/-- Enough fuel to walk over any value at the start of a text: a bracket takes two steps. -/
def fuelFor (cs : List Char) : Nat :=
  2 * cs.length + 2

/-- A truth value, and what follows it. -/
def bool? (cs : List Char) : Option (Bool × List Char) :=
  match skipBlanks cs with
  | 't' :: cs => (afterText? ['r', 'u', 'e'] cs).map (true, ·)
  | 'f' :: cs => (afterText? ['a', 'l', 's', 'e'] cs).map (false, ·)
  | _ => none

end PhpSyntax.JsonScan
