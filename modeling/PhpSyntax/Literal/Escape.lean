import PhpSyntax.Literal.Integer

namespace PhpSyntax.Literal

inductive EscapeSet where
  /-- Only the backslash and the single quote. -/
  | singleQuoted
  | doubleQuoted
  /-- As in double quotes, but the double quote itself is no escape. -/
  | heredoc
  deriving DecidableEq

/-- The character of a one-letter escape. -/
def simpleEscape? : Char → Option Char
  | 'n' => some '\n'
  | 'r' => some '\r'
  | 't' => some '\t'
  | 'v' => some '\x0b'
  | 'e' => some '\x1b'
  | 'f' => some '\x0c'
  | '\\' => some '\\'
  | '$' => some '$'
  | '\x22' => some '\x22'
  | _ => none

def isOctal (c : Char) : Bool :=
  '0' ≤ c && c ≤ '7'

def isHex (c : Char) : Bool :=
  (digitValue? 16 c).isSome

def charOfCode? (n : Nat) : Option Char :=
  if h : n.isValidChar then some (Char.ofNatAux n h) else none

/-- The digits at the start of a text, `most` of them at most. -/
def leading (p : Char → Bool) (most : Nat) (cs : List Char) : List Char :=
  (cs.take most).takeWhile p

/-- An escape found behind a backslash: how many characters it has there, and the text it stands
for, if any. -/
structure Escape where
  length : Nat
  meaning : Option (List Char)

/-- The escape that begins a text, which follows a backslash. -/
def escapeAt? (set : EscapeSet) (cs : List Char) : Option Escape :=
  match set, cs with
  | .singleQuoted, c :: _ => if c = '\\' ∨ c = '\x27' then some ⟨1, some [c]⟩ else none
  | _, [] => none
  | _, c :: rest =>
    match simpleEscape? c with
    | some d => some ⟨1, if c = '\x22' ∧ set = .heredoc then none else some [d]⟩
    | none =>
      let octal := leading isOctal 3 cs
      if !octal.isEmpty then
        some ⟨octal.length, (digitsValue? 8 octal).bind fun n => (charOfCode? (n % 256)).map ([·])⟩
      else if c = 'x' then
        let hex := leading isHex 2 rest
        if hex.isEmpty then none
        else some ⟨hex.length + 1, (digitsValue? 16 hex).bind fun n => (charOfCode? n).map ([·])⟩
      else match c, rest with
        | 'u', '\x7b' :: rest =>
          let hex := rest.takeWhile isHex
          if hex.isEmpty ∨ rest[hex.length]? ≠ some '\x7d' then none
          else some ⟨hex.length + 3, (digitsValue? 16 hex).bind fun n => (charOfCode? n).map ([·])⟩
        | _, _ => none

/-- Resolves escapes from left to right, behind `skip` characters that an escape has used up. -/
def unescapeFrom (set : EscapeSet) : Nat → List Char → List Char
  | _, [] => []
  | skip + 1, _ :: cs => unescapeFrom set skip cs
  | 0, c :: cs =>
    if c = '\\' then
      match escapeAt? set cs with
      | some e => e.meaning.getD ('\\' :: cs.take e.length) ++ unescapeFrom set e.length cs
      | none => '\\' :: unescapeFrom set 0 cs
    else c :: unescapeFrom set 0 cs

namespace EscapeSet

def apply (set : EscapeSet) (s : String) : String :=
  String.ofList (unescapeFrom set 0 s.toList)

end EscapeSet

end PhpSyntax.Literal
