import PhpSyntax.Render.Resolve

namespace PhpSyntax.Yaml

def isBreak (c : Char) : Bool :=
  c ∈ ['\n', '\r', Char.ofNat 0x85, Char.ofNat 0x2028, Char.ofNat 0x2029]

/-- Whether a character, or the end of the text, separates words. -/
def separates : Option Char → Bool
  | none => true
  | some c => c == ' ' || c == '\t' || c == '\x00' || isBreak c

/-- The characters that may be written as they are. -/
def isPrintable (c : Char) : Bool :=
  let n := c.toNat
  n == 0x0A || (0x20 ≤ n && n ≤ 0x7E) || (0xA0 ≤ n && n != 0xFEFF && n != 0xFFFE && n != 0xFFFF)

/-- The characters that mean something at the start of a plain scalar. -/
def startsMarkup (c : Char) : Bool :=
  c ∈ ['#', ',', '[', ']', '\x7b', '\x7d', '&', '*', '!', '|', '>', '\x27', '\x22', '%', '@',
    '\x60']

/-- Whether the first character of a text, followed by `next`, keeps it from being plain. -/
def firstIndicates (c : Char) (next : Option Char) : Bool :=
  startsMarkup c || ((c == '?' || c == ':' || c == '-') && separates next)

/-- Whether a colon or number sign inside a text keeps it from being plain; `before` is the
character in front of the text. -/
def innerIndicates (before : Char) : List Char → Bool
  | [] => false
  | c :: cs =>
    (c == ':' && separates cs.head?) || (c == '#' && separates (some before))
      || innerIndicates c cs

def holdsIndicators : List Char → Bool
  | [] => false
  | c :: cs =>
    (c == '-' && cs.take 2 == ['-', '-']) || (c == '.' && cs.take 2 == ['.', '.'])
      || firstIndicates c cs.head? || innerIndicates c cs

/-- Whether a character of the first kind stands right in front of one of the second. -/
def adjoins (first second : Char → Bool) : List Char → Bool
  | c :: d :: cs => (first c && second d) || adjoins first second (d :: cs)
  | _ => false

def isBlank (c : Char) : Bool :=
  c == ' '

/-- Blanks in front of a line break, or characters that must be escaped. -/
def needsEscapes (cs : List Char) : Bool :=
  cs.any (!isPrintable ·) || adjoins isBlank isBreak cs

/-- Whether one of the ends of a text is a blank or a line break. -/
def hasLooseEnd (cs : List Char) : Bool :=
  let loose (c : Option Char) := c.any fun c => isBlank c || isBreak c
  loose cs.head? || loose cs.getLast?

inductive Style where
  | plain
  | singleQuoted
  | doubleQuoted
  | block
  deriving DecidableEq

/-- The style that shows a text as it is. -/
def styleOf (s : String) : Style :=
  let cs := s.toList
  if cs.isEmpty then .singleQuoted
  else if needsEscapes cs then .doubleQuoted
  else if cs.contains '\n' then
    if cs.getLast?.any isBlank then .doubleQuoted else .block
  else if readsAsOther s || holdsIndicators cs || hasLooseEnd cs || cs.any isBreak then
    if adjoins isBreak isBlank cs then .doubleQuoted else .singleQuoted
  else .plain

/-- A written part: its text, and whether the text ends with a line break. -/
structure Written where
  text : List Char
  fresh : Bool

def spaces (n : Nat) : List Char :=
  List.replicate n ' '

/-- The lines of a text, each indented unless it is empty; `fresh` tells that a line begins. -/
def indentLines (indent : Nat) : Bool → List Char → List Char
  | _, [] => []
  | fresh, c :: cs =>
    if isBreak c then c :: indentLines indent true cs
    else if fresh then spaces indent ++ c :: indentLines indent false cs
    else c :: indentLines indent false cs

/-- How the breaks at the end of a block are to be read: dropped, one kept, or all kept. -/
def chomping (cs : List Char) : List Char :=
  match cs.reverse with
  | [] => ['-']
  | c :: before =>
    if isBreak c then
      if before.head?.all isBreak then ['+'] else []
    else ['-']

/-- A block tells its indentation where its own text begins with blanks or breaks. -/
def writeBlock (indent : Nat) (cs : List Char) : Written :=
  let hint := if cs.head?.any fun c => isBlank c || isBreak c then ['2'] else []
  ⟨'|' :: hint ++ chomping cs ++ '\n' :: indentLines indent true cs, cs.getLast?.any isBreak⟩

/-- The text of a single-quoted scalar behind its opening quote; a quote is written twice. -/
def singleQuotedBody (indent : Nat) : Bool → List Char → List Char
  | fresh, [] => (if fresh then spaces indent else []) ++ ['\x27']
  | fresh, c :: cs =>
    if isBreak c then c :: singleQuotedBody indent true cs
    else (if fresh then spaces indent else []) ++ (if c = '\x27' then ['\x27', c] else [c])
      ++ singleQuotedBody indent false cs

def upperHex (n : Nat) : Char :=
  if n < 10 then Char.ofNat ('0'.toNat + n) else Char.ofNat ('A'.toNat + (n - 10))

/-- The last `width` hexadecimal digits of a number. -/
def hexDigits : Nat → Nat → List Char
  | 0, _ => []
  | width + 1, n => hexDigits width (n / 16) ++ [upperHex (n % 16)]

/-- The letter of a short escape. -/
def escapeLetter? (c : Char) : Option Char :=
  match c.toNat with
  | 0x00 => some '0'
  | 0x07 => some 'a'
  | 0x08 => some 'b'
  | 0x09 => some 't'
  | 0x0A => some 'n'
  | 0x0B => some 'v'
  | 0x0C => some 'f'
  | 0x0D => some 'r'
  | 0x1B => some 'e'
  | 0x22 => some '\x22'
  | 0x5C => some '\\'
  | 0x85 => some 'N'
  | 0x2028 => some 'L'
  | 0x2029 => some 'P'
  | _ => none

def escapeChar (c : Char) : List Char :=
  if isPrintable c && !isBreak c && c != '\x22' && c != '\\' then [c]
  else match escapeLetter? c with
    | some letter => ['\\', letter]
    | none =>
      if c.toNat ≤ 0xFF then '\\' :: 'x' :: hexDigits 2 c.toNat
      else if c.toNat ≤ 0xFFFF then '\\' :: 'u' :: hexDigits 4 c.toNat
      else '\\' :: 'U' :: hexDigits 8 c.toNat

def doubleQuoted (cs : List Char) : List Char :=
  '\x22' :: cs.flatMap escapeChar ++ ['\x22']

/-- A text as a scalar whose further lines have the given indentation. -/
def writeText (indent : Nat) (s : String) : Written :=
  let cs := s.toList
  match styleOf s with
  | .plain => ⟨cs, false⟩
  | .singleQuoted => ⟨'\x27' :: singleQuotedBody indent false cs, false⟩
  | .doubleQuoted => ⟨doubleQuoted cs, false⟩
  | .block => writeBlock indent cs

end PhpSyntax.Yaml
