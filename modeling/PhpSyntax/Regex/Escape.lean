import PhpSyntax.Regex.Mode
import PhpSyntax.Regex.Property
import PhpSyntax.Regex.Syntax

namespace PhpSyntax.Regex

def isMeta (c : Char) : Bool :=
  c ∈ ['\\', '.', '+', '*', '?', '(', ')', '|', '[', ']', '\x7b', '\x7d', '^', '$', '#', '&', '-',
    '~']

/-- The text of a regex that matches exactly the given text. -/
def escape (s : String) : String :=
  String.ofList (s.toList.flatMap fun c => if isMeta c then ['\\', c] else [c])

def hexValue? (c : Char) : Option Nat :=
  if c.isDigit then some (c.toNat - '0'.toNat)
  else if 'a' ≤ c ∧ c ≤ 'f' then some (c.toNat - 'a'.toNat + 10)
  else if 'A' ≤ c ∧ c ≤ 'F' then some (c.toNat - 'A'.toNat + 10)
  else none

def scalar? (n : Nat) : Option Char :=
  if h : n.isValidChar then some (Char.ofNatAux n h) else none

/-- The character with the given hexadecimal code. -/
def hexChar? (digits : List Char) : Option Char := do
  guard !digits.isEmpty
  scalar? (← digits.foldlM (fun n d => do return n * 16 + (← hexValue? d)) 0)

/-- The character that a hexadecimal escape of `width` digits, or of any number in braces, names. In
ASCII, two digits are not enough for others. -/
def readHex (m : Mode) (width : Nat) (cs : List Char) : Option (Char × List Char) :=
  match m.skip cs with
  | '\x7b' :: cs =>
    match m.span (· != '\x7d') cs with
    | (digits, _ :: rest) => do return (← hexChar? digits, rest)
    | (_, []) => none
  | cs => do
    let (digits, rest) := readWhile (fun _ => true) width m.gaps cs
    guard (digits.length = width)
    let c ← hexChar? digits
    guard (!(m.ascii && width = 2 && 0x7F < c.toNat))
    return (c, rest)

/-- A set, or all characters but those of a set. ASCII sets have no complement among characters. -/
def signed? (m : Mode) (negated : Bool) (s : CharSet) : Option CharSet :=
  if !negated then some s else if m.ascii then none else some s.complement

/-- A set with all that is not told apart from its members. -/
def foldedIn (m : Mode) (s : CharSet) : CharSet :=
  if !m.caseless then s else if m.ascii then s.asciiFolded else s.folded

inductive Escape where
  | char (c : Char)
  | set (s : CharSet)
  | anchor (a : Anchor)

def wordEdge? : String → Option WordEdge
  | "start" => some .start
  | "end" => some .stop
  | "start-half" => some .startHalf
  | "end-half" => some .stopHalf
  | _ => none

/-- A word boundary, from behind its letter. Braces without a name belong to what follows. -/
def readBoundary (m : Mode) (cs : List Char) : Option (WordEdge × List Char) :=
  let isNamed (c : Char) : Bool := c.isAlpha || c == '-'
  match cs with
  | '\x7b' :: inside =>
    match m.span isNamed inside with
    | (_, []) => none
    | ([], _) => some (.boundary, cs)
    | (name, '\x7d' :: rest) => (wordEdge? (String.ofList name)).map (·, rest)
    | _ => none
  | _ => some (.boundary, cs)

/-- The set of a property by its name, or by its name and value, and whether it is turned round. -/
def property? (name : List Char) : Option (Bool × CharSet) :=
  let name := String.ofList name
  match name.splitOn "!=", name.splitOn ":", name.splitOn "=" with
  | p :: v :: vs, _, _ => (CharSet.value? p (String.intercalate "!=" (v :: vs))).map (true, ·)
  | _, p :: v :: vs, _ => (CharSet.value? p (String.intercalate ":" (v :: vs))).map (false, ·)
  | _, _, p :: v :: vs => (CharSet.value? p (String.intercalate "=" (v :: vs))).map (false, ·)
  | _, _, _ => (CharSet.property? name).map (false, ·)

/-- A property, from behind its letter: one letter more, or a name in braces. ASCII has none. -/
def readProperty (m : Mode) (negated : Bool) (cs : List Char) : Option (CharSet × List Char) := do
  guard !m.ascii
  let (name, rest) ← match m.skip cs with
    | [] => none
    | '\\' :: _ => none
    | '\x7b' :: cs =>
      match m.span (· != '\x7d') cs with
      | (name, _ :: rest) => some (name, rest)
      | (_, []) => none
    | c :: cs => some ([c], cs)
  let (turned, s) ← property? name
  return (← signed? m (negated != turned) (foldedIn m s), rest)

/-- What stands behind a backslash. Digits would refer back to a group, which no regex here can. -/
def readEscape (m : Mode) : List Char → Option (Escape × List Char)
  | [] => none
  | c :: cs =>
    let char (r : Option (Char × List Char)) := r.map fun (c, rest) => (Escape.char c, rest)
    let set (negated : Bool) (s : CharSet) : Option (Escape × List Char) :=
      (signed? m negated (if m.ascii then s.inter .ascii else s)).map (.set ·, cs)
    let edge (e : WordEdge) (rest : List Char) := some (Escape.anchor (.word m.ascii e), rest)
    match c with
    | 'x' => char (readHex m 2 cs)
    | 'u' => char (readHex m 4 cs)
    | 'U' => char (readHex m 8 cs)
    | 'd' => set false .digit
    | 'D' => set true .digit
    | 's' => set false .space
    | 'S' => set true .space
    | 'w' => set false .word
    | 'W' => set true .word
    | 'p' => (readProperty m false cs).map fun (s, rest) => (.set s, rest)
    | 'P' => (readProperty m true cs).map fun (s, rest) => (.set s, rest)
    | 'a' => some (.char '\x07', cs)
    | 'f' => some (.char '\x0c', cs)
    | 't' => some (.char '\t', cs)
    | 'n' => some (.char '\n', cs)
    | 'r' => some (.char '\r', cs)
    | 'v' => some (.char '\x0b', cs)
    | 'A' => some (.anchor .textStart, cs)
    | 'z' => some (.anchor .textEnd, cs)
    | 'b' => (readBoundary m cs).bind fun (e, rest) => edge e rest
    | 'B' => edge .noBoundary cs
    | '<' => edge .start cs
    | '>' => edge .stop cs
    | c => if c.toNat < 128 && !c.isAlphanum then some (.char c, cs) else none

end PhpSyntax.Regex
