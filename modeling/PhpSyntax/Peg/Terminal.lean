import PhpSyntax.Literal.Escape
import PhpSyntax.Regex.Match
import PhpSyntax.Unicode.CaseMap

namespace PhpSyntax.Peg

inductive Transform where
  | none
  | lowercase
  | uppercase
  /-- Hexadecimal, binary and octal literals become decimal. -/
  | integer
  | escapes (set : Literal.EscapeSet)

def Transform.apply : Transform → String → String
  | .none, s => s
  | .lowercase, s => Unicode.lower s
  | .uppercase, s => Unicode.upper s
  | .integer, s => Literal.normalizeInteger s
  | .escapes set, s => set.apply s

structure Terminal where
  /-- The text of the regex. -/
  source : String
  caseless : Bool
  /-- The group that the terminal yields; 0 is the whole match. -/
  group : Nat
  transform : Transform

namespace Terminal

def ofSource (source : String) : Terminal :=
  ⟨source, false, 0, .none⟩

def withGroup (t : Terminal) (group : Nat) : Terminal :=
  { t with group := group }

def withTransform (t : Terminal) (transform : Transform) : Terminal :=
  { t with transform := transform }

def ignoringCase (t : Terminal) : Terminal :=
  { t with caseless := true }

def literal (s : String) : Terminal :=
  ofSource (Regex.escape s)

/-- A keyword in any case that no word character follows; yields it in lower case. -/
def keyword (word : String) : Terminal :=
  ((ofSource (Regex.escape word ++ "\\b")).ignoringCase).withTransform .lowercase

/-- The program of the regex, held to the start of the text. -/
def program? (t : Terminal) : Option Regex.Program :=
  Regex.Program.ofString? ("\\A(?:" ++ t.source ++ ")") t.caseless

def describe (t : Terminal) : String :=
  "/" ++ t.source ++ "/" ++ (if t.caseless then "i" else "")
    ++ (if t.group = 0 then "" else "[" ++ toString t.group ++ "]")

end Terminal

/-- A terminal whose regex has been read. -/
structure Lexeme extends Terminal where
  program : Regex.Program

namespace Lexeme

/-- The number of bytes matched at the start of a text of `size` bytes. -/
def matchLength? (t : Lexeme) (cs : List Char) (size : Nat) : Option Nat :=
  (t.program.find? false cs size).map (·.stop)

/-- The number of bytes matched at the start of a text, and the text yielded. -/
def matchAt? (t : Lexeme) (cs : List Char) (size : Nat) : Option (Nat × String) :=
  (t.program.find? (t.group != 0) cs size).map fun f =>
    (f.stop, t.transform.apply (f.text t.group))

end Lexeme

def Terminal.lexeme? (t : Terminal) : Option Lexeme :=
  t.program?.map (⟨t, ·⟩)

/-- What can stand for a terminal in a pattern: it can tell whether it matches the empty text. -/
class MatchesEmpty (τ : Type) where
  matchesEmpty : τ → Bool

export MatchesEmpty (matchesEmpty)

instance : MatchesEmpty Lexeme where
  matchesEmpty t := (t.matchLength? [] 0).isSome

/-- A terminal whose regex cannot be read matches nothing. -/
instance : MatchesEmpty Terminal where
  matchesEmpty t := t.lexeme?.any matchesEmpty

end PhpSyntax.Peg
