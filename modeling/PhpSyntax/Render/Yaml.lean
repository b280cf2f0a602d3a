import PhpSyntax.Render.Document
import PhpSyntax.Render.Scalar

namespace PhpSyntax.Yaml

namespace Written

def ofString (s : String) : Written :=
  ⟨s.toList, false⟩

/-- What is written behind other text on its line. -/
def after (lead : List Char) (w : Written) : Written :=
  ⟨lead ++ w.text, w.fresh⟩

/-- What is written on a line of its own; the text in front is at the start of one if `fresh`. -/
def onNextLine (fresh : Bool) (indent : Nat) (w : Written) : Written :=
  w.after ((if fresh then [] else ['\n']) ++ spaces indent)

/-- A part, and what follows it; that depends on whether a line has begun. -/
def followedBy (w : Written) (rest : Bool → Written) : Written :=
  (rest w.fresh).after w.text

end Written

def keyText (key : String) : List Char :=
  match styleOf key with
  | .block => doubleQuoted key.toList
  | _ => (writeText 0 key).text

/-- The indentation of the lines of a value whose key is at `indent`. -/
def valueIndent (indent : Nat) : Document → Nat
  | .list (_ :: _) => indent
  | _ => indent + 2

/-- A value begins behind its key, or on the next line if it has items or members. -/
def valueLead (indent : Nat) : Document → List Char
  | .list (_ :: _) => '\n' :: spaces indent
  | .object (_ :: _) => '\n' :: spaces (indent + 2)
  | _ => [' ']

mutual

/-- A document that begins where it is put and has its further lines at the given indentation. -/
def write (indent : Nat) : Document → Written
  | .null => .ofString "null"
  | .bool b => .ofString (if b then "true" else "false")
  | .number n => .ofString (toString n)
  | .text s => writeText indent s
  | .list [] => .ofString "[]"
  | .list (d :: ds) =>
    ((write (indent + 2) d).after ['-', ' ']).followedBy fun fresh => writeItems indent fresh ds
  | .object [] => .ofString "\x7b\x7d"
  | .object ((k, d) :: ms) =>
    ((write (valueIndent indent d) d).after (keyText k ++ ':' :: valueLead indent d)).followedBy
      fun fresh => writeMembers indent fresh ms

/-- Further items, each on a line of its own. -/
def writeItems (indent : Nat) (fresh : Bool) : List Document → Written
  | [] => ⟨[], fresh⟩
  | d :: ds =>
    (((write (indent + 2) d).after ['-', ' ']).onNextLine fresh indent).followedBy
      fun fresh => writeItems indent fresh ds

/-- Further members, each on a line of its own. -/
def writeMembers (indent : Nat) (fresh : Bool) : List (String × Document) → Written
  | [] => ⟨[], fresh⟩
  | (k, d) :: ms =>
    (((write (valueIndent indent d) d).after (keyText k ++ ':' :: valueLead indent d)).onNextLine
      fresh indent).followedBy fun fresh => writeMembers indent fresh ms

end

/-- A whole document, with a line break at its end. -/
def render (d : Document) : String :=
  let w := write 0 d
  String.ofList (w.text ++ if w.fresh then [] else ['\n'])

end PhpSyntax.Yaml
