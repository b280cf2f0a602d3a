import PhpSyntax.Unicode.Space

namespace PhpSyntax.Regex

/-- The switches that hold while a part of a regex is read. -/
structure Mode where
  caseless : Bool
  dotAll : Bool
  multiLine : Bool
  swapGreed : Bool
  /-- Carriage returns end lines, too. -/
  returns : Bool
  /-- Sets, words and case are those of ASCII. -/
  ascii : Bool
  /-- Blanks and comments are passed over. -/
  verbose : Bool

def Mode.start (caseless : Bool) : Mode :=
  ⟨caseless, false, false, false, false, false, false⟩

/-- What is passed over in front of a character. -/
inductive Gaps where
  | nothing
  | blanks
  /-- The rest of a comment, and blanks. -/
  | comment

def Mode.gaps (m : Mode) : Gaps :=
  if m.verbose then .blanks else .nothing

/-- What is passed over behind a character that is itself passed over. -/
def Gaps.pass? : Gaps → Char → Option Gaps
  | nothing, _ => none
  | blanks, c =>
    if Unicode.isSpace c then some blanks else if c = '#' then some comment else none
  | comment, c => some (if c = '\n' then blanks else comment)

/-- Up to `most` characters as long as they meet `p`, gaps apart, and what follows. -/
def readWhile (p : Char → Bool) : Nat → Gaps → List Char → List Char × List Char
  | _, _, [] => ([], [])
  | most, gaps, c :: cs =>
    match gaps.pass? c, most with
    | some gaps, _ => readWhile p most gaps cs
    | none, 0 => ([], c :: cs)
    | none, most + 1 =>
      if p c then
        let (front, rest) := readWhile p most gaps cs
        (c :: front, rest)
      else ([], c :: cs)

namespace Mode

/-- Everything from the next character on that counts. -/
def skip (m : Mode) (cs : List Char) : List Char :=
  (readWhile (fun _ => false) 0 m.gaps cs).2

/-- The characters as long as they meet `p`, and what follows. -/
def span (m : Mode) (p : Char → Bool) (cs : List Char) : List Char × List Char :=
  readWhile p cs.length m.gaps cs

end Mode

end PhpSyntax.Regex
