import PhpSyntax.Regex.CharSet

namespace PhpSyntax

/-- How a place stands between word characters and others. -/
inductive WordEdge where
  | boundary
  | noBoundary
  | start
  | stop
  /-- No word character is in front. -/
  | startHalf
  /-- No word character follows. -/
  | stopHalf
  deriving DecidableEq

/-- Whether a place with or without a word character in front and behind is such an edge. -/
def WordEdge.holds (before after : Bool) : WordEdge → Bool
  | boundary => before != after
  | noBoundary => before == after
  | start => !before && after
  | stop => before && !after
  | startHalf => !before
  | stopHalf => !after

/-- A condition on a place in a text that takes no characters. Lines end with a line feed and, if
there are `returns`, with a carriage return. Words are of all letters or of those of ASCII. -/
inductive Anchor where
  | textStart
  | textEnd
  | lineStart (returns : Bool)
  | lineEnd (returns : Bool)
  | word (ascii : Bool) (edge : WordEdge)
  deriving DecidableEq

/-- Whether an anchor tells word characters beyond ASCII from others. -/
def Anchor.seesWords : Anchor → Bool
  | word ascii _ => !ascii
  | _ => false

inductive Regex where
  | empty
  | text (cs : List Char)
  | set (s : CharSet)
  | anchor (a : Anchor)
  | seq (first second : Regex)
  /-- The second alternative counts only where the first leads to no match. -/
  | alt (first second : Regex)
  /-- At least `least` and at most `most` rounds, many before few if `greedy`. -/
  | rounds (least : Nat) (most : Option Nat) (greedy : Bool) (body : Regex)
  | group (index : Nat) (body : Regex)
  deriving DecidableEq

namespace Regex

def never : Regex := .set .none

def ofSet (s : CharSet) : Regex :=
  match s.member? with
  | some c => .text [c]
  | none => .set s

/-- Whether every match is empty. -/
def takesNothing : Regex → Bool
  | .empty => true
  | .text _ => false
  | .set _ => false
  | .anchor _ => true
  | .seq a b => a.takesNothing && b.takesNothing
  | .alt a b => a.takesNothing && b.takesNothing
  | .rounds _ _ _ body => body.takesNothing
  | .group _ body => body.takesNothing

/-- A lower bound on the characters of a match; there is none if a part matches nowhere. -/
def shortest? : Regex → Option Nat
  | .empty => some 0
  | .text cs => some cs.length
  | .set s => if s.ranges.isEmpty then none else some 1
  | .anchor _ => some 0
  | .seq a b => do return (← a.shortest?) + (← b.shortest?)
  | .alt a b => do return min (← a.shortest?) (← b.shortest?)
  | .rounds least _ _ body => body.shortest?.map (· * least)
  | .group _ body => body.shortest?

/-- Whether every match takes at least a character. -/
def takesSome (r : Regex) : Bool :=
  r.shortest?.any (0 < ·)

/-- Whether every match begins at the start of the text. -/
def startsText : Regex → Bool
  | .anchor .textStart => true
  | .seq a b => a.startsText || (a.takesNothing && b.startsText)
  | .alt a b => a.startsText && b.startsText
  | .rounds least _ _ body => 0 < least && body.startsText
  | .group _ body => body.startsText
  | _ => false

/-- Whether every match ends at the end of the text. -/
def endsText : Regex → Bool
  | .anchor .textEnd => true
  | .seq a b => b.endsText || (b.takesNothing && a.endsText)
  | .alt a b => a.endsText && b.endsText
  | .rounds least _ _ body => 0 < least && body.endsText
  | .group _ body => body.endsText
  | _ => false

/-- The parts of a sequence; any other regex is its own only part. -/
def parts : Regex → List Regex
  | .seq a b => a :: b.parts
  | r => [r]

/-- The alternatives of a choice; any other regex is its own only alternative. -/
def branches : Regex → List Regex
  | .alt a b => a :: b.branches
  | r => [r]

/-- Texts in a row become one. -/
def joinTexts : List Regex → List Regex
  | [] => []
  | .text cs :: rest =>
    match joinTexts rest with
    | .text ds :: rest => .text (cs ++ ds) :: rest
    | rest => .text cs :: rest
  | r :: rest => r :: joinTexts rest

def seqOf : List Regex → Regex
  | [] => .empty
  | [r] => r
  | r :: rs => .seq r (seqOf rs)

def altOf : List Regex → Regex
  | [] => never
  | [r] => r
  | r :: rs => .alt r (altOf rs)

def sequence (rs : List Regex) : Regex :=
  seqOf (joinTexts ((rs.flatMap parts).filter (· != .empty)))

def charOf? : Regex → Option Char
  | .text [c] => some c
  | _ => none

def setOf? : Regex → Option CharSet
  | .set s => some s
  | _ => none

/-- The first parts that two sequences have in common. -/
def common : List Regex → List Regex → List Regex
  | a :: as, b :: bs => if a = b then a :: common as bs else []
  | _, _ => []

/-- The first parts that all of some sequences have in common; other regexes have none. -/
def commonParts : List Regex → List Regex
  | [] => []
  | r :: rs => rs.foldl (fun shared r => common shared (sequenceParts r)) (sequenceParts r)
where
  sequenceParts (r : Regex) : List Regex :=
    match r with
    | .seq a b => a :: b.parts
    | _ => []

/-- A choice between regexes, the first before the others. Characters and sets become one set. -/
def plainChoice : List Regex → Regex
  | [r] => r
  | rs =>
    match rs.mapM charOf?, rs.mapM setOf? with
    | some cs, _ => ofSet (.unionAll (cs.map .single))
    | none, some sets => ofSet (.unionAll sets)
    | none, none => altOf rs

/-- A choice between regexes. What all alternatives begin with comes before the choice. -/
def choice (rs : List Regex) : Regex :=
  let rs := rs.flatMap branches
  match rs, commonParts rs with
  | _ :: _ :: _, a :: shared =>
    let rest := rs.map fun r => sequence (r.parts.drop (shared.length + 1))
    sequence (a :: shared ++ [plainChoice (rest.flatMap branches)])
  | _, _ => plainChoice rs

/-- Repeats a regex; one that takes nothing at most once. -/
def repeated (least : Nat) (most : Option Nat) (greedy : Bool) (body : Regex) : Regex :=
  let (least, most) :=
    if body.takesNothing then (min least 1, some ((most.map (min 1)).getD 1)) else (least, most)
  if most = some 0 then .empty
  else if least = 1 ∧ most = some 1 then body
  else .rounds least most greedy body

end Regex

end PhpSyntax
