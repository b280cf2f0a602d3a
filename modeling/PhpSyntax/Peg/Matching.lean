import PhpSyntax.Peg.Grammar

namespace PhpSyntax.Peg

/-- A match, from its first byte behind skipped trivia to the end of its last. -/
structure Matched where
  start : Nat
  stop : Nat
  value : Value

namespace Matched

def empty (offset : Nat) : Matched :=
  ⟨offset, offset, .null⟩

def consumed (m : Matched) : Bool :=
  m.start < m.stop

end Matched

/-- A rule at an offset, with trivia skipped or not, beneath a lookahead or not. -/
structure Call where
  rule : Nat
  offset : Nat
  trivia : Bool
  quiet : Bool
  deriving DecidableEq, Hashable

/-- What a parse remembers: the outcomes of rule calls, and the last offset at which something was
missing. -/
structure Memory where
  memo : Std.HashMap Call (Option Matched)
  furthest : Nat

namespace Memory

def empty : Memory := ⟨∅, 0⟩

def note (m : Memory) (offset : Nat) : Memory :=
  if m.furthest < offset then { m with furthest := offset } else m

end Memory

/-- A step of a parse: it may remember more, and may end the parse with a failure. -/
abbrev Eval := EStateM Failure Memory

/-- Matching at an offset; nothing is an ordinary mismatch. -/
abbrev Matcher := Nat → Eval (Option Matched)

/-- Whether trivia is skipped, and whether mismatches go unnoticed. -/
structure Mode where
  trivia : Bool
  quiet : Bool

namespace Mode

def skipping (m : Mode) (skip : Bool) : Mode := ⟨skip, m.quiet⟩

def beneathLookahead (m : Mode) : Mode := ⟨m.trivia, true⟩

end Mode

/-- The offset behind any number of matches that each take something; `fuel` bounds their number. -/
def skipFrom (trivia : Lexeme) (text : Text) : Nat → Nat → Nat
  | 0, offset => offset
  | fuel + 1, offset =>
    match (text.after? offset).bind (trivia.matchLength? · (text.size - offset)) with
    | some (n + 1) => skipFrom trivia text fuel (offset + (n + 1))
    | _ => offset

def skipTrivia (trivia : Option Lexeme) (text : Text) (offset : Nat) : Nat :=
  match trivia with
  | some t => skipFrom t text (text.size + 1) offset
  | none => offset

def miss (mode : Mode) (offset : Nat) : Eval (Option Matched) := do
  if !mode.quiet then modify (·.note offset)
  return none

/-- The match of a terminal or scanner that was tried at `start`. -/
def leaf (mode : Mode) (start : Nat) : Option (Nat × Value) → Eval (Option Matched)
  | some (n, v) => return some ⟨start, start + n, v⟩
  | none => miss mode start

/-- The components of a sequence matched so far. -/
structure Parts where
  cursor : Nat
  start : Option Nat
  fields : Captures
  hasFields : Bool

namespace Parts

def startingAt (offset : Nat) : Parts :=
  ⟨offset, none, .empty, false⟩

/-- Adds a match: under its name, or with its own fields if it has no name. -/
def push (ps : Parts) (field : Option String) (capture : Capture) (m : Matched) : Parts :=
  let start := if ps.start.isNone && m.consumed then some m.start else ps.start
  match field, m.value with
  | some name, v => ⟨m.stop, start, ps.fields.insert name (capture.apply v), true⟩
  | none, .record fields => ⟨m.stop, start, ps.fields.extend fields, true⟩
  | none, _ => ⟨m.stop, start, ps.fields, ps.hasFields⟩

/-- The match of the whole sequence: a record of its fields, or its text if it has none. -/
def finish (text : Text) (ps : Parts) : Matched :=
  let start := ps.start.getD ps.cursor
  ⟨start, ps.cursor,
    if ps.hasFields then .record ps.fields
    else .text (text.cut start ps.cursor)⟩

end Parts

/-- The items of a repetition matched so far, last first. -/
structure Rounds where
  items : List Value
  cursor : Nat
  start : Option Nat
  /-- Whether the first item matched without taking anything. -/
  emptyFirst : Bool

namespace Rounds

def startingAt (offset : Nat) : Rounds :=
  ⟨[], offset, none, false⟩

def push (rs : Rounds) (m : Matched) (emptyFirst : Bool) : Rounds :=
  ⟨m.value :: rs.items, m.stop, if rs.start.isNone && m.consumed then some m.start else rs.start,
    emptyFirst⟩

/-- The match of the whole repetition. An empty item alone, with no separator behind it, is none. -/
def finish (rs : Rounds) (offset least : Nat) : Option Matched :=
  let items := match rs.items with
    | [_] => if rs.emptyFirst then [] else rs.items
    | items => items
  if items.length < least then none
  else some ⟨rs.start.getD offset, rs.cursor, .list items.reverse⟩

end Rounds

/-- Where the next item of a repetition begins: behind a separator, except for the first item. -/
def nextItem (separator : Option Matcher) (rs : Rounds) : Eval (Option Nat) :=
  match separator with
  | some separator =>
    if rs.items.isEmpty then return some rs.cursor
    else return (← separator rs.cursor).map (·.stop)
  | none => return some rs.cursor

/-- Matches items as long as they take something. The first may be empty where separators follow;
`fuel` bounds the number of items. -/
def repeatFrom (item : Matcher) (separator : Option Matcher) (trailing : Bool) :
    Nat → Rounds → Eval Rounds
  | 0, rs => return rs
  | fuel + 1, rs => do
    match ← nextItem separator rs with
    | none => return rs
    | some next =>
      match ← item next with
      | none => return if trailing && rs.cursor < next then { rs with cursor := next } else rs
      | some m =>
        if m.stop = rs.cursor then
          if rs.items.isEmpty && separator.isSome then
            repeatFrom item separator trailing fuel (rs.push m true)
          else return rs
        else repeatFrom item separator trailing fuel (rs.push m rs.emptyFirst)

/-- A linked pattern. -/
abbrev LinkedPattern := Pattern Lexeme RuleRef

section Match

variable (trivia : Option Lexeme) (text : Text) (call : Call → Eval (Option Matched))

/-- Where a terminal is tried: behind trivia, if that is skipped. -/
def leading (mode : Mode) (offset : Nat) : Nat :=
  if mode.trivia then skipTrivia trivia text offset else offset

mutual

def matchPattern : LinkedPattern → Mode → Matcher
  | .terminal t, mode, offset =>
    let start := leading trivia text mode offset
    leaf mode start ((text.after? start).bind fun cs =>
      (t.matchAt? cs (text.size - start)).map fun (n, s) => (n, .text s))
  | .scan s, mode, offset =>
    let start := leading trivia text mode offset
    leaf mode start ((text.after? start).bind s.scan)
  | .endOfInput, mode, offset =>
    let start := leading trivia text mode offset
    if text.size ≤ start then return some (.empty start) else miss mode start
  | .rule r, mode, offset => call ⟨r.id, offset, mode.trivia, mode.quiet⟩
  | .sequence components, mode, offset =>
    return (← matchComponents components mode (.startingAt offset)).map (·.finish text)
  | .choice alternatives, mode, offset => matchFirst alternatives mode offset
  | .repetition item none least trailing, mode, offset =>
    return (← repeatFrom (matchPattern item mode) none trailing (text.size + 3)
      (.startingAt offset)).finish offset least
  | .repetition item (some separator) least trailing, mode, offset =>
    return (← repeatFrom (matchPattern item mode) (some (matchPattern separator mode)) trailing
      (text.size + 3) (.startingAt offset)).finish offset least
  | .optional p, mode, offset =>
    return some ((← matchPattern p mode offset).getD (.empty offset))
  | .ahead negated p, mode, offset =>
    return if (← matchPattern p mode.beneathLookahead offset).isSome != negated then
      some (.empty offset) else none
  | .trivia skip p, mode, offset => matchPattern p (mode.skipping skip) offset
  | .silent p, mode, offset =>
    return (← matchPattern p mode offset).map fun m => { m with value := .null }

def matchComponents : List (Component LinkedPattern) → Mode → Parts → Eval (Option Parts)
  | [], _, ps => return some ps
  | ⟨field, capture, p⟩ :: rest, mode, ps => do
    match ← matchPattern p mode ps.cursor with
    | some m => matchComponents rest mode (ps.push field capture m)
    | none => return none

def matchFirst : List LinkedPattern → Mode → Matcher
  | [], _, _ => return none
  | p :: rest, mode, offset => do
    match ← matchPattern p mode offset with
    | some m => return some m
    | none => matchFirst rest mode offset

end

end Match

end PhpSyntax.Peg
