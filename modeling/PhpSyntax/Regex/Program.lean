import PhpSyntax.Regex.Reader
import PhpSyntax.Regex.Size

namespace PhpSyntax.Regex

inductive Step where
  /-- Takes one character. -/
  | take (s : CharSet) (next : Nat)
  /-- Goes on at both places, the first before the second. -/
  | fork (first second : Nat)
  | check (a : Anchor) (next : Nat)
  | openGroup (index next : Nat)
  | closeGroup (index next : Nat)
  | accept

abbrev Steps := Array Step

/-- Adds steps in front of what is at a number, and tells where they begin. -/
abbrev Emit := Nat → Steps → Nat × Steps

namespace Emit

def step (s : Step) (steps : Steps) : Nat × Steps :=
  (steps.size, steps.push s)

/-- Goes through a body before it goes on, or the other way round if not `greedy`. -/
def fork (greedy : Bool) (body next : Nat) : Step :=
  if greedy then .fork body next else .fork next body

def text (cs : List Char) : Emit := fun next steps =>
  cs.reverse.foldl (fun (next, steps) c => step (.take (.single c) next) steps) (next, steps)

/-- Exactly `n` rounds. -/
def times (body : Emit) : Nat → Emit
  | 0, next, steps => (next, steps)
  | n + 1, next, steps =>
    let (next, steps) := body next steps
    times body n next steps

/-- At most `n` rounds in front of `entry`; every round can be the last. -/
def upTo (body : Emit) (greedy : Bool) (next : Nat) : Nat → Nat → Steps → Nat × Steps
  | 0, entry, steps => (entry, steps)
  | n + 1, entry, steps =>
    let (first, steps) := body entry steps
    let (entry, steps) := step (fork greedy first next) steps
    upTo body greedy next n entry steps

/-- Any number of rounds: the step that decides on a further round, and the first step of one. -/
def loop (body : Emit) (greedy : Bool) (next : Nat) (steps : Steps) : Nat × Nat × Steps :=
  let (again, steps) := step (.fork next next) steps
  let (first, steps) := body again steps
  (again, first, steps.setIfInBounds again (fork greedy first next))

end Emit

/-- The steps of a regex. A loop whose rounds may take nothing is entered by a step of its own, so
that what a first round prefers comes first. -/
def emit : Regex → Emit
  | .empty, next, steps => (next, steps)
  | .text cs, next, steps => Emit.text cs next steps
  | .set s, next, steps => Emit.step (.take s next) steps
  | .anchor a, next, steps => Emit.step (.check a next) steps
  | .seq a b, next, steps =>
    let (next, steps) := b.emit next steps
    a.emit next steps
  | .alt a b, next, steps =>
    let (first, steps) := a.emit next steps
    let (second, steps) := b.emit next steps
    Emit.step (.fork first second) steps
  | .rounds 0 none greedy body, next, steps =>
    let (again, first, steps) := Emit.loop body.emit greedy next steps
    if body.takesSome then (again, steps) else Emit.step (Emit.fork greedy first next) steps
  | .rounds (least + 1) none greedy body, next, steps =>
    let (_, first, steps) := Emit.loop body.emit greedy next steps
    Emit.times body.emit least first steps
  | .rounds least (some most) greedy body, next, steps =>
    let (next, steps) := Emit.upTo body.emit greedy next (most - least) next steps
    Emit.times body.emit least next steps
  | .group index body, next, steps =>
    let (last, steps) := Emit.step (.closeGroup index next) steps
    let (first, steps) := body.emit last steps
    Emit.step (.openGroup index first) steps

structure Program where
  steps : Steps
  start : Nat
  /-- Whether every match begins at the start of the text. -/
  startsText : Bool
  seesWords : Bool
  hasGroups : Bool

namespace Program

def ofRegex (r : Regex) : Program :=
  let (start, steps) := r.emit 0 #[.accept]
  ⟨steps, start, r.startsText,
    steps.any fun
      | .check a _ => a.seesWords
      | _ => false,
    steps.any fun
      | .openGroup .. => true
      | _ => false⟩

/-- The program of a regex that a text describes, if it is not too large. -/
def ofString? (s : String) (caseless : Bool) : Option Program :=
  ((Regex.ofString? s caseless).filter (·.fits)).map ofRegex

end Program

end PhpSyntax.Regex
