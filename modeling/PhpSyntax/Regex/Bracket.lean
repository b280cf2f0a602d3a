import PhpSyntax.Regex.Escape

namespace PhpSyntax.Regex

/-- Something read, and how deep it nests. -/
structure Nested (α : Type) where
  value : α
  depth : Nat

/-- How deep things nest in what they are parts of: a part alone is not nested. -/
def depthOf {α : Type} (parts : List (Nested α)) : Nat :=
  match parts with
  | [] => 0
  | [p] => p.depth
  | ps => (ps.map (·.depth)).foldl max 0 + 1

/-- A member of a bracketed set: one character or a set of its own. Beyond ASCII there are none in
ASCII. -/
def readMember (m : Mode) : List Char → Option ((Char ⊕ CharSet) × List Char)
  | [] => none
  | '\\' :: cs =>
    match readEscape m cs with
    | some (.char c, rest) => if m.ascii && 0x7F < c.toNat then none else some (.inl c, rest)
    | some (.set s, rest) => some (.inr s, rest)
    | _ => none
  | c :: cs => if m.ascii && 0x7F < c.toNat then none else some (.inl c, cs)

/-- What stands behind a dash, past blanks and at most one number sign. -/
def behindDash (m : Mode) (cs : List Char) : Option Char :=
  if !m.verbose then cs.head?
  else
    match cs.dropWhile Unicode.isSpace with
    | '#' :: cs => (cs.dropWhile Unicode.isSpace).head?
    | cs => cs.head?

/-- A member, or a range of characters. -/
def readRange (m : Mode) (cs : List Char) : Option (CharSet × List Char) := do
  let (first, rest) ← readMember m cs
  let alone := match first with
    | .inl c => CharSet.single c
    | .inr s => s
  match m.skip rest with
  | [] => none
  | '-' :: rest =>
    if behindDash m rest = some ']' || behindDash m rest = some '-' then
      return (alone, '-' :: rest)
    else
      match first, ← readMember m (m.skip rest) with
      | .inl lo, (.inl hi, rest) => if lo ≤ hi then return (.range lo hi, rest) else none
      | _, _ => none
  | rest => return (alone, rest)

/-- How the part of a set in front of an operator and the part behind it go together. -/
inductive SetOp where
  | both
  | without
  | oneOf

def SetOp.apply (a b : CharSet) : SetOp → CharSet
  | both => a.inter b
  | without => a.diff b
  | oneOf => (a.diff b).union (b.diff a)

/-- The members of a set so far, last first, and the part in front of its last operator. -/
structure Members where
  parts : List (Nested CharSet)
  front : Option (Nested CharSet × SetOp)

namespace Members

def push (m : Members) (s : CharSet) (depth : Nat) : Members :=
  { m with parts := ⟨s, depth⟩ :: m.parts }

def close (mode : Mode) (m : Members) : Nested CharSet :=
  let here := foldedIn mode (.unionAll (m.parts.map (·.value)))
  match m.front with
  | none => ⟨here, depthOf m.parts⟩
  | some (s, op) => ⟨op.apply s.value here, max s.depth (depthOf m.parts) + 1⟩

/-- The members up to an operator become its front. -/
def operate (mode : Mode) (m : Members) (op : SetOp) : Members :=
  ⟨[], some (m.close mode, op)⟩

end Members

/-- The start of a bracketed set from behind its opening bracket: whether it is negated, and the
members that only stand there. -/
def readSetOpening (mode : Mode) (cs : List Char) : Bool × Members × List Char :=
  let (negated, cs) := match mode.skip cs with
    | '^' :: cs => (true, cs)
    | cs => (false, cs)
  let (dashes, cs) := mode.span (· == '-') cs
  match dashes, cs with
  | [], ']' :: cs => (negated, ⟨[⟨.single ']', 0⟩], none⟩, cs)
  | _, _ => (negated, ⟨dashes.map fun c => ⟨.single c, 0⟩, none⟩, cs)

/-- A set called by its name between colons, and whether it is negated, from behind the bracket in
front of the first colon. -/
def readNamedSet? : List Char → Option (Bool × CharSet × List Char)
  | ':' :: cs =>
    let (negated, cs) := match cs with
      | '^' :: cs => (true, cs)
      | cs => (false, cs)
    match cs.span (· != ':') with
    | (name, ':' :: ']' :: rest) =>
      (CharSet.asciiClass? (String.ofList name)).map fun s => (negated, s, rest)
    | _ => none
  | _ => none

/-- The rest of a bracketed set; `room` bounds how deep sets nest in it. -/
def readSet (mode : Mode) :
    Nat → Nat → Bool → Members → List Char → Option (Nested CharSet × List Char)
  | 0, _, _, _, _ => none
  | fuel + 1, room, negated, m, cs =>
    match mode.skip cs with
    | [] => none
    | '[' :: cs =>
      match readNamedSet? cs, room with
      | some (inner, s, cs), _ =>
        match signed? mode inner (foldedIn mode s) with
        | some s => readSet mode fuel room negated (m.push s 0) cs
        | none => none
      | none, 0 => none
      | none, room + 1 =>
        let (inner, start, cs) := readSetOpening mode cs
        match readSet mode fuel room inner start cs with
        | some (s, cs) => readSet mode fuel (room + 1) negated (m.push s.value s.depth) cs
        | none => none
    | ']' :: cs =>
      let s := m.close mode
      (signed? mode negated s.value).map fun value => (⟨value, s.depth + 1⟩, cs)
    | '&' :: '&' :: cs => readSet mode fuel room negated (m.operate mode .both) cs
    | '-' :: '-' :: cs => readSet mode fuel room negated (m.operate mode .without) cs
    | '~' :: '~' :: cs => readSet mode fuel room negated (m.operate mode .oneOf) cs
    | cs =>
      match readRange mode cs with
      | some (s, cs) => readSet mode fuel room negated (m.push s 0) cs
      | none => none

end PhpSyntax.Regex
