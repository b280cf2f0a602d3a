import PhpSyntax.Regex.Bracket

namespace PhpSyntax.Regex

/-- A decimal number of 32 bits, with blanks around it. -/
def readNumber (m : Mode) (cs : List Char) : Option Nat × List Char :=
  let (digits, rest) := m.span Char.isDigit (cs.dropWhile Unicode.isSpace)
  let value := digits.foldl (fun n d => n * 10 + (d.toNat - '0'.toNat)) 0
  (if digits.isEmpty ∨ Nat.pow 2 32 ≤ value then none else some value,
    rest.dropWhile Unicode.isSpace)

/-- The bounds of a counted repetition, from behind its opening brace. -/
def readCounts (m : Mode) (cs : List Char) : Option ((Nat × Option Nat) × List Char) :=
  match readNumber m (m.skip cs) with
  | (some least, '\x7d' :: rest) => some ((least, some least), rest)
  | (some least, ',' :: rest) =>
    match m.skip rest with
    | '\x7d' :: rest => some ((least, none), rest)
    | rest =>
      match readNumber m rest with
      | (some most, '\x7d' :: rest) =>
        if least ≤ most then some ((least, some most), rest) else none
      | _ => none
  | _ => none

/-- Whether a repetition takes few rounds first, and what follows. -/
def readLazy : List Char → Bool × List Char
  | '?' :: cs => (true, cs)
  | cs => (false, cs)

/-- Switches up to the colon or parenthesis that ends them. -/
def readSwitches (m : Mode) (on : Bool) (seen : List Char) :
    List Char → Option (Mode × Char × List Char)
  | [] => none
  | c :: cs =>
    if c == ':' || c == ')' then
      if seen.head? == some '-' then none else some (m, c, cs)
    else if seen.contains c then none
    else match c with
      | '-' => if on then readSwitches m false (c :: seen) cs else none
      | 'i' => readSwitches { m with caseless := on } on (c :: seen) cs
      | 's' => readSwitches { m with dotAll := on } on (c :: seen) cs
      | 'm' => readSwitches { m with multiLine := on } on (c :: seen) cs
      | 'U' => readSwitches { m with swapGreed := on } on (c :: seen) cs
      | 'u' => readSwitches { m with ascii := !on } on (c :: seen) cs
      | 'R' => readSwitches { m with returns := on } on (c :: seen) cs
      | 'x' => readSwitches { m with verbose := on } on (c :: seen) cs
      | _ => none

/-- The groups opened so far: how many, and the names of those that have one. -/
structure Groups where
  count : Nat
  names : List (List Char)

namespace Groups

def none : Groups := ⟨0, []⟩

def add (g : Groups) : Groups :=
  { g with count := g.count + 1 }

def addNamed? (g : Groups) (name : List Char) : Option Groups :=
  if g.names.contains name then Option.none else some ⟨g.count + 1, name :: g.names⟩

end Groups

/-- How a parenthesis opens. -/
inductive Opening where
  | capture (groups : Groups) (rest : List Char)
  | plain (m : Mode) (rest : List Char)
  /-- Switches alone, which hold up to the end of the group around them. -/
  | switches (m : Mode) (rest : List Char)

def isNameStart (c : Char) : Bool :=
  c == '_' || Unicode.isAlphabetic c

/-- The name of a group, up to its closing bracket. -/
def readGroupName (cs : List Char) : Option (List Char × List Char) :=
  match cs.span (· != '>') with
  | (c :: name, _ :: rest) =>
    if isNameStart c &&
        name.all fun c => isNameStart c || Unicode.isNumeric c || c ∈ ['.', '[', ']']
    then some (c :: name, rest)
    else none
  | _ => none

def readNamedGroup (groups : Groups) (cs : List Char) : Option Opening := do
  let (name, rest) ← readGroupName cs
  return .capture (← groups.addNamed? name) rest

/-- What stands behind an opening parenthesis. Conditions on the text around are refused. -/
def readOpening (m : Mode) (groups : Groups) (cs : List Char) : Option Opening :=
  match m.skip cs with
  | '?' :: '=' :: _ | '?' :: '!' :: _ | '?' :: '<' :: '=' :: _ | '?' :: '<' :: '!' :: _ => none
  | '?' :: 'P' :: '<' :: cs | '?' :: '<' :: cs => readNamedGroup groups cs
  | '?' :: ')' :: _ => none
  | '?' :: cs =>
    match readSwitches m true [] cs with
    | some (m, ':', rest) => some (.plain m rest)
    | some (m, _, rest) => some (.switches m rest)
    | none => none
  | cs => some (.capture groups.add cs)

/-- What a regex is read into: the alternatives and, for the current one, its parts, both last
first. A part that only sets switches is nothing, and cannot be repeated. -/
structure Draft where
  alternatives : List (Nested Regex)
  parts : List (Nested (Option Regex))

namespace Draft

def start : Draft := ⟨[], []⟩

def current (d : Draft) : Nested Regex :=
  ⟨sequence (d.parts.reverse.filterMap (·.value)), depthOf d.parts⟩

def finish (d : Draft) : Nested Regex :=
  let all := d.current :: d.alternatives
  ⟨choice (all.reverse.map (·.value)), depthOf all⟩

def push (d : Draft) (r : Regex) (depth : Nat) : Draft :=
  { d with parts := ⟨some r, depth⟩ :: d.parts }

def pushNothing (d : Draft) : Draft :=
  { d with parts := ⟨none, 0⟩ :: d.parts }

def newAlternative (d : Draft) : Draft :=
  ⟨d.current :: d.alternatives, []⟩

/-- Repeats the last part. -/
def repeatLast? (d : Draft) (m : Mode) (least : Nat) (most : Option Nat) (few : Bool) :
    Option Draft :=
  match d.parts with
  | ⟨some r, depth⟩ :: parts =>
    some { d with parts := ⟨some (repeated least most (few == m.swapGreed) r), depth + 1⟩ :: parts }
  | _ => none

end Draft

def literal (m : Mode) (c : Char) : Regex :=
  ofSet (if m.caseless && !m.ascii then .orbit c else foldedIn m (.single c))

/-- Any character, or any but those that end lines. In ASCII there is no such set. -/
def anyChar? (m : Mode) : Option Regex :=
  let ends := if m.dotAll then [] else if m.returns then ['\n', '\r'] else ['\n']
  if m.ascii then none else some (.set (CharSet.unionAll (ends.map .single)).complement)

def lineAnchors (m : Mode) : Anchor × Anchor :=
  if m.multiLine then (.lineStart m.returns, .lineEnd m.returns) else (.textStart, .textEnd)

def ofEscape (m : Mode) : Escape → Regex
  | .char c => literal m c
  | .set s => ofSet s
  | .anchor a => .anchor a

def nestLimit : Nat := 250

/-- Reads up to the end or to an unmatched parenthesis; `room` bounds how deep groups nest. -/
def readFrom : Nat → Nat → Mode → Draft → Groups → List Char →
    Option (Nested Regex × Groups × List Char)
  | 0, _, _, _, _, _ => none
  | fuel + 1, room, m, d, groups, cs =>
    let goOn (r : Regex) (depth : Nat) (cs : List Char) :=
      readFrom fuel room m (d.push r depth) groups cs
    let again (least : Nat) (most : Option Nat) (cs : List Char) :=
      let (few, cs) := readLazy cs
      match d.repeatLast? m least most few with
      | some d => readFrom fuel room m d groups cs
      | none => none
    match m.skip cs with
    | [] => some (d.finish, groups, [])
    | ')' :: cs => some (d.finish, groups, ')' :: cs)
    | '|' :: cs => readFrom fuel room m d.newAlternative groups cs
    | '(' :: cs =>
      match readOpening m groups cs, room with
      | some (.switches m cs), _ => readFrom fuel room m d.pushNothing groups cs
      | some (.plain inner cs), room + 1 =>
        match readFrom fuel room inner .start groups cs with
        | some (r, groups, ')' :: cs) =>
          readFrom fuel (room + 1) m (d.push r.value (r.depth + 1)) groups cs
        | _ => none
      | some (.capture opened cs), room + 1 =>
        match readFrom fuel room m .start opened cs with
        | some (r, groups, ')' :: cs) =>
          readFrom fuel (room + 1) m (d.push (.group opened.count r.value) (r.depth + 1)) groups cs
        | _ => none
      | _, _ => none
    | '[' :: cs =>
      let (negated, start, cs) := readSetOpening m cs
      match readSet m fuel room negated start cs with
      | some (s, cs) => goOn (ofSet s.value) s.depth cs
      | none => none
    | '*' :: cs => again 0 none cs
    | '+' :: cs => again 1 none cs
    | '?' :: cs => again 0 (some 1) cs
    | '\x7b' :: cs =>
      match readCounts m cs with
      | some ((least, most), cs) => again least most (m.skip cs)
      | none => none
    | '\\' :: cs =>
      match readEscape m cs with
      | some (e, cs) => goOn (ofEscape m e) 0 cs
      | none => none
    | '.' :: cs =>
      match anyChar? m with
      | some r => goOn r 0 cs
      | none => none
    | '^' :: cs => goOn (.anchor (lineAnchors m).1) 0 cs
    | '$' :: cs => goOn (.anchor (lineAnchors m).2) 0 cs
    | c :: cs => goOn (literal m c) 0 cs

/-- The regex that a text describes, matched without regard to case if `caseless`. -/
def ofString? (s : String) (caseless : Bool) : Option Regex :=
  let cs := s.toList
  match readFrom (cs.length + 1) nestLimit (Mode.start caseless) .start .none cs with
  | some (r, _, []) => if r.depth ≤ nestLimit then some r.value else none
  | _ => none

end PhpSyntax.Regex
