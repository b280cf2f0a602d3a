import PhpSyntax.Peg.Shape

namespace PhpSyntax.Peg

/-- How deep rule calls may nest unless a parse sets its own limit. One pair of parentheses in an
expression costs about 26 calls. -/
def defaultLimit : Nat := 8000

/-- What stays the same throughout a parse and the parses nested in it. -/
structure Setting where
  grammar : Grammar
  lines : Lines
  options : Options
  limit : Nat

def onFreshStack {α : Type} (f : Unit → α) : α :=
  (Task.spawn f Task.Priority.dedicated).get

def callsPerStack : Nat := 400

/-- The failure of a parse that matched nothing. -/
def mismatch (input : Input) (m : Memory) : Failure :=
  .mismatch (input.base + m.furthest) (input.text.size ≤ m.furthest) (input.text.charAt? m.furthest)

/-- Runs a start rule over an input, given how rules are called. -/
def runWith (g : Grammar) (call : Input → Call → Eval (Option Matched)) (input : Input)
    (start : String) (trivia : Bool) : Eval Value := fun m =>
  match g.ruleId? start with
  | none => .error (mismatch input m) m
  | some id =>
    match call input ⟨id, 0, trivia, false⟩ m with
    | .ok (some found) m => .ok found.value m
    | .ok none m => .error (mismatch input m) m
    | .error e m => .error e m

/-- A parse of its own over a text within an input: nothing where it does not match. -/
def reparseWith (g : Grammar) (call : Input → Call → Eval (Option Matched)) (input : Input)
    (rule : String) (text : String) (offset : Nat) : Except Failure (Option Value) :=
  match runWith g call ⟨Text.ofString text, input.base + offset⟩ rule false .empty with
  | .ok v _ => .ok (some v)
  | .error e _ => if e.isFatal then .error e else .ok none

/-- Matches a rule and shapes its value, given how rules are called from within it. -/
def evaluate (s : Setting) (call : Input → Call → Eval (Option Matched)) (input : Input)
    (c : Call) : Eval (Option Matched) :=
  match s.grammar.rules[c.rule]? with
  | none => return none
  | some rule => do
    match ← matchPattern s.grammar.trivia input.text (call input) rule.pattern
        ⟨c.trivia, c.quiet⟩ c.offset with
    | none => return none
    | some m =>
      let ctx := ⟨⟨m.start, m.stop⟩, input, s.lines, s.options, reparseWith s.grammar call input⟩
      match rule.shape ctx m.value with
      | .ok v => return some { m with value := v }
      | .error e => throw e

/-- Remembers the outcome of a call that ended without a failure. -/
def remember (c : Call) (outcome : Option Matched) : Eval (Option Matched) := do
  modify fun m => { m with memo := m.memo.insert c outcome }
  return outcome

/-- Calls a rule, with `room` for further calls nested in it: a remembered outcome needs none. -/
def invoke (s : Setting) : Nat → Input → Call → Eval (Option Matched)
  | 0, input, c => fun m =>
    match m.memo[c]? with
    | some outcome => .ok outcome m
    | none => .error (.tooDeep s.limit (input.base + c.offset)) m
  | room + 1, input, c => fun m =>
    match m.memo[c]? with
    | some outcome => .ok outcome m
    | none =>
      let outcome := if (room + 1) % callsPerStack = 0 then
          onFreshStack fun _ => evaluate s (invoke s room) input c m
        else evaluate s (invoke s room) input c m
      match outcome with
      | .ok outcome m => remember c outcome m
      | .error e m => .error e m

/-- A parse of one text, over any number of runs. -/
structure Session where
  setting : Setting
  input : Input
  memory : Memory

namespace Session

def start (s : Setting) (input : Input) : Session :=
  ⟨s, input, .empty⟩

/-- Matches a start rule at the start of the text. -/
def run (s : Session) (rule : String) (trivia : Bool) : Except Failure Value × Session :=
  let call := invoke s.setting s.setting.limit
  match runWith s.setting.grammar call s.input rule trivia s.memory with
  | .ok v m => (.ok v, { s with memory := m })
  | .error e m => (.error e, { s with memory := m })

def furthest (s : Session) : Nat :=
  s.memory.furthest

end Session

end PhpSyntax.Peg
