import PhpSyntax.Peg.Rule
import Std.Data.HashMap

namespace PhpSyntax.Peg

/-- Why a rule table is no grammar. -/
inductive LinkError where
  | duplicateRule (name : String)
  | unknownRule (rule target : String)
  | invalidTerminal (rule source : String)
  deriving DecidableEq

def LinkError.message : LinkError → String
  | duplicateRule name => "rule `" ++ name ++ "` is defined more than once"
  | unknownRule rule target => "rule `" ++ rule ++ "` references unknown rule `" ++ target ++ "`"
  | invalidTerminal rule source =>
    "rule `" ++ rule ++ "` has an invalid terminal /" ++ source ++ "/"

/-- A rule as it is written. -/
abbrev RuleDef := Rule Terminal String

/-- A rule as it is run. -/
abbrev LinkedRule := Rule Lexeme RuleRef

structure Grammar where
  rules : Array LinkedRule
  index : Std.HashMap String Nat
  /-- What is skipped in front of terminals. -/
  trivia : Option Lexeme

namespace Grammar

def ruleId? (g : Grammar) (name : String) : Option Nat :=
  g.index[name]?

def rule? (g : Grammar) (name : String) : Option LinkedRule :=
  (g.ruleId? name).bind (g.rules[·]?)

/-- Numbers the rules in order, unless a name comes twice. -/
def number : Nat → Std.HashMap String Nat → List RuleDef → Except LinkError (Std.HashMap String Nat)
  | _, index, [] => .ok index
  | id, index, r :: rest =>
    if index.contains r.name then .error (.duplicateRule r.name)
    else number (id + 1) (index.insert r.name id) rest

def linkTerminal (owner : String) (t : Terminal) : Except LinkError Lexeme :=
  match t.lexeme? with
  | some l => .ok l
  | none => .error (.invalidTerminal owner t.source)

def linkReference (owner : String) (index : Std.HashMap String Nat) (name : String) :
    Except LinkError RuleRef :=
  match index[name]? with
  | some id => .ok ⟨name, id⟩
  | none => .error (.unknownRule owner name)

def linkRule (index : Std.HashMap String Nat) (r : RuleDef) : Except LinkError LinkedRule := do
  let pattern ← r.pattern.link (linkTerminal r.name) (linkReference r.name index)
  return ⟨r.name, pattern, r.captureAs, r.processor, r.ifNoMatch, r.pick, r.asNode⟩

/-- Links a table of rules. Names that come twice are found first, then rules in order, then the
trivia. -/
def link (table : List RuleDef) (trivia : Option Terminal) : Except LinkError Grammar := do
  let index ← number 0 ∅ table
  let rules ← table.mapM (linkRule index)
  let trivia ← trivia.mapM (linkTerminal "<trivia>")
  return ⟨rules.toArray, index, trivia⟩

end Grammar

end PhpSyntax.Peg
