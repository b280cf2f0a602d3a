import PhpSyntax.Check.Nullable
import PhpSyntax.Check.Reach
import PhpSyntax.Peg.Grammar

namespace PhpSyntax.Check

open Peg

structure Report where
  errors : List String
  warnings : List String
  suggestions : List String

namespace Report

def isValid (r : Report) : Bool :=
  r.errors.isEmpty

def isClean (r : Report) : Bool :=
  r.isValid && r.warnings.isEmpty && r.suggestions.isEmpty

/-- The findings of one kind, under a title; nothing if there are none. -/
def renderSection (title : String) (items : List String) : String :=
  if items.isEmpty then ""
  else title ++ ":\n" ++ String.join (items.map fun item => "  - " ++ item ++ "\n") ++ "\n"

def render (r : Report) : String :=
  renderSection "GRAMMAR VALIDATION ERRORS" r.errors
    ++ renderSection "GRAMMAR WARNINGS" r.warnings
    ++ renderSection "GRAMMAR SUGGESTIONS" r.suggestions
    ++ (if r.isClean then "Grammar validation passed - no issues found\n" else "")

end Report

variable {τ ρ : Type}

mutual

/-- Whether a match of the pattern must end at the end of input. -/
def endsAtEnd : Pattern τ ρ → Bool
  | .endOfInput => true
  | .sequence components => lastEndsAtEnd components
  | .choice alternatives => !alternatives.isEmpty && allEndAtEnd alternatives
  | .trivia _ p => endsAtEnd p
  | .silent p => endsAtEnd p
  | .terminal _ => false
  | .rule _ => false
  | .repetition .. => false
  | .optional _ => false
  | .ahead _ _ => false
  | .scan _ => false

def lastEndsAtEnd : List (Component (Pattern τ ρ)) → Bool
  | [] => false
  | [⟨_, _, p⟩] => endsAtEnd p
  | _ :: rest => lastEndsAtEnd rest

def allEndAtEnd : List (Pattern τ ρ) → Bool
  | [] => true
  | p :: rest => endsAtEnd p && allEndAtEnd rest

end

/-- The names that come again after `seen`, once for each time they do. -/
def repeatedNames : List String → List String → List String
  | _, [] => []
  | seen, name :: rest =>
    if seen.contains name then name :: repeatedNames seen rest
    else repeatedNames (name :: seen) rest

def duplicateErrors (table : List (Rule τ ρ)) : List String :=
  (repeatedNames [] (table.map (·.name))).map fun name =>
    "Rule '" ++ name ++ "' is defined more than once"

def referenceErrors [NamesRule ρ] (table : List (Rule τ ρ)) : List String :=
  let names := table.map (·.name)
  table.flatMap fun r =>
    ((r.pattern.references.map ruleName).filter (!names.contains ·)).map fun target =>
      "Rule '" ++ r.name ++ "' references undefined rule '" ++ target ++ "'"

def missingRootErrors (table : List (Rule τ ρ)) (roots : List String) : List String :=
  (roots.filter fun root => !(table.map (·.name)).contains root).map fun root =>
    "Missing root rule: '" ++ root ++ "'"

/-- A root that stops short of the end would leave the rest of the input unread. -/
def openRootWarnings (table : List (Rule τ ρ)) (roots : List String) : List String :=
  (roots.filter fun root => (table.find? (·.name == root)).any fun r => !endsAtEnd r.pattern).map
    fun root => "Root rule '" ++ root ++ "' should end with `end()` so trailing input is rejected"

def unreachableWarnings [NamesRule ρ] (table : List (Rule τ ρ)) (roots : List String) :
    List String :=
  if roots.isEmpty then []
  else
    let reached := reachable table roots
    (table.filter fun r => !reached.contains r.name).map fun r =>
      "Rule '" ++ r.name ++ "' is unreachable"

/-- Such a repetition ends after a round that takes nothing. -/
def nullableErrors [MatchesEmpty τ] [NamesRule ρ] (table : List (Rule τ ρ)) : List String :=
  let nullable := nullableRules table
  (table.filter fun r => repeatsNullable nullable r.pattern).map fun r =>
    "Rule '" ++ r.name ++ "' repeats a pattern that can match empty input"

def aliasSuggestions (table : List (Rule τ ρ)) : List String :=
  (table.filter fun r => r.captureAs == some r.name).map fun r =>
    "Rule '" ++ r.name ++ "' captures as its own name; `capture_as` can be removed"

/-- Checks a table of rules from which parses start at the given roots. -/
def report [MatchesEmpty τ] [NamesRule ρ] (table : List (Rule τ ρ)) (roots : List String) :
    Report where
  errors := duplicateErrors table ++ referenceErrors table ++ missingRootErrors table roots
    ++ nullableErrors table
  warnings := openRootWarnings table roots ++ unreachableWarnings table roots
  suggestions := aliasSuggestions table

def reportGrammar (g : Grammar) (roots : List String) : Report :=
  report g.rules.toList roots

end PhpSyntax.Check
