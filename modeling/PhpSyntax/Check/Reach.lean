import PhpSyntax.Peg.Rule

namespace PhpSyntax.Check

open Peg

variable {τ ρ : Type}

/-- The names that a rule refers to; of several rules with its name the last one counts. -/
def referencesOf [NamesRule ρ] (table : List (Rule τ ρ)) (name : String) : List String :=
  match table.reverse.find? (·.name == name) with
  | some r => r.pattern.references.map ruleName
  | none => []

/-- Follows the references of pending names; `fuel` bounds the number of names looked at. -/
def reachFrom [NamesRule ρ] (table : List (Rule τ ρ)) :
    Nat → List String → List String → List String
  | 0, reached, _ => reached
  | _ + 1, reached, [] => reached
  | fuel + 1, reached, name :: pending =>
    if reached.contains name then reachFrom table fuel reached pending
    else reachFrom table fuel (name :: reached) (referencesOf table name ++ pending)

def referenceCount (table : List (Rule τ ρ)) : Nat :=
  (table.flatMap (·.pattern.references)).length

def reachable [NamesRule ρ] (table : List (Rule τ ρ)) (roots : List String) : List String :=
  reachFrom table (roots.length + referenceCount table + 1) [] roots

end PhpSyntax.Check
