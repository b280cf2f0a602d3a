import PhpSyntax.Peg.Rule

namespace PhpSyntax.Check

open Peg

variable {τ ρ : Type} [MatchesEmpty τ] [NamesRule ρ]

section Pattern

variable (nullable : List String)

mutual

def isNullable : Pattern τ ρ → Bool
  | .terminal t => matchesEmpty t
  | .scan s => (s.scan []).isSome
  | .rule r => nullable.contains (ruleName r)
  | .sequence components => allNullable components
  | .choice alternatives => anyNullable alternatives
  | .repetition item _ least _ => least == 0 || isNullable item
  | .optional _ => true
  | .ahead _ _ => true
  | .endOfInput => true
  | .silent p => isNullable p
  | .trivia _ p => isNullable p

def allNullable : List (Component (Pattern τ ρ)) → Bool
  | [] => true
  | ⟨_, _, p⟩ :: rest => isNullable p && allNullable rest

def anyNullable : List (Pattern τ ρ) → Bool
  | [] => false
  | p :: rest => isNullable p || anyNullable rest

end

mutual

/-- Whether a repetition without separators has an item that can match nothing. -/
def repeatsNullable : Pattern τ ρ → Bool
  | .terminal _ => false
  | .rule _ => false
  | .scan _ => false
  | .endOfInput => false
  | .sequence components => componentsRepeatNullable components
  | .choice alternatives => someRepeatsNullable alternatives
  | .repetition item none _ _ => isNullable nullable item || repeatsNullable item
  | .repetition item (some separator) _ _ => repeatsNullable item || repeatsNullable separator
  | .optional p => repeatsNullable p
  | .ahead _ p => repeatsNullable p
  | .silent p => repeatsNullable p
  | .trivia _ p => repeatsNullable p

def componentsRepeatNullable : List (Component (Pattern τ ρ)) → Bool
  | [] => false
  | ⟨_, _, p⟩ :: rest => repeatsNullable p || componentsRepeatNullable rest

def someRepeatsNullable : List (Pattern τ ρ) → Bool
  | [] => false
  | p :: rest => repeatsNullable p || someRepeatsNullable rest

end

end Pattern

/-- Adds the rules that can match nothing where the rules found so far do. -/
def growNullable (table : List (Rule τ ρ)) (nullable : List String) : List String :=
  table.foldl (fun found r =>
    if !found.contains r.name && isNullable found r.pattern then r.name :: found else found)
    nullable

/-- Grows the found rules until a round adds none. -/
def nullableFrom (table : List (Rule τ ρ)) : Nat → List String → List String
  | 0, found => found
  | rounds + 1, found =>
    let grown := growNullable table found
    if grown.length = found.length then found else nullableFrom table rounds grown

/-- The rules that can match without taking anything. Every round but the last adds one. -/
def nullableRules (table : List (Rule τ ρ)) : List String :=
  nullableFrom table (table.length + 1) []

end PhpSyntax.Check
