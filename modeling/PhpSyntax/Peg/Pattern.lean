import PhpSyntax.Peg.Terminal
import PhpSyntax.Tree.Value

namespace PhpSyntax.Peg

/-- A matcher for what a regex cannot express: the number of bytes it takes from the start of a
text, and the value it yields. -/
structure Scanner where
  name : String
  scan : List Char → Option (Nat × Value)

/-- How a component of a sequence keeps its value. -/
inductive Capture where
  | value
  /-- Whether anything was matched. -/
  | flag
  /-- Always a list; an absent part is the empty list. -/
  | list
  deriving DecidableEq

def Capture.apply : Capture → Value → Value
  | .value, v => v
  | .flag, v => .bool !v.isNull
  | .list, v => .list v.toList

/-- A part of a sequence, kept under a field name if it has one. -/
structure Component (π : Type) where
  field : Option String
  capture : Capture
  pattern : π

inductive Pattern (τ ρ : Type) where
  | terminal (t : τ)
  | rule (r : ρ)
  | sequence (components : List (Component (Pattern τ ρ)))
  /-- The first alternative that matches counts. -/
  | choice (alternatives : List (Pattern τ ρ))
  /-- At least `least` items; a `trailing` separator is taken with no item behind it. -/
  | repetition (item : Pattern τ ρ) (separator : Option (Pattern τ ρ)) (least : Nat)
      (trailing : Bool)
  | optional (p : Pattern τ ρ)
  /-- Looks ahead, and matches if `p` does, or does not if `negated`. -/
  | ahead (negated : Bool) (p : Pattern τ ρ)
  /-- Skips trivia in front of terminals beneath, or does not. -/
  | trivia (skip : Bool) (p : Pattern τ ρ)
  /-- Matches as `p` and yields null. -/
  | silent (p : Pattern τ ρ)
  | scan (s : Scanner)
  | endOfInput

/-- What can stand for a rule in a pattern. -/
class NamesRule (ρ : Type) where
  ruleName : ρ → String

export NamesRule (ruleName)

instance : NamesRule String where
  ruleName := id

/-- A rule by its number in a grammar. -/
structure RuleRef where
  name : String
  id : Nat
  deriving DecidableEq

instance : NamesRule RuleRef where
  ruleName r := r.name

namespace Pattern

variable {τ ρ : Type}

mutual

/-- The rules that a pattern refers to, in writing order. -/
def references : Pattern τ ρ → List ρ
  | .terminal _ => []
  | .rule r => [r]
  | .sequence components => componentReferences components
  | .choice alternatives => allReferences alternatives
  | .repetition item none _ _ => references item
  | .repetition item (some separator) _ _ => references item ++ references separator
  | .optional p => references p
  | .ahead _ p => references p
  | .trivia _ p => references p
  | .silent p => references p
  | .scan _ => []
  | .endOfInput => []

def componentReferences : List (Component (Pattern τ ρ)) → List ρ
  | [] => []
  | ⟨_, _, p⟩ :: rest => references p ++ componentReferences rest

def allReferences : List (Pattern τ ρ) → List ρ
  | [] => []
  | p :: rest => references p ++ allReferences rest

end

section Link

variable {ε τ' ρ' : Type} (terminal : τ → Except ε τ') (rule : ρ → Except ε ρ')

mutual

/-- Replaces terminals and rules in writing order, up to the first that cannot be replaced. -/
def link : Pattern τ ρ → Except ε (Pattern τ' ρ')
  | .terminal t => do return .terminal (← terminal t)
  | .rule r => do return .rule (← rule r)
  | .sequence components => do return .sequence (← linkComponents components)
  | .choice alternatives => do return .choice (← linkAll alternatives)
  | .repetition item none least trailing => do
    return .repetition (← link item) none least trailing
  | .repetition item (some separator) least trailing => do
    let item ← link item
    return .repetition item (some (← link separator)) least trailing
  | .optional p => do return .optional (← link p)
  | .ahead negated p => do return .ahead negated (← link p)
  | .trivia skip p => do return .trivia skip (← link p)
  | .silent p => do return .silent (← link p)
  | .scan s => .ok (.scan s)
  | .endOfInput => .ok .endOfInput

def linkComponents : List (Component (Pattern τ ρ)) → Except ε (List (Component (Pattern τ' ρ')))
  | [] => .ok []
  | ⟨field, capture, p⟩ :: rest => do
    let p ← link p
    return ⟨field, capture, p⟩ :: (← linkComponents rest)

def linkAll : List (Pattern τ ρ) → Except ε (List (Pattern τ' ρ'))
  | [] => .ok []
  | p :: rest => do
    let p ← link p
    return p :: (← linkAll rest)

end

end Link

end Pattern

end PhpSyntax.Peg
