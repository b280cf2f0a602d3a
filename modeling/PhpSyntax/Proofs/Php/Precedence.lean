import PhpSyntax.Proofs.Peg.Foresight
import PhpSyntax.Proofs.Php.Printing
import PhpSyntax.Proofs.Php.Table

namespace PhpSyntax.Php

open Peg

/-- The rule for expressions of each level. -/
def levelRule : Nat → String
  | 0 => "LogicalOrLevel"
  | 1 => "LogicalXorLevel"
  | 2 => "LogicalAndLevel"
  | 3 => "AssignmentLevel"
  | 4 => "TernaryLevel"
  | 5 => "CoalesceLevel"
  | 6 => "BooleanOrLevel"
  | 7 => "BooleanAndLevel"
  | 8 => "BitwiseOrLevel"
  | 9 => "BitwiseXorLevel"
  | 10 => "BitwiseAndLevel"
  | 11 => "EqualityLevel"
  | 12 => "RelationalLevel"
  | 13 => "ShiftLevel"
  | 14 => "AdditiveLevel"
  | 15 => "MultiplicativeLevel"
  | 16 => "UnaryLevel"
  | _ => "PostfixUpdateLevel"

/-- The levels whose operators nest to the left. -/
def leftLevels : List Nat :=
  [0, 1, 2, 6, 7, 8, 9, 10, 11, 12, 13, 14, 15]

/-- The rule for the operands of a level. Prefix operators that are not printed stand between the
levels 2 and 3, and between the levels 15 and 16. -/
def operandRule (level : Nat) : String :=
  if level = 2 then "PrintLevel"
  else if level = 15 then "LogicalNotLevel"
  else levelRule (level + 1)

def token : Nat → Token
  | 0 => ⟨kw "or", none⟩
  | 1 => ⟨kw "xor", none⟩
  | 2 => ⟨kw "and", none⟩
  | 5 => ⟨lit "??", none⟩
  | 6 => ⟨lit "||", none⟩
  | 7 => ⟨lit "&&", none⟩
  | 8 => ⟨lit "|", some (re "[|=]")⟩
  | 9 => ⟨lit "^", some (re "=")⟩
  | 10 => ⟨lit "&", some (re "[&=]")⟩
  | 11 => ⟨re "===|!==|==|!=|<>|<=>", none⟩
  | 12 => ⟨re "<=|>=|<|>", some (re "[<>=]")⟩
  | 13 => ⟨re "<<|>>", some (re "[=<]")⟩
  | 14 => ⟨re "[-+.]", some (re "[=.]")⟩
  | 15 => ⟨re "[*/%]", some (re "[=*]")⟩
  | _ => ⟨lit "**", some (re "=")⟩

theorem operatorRules_subset : operatorRules ⊆ rules := by
  intro d hd
  simp only [rules, List.mem_append, hd, true_or, or_true]

theorem leftLevel_mem {level : Nat} (h : level ∈ leftLevels) :
    binaryLevel (levelRule level) (operandRule level) (token level).pattern ∈ rules := by
  have hlevels : leftLevels.map (fun level =>
      binaryLevel (levelRule level) (operandRule level) (token level).pattern) =
      [logicalOrLevel, logicalXorLevel, logicalAndLevel, booleanOrLevel, booleanAndLevel,
        bitwiseOrLevel, bitwiseXorLevel, bitwiseAndLevel, equalityLevel, relationalLevel,
        shiftLevel, additiveLevel, multiplicativeLevel] := rfl
  have hsub : leftLevels.map (fun level =>
      binaryLevel (levelRule level) (operandRule level) (token level).pattern) ⊆
      operatorRules := by
    rw [hlevels]
    simp [operatorRules]
  exact operatorRules_subset (hsub (List.mem_map_of_mem h))

/-- What may stand behind an expression, and the loosest level that the expression can then have.
Parentheses, colons and semicolons end expressions of all levels. -/
def followers : List (List Char × Nat) :=
  [([';'], 0), ([')'], 0), ([' ', ')'], 0), (spaced ":", 0), (spaced "?", 5), (spaced "?:", 5)] ++
    (List.range 17).flatMap fun level => (signs level).map fun sign => (spaced sign, level + 1)

/-- Characters that may follow an expression of a level or of a tighter one. -/
def Follows (level : Nat) (cs : List Char) : Prop :=
  ∃ f ∈ followers, f.2 ≤ level ∧ ∃ tail, cs = f.1 ++ tail

def starts : List (List Char) :=
  [['$'], ['(', '$'], ['(', '('], ['(', ' ', '$'], ['(', ' ', '(']]

def Starts (cs : List Char) : Prop :=
  ∃ start ∈ starts, ∃ tail, cs = start ++ tail

def gaps : List (List Char) :=
  [[], [' ']]

/-- How deep the patterns nest that are looked through below. -/
def nesting : Nat := 200

/-- A pattern matches no text that begins with some characters. -/
def neverReads (p : PatternDef) (cs : List Char) : Bool :=
  foretell rules trivia false nesting true p cs = .fails

/-- What is tried at the start of an expression before variables and parentheses. -/
def prefixRules : List String :=
  ["PrintExpression", "ListAssignment", "NotExpression", "Cast", "Suppress", "PrefixUpdate",
    "SignedExpression", "CloneExpression"]

/-- What is tried behind an expression of a level. -/
def suffixes : List (Nat × PatternDef) :=
  [(4, .rule "TernaryOperand"), (16, .terminal (kw "instanceof")), (17, .rule "AssignmentOperator"),
    (17, .rule "Member"), (17, .terminal (re "\\+\\+|--"))] ++
    [0, 1, 2, 5, 6, 7, 8, 9, 10, 11, 12, 13, 14, 15, 16].map fun level =>
      (level, (token level).pattern)

-- Evaluated in turn.
mutual

theorem prefix_never : ∀ name ∈ prefixRules, ∀ gap ∈ gaps, ∀ start ∈ starts,
    neverReads (.rule name) (gap ++ start) = true := by
  decide +kernel

theorem suffix_never : ∀ suffix ∈ suffixes, ∀ f ∈ followers, f.2 ≤ suffix.1 →
    neverReads suffix.2 f.1 = true := by
  decide +kernel

theorem token_reads : ∀ level ∈ List.range 17, ∀ sign ∈ signs level,
    (token level).foretell trivia false (spaced sign) = some ([' '], sign) := by
  decide +kernel

end

/-- Characters that no prefix operator is read at the start of. -/
def Unprefixed (cs : List Char) : Prop :=
  ∃ start tail, cs = start ++ tail ∧
    ∀ name ∈ prefixRules, ∀ gap ∈ gaps, neverReads (.rule name) (gap ++ start) = true

theorem Starts.unprefixed {cs : List Char} (h : Starts cs) : Unprefixed cs := by
  obtain ⟨start, hstart, tail, rfl⟩ := h
  exact ⟨start, tail, rfl, fun name hname gap hgap => prefix_never name hname gap hgap start hstart⟩

end PhpSyntax.Php
