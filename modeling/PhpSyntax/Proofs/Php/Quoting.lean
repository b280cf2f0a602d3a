import PhpSyntax.Proofs.Php.Precedence
import PhpSyntax.Proofs.Regex.Quoted

namespace PhpSyntax.Php

open Peg Regex

/-- The quotes that a literal is written with. -/
inductive Quoting where
  | single
  | double
  deriving DecidableEq

def specialInSingle : List Char :=
  ['\\', '\x27']

def specialInDouble : List Char :=
  ['\\', '\x22', '$']

/-- The terms that are tried before literals of both kinds are. -/
def otherTerms : List String :=
  ["Parenthesized", "Variable", "VariableExpression", "ArrayLiteral", "Closure", "ArrowFunction",
    "New", "Isset", "Empty", "Exit", "Eval", "Include", "Float", "Integer"]

namespace Quoting

def mark : Quoting → Char
  | single => '\x27'
  | double => '\x22'

def special : Quoting → List Char
  | single => specialInSingle
  | double => specialInDouble

def print (k : Quoting) (cs : List Char) : List Char :=
  k.mark :: (escaped k.special cs ++ [k.mark])

/-- Anything between the quotes of a literal. -/
def enclose (k : Quoting) (body : List Char) : List Char :=
  k.mark :: (body ++ [k.mark])

def rule : Quoting → String
  | single => "SingleQuotedString"
  | double => "DoubleQuotedString"

/-- The terms that are tried before the literals are. -/
def earlier : Quoting → List String
  | single => otherTerms
  | double => otherTerms ++ ["SingleQuotedString"]

def terminal : Quoting → Terminal
  | single => ((re "'((?:[^'\\\\]|\\\\[\\s\\S])*)'").withGroup 1).withTransform
      (.escapes .singleQuoted)
  | double => (re "\"((?:[^\"\\\\]|\\\\[\\s\\S])*)\"").withGroup 1

variable (k : Quoting)

theorem mark_quotes : k.mark ∈ quotes := by
  cases k <;> decide

theorem backslash_special : '\\' ∈ k.special := by
  cases k <;> decide

theorem mark_special : k.mark ∈ k.special := by
  cases k <;> decide

theorem mem_kinds : k ∈ [single, double] := by
  cases k <;> simp

theorem terminal_group : k.terminal.group = 1 := by
  cases k <;> rfl

-- Evaluated in turn.
mutual

theorem terminal_program : k.terminal.program? = some (quotedProgram k.mark) := by
  have hall : ∀ k ∈ [single, double], k.terminal.program? = some (quotedProgram k.mark) := by
    decide +kernel
  exact hall k k.mem_kinds

/-- What does not match where a literal stands. -/
theorem never : ∀ name ∈ "AssignmentExpression" :: prefixRules ++ k.earlier, ∀ gap ∈ gaps,
    neverReads (.rule name) (gap ++ [k.mark]) = true := by
  have hall : ∀ k ∈ [single, double],
      ∀ name ∈ "AssignmentExpression" :: prefixRules ++ k.earlier, ∀ gap ∈ gaps,
        neverReads (.rule name) (gap ++ [k.mark]) = true := by
    decide +kernel
  exact hall k k.mem_kinds

theorem gaps_mark : ∀ gap ∈ gaps,
    foreLead trivia false true (gap ++ [k.mark]) = some [k.mark] := by
  have hall : ∀ k ∈ [single, double], ∀ gap ∈ gaps,
      foreLead trivia false true (gap ++ [k.mark]) = some [k.mark] := by
    decide +kernel
  exact hall k k.mem_kinds

end

/-- Any characters may have backslashes in front of them, as long as quotes and backslashes do. -/
theorem terminal_takes {special : List Char} (hbackslash : '\\' ∈ special)
    (hmark : k.mark ∈ special) (cs follow : List Char) :
    k.terminal.Takes (k.enclose (escaped special cs) ++ follow)
      (some (byteLength (k.enclose (escaped special cs)),
        k.terminal.transform.apply (String.ofList (escaped special cs)))) := by
  rintro ⟨t, program⟩ hl ht
  obtain rfl : t = k.terminal := ht
  obtain rfl : program = quotedProgram k.mark := Option.some.inj (hl.symm.trans k.terminal_program)
  obtain ⟨whole, hfind⟩ := find?_quoted k.mark_quotes hbackslash hmark cs follow
  have hgroup : (k.terminal.group != 0) = true := by rw [k.terminal_group]; rfl
  show ((quotedProgram k.mark).find? (k.terminal.group != 0) _ _).map _ = _
  rw [hgroup, enclose, hfind, k.terminal_group, ← pushBytes_append (escaped special cs)
    (k.mark :: follow)]
  rfl

end Quoting

section Decoding

open Literal

/-- Characters that an escape of a set stands for by themselves. -/
def Resolves (set : EscapeSet) (special : List Char) : Prop :=
  '\\' ∈ special ∧ ∀ c ∈ special, ∀ rest, escapeAt? set (c :: rest) = some ⟨1, some [c]⟩

theorem resolves_single : Resolves .singleQuoted specialInSingle := by
  refine ⟨by simp [specialInSingle], fun c hc rest => ?_⟩
  simp only [specialInSingle, List.mem_cons, List.not_mem_nil, or_false] at hc
  simp only [escapeAt?, hc, if_true]

theorem resolves_double : Resolves .doubleQuoted specialInDouble := by
  refine ⟨by simp [specialInDouble], fun c hc rest => ?_⟩
  simp only [specialInDouble, List.mem_cons, List.not_mem_nil, or_false] at hc
  obtain rfl | rfl | rfl := hc <;> rfl

theorem unescape_escaped {set : EscapeSet} {special : List Char} (h : Resolves set special)
    (cs : List Char) : unescapeFrom set 0 (escaped special cs) = cs := by
  obtain ⟨hbackslash, hspecial⟩ := h
  induction cs with
  | nil => rfl
  | cons c cs ih =>
    by_cases hc : c ∈ special
    · rw [escaped_special cs hc]
      simp only [unescapeFrom, if_true, hspecial c hc, Option.getD_some, ih, List.singleton_append]
    · have hne : c ≠ '\\' := by
        rintro rfl
        exact hc hbackslash
      rw [escaped_plain cs hc]
      simp only [unescapeFrom, hne, if_false, ih]

theorem apply_escaped {set : EscapeSet} {special : List Char} (h : Resolves set special)
    (s : String) : set.apply (String.ofList (escaped special s.toList)) = s := by
  rw [EscapeSet.apply, String.toList_ofList, unescape_escaped h, String.ofList_toList]

end Decoding

section Runs

theorem head_escaped (cs : List Char) : (escaped specialInDouble cs).head? ≠ some '$' := by
  cases cs with
  | nil => simp [escaped]
  | cons c cs =>
    by_cases hc : c ∈ specialInDouble
    · simp [escaped_special cs hc]
    · rw [escaped_plain cs hc]
      intro h
      exact hc (by simp [specialInDouble, Option.some.inj h])

theorem dollar_escaped (cs : List Char) : ¬['$'] <+: escaped specialInDouble cs := by
  rintro ⟨rest, h⟩
  exact head_escaped cs (by rw [← h]; rfl)

theorem brace_escaped (cs : List Char) : ¬['\x7b', '$'] <+: escaped specialInDouble cs := by
  cases cs with
  | nil => simp [escaped]
  | cons c cs =>
    by_cases hc : c ∈ specialInDouble
    · simp [escaped_special cs hc]
    · rw [escaped_plain cs hc, List.cons_prefix_cons]
      exact fun h => dollar_escaped cs h.2

/-- Nothing in an escaped text begins an interpolation. -/
theorem literalRun_escaped (cs : List Char) :
    literalRun (escaped specialInDouble cs) = escaped specialInDouble cs := by
  induction cs with
  | nil => rfl
  | cons c cs ih =>
    by_cases hc : c ∈ specialInDouble
    · rw [escaped_special cs hc]
      simp only [literalRun, ih]
    · rw [escaped_plain cs hc]
      have hne : c ≠ '\\' ∧ c ≠ '$' := by
        simp only [specialInDouble, List.mem_cons, List.not_mem_nil, or_false, not_or] at hc
        exact ⟨hc.1, hc.2.2⟩
      have hinterpolates : interpolates c (escaped specialInDouble cs).head? = false := by
        unfold interpolates
        split
        · exact absurd rfl hne.2
        · rename_i d hd
          have hnext := head_escaped cs
          rw [hd] at hnext
          simpa using hnext
        · rfl
      rw [literalRun, hinterpolates, ih]
      · rfl
      · intro _ _ hc _
        exact hne.1 hc

theorem scanLiteralRun_escaped {cs : List Char} (hcs : cs ≠ []) :
    scanLiteralRun .doubleQuoted (escaped specialInDouble cs) =
      some (byteLength (escaped specialInDouble cs), .text (String.ofList cs)) := by
  have happly := apply_escaped resolves_double (String.ofList cs)
  rw [String.toList_ofList] at happly
  have hne : escaped specialInDouble cs ≠ [] := by
    cases cs with
    | nil => exact absurd rfl hcs
    | cons c cs =>
      rw [escaped]
      split <;> simp
  rw [scanLiteralRun, literalRun_escaped]
  split
  · rename_i hnil
    exact absurd hnil hne
  · rw [happly]

end Runs

end PhpSyntax.Php
