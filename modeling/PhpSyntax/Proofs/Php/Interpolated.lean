import PhpSyntax.Proofs.Php.StringLiteral

namespace PhpSyntax

namespace Php

open Peg Regex

section Variable

theorem bracket_spells : (lit "[").Spells (['['].map .single) := by
  decide +kernel

theorem arrow_spells : (lit "->").Spells (['-', '>'].map .single) := by
  decide +kernel

variable {s : Setting} {depth : ℕ∞} (hs : Plain s depth) (x : Ident) {rest : List Char}
  (hrest : rest.head?.any isIdentChar = false) (hindex : ¬['['] <+: rest)
  (hproperty : ¬['-', '>'] <+: rest)

include hs hrest hindex hproperty

/-- A variable behind which no index and no property stands is interpolated without braces. -/
theorem Plain.reads_simpleInterpolation : Reads s (depth + 2) (.rule "SimpleInterpolation") false
    ('$' :: x.chars ++ rest) (some (rest, Expr.variableNode x)) := by
  have hmem : ∀ d ∈ [simpleInterpolation, interpolatedIndex, interpolatedProperty], d ∈ rules := by
    simp [rules, stringRules]
  have hvariable : Reads s (depth + 1) (.rule "Variable") false ('$' :: x.chars ++ rest)
      (some (rest, Expr.variableNode x)) :=
    hs.reads (show variableRule ∈ rules by simp [rules, lexicalRules])
      (RuleDef.makes_tagged rfl rfl) (reads_sequence (readsParts_field
        (Peg.reads_terminal (leads_raw s _) (variableName_takes x hrest)) readsParts_nil))
  have hmembers : Reads s (depth + 1) (opt (oneOf ["InterpolatedIndex", "InterpolatedProperty"]))
      false rest (some (rest, .null)) := by
    refine reads_optional_none (reads_choice_next ?_ (reads_choice_next ?_ reads_choice_nil))
    · exact hs.fails (hmem interpolatedIndex (by simp)) (reads_sequence_none (readsParts_none
        (reads_terminal_none (leads_raw s rest) (bracket_spells.takes_none hindex))))
    · exact hs.fails (hmem interpolatedProperty (by simp)) (reads_sequence_none (readsParts_none
        (reads_terminal_none (leads_raw s rest) (arrow_spells.takes_none hproperty))))
  have hread := (hs.more 1).reads (hmem simpleInterpolation (by simp))
    (RuleDef.makes_fallback rfl)
    (reads_sequence (readsParts_field hvariable (readsParts_field hmembers readsParts_nil)))
  rwa [add_assoc, one_add_one_eq_two] at hread

/-- No other interpolation begins as a variable does. -/
theorem Plain.reads_interpolation : Reads s (depth + 3) (.rule "Interpolation") false
    ('$' :: x.chars ++ rest) (some (rest, Expr.variableNode x)) := by
  have hbrace : ¬['\x7b', '$'] <+: '$' :: x.chars ++ rest := by simp
  have hdollarBrace : ¬['$', '\x7b'] <+: '$' :: x.chars ++ rest := by
    have hfirst := x.starts
    rintro ⟨more, hmore⟩
    have hsame : x.first = '\x7b' := (List.cons.inj (List.cons.inj hmore).2).1.symm
    rw [hsame] at hfirst
    cases hfirst
  have hread := (hs.more 2).reads (show interpolation ∈ rules by simp [rules, stringRules])
    (RuleDef.makes_same rfl rfl rfl rfl) (hs.reads_past_braced hbrace hdollarBrace
      (hs.reads_simpleInterpolation x hrest hindex hproperty))
  rwa [add_assoc, two_add_one_eq_three] at hread

theorem Plain.reads_variablePart : Reads s (depth + 4) (.rule "StringPart") false
    ('$' :: x.chars ++ rest) (some (rest, Expr.variableNode x)) := by
  have hread := (hs.more 3).reads (show stringPart ∈ rules by simp [rules, stringRules])
    (RuleDef.makes_same rfl rfl rfl rfl)
    (reads_choice_here (hs.reads_interpolation x hrest hindex hproperty))
  rwa [add_assoc, three_add_one_eq_four] at hread

/-- Such a variable in front of some text makes two parts. -/
theorem Plain.reads_variableParts {cs : List Char} (hcs : cs ≠ [])
    (htext : rest = escaped specialInDouble cs) : Reads s (depth + 5) (.rule "StringParts") false
      ('$' :: x.chars ++ rest) (some ([], .list [Expr.variableNode x, literalNode cs])) := by
  have hmem : stringParts ∈ rules := by simp [rules, stringRules]
  have hvariable := hs.reads_variablePart x hrest hindex hproperty
  have hread : Reads s (depth + 4) (.rule "StringPart") false rest
      (some ([], literalNode cs)) := htext ▸ hs.reads_text hcs
  have hlength : byteLength rest < byteLength ('$' :: x.chars ++ rest) := by
    have hpos := byteLength_cons_pos '$' x.chars
    rw [byteLength_append]
    omega
  have hlength' : byteLength [] < byteLength rest := by
    refine byteLength_pos ?_
    rintro rfl
    cases cs with
    | nil => exact hcs rfl
    | cons c cs =>
      rw [escaped] at htext
      split at htext <;> cases htext
  have hall : ReadsAll s (depth + 4) (.rule "StringPart") false ('$' :: x.chars ++ rest) []
      [Expr.variableNode x, literalNode cs] :=
    .cons hvariable hlength (.cons hread hlength' (.nil hs.reads_text_none))
  have hend : Reads s (depth + 4) atEnd false [] (some ([], .null)) :=
    reads_endOfInput (leads_raw s [])
  have hparts := (hs.more 4).reads hmem (RuleDef.makes_processed rfl rfl fun _ _ => rfl)
    (reads_sequence (readsParts_field (reads_repetition hall (Nat.zero_le _))
      (readsParts_plain hend rfl readsParts_nil)))
  rwa [add_assoc, show (4 + 1 : ℕ∞) = 5 from rfl] at hparts

end Variable

/-- A text that is no part of a variable in front of it, and has nothing to escape. -/
structure Ending (cs : List Char) : Prop where
  nonempty : cs ≠ []
  plain : ∀ c ∈ cs, c ∉ specialInDouble
  name : cs.head?.any isIdentChar = false
  index : ¬['['] <+: cs
  property : ¬['-', '>'] <+: cs

section Source

variable (x : Ident) (cs : List Char)

def interpolatedBody : List Char :=
  '$' :: x.chars ++ cs

/-- A program that returns a string with a variable in front of some text. -/
def interpolatedSource : String :=
  "<?php " ++ ("return " ++ String.ofList (Quoting.double.enclose (interpolatedBody x cs)) ++ ";")

def interpolatedReturn : Node :=
  programOf (.node (.ofEntries "ReturnStatement" [("expression", .node (.ofEntries
    "StringExpression" [("parts", .list [Expr.variableNode x, literalNode cs])]))]))

end Source

/-- Neither quotes nor backslashes are in such a string. -/
theorem escaped_interpolated (x : Ident) {cs : List Char} (h : Ending cs) :
    escaped ['\\', '\x22'] (interpolatedBody x cs) = interpolatedBody x cs := by
  have hident : ∀ c ∈ ['\\', '\x22'], isIdentStart c = false ∧ isIdentChar c = false := by
    simp [isIdentStart, isIdentChar]
  refine escaped_of_plain fun c hc hspecial => ?_
  obtain rfl | hc := List.mem_cons.1 hc
  · simp at hspecial
  obtain hc | hc := List.mem_append.1 hc
  · obtain ⟨hstart, hchar⟩ := hident c hspecial
    obtain rfl | hc := List.mem_cons.1 hc
    · rw [x.starts] at hstart
      cases hstart
    · rw [x.goesOn c hc] at hchar
      cases hchar
  · refine h.plain c hc ?_
    simp only [List.mem_cons, List.not_mem_nil, or_false] at hspecial
    obtain rfl | rfl := hspecial <;> simp [specialInDouble]

theorem Plain.reads_interpolated {s : Setting} {n : Nat} (hs : Plain s n) (x : Ident)
    {cs : List Char} (h : Ending cs) : Quoting.double.Yields s n (interpolatedBody x cs)
      (.ofEntries "StringExpression" [("parts", .list [Expr.variableNode x, literalNode cs])]) := by
  have htext : cs = escaped specialInDouble cs := (escaped_of_plain h.plain).symm
  have hparts : Reads s (n + 5 : Nat) (.rule "StringParts") false
      (escaped ['\\', '\x22'] (interpolatedBody x cs))
      (some ([], .list [Expr.variableNode x, literalNode cs])) := by
    rw [escaped_interpolated x h]
    exact hs.reads_variableParts x h.name h.index h.property h.nonempty htext
  have hread := hs.reads_doubleQuoted (by simp) (by simp [Quoting.mark]) hparts
  rwa [escaped_interpolated x h] at hread

end Php

theorem run_interpolated (x : Php.Ident) {cs : List Char} (h : Php.Ending cs) :
    Parser.run .off (Text.ofString (Php.interpolatedSource x cs)) =
      .ok (Php.interpolatedReturn x cs) := by
  have hs : Php.Plain (Parser.session .off (Text.ofString (Php.interpolatedSource x cs))).setting
      Php.nesting := Php.plain_session _ le_rfl
  have hread := (hs.more 64).reads_program (by simp) rfl
    (hs.reads_return (hs.reads_interpolated x h))
  have hsource : (Php.interpolatedSource x cs).toList = "<?php ".toList ++ ("return ".toList ++
      (Php.Quoting.double.enclose (Php.interpolatedBody x cs) ++ [';'])) := by
    simp [Php.interpolatedSource]
  rw [← hsource] at hread
  exact Parser.run_of_reads_within hread (by norm_cast)

/-- A variable in a string is parsed on its own, whatever plain text stands behind it. -/
theorem parse_interpolated (p : Parser) (x : Php.Ident) {cs : List Char} (h : Php.Ending cs) :
    ∃ n, p.parse (Php.interpolatedSource x cs) = .ok n ∧
      n.strip = Php.interpolatedReturn x cs ∧
      (p.options = .off → n = Php.interpolatedReturn x cs) :=
  Parser.parse_of_run (run_interpolated x h) p

end PhpSyntax
