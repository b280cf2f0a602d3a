import PhpSyntax.Proofs.Php.Instrumentation
import PhpSyntax.Proofs.Php.Markup
import PhpSyntax.Proofs.Php.Printed
import PhpSyntax.Proofs.Php.Processors

namespace PhpSyntax

namespace Php

open Peg

/-- The statements that are tried before an expression is. -/
def otherStatements : List String :=
  ["Block", "InlineHtml", "EchoTag", "FunctionDeclaration", "ClassDeclaration",
    "InterfaceDeclaration", "TraitDeclaration", "IfStatement", "While", "DoWhile", "For",
    "Foreach", "Switch", "Break", "Continue", "ReturnStatement", "EchoStatement", "Global",
    "StaticStatement", "Unset", "Throw", "Try", "ConstStatement", "Use", "Declare", "Goto",
    "Label", "NestedHaltCompiler", "EmptyStatement"]

theorem statement_never : ∀ name ∈ "HaltCompiler" :: "NamespaceStatement" :: otherStatements,
    ∀ c ∈ ['$', '('], neverReads (.rule name) [c] = true := by
  have hall : (("HaltCompiler" :: "NamespaceStatement" :: otherStatements).all fun name =>
      ['$', '('].all fun c => neverReads (.rule name) [c]) = true := by
    decide +kernel
  intro name hname
  exact List.all_eq_true.1 (List.all_eq_true.1 hall name hname)

def programOf (statement : Value) : Node :=
  .ofEntries "Program" [("statements", .list [statement])]

namespace Plain

section Program

variable {s : Setting} {depth : ℕ∞} (hs : Plain s depth)

include hs

theorem reads_terminator : Reads s (depth + 1) (.rule "Terminator") true [';']
    (some ([], .text ";")) := by
  have hmem : terminator ∈ rules := by simp [rules, statementRules]
  exact hs.reads hmem (RuleDef.makes_same rfl rfl rfl rfl)
    (reads_choice_here (hs.markReads (show (";", [';'], []) ∈ marks by simp [marks]) []))

theorem reads_program {cs : List Char} {v : Value} (hcs : cs ≠ []) (hv : isEmptyMarkup v = false)
    (h : Reads s depth (.rule "TopStatement") true cs (some ([], v))) :
    Reads s (depth + 2) (.rule "Program") true ("<?php ".toList ++ cs)
      (some ([], .node (programOf v))) := by
  have hnone : ¬HasTag [] := by decide
  have hleading := hs.reads_leadingHtml hnone (.tag cs)
  have hlast := (hs.more 1).reads_topStatement_none
  have hread := hs.reads_statements hleading
    (.cons (h.mono (le_self_add (b := 1))) (byteLength_pos hcs) (.nil hlast))
  have hkept : [markupNode [], v].filter (fun v => !isEmptyMarkup v) = [v] := by
    rw [List.filter_cons_of_neg (by decide), List.filter_cons_of_pos (by rw [hv]; rfl),
      List.filter_nil]
  rwa [hkept] at hread

end Program

theorem reads_expressionStatement {s : Setting} (hs : Plain s ⊤) (st : Style) (e : Expr) :
    Reads s ⊤ (.rule "TopStatement") true (e.print st ++ [';'])
      (some ([], .node (.ofEntries "ExpressionStatement" [("expression", e.value)]))) := by
  have hmem : ∀ d ∈ [topStatement, statement, expressionStatement], d ∈ rules :=
    fun d hd => by simp [rules, statementRules] at hd ⊢; tauto
  have hend : Follows 0 [';'] := ⟨([';'], 0), by simp [followers], Nat.le_refl 0, [], rfl⟩
  have hlevel := (printed hs st e).stands 0 (by omega) [] (by simp [gaps]) [';'] hend
  have hexpression : Reads s ⊤ (.rule "Expression") true (e.print st ++ [';'])
      (some ([';'], e.value)) :=
    hs.reads (operatorRules_subset (by simp [operatorRules]))
      (RuleDef.makes_same (d := expression) rfl rfl rfl e.value_isRecord) hlevel
  have hstatement : Reads s ⊤ (.rule "ExpressionStatement") true (e.print st ++ [';'])
      (some ([], .node (.ofEntries "ExpressionStatement" [("expression", e.value)]))) :=
    hs.reads (hmem expressionStatement (by simp)) (RuleDef.makes_tagged rfl rfl)
      (reads_sequence (readsParts_field hexpression (readsParts_plain hs.reads_terminator rfl
        readsParts_nil)))
  have hothers : ∀ name ∈ "HaltCompiler" :: "NamespaceStatement" :: otherStatements,
      Reads s ⊤ (.rule name) true (e.print st ++ [';']) none := by
    intro name hname
    obtain ⟨c, hc, more, hcs⟩ := (e.starts_print st [';']).head
    rw [hcs]
    exact hs.never (statement_never name hname c hc) more
  have hpast : ∀ p ∈ otherStatements.map Pattern.rule,
      Reads s ⊤ p true (e.print st ++ [';']) none := by
    intro p hp
    obtain ⟨name, hname, rfl⟩ := List.mem_map.1 hp
    exact hothers name (by simp [hname])
  have hinner : Reads s ⊤ (.rule "Statement") true (e.print st ++ [';'])
      (some ([], .node (.ofEntries "ExpressionStatement" [("expression", e.value)]))) :=
    hs.reads (hmem statement (by simp)) (RuleDef.makes_same rfl rfl rfl rfl)
      (reads_choice_past hpast (reads_choice_here hstatement))
  exact hs.reads (hmem topStatement (by simp)) (RuleDef.makes_same rfl rfl rfl rfl)
    (reads_choice_next (hothers "HaltCompiler" (by simp))
      (reads_choice_next (hothers "NamespaceStatement" (by simp)) (reads_choice_here hinner)))

end Plain

/-- A parse of the language over a text of its own, where calls can nest without bound. -/
theorem plain_session (source : Text) {depth : ℕ∞} (h : nesting ≤ depth) :
    Plain (Parser.session .off source).setting depth :=
  ⟨grammar_linked, rfl, h⟩

end Php

namespace Parser

variable {options : Options} {text : Text}

theorem run_ok {n : Node}
    (h : ((session options text).run Php.startRule true).1 = .ok (.node n)) :
    run options text = .ok n := by
  simp only [run]
  generalize (session options text).run Php.startRule true = outcome at h
  obtain ⟨result, session⟩ := outcome
  rw [show result = _ from h]

theorem run_error {f : Peg.Failure}
    (h : ((session options text).run Php.startRule true).1 = .error f) :
    run options text = .error f := by
  simp only [run]
  generalize (session options text).run Php.startRule true = outcome at h
  obtain ⟨result, session⟩ := outcome
  rw [show result = _ from h]

section Reads

variable {source : String} {depth : ℕ∞} {rest : List Char} {n : Node}
  (h : Peg.Reads (session .off (Text.ofString source)).setting depth (.rule "Program") true
    source.toList (some (rest, .node n)))

include h

/-- A parse yields what the rule for programs reads, unless it nests too deep. -/
theorem run_of_reads : run .off (Text.ofString source) = .ok n ∨
    ∃ f : Peg.Failure, f.isTooDeep ∧ run .off (Text.ofString source) = .error f := by
  have hmem : Php.program ∈ Php.rules := by simp [Php.rules, Php.statementRules]
  obtain ⟨id, -, hid, -⟩ := Peg.Grammar.rule_of_link Php.grammar_linked hmem
  have htext : (⟨Text.ofString source, 0⟩ : Peg.Input).text.Has 0 _ := Text.has_start _
  have hread := Peg.Session.run_of_reads (s := (session .off (Text.ofString source)).setting)
    Php.grammar_planned hid h htext
  obtain hok | ⟨f, hdeep, hf⟩ := hread
  · exact .inl (run_ok hok)
  · exact .inr ⟨f, hdeep, run_error hf⟩

theorem run_of_reads_within (hdepth : depth ≤ Peg.defaultLimit) :
    run .off (Text.ofString source) = .ok n := by
  have hmem : Php.program ∈ Php.rules := by simp [Php.rules, Php.statementRules]
  obtain ⟨id, -, hid, -⟩ := Peg.Grammar.rule_of_link Php.grammar_linked hmem
  have htext : (⟨Text.ofString source, 0⟩ : Peg.Input).text.Has 0 _ := Text.has_start _
  exact run_ok (Peg.Session.run_of_reads_within (s := (session .off (Text.ofString source)).setting)
    Php.grammar_planned hid h htext hdepth)

end Reads

/-- A tree comes from a run that yields it. -/
theorem run_of_parse {p : Parser} {source : String} {n : Node} (h : p.parse source = .ok n) :
    ((session p.options (Text.ofString source)).run Php.startRule true).1 = .ok (.node n) := by
  simp only [parse] at h
  cases hrun : run p.options (Text.ofString source) with
  | error e =>
    rw [hrun] at h
    cases h
  | ok n' =>
    rw [hrun] at h
    obtain rfl := Except.ok.inj h
    simp only [run] at hrun
    split at hrun
    · rename_i heq
      obtain rfl := Except.ok.inj hrun
      rw [heq]
    · cases hrun
    · cases hrun

theorem parse_of_run {source : String} {n : Node} (h : run .off (Text.ofString source) = .ok n)
    (p : Parser) : ∃ n', p.parse source = .ok n' ∧ n'.strip = n ∧ (p.options = .off → n' = n) := by
  have hstrip := run_strip p.options (Text.ofString source)
  rw [h] at hstrip
  simp only [parse]
  cases hn : run p.options (Text.ofString source) with
  | ok n' =>
    rw [hn] at hstrip
    refine ⟨n', rfl, Except.ok.inj hstrip, fun hoff => ?_⟩
    rw [hoff, h] at hn
    exact (Except.ok.inj hn).symm
  | error f =>
    rw [hn] at hstrip
    cases hstrip

end Parser

theorem Php.Expr.chars_source (st : Php.Style) (e : Php.Expr) :
    (e.source st).toList = "<?php ".toList ++ (e.print st ++ [';']) := by
  simp [source]

/-- A printed expression parses to its tree, unless its parse nests too deep. -/
theorem run_print (st : Php.Style) (e : Php.Expr) :
    Parser.run .off (Text.ofString (e.source st)) = .ok e.program ∨
      ∃ f : Peg.Failure, f.isTooDeep ∧
        Parser.run .off (Text.ofString (e.source st)) = .error f := by
  have hs := Php.plain_session (Text.ofString (e.source st)) (le_top : (Php.nesting : ℕ∞) ≤ ⊤)
  have hread := hs.reads_program (by simp) rfl (hs.reads_expressionStatement st e)
  rw [← e.chars_source st] at hread
  exact Parser.run_of_reads hread

/-- Printed expressions parse to their trees, with or without places, unless the parse nests too
deep. -/
theorem parse_print (p : Parser) (st : Php.Style) (e : Php.Expr) :
    (∃ n, p.parse (e.source st) = .ok n ∧ n.strip = e.program ∧
      (p.options = .off → n = e.program)) ∨
    ∃ f : Peg.Failure, f.isTooDeep ∧ p.parse (e.source st) =
      .error (.ofFailure p.catalog (p.path.getD Diagnostic.defaultPath)
        (Text.ofString (e.source st)) f) := by
  obtain hrun | ⟨f, hdeep, hrun⟩ := run_print st e
  · exact .inl (Parser.parse_of_run hrun p)
  · have hstrip := run_strip p.options (Text.ofString (e.source st))
    rw [hrun] at hstrip
    simp only [Parser.parse]
    cases hn : Parser.run p.options (Text.ofString (e.source st)) with
    | ok n =>
      rw [hn] at hstrip
      cases hstrip
    | error f' =>
      rw [hn] at hstrip
      obtain rfl : f' = f := Except.error.inj hstrip
      exact .inr ⟨f', hdeep, rfl⟩

end PhpSyntax
