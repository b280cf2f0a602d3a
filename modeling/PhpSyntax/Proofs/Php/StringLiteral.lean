import PhpSyntax.Proofs.Peg.Taking
import PhpSyntax.Proofs.Php.Quoting
import PhpSyntax.Proofs.Php.RoundTrip

namespace PhpSyntax

namespace Php

open Peg Regex

section Interpolation

-- Evaluated in turn.
mutual

theorem dollar_spells : (lit "$").Spells (['$'].map .single) := by
  decide +kernel

theorem brace_spells : (lit "\x7b").Spells (['\x7b'].map .single) := by
  decide +kernel

theorem dollarBrace_spells : (lit "$\x7b").Spells (['$', '\x7b'].map .single) := by
  decide +kernel

theorem variableName_frames : variableName.Frames (['$'].map .single) []
    [.after 0, .inside, .inside, .inside, .inside, .before 1, .before 0, .before 0] := by
  decide +kernel

theorem brace_foreseen : (lit "\x7b").foresee? false ['\x7b'] = some (some (1, "\x7b")) := by
  decide +kernel

end

/-- The rules of interpolations that begin with a brace, or with a dollar sign and one. -/
def bracedRules : List RuleDef :=
  [complexInterpolation, bracedVariableName, bracedVariableIndex, bracedVariableExpression]

theorem interpolation_pattern : interpolation.pattern =
    .choice (bracedRules.map (fun d => .rule d.name) ++ [.rule "SimpleInterpolation"]) :=
  rfl

variable {s : Setting} {depth : ℕ∞} (hs : Plain s depth) {cs : List Char}
  (hdollar : ¬['$'] <+: cs) (hbrace : ¬['\x7b', '$'] <+: cs)

include hs

theorem Plain.fails {d : RuleDef} (hd : d ∈ rules) {trivia : Bool}
    (hp : Reads s depth d.pattern trivia cs none) :
    Reads s (depth + 1) (.rule d.name) trivia cs none :=
  reads_rule_none hs.linked hd hp

include hbrace

/-- What begins with neither, the alternatives with braces leave to the last. -/
theorem Plain.reads_past_braced (hdollarBrace : ¬['$', '\x7b'] <+: cs)
    {o : Option (List Char × Value)}
    (hlast : Reads s (depth + 2) (.rule "SimpleInterpolation") false cs o) :
    Reads s (depth + 2) interpolation.pattern false cs o := by
  have hmem : ∀ d ∈ bracedRules, d ∈ rules := by simp [bracedRules, rules, stringRules]
  have hcomplex : Reads s depth complexInterpolation.pattern false cs none := by
    by_cases hfirst : ['\x7b'] <+: cs
    · obtain ⟨rest, rfl⟩ := hfirst
      have hrest : ¬['$'] <+: rest := fun h => hbrace (by simpa using h)
      have htakes : Reads s depth (.terminal (lit "\x7b")) false (['\x7b'] ++ rest)
          (some (rest, .text "\x7b")) :=
        reads_terminal (leads_raw s _) (Terminal.takes_of_foresee brace_foreseen (by simp))
      have hahead : Reads s depth (ahead (.terminal (lit "$"))) false rest none :=
        reads_ahead (reads_terminal_none (leads_raw s rest) (dollar_spells.takes_none hrest))
      exact reads_sequence_none (readsParts_plain htakes rfl (readsParts_none hahead))
    · exact reads_sequence_none (readsParts_none
        (reads_terminal_none (leads_raw s cs) (brace_spells.takes_none hfirst)))
  have hopen : ∀ components, Reads s depth (.sequence (⟨none, .value, .terminal (lit "$\x7b")⟩ ::
      components)) false cs none := fun components =>
    reads_sequence_none (readsParts_none
      (reads_terminal_none (leads_raw s cs) (dollarBrace_spells.takes_none hdollarBrace)))
  have hbraced : ∀ d ∈ bracedRules, Reads s depth d.pattern false cs none := by
    simp only [bracedRules, List.forall_mem_cons]
    exact ⟨hcomplex, hopen _, hopen _, hopen _, List.forall_mem_nil _⟩
  rw [interpolation_pattern]
  refine reads_choice_past (fun p hp => ?_) (reads_choice_last hlast)
  obtain ⟨d, hd, rfl⟩ := List.mem_map.1 hp
  exact (hs.fails (hmem d hd) (hbraced d hd)).mono (add_le_add_right one_le_two depth)

include hdollar

/-- An interpolation begins with a dollar sign, or with a brace and one. -/
theorem reads_interpolation_none : Reads s (depth + 3) (.rule "Interpolation") false cs none := by
  have hmem : ∀ d ∈ [interpolation, simpleInterpolation, variableRule], d ∈ rules := by
    simp [rules, stringRules, lexicalRules]
  have hdollarBrace : ¬['$', '\x7b'] <+: cs := fun h =>
    hdollar ((List.prefix_append ['$'] ['\x7b']).trans h)
  have hvariable : Reads s (depth + 1) (.rule "Variable") false cs none :=
    hs.fails (hmem variableRule (by simp)) (reads_sequence_none (readsParts_none
      (reads_terminal_none (leads_raw s cs) (variableName_frames.takes_none hdollar))))
  have hsimple := (hs.more 1).fails (hmem simpleInterpolation (by simp))
    (reads_sequence_none (readsParts_none hvariable))
  rw [add_assoc, one_add_one_eq_two] at hsimple
  have hread := (hs.more 2).fails (hmem interpolation (by simp))
    (hs.reads_past_braced hbrace hdollarBrace hsimple)
  rwa [add_assoc, two_add_one_eq_three] at hread

end Interpolation

section Parts

variable {s : Setting} {depth : ℕ∞} (hs : Plain s depth)

include hs

/-- What begins no interpolation is read as text, or not at all. -/
theorem Plain.reads_past_interpolation {cs : List Char} (hdollar : ¬['$'] <+: cs)
    (hbrace : ¬['\x7b', '$'] <+: cs) {o : Option (List Char × Value)}
    (htext : Reads s (depth + 1) (.rule "DoubleQuotedText") false cs o) :
    Reads s (depth + 3) stringPart.pattern false cs o :=
  have hdepth : depth + 1 ≤ depth + 3 :=
    add_le_add_right (Nat.cast_le.2 (by decide : 1 ≤ 3)) depth
  reads_choice_next (reads_interpolation_none hs hdollar hbrace)
    (reads_choice_last (htext.mono hdepth))

theorem Plain.reads_text {cs : List Char} (hcs : cs ≠ []) :
    Reads s (depth + 4) (.rule "StringPart") false (escaped specialInDouble cs)
      (some ([], .node (stringLiteral (String.ofList cs)))) := by
  have hmem : ∀ d ∈ [stringPart, doubleQuotedText], d ∈ rules := by simp [rules, stringRules]
  have hscan : Reads s depth (scan doubleQuotedTextScanner) false (escaped specialInDouble cs ++ [])
      (some ([], .text (String.ofList cs))) := by
    refine reads_scan (leads_raw s _) ?_
    rw [List.append_nil]
    exact scanLiteralRun_escaped hcs
  rw [List.append_nil] at hscan
  have htext : Reads s (depth + 1) (.rule "DoubleQuotedText") false (escaped specialInDouble cs)
      (some ([], .node (stringLiteral (String.ofList cs)))) :=
    hs.reads (hmem doubleQuotedText (by simp)) (RuleDef.makes_tagged rfl rfl)
      (reads_sequence (readsParts_field hscan readsParts_nil))
  have hread := (hs.more 3).reads (hmem stringPart (by simp)) (RuleDef.makes_same rfl rfl rfl rfl)
    (hs.reads_past_interpolation (dollar_escaped cs) (brace_escaped cs) htext)
  rwa [add_assoc, three_add_one_eq_four] at hread

theorem Plain.reads_text_none : Reads s (depth + 4) (.rule "StringPart") false [] none := by
  have hmem : ∀ d ∈ [stringPart, doubleQuotedText], d ∈ rules := by simp [rules, stringRules]
  have htext : Reads s (depth + 1) (.rule "DoubleQuotedText") false [] none :=
    hs.fails (hmem doubleQuotedText (by simp)) (reads_sequence_none (readsParts_none
      (reads_scan_none (leads_raw s []) rfl)))
  have hread := (hs.more 3).fails (hmem stringPart (by simp))
    (hs.reads_past_interpolation (by simp) (by simp) htext)
  rwa [add_assoc, three_add_one_eq_four] at hread

/-- The body of a literal in which nothing is interpolated is one literal run. -/
theorem Plain.reads_stringParts (cs : List Char) :
    Reads s (depth + 5) (.rule "StringParts") false (escaped specialInDouble cs)
      (some ([], .list [.node (stringLiteral (String.ofList cs))])) := by
  have hmem : stringParts ∈ rules := by simp [rules, stringRules]
  have hend : Reads s (depth + 4) atEnd false [] (some ([], .null)) :=
    reads_endOfInput (leads_raw s [])
  have hparts : ∀ vs, ReadsAll s (depth + 4) (.rule "StringPart") false
      (escaped specialInDouble cs) [] vs →
      Reads s (depth + 4) stringParts.pattern false (escaped specialInDouble cs)
        (some ([], .record ⟨[("parts", .list vs)]⟩)) := fun vs hvs =>
    reads_sequence (readsParts_field (reads_repetition hvs (Nat.zero_le _))
      (readsParts_plain hend rfl readsParts_nil))
  have hnone := hs.reads_text_none
  have hread : Reads s (depth + 4 + 1) (.rule "StringParts") false (escaped specialInDouble cs)
      (some ([], .list [.node (stringLiteral (String.ofList cs))])) := by
    cases cs with
    | nil =>
      refine (hs.more 4).reads hmem (RuleDef.makes_processed rfl rfl fun ctx hoff => ?_)
        (hparts [] (.nil hnone))
      exact congrArg (fun n => Except.ok (Value.list [.node n])) (Context.covering_off hoff _ _ _)
    | cons c cs =>
      have hne : escaped specialInDouble (c :: cs) ≠ [] := by
        rw [escaped]
        split <;> simp
      exact (hs.more 4).reads hmem (RuleDef.makes_processed rfl rfl fun _ _ => rfl)
        (hparts _ (.cons (hs.reads_text (by simp)) (byteLength_pos hne) (.nil hnone)))
  rwa [add_assoc, show (4 + 1 : ℕ∞) = 5 from rfl] at hread

end Parts

def literalNode (cs : List Char) : Value :=
  .node (stringLiteral (String.ofList cs))

/-- A string between quotes is read to its end, as a node. -/
def Quoting.Yields (k : Quoting) (s : Setting) (n : Nat) (body : List Char) (node : Node) : Prop :=
  ∀ gap ∈ gaps, ∀ rest,
    Reads s (n + 6) (.rule k.rule) true (gap ++ (k.enclose body ++ rest)) (some (rest, .node node))

section Literals

variable {s : Setting} {n : Nat} (hs : Plain s n)

include hs

theorem Plain.reads_terminal (k : Quoting) {special : List Char} (hbackslash : '\\' ∈ special)
    (hmark : k.mark ∈ special) (cs : List Char) {gap : List Char} (hgap : gap ∈ gaps)
    (rest : List Char) :
    Reads s n (.terminal k.terminal) true (gap ++ (k.enclose (escaped special cs) ++ rest))
      (some (rest, .text (k.terminal.transform.apply (String.ofList (escaped special cs))))) := by
  have hlead : Leads s true (gap ++ (k.enclose (escaped special cs) ++ rest))
      (k.enclose (escaped special cs) ++ rest) := by
    have htail : false = true → escaped special cs ++ [k.mark] ++ rest = [] := by simp
    have h := leads_of_foreLead hs.linked rfl htail (k.gaps_mark gap hgap)
    rwa [List.append_assoc] at h
  exact Peg.reads_terminal hlead (k.terminal_takes hbackslash hmark cs rest)

/-- A string in double quotes is made of the parts of its body. -/
theorem Plain.reads_doubleQuoted {special : List Char} (hbackslash : '\\' ∈ special)
    (hmark : Quoting.double.mark ∈ special) {cs : List Char} {parts : List Value}
    (hparts : Reads s (n + 5 : Nat) (.rule "StringParts") false (escaped special cs)
      (some ([], .list parts))) :
    Quoting.double.Yields s n (escaped special cs) (stringOfParts parts) := by
  intro gap hgap rest
  have hmem : doubleQuotedString ∈ rules ∧ stringParts ∈ rules := by simp [rules, stringRules]
  have hterminal := hs.reads_terminal .double hbackslash hmark cs hgap rest
  let body := escaped special cs
  have hbody : Reads s (n + 5 : Nat) (.rule stringParts.name) false (String.ofList body).toList
      (some ([], .list parts)) := by
    rw [String.toList_ofList]
    exact hparts
  have hmakes : doubleQuotedString.MakesAsking stringParts.name (String.ofList body)
      (.list parts) (.record ⟨[("string", .text (String.ofList body))]⟩)
      (.node (stringOfParts parts)) := by
    refine RuleDef.makes_asking rfl rfl fun ctx hoff hanswer => ?_
    show (ctx.reparse "StringParts" (String.ofList body) (ctx.span.start + 1) >>= _) = _
    rw [show ctx.reparse "StringParts" _ _ = _ from hanswer _]
    rfl
  have hstring : Reads s (n + 5 : Nat) doubleQuotedString.pattern true
      (gap ++ (Quoting.double.enclose body ++ rest))
      (some (rest, .record ⟨[("string", .text (String.ofList body))]⟩)) :=
    (reads_sequence (readsParts_field hterminal readsParts_nil)).mono
      (Nat.cast_le.2 (Nat.le_add_right n 5))
  exact reads_rule_asking hs.linked hmem.1 hs.off hmem.2 hmakes hbody hstring

/-- A literal reads as the text that it was printed from. -/
theorem Plain.reads_literal (k : Quoting) (cs : List Char) :
    k.Yields s n (escaped k.special cs) (stringLiteral (String.ofList cs)) := by
  cases k with
  | single =>
    intro gap hgap rest
    have hterminal := hs.reads_terminal .single Quoting.single.backslash_special
      Quoting.single.mark_special cs hgap rest
    have hmem : singleQuotedString ∈ rules := by simp [rules, stringRules]
    have htext := apply_escaped resolves_single (String.ofList cs)
    rw [String.toList_ofList] at htext
    rw [show Quoting.single.terminal.transform.apply (String.ofList (escaped Quoting.single.special
      cs)) = String.ofList cs from htext] at hterminal
    have hread : Reads s (n + 1) (.rule "SingleQuotedString") true _
        (some (rest, literalNode cs)) :=
      hs.reads hmem (RuleDef.makes_tagged rfl rfl)
        (reads_sequence (readsParts_field hterminal readsParts_nil))
    exact hread.mono (add_le_add_right (Nat.cast_le.2 (by decide : 1 ≤ 6)) _)
  | double =>
    exact hs.reads_doubleQuoted Quoting.double.backslash_special Quoting.double.mark_special
      (hs.reads_stringParts cs)

variable {k : Quoting} {body : List Char} {node : Node} (h : k.Yields s n body node)

include h

theorem Plain.stands_string : Stands s (n + 9) 17 (k.enclose body) (.node node) := by
  intro gap hgap rest hrest
  have hmem : term ∈ rules := by simp [rules, termRules]
  have hpattern : ∃ later, term.pattern =
      .choice (k.earlier.map .rule ++ .rule k.rule :: later) := by
    cases k <;> exact ⟨_, rfl⟩
  obtain ⟨later, hpattern⟩ := hpattern
  have hearlier : ∀ p ∈ k.earlier.map Pattern.rule,
      Reads s (n + 6) p true (gap ++ (k.enclose body ++ rest)) none := by
    intro p hp
    obtain ⟨name, hname, rfl⟩ := List.mem_map.1 hp
    have hnever := (hs.more 6).never (k.never name (by simp [hname]) gap hgap)
      (body ++ [k.mark] ++ rest)
    rwa [List.append_assoc] at hnever
  have hparts : Reads s (n + 6) term.pattern true (gap ++ (k.enclose body ++ rest))
      (some (rest, .node node)) := by
    rw [hpattern]
    exact reads_choice_past hearlier (reads_choice_here (h gap hgap rest))
  have hterm := (hs.more 6).reads hmem (RuleDef.makes_same rfl rfl rfl rfl) hparts
  exact (((hs.more 6).more 1).reads_tightest hrest hterm).mono (by norm_cast)

theorem Plain.reads_expression {gap : List Char} (hgap : gap ∈ gaps) :
    Reads s (n + 61) (.rule "Expression") true (gap ++ (k.enclose body ++ [';']))
      (some ([';'], .node node)) := by
  have hmem : expression ∈ rules := operatorRules_subset (by simp [operatorRules])
  have htext : ∀ tail, Unprefixed (k.enclose body ++ tail) := fun tail =>
    ⟨[k.mark], body ++ [k.mark] ++ tail, rfl,
      fun name hname gap hgap => k.never name (by simp [hname]) gap hgap⟩
  have hunassigned : Unassigned s (n + 9) (k.enclose body) := by
    intro gap hgap rest _
    have hnever := (hs.more 9).never (k.never "AssignmentExpression" (by simp) gap hgap)
      (body ++ [k.mark] ++ rest)
    rwa [List.append_assoc] at hnever
  have hloose : Stands s (n + 9 + 3 * (17 : Nat)) 0 (k.enclose body) (.node node) :=
    Stands.loosen (hs.more 9) htext rfl 17 (Nat.le_refl 17) (fun _ => hunassigned)
      (hs.stands_string h)
  have hend : Follows 0 [';'] := ⟨([';'], 0), by simp [followers], Nat.le_refl 0, [], rfl⟩
  have hread := ((hs.more 9).more (3 * (17 : Nat))).reads hmem
    (RuleDef.makes_same rfl rfl rfl rfl) (hloose gap hgap [';'] hend)
  exact hread.mono (by norm_cast)

end Literals

section Return

/-- The statements that are tried before a return statement is. -/
def beforeReturn : List String :=
  ["Block", "InlineHtml", "EchoTag", "FunctionDeclaration", "ClassDeclaration",
    "InterfaceDeclaration", "TraitDeclaration", "IfStatement", "While", "DoWhile", "For",
    "Foreach", "Switch", "Break", "Continue"]

-- Evaluated in turn.
mutual

theorem beforeReturn_never : ∀ name ∈ "HaltCompiler" :: "NamespaceStatement" :: beforeReturn,
    neverReads (.rule name) "return ".toList = true := by
  decide +kernel

theorem return_foretold :
    (Token.mk (kw "return") none).foretell trivia false "return ".toList =
      some ([' '], "return") := by
  decide +kernel

end

variable {s : Setting} {n : Nat} (hs : Plain s n) {k : Quoting} {body : List Char} {node : Node}
  (h : k.Yields s n body node)

include hs h

theorem Plain.reads_return :
    Reads s (n + 64) (.rule "TopStatement") true ("return ".toList ++ (k.enclose body ++ [';']))
      (some ([], .node (.ofEntries "ReturnStatement" [("expression", .node node)]))) := by
  have hmem : ∀ d ∈ [topStatement, statement, returnStatement], d ∈ rules :=
    by simp [rules, statementRules]
  let text := k.enclose body ++ [';']
  have hword : Reads s (n + 61) (.terminal (kw "return")) true ("return ".toList ++ text)
      (some (' ' :: text, .text "return")) :=
    (hs.more 61).tokenReads return_foretold text
  have hexpression : Reads s (n + 61) (.rule "Expression") true (' ' :: text)
      (some ([';'], .node node)) :=
    hs.reads_expression h (show [' '] ∈ gaps by simp [gaps])
  have hend : Reads s (n + 61) (.rule "Terminator") true [';'] (some ([], .text ";")) :=
    hs.reads_terminator.mono (by norm_cast; omega)
  have hreturn : Reads s (n + 61 + 1) (.rule "ReturnStatement") true ("return ".toList ++ text)
      (some ([], .node (.ofEntries "ReturnStatement" [("expression", .node node)]))) :=
    (hs.more 61).reads (hmem returnStatement (by simp)) (RuleDef.makes_tagged rfl rfl)
      (reads_sequence (readsParts_plain hword rfl (readsParts_field
        (reads_optional_some hexpression) (readsParts_plain hend rfl readsParts_nil))))
  have hothers : ∀ depth : ℕ∞, ∀ name ∈ "HaltCompiler" :: "NamespaceStatement" :: beforeReturn,
      Reads s (n + depth) (.rule name) true ("return ".toList ++ text) none :=
    fun depth name hname => (hs.more depth).never (beforeReturn_never name hname) text
  have hearlier : ∀ p ∈ beforeReturn.map Pattern.rule,
      Reads s (n + 61 + 1) p true ("return ".toList ++ text) none := by
    intro p hp
    obtain ⟨name, hname, rfl⟩ := List.mem_map.1 hp
    rw [add_assoc]
    exact hothers _ name (by simp [hname])
  have hstatement : Reads s (n + 61 + 1 + 1) (.rule "Statement") true ("return ".toList ++ text)
      (some ([], .node (.ofEntries "ReturnStatement" [("expression", .node node)]))) :=
    ((hs.more 61).more 1).reads (hmem statement (by simp)) (RuleDef.makes_same rfl rfl rfl rfl)
      (reads_choice_past hearlier (reads_choice_here hreturn))
  have hdepth : (n + 61 + 1 + 1 : ℕ∞) = n + 63 := by norm_cast
  rw [hdepth] at hstatement
  have hread := (hs.more 63).reads (hmem topStatement (by simp))
    (RuleDef.makes_same rfl rfl rfl rfl)
    (reads_choice_next (hothers 63 "HaltCompiler" (by simp))
      (reads_choice_next (hothers 63 "NamespaceStatement" (by simp)) (reads_choice_here hstatement)))
  exact hread.mono (by norm_cast)

end Return

def Quoting.source (k : Quoting) (text : String) : String :=
  "<?php " ++ ("return " ++ String.ofList (k.print text.toList) ++ ";")

def returnOf (text : String) : Node :=
  programOf (.node (.ofEntries "ReturnStatement" [("expression", .node (stringLiteral text))]))

end Php

theorem run_literal (k : Php.Quoting) (text : String) :
    Parser.run .off (Text.ofString (k.source text)) = .ok (Php.returnOf text) := by
  have hs : Php.Plain (Parser.session .off (Text.ofString (k.source text))).setting Php.nesting :=
    Php.plain_session _ le_rfl
  have hread := (hs.more 64).reads_program (by simp) rfl
    (hs.reads_return (hs.reads_literal k text.toList))
  have hsource : (k.source text).toList =
      "<?php ".toList ++ ("return ".toList ++
        (k.enclose (Regex.escaped k.special text.toList) ++ [';'])) := by
    simp [Php.Quoting.source, Php.Quoting.print, Php.Quoting.enclose]
  rw [← hsource, String.ofList_toList] at hread
  exact Parser.run_of_reads_within hread (by norm_cast)

/-- A literal decodes to the text that it was written from, between quotes of both kinds. -/
theorem parse_literal (p : Parser) (k : Php.Quoting) (text : String) :
    ∃ n, p.parse (k.source text) = .ok n ∧ n.strip = Php.returnOf text ∧
      (p.options = .off → n = Php.returnOf text) :=
  Parser.parse_of_run (run_literal k text) p

end PhpSyntax
