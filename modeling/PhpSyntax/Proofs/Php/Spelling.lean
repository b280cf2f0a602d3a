import PhpSyntax.Proofs.Peg.Calling
import PhpSyntax.Proofs.Peg.Opening
import PhpSyntax.Proofs.Peg.Spanning
import PhpSyntax.Proofs.Php.Forms
import PhpSyntax.Proofs.Php.Interpolated

namespace PhpSyntax

open Peg

/-- A variable is written between two offsets: behind a dollar sign, in braces behind one, or only
as the root of an index in such braces. -/
def Text.Writes (source : Text) (start stop : Nat) (name : String) : Prop :=
  let written := source.slice? start stop
  written = some ('$' :: name.toList) ∨ written = some (['$', '\x7b'] ++ name.toList ++ ['\x7d']) ∨
    written = some name.toList ∧ ∃ front rest, start = front + byteLength ['$', '\x7b'] ∧
      source.Has front (['$', '\x7b'] ++ (name.toList ++ '[' :: rest))

def Spelled (source : Text) (n : Node) : Prop :=
  n.name = "Variable" → ∃ (name : String) (b : Bounds),
    n.fields.entries = [("variable", .text name)] ∧ n.bounds = some b ∧
    source.Writes b.start.offset b.stop.offset name

namespace Php

theorem spelled_lawful (source : Text) : Lawful (Spelled source) where
  allows n h _ := by
    intro hname
    rw [hname] at h
    simp [lawful, distinguished] at h
  handled n hname _ _ _ := by
    intro hvariable
    rw [hname] at hvariable
    simp at hvariable
  placed n h hplain bounds extent := by
    intro hname
    obtain ⟨name, b, -, hbounds, -⟩ := h hname
    simp [NodeOf.isInstrumented, hbounds] at hplain

/-- The rules that stand only within the body of a string, where nothing is skipped. -/
def inString : List String :=
  ["StringParts", "HeredocParts", "StringPart", "HeredocPart", "DoubleQuotedText", "HeredocText",
    "Interpolation", "ComplexInterpolation", "BracedVariableName", "BracedVariableIndex",
    "BracedName", "BracedIndex", "BracedVariableExpression", "SimpleInterpolation",
    "InterpolatedIndex", "InterpolatedKey", "InterpolatedProperty"]

/-- Outside of strings no rule for their bodies is called, and within them none that skips trivia.
The name of a variable in braces is its own node only in front of an index. -/
theorem inString_called :
    (rules.all fun d => [true, false].all fun trivia => (trivia && inString.contains d.name) ||
      (d.pattern.calls trivia).all fun c => !(c.2 && inString.contains c.1)) = true ∧
    (rules.all fun d => [true, false].all fun trivia => d.name == "BracedVariableIndex" ||
      (d.pattern.calls trivia).all fun c => c.1 != "BracedName") = true := by
  decide +kernel

/-- What is known of the match of a rule. -/
structure Told (source : Text) (input : Input) (rule : String) (offset : Nat) (m : Matched) :
    Prop where
  tree : rule ≠ "BracedName" → (ruleForm rule).Has (Spelled source) m.value
  name : rule = "BracedName" → ∃ name rest n b, input.text.Has offset (name ++ rest) ∧
    m.stop = offset + byteLength name ∧ m.value = .node n ∧
    n.fields.entries = [("variable", .text (String.ofList name))] ∧ n.bounds = some b ∧
    b.start.offset = input.base + offset ∧ b.stop.offset = input.base + m.stop
  index : rule = "BracedIndex" → ∃ rest, input.text.Has offset ('[' :: rest)

/-- Variables stand in the source where their places are. -/
def spelling (source : Text) : Invariant where
  good input := source.Holds input.base input.text
  holds input rule trivia offset m :=
    (trivia = true → rule ∉ inString) → Told source input rule offset m
  fails _ := True

section Told

variable {s : Setting} {source : Text} {input : Input} {skipped : Option Lexeme} {trivia : Bool}
  {offset : Nat} {m : Matched} {ctx : Context} {v : Value}

/-- The calls of rules in a pattern, where what is called tells of its match. -/
theorem told_calls {d : RuleDef} (hd : d ∈ rules) (hstring : trivia = true → d.name ∉ inString)
    (hm : Matches skipped input.text ((spelling source).calls input) d.pattern trivia offset m) :
    Matches skipped input.text (fun r _ o m => m.Placed input.text o ∧ Told source input r o m ∧
      (d.name ≠ "BracedVariableIndex" → r ≠ "BracedName")) d.pattern trivia offset m := by
  obtain ⟨hcalled, hbraced⟩ := inString_called
  have htrivia : trivia ∈ [true, false] := by cases trivia <;> simp
  have hcalled := List.all_eq_true.1 (List.all_eq_true.1 hcalled d hd) trivia htrivia
  have hbraced := List.all_eq_true.1 (List.all_eq_true.1 hbraced d hd) trivia htrivia
  simp only [Bool.or_eq_true, Bool.and_eq_true, List.contains_eq_mem, decide_eq_true_eq,
    List.all_eq_true, Bool.not_eq_true', Bool.and_eq_false_iff, decide_eq_false_iff_not,
    beq_iff_eq, bne_iff_ne] at hcalled hbraced
  refine Matches.of_calls d.pattern (fun c hc o m hcall => ?_) hm
  refine ⟨hcall.1, hcall.2 fun hskip => ?_, fun hd => ?_⟩
  · obtain ⟨htrue, hin⟩ | hcalled := hcalled
    · exact absurd hin (hstring htrue)
    · exact (hcalled c hc).resolve_left (by simp [hskip])
  · exact hbraced.resolve_left hd c hc

/-- The nested parses of a match find trees. -/
theorem told_asks {reparse : String → String → Nat → Except Failure (Option Value)}
    (hgood : source.Holds input.base input.text)
    (hanswers : (spelling source).Answers input reparse)
    (hctx : ctx.reparse = input.located reparse) : Asks (Spelled source) ctx := by
  refine .of_located hctx fun name hname text place v hholds hv => ?_
  obtain ⟨m, ⟨-, hm⟩, rfl⟩ := (hanswers name text place (hgood.trans hholds)).1 v hv
  have htree := (hm nofun).tree (by rintro rfl; simp at hname)
  rw [ruleForm_parts name hname] at htree
  exact htree

end Told

theorem ident_whole : (re ident).Whole := by
  decide +kernel

theorem closingBrace_spells : (lit "\x7d").Spells (['\x7d'].map .single) := by
  decide +kernel

section Written

variable {source : Text} {input : Input} {skipped : Option Lexeme} {trivia : Bool}
  {calls : Calls} {offset : Nat} {m : Matched} {ctx : Context} {v : Value}

theorem variable_shape {d : RuleDef} (hd : d ∈ [variableRule, bracedVariableName, bracedName])
    (ctx : Context) (name : String) :
    RuleDef.shape d ctx (.record ⟨[("variable", .text name)]⟩) =
      .ok (LinkedRule.place ctx (.node (.ofEntries "Variable" [("variable", .text name)]))) := by
  simp only [List.mem_cons, List.not_mem_nil, or_false] at hd
  obtain rfl | rfl | rfl := hd
  · rfl
  · rfl
  · rfl

theorem variable_written (hb : input.text.Boundary offset)
    (hm : Matches skipped input.text calls variableRule.pattern trivia offset m) :
    ∃ name rest, input.text.Has m.start ('$' :: name ++ rest) ∧
      m.stop = m.start + byteLength ('$' :: name) ∧
      m.value = .record ⟨[("variable", .text (String.ofList name))]⟩ := by
  obtain ⟨m', hm', hstop, hstart, hvalue⟩ := matches_field hm
  obtain ⟨taken, body, more, rest, hhas, htaken, hmore, hend, htext⟩ :=
    matches_framed hb hm' variableName_frames
  obtain rfl := htaken.literal
  obtain rfl : more = [] := List.forall₂_nil_left_iff.1 hmore
  rw [hstart (by omega), hstop, hvalue, htext]
  refine ⟨body, rest, by simpa using hhas, ?_, rfl⟩
  rw [hend, List.append_nil]
  rfl

theorem bracedVariableName_written (hb : input.text.Boundary offset)
    (hm : Matches skipped input.text calls bracedVariableName.pattern false offset m) :
    ∃ name rest, input.text.Has m.start (['$', '\x7b'] ++ name ++ ['\x7d'] ++ rest) ∧
      m.stop = m.start + byteLength (['$', '\x7b'] ++ name ++ ['\x7d']) ∧
      m.value = .record ⟨[("variable", .text (String.ofList name))]⟩ := by
  obtain ⟨ps, ⟨m₁, h₁, m₂, h₂, m₃, h₃, rfl⟩, rfl⟩ := hm
  simp only [Parts.push_cursor] at h₂ h₃
  obtain ⟨opening, behind, hlead₁, hhas, hopening, hstop₁⟩ :=
    matches_spelled hb h₁ dollarBrace_spells
  obtain rfl := hopening.literal
  have hstart : m₁.start = offset := hlead₁.of_raw
  have hb₂ : input.text.Boundary m₁.stop := ⟨behind, hstop₁ ▸ hhas.move⟩
  obtain ⟨name, behind₂, hlead₂, hname, hstop₂, hvalue⟩ := matches_whole hb₂ h₂ ident_whole
  have hb₃ : input.text.Boundary m₂.stop := ⟨behind₂, hstop₂ ▸ hname.move⟩
  obtain ⟨closing, rest, hlead₃, hclose, hclosing, hstop₃⟩ :=
    matches_spelled hb₃ h₃ closingBrace_spells
  obtain rfl := hclosing.literal
  obtain ⟨t₁, ht₁⟩ := matches_text h₁
  obtain ⟨t₃, ht₃⟩ := matches_text h₃
  rw [hlead₂.of_raw] at hstop₂ hname
  rw [hlead₃.of_raw] at hstop₃ hclose
  rw [hstop₁] at hname
  rw [hstop₂, hstop₁] at hclose
  obtain rfl := hhas.move.unique hname
  obtain rfl := hname.move.unique hclose
  have hconsumed : m₁.consumed = true := by
    simp only [Matched.consumed, hstop₁, decide_eq_true_eq]
    exact Nat.lt_add_of_pos_right (byteLength_cons_pos _ _)
  have hbegin : ∀ ps : Parts, (((Parts.startingAt offset).push none .value m₁).push
      (some "variable") .value m₂).push none .value m₃ = ps → ps.start = some m₁.start := by
    rintro ps rfl
    simp [Parts.push_start, hconsumed, Parts.startingAt]
  refine ⟨name, rest, ?_, ?_, ?_⟩
  · simp only [Parts.finish, hbegin _ rfl, Option.getD_some]
    simpa using hhas
  · simp only [Parts.finish, hbegin _ rfl, Option.getD_some, Parts.push_cursor]
    rw [hstop₃, hstop₂, hstop₁]
    simp only [byteLength_append]
    omega
  · simp [Parts.finish, Parts.push, ht₁, ht₃, hvalue]
    rfl

theorem bracedName_written (hb : input.text.Boundary offset)
    (hm : Matches skipped input.text calls bracedName.pattern false offset m) :
    ∃ name rest, input.text.Has offset (name ++ rest) ∧ m.start = offset ∧
      m.stop = offset + byteLength name ∧
      m.value = .record ⟨[("variable", .text (String.ofList name))]⟩ := by
  obtain ⟨m', hm', hstop, hstart, hvalue⟩ := matches_field hm
  obtain ⟨name, rest, hlead, hhas, hend, htext⟩ := matches_whole hb hm' ident_whole
  obtain rfl := hlead.of_raw
  rw [hstart (by omega), hstop, hvalue, htext]
  exact ⟨name, rest, hhas, rfl, hend, rfl⟩

/-- The node that a rule for variables makes has the place of its match. -/
theorem variable_placed {d : RuleDef} (hd : d ∈ [variableRule, bracedVariableName, bracedName])
    (hctx : Grounded source ctx) (hrecords : ctx.options.captureBounds = true)
    (hspan : ctx.span = ⟨m.start, m.stop⟩) {name : String}
    (hvalue : m.value = .record ⟨[("variable", .text name)]⟩)
    (h : RuleDef.shape d ctx m.value = .ok v) :
    ∃ (n : Node) (b : Bounds), v = .node n ∧ n.fields.entries = [("variable", .text name)] ∧
      n.bounds = some b ∧ b.start.offset = ctx.input.base + m.start ∧
      b.stop.offset = ctx.input.base + m.stop := by
  rw [hvalue, variable_shape hd] at h
  obtain rfl := Except.ok.inj h
  obtain ⟨n, hn, hfields, hspans⟩ := hctx.place_spans
    (show (NodeOf.ofEntries "Variable" [("variable", .text name)] : Node).isInstrumented = false
      from rfl)
  have hbounds := hspans.bounds
  rw [if_pos hrecords] at hbounds
  refine ⟨n, _, hn, ?_, hbounds, ?_, ?_⟩
  · rw [hfields]
    rfl
  · rw [Nat.add_comm]
    simpa only [Context.absoluteSpan, hspan, Lines.bounds, Span.shift] using hspans.first.position_offset
  · rw [Nat.add_comm]
    simpa only [Context.absoluteSpan, hspan, Lines.bounds, Span.shift] using hspans.last.position_offset

/-- A node of a variable that is written where its place is. -/
theorem finished_variable {n : Node} {name : String} {b : Bounds}
    (hentries : n.fields.entries = [("variable", .text name)]) (hbounds : n.bounds = some b)
    (hwrites : source.Writes b.start.offset b.stop.offset name) :
    (Value.node n).Finished (Spelled source) := by
  refine Value.finished_node.2 ⟨fun _ => ⟨name, b, hentries, hbounds, hwrites⟩, ?_⟩
  rw [hentries]
  simp [Value.Finished]

/-- What stands in an input is written as far into the source. -/
theorem slice_of_holds (hholds : source.Holds input.base input.text) {start stop : Nat}
    {written rest : List Char} (hhas : input.text.Has start (written ++ rest))
    (hstop : stop = start + byteLength written) :
    source.slice? (input.base + start) (input.base + stop) = some written := by
  obtain ⟨behind, hbehind⟩ := hholds.has hhas
  rw [List.append_assoc] at hbehind
  rw [hstop, ← Nat.add_assoc]
  exact hbehind.slice?

theorem variableRule_told (hctx : Grounded source ctx)
    (hrecords : ctx.options.captureBounds = true)
    (hspan : ctx.span = ⟨m.start, m.stop⟩) (hb : ctx.input.text.Boundary offset)
    (hm : Matches skipped ctx.input.text calls variableRule.pattern trivia offset m)
    (h : RuleDef.shape variableRule ctx m.value = .ok v) :
    Form.branch.Has (Spelled source) v := by
  obtain ⟨name, rest, hhas, hstop, hvalue⟩ := variable_written hb hm
  obtain ⟨n, b, rfl, hentries, hbounds, hfirst, hlast⟩ :=
    variable_placed (by simp) hctx hrecords hspan hvalue h
  refine ⟨finished_variable hentries hbounds (.inl ?_), n, rfl⟩
  rw [hfirst, hlast, String.toList_ofList]
  exact slice_of_holds hctx.holds hhas hstop

theorem bracedVariableName_told (hctx : Grounded source ctx)
    (hrecords : ctx.options.captureBounds = true)
    (hspan : ctx.span = ⟨m.start, m.stop⟩) (hb : ctx.input.text.Boundary offset)
    (hm : Matches skipped ctx.input.text calls bracedVariableName.pattern false offset m)
    (h : RuleDef.shape bracedVariableName ctx m.value = .ok v) :
    Form.branch.Has (Spelled source) v := by
  obtain ⟨name, rest, hhas, hstop, hvalue⟩ := bracedVariableName_written hb hm
  obtain ⟨n, b, rfl, hentries, hbounds, hfirst, hlast⟩ :=
    variable_placed (by simp) hctx hrecords hspan hvalue h
  refine ⟨finished_variable hentries hbounds (.inr (.inl ?_)), n, rfl⟩
  rw [hfirst, hlast, String.toList_ofList]
  exact slice_of_holds hctx.holds hhas hstop

theorem bracedName_told (hctx : Grounded source ctx)
    (hrecords : ctx.options.captureBounds = true)
    (hspan : ctx.span = ⟨m.start, m.stop⟩) (hb : ctx.input.text.Boundary offset)
    (hm : Matches skipped ctx.input.text calls bracedName.pattern false offset m)
    (h : RuleDef.shape bracedName ctx m.value = .ok v) :
    Told source ctx.input "BracedName" offset { m with value := v } := by
  obtain ⟨name, rest, hhas, hstart, hstop, hvalue⟩ := bracedName_written hb hm
  obtain ⟨n, b, rfl, hentries, hbounds, hfirst, hlast⟩ :=
    variable_placed (by simp) hctx hrecords hspan hvalue h
  rw [hstart] at hfirst
  exact ⟨fun hne => absurd rfl hne,
    fun _ => ⟨name, rest, n, b, hhas, hstop, rfl, hentries, hbounds, hfirst, hlast⟩, by simp⟩

theorem bracedIndex_begins (hb : input.text.Boundary offset)
    (hm : Matches skipped input.text calls bracedIndex.pattern false offset m) :
    ∃ rest, input.text.Has offset ('[' :: rest) := by
  obtain ⟨ps, ⟨m₁, h₁, -⟩, -⟩ := hm
  obtain ⟨opening, rest, hlead, hhas, hopening, -⟩ := matches_spelled hb h₁ bracket_spells
  obtain rfl := hopening.literal
  rw [hlead.of_raw] at hhas
  exact ⟨rest, hhas⟩

/-- In front of an index the name in braces is a variable of its own. -/
theorem bracedVariableIndex_has (hholds : source.Holds input.base input.text)
    (hb : input.text.Boundary offset)
    (hm : Matches skipped input.text (fun r _ o m => Told source input r o m)
      bracedVariableIndex.pattern false offset m) :
    (PatternDef.form ruleForm bracedVariableIndex.pattern).Has (Spelled source) m.value := by
  have hd : bracedVariableIndex ∈ rules := by simp [rules, stringRules]
  obtain ⟨ps, ⟨m₁, h₁, m₂, h₂, m₃, h₃, m₄, h₄, rfl⟩, rfl⟩ := hm
  simp only [Parts.push_cursor] at h₂ h₃ h₄
  obtain ⟨opening, behind, hlead, hhas, hopening, hstop₁⟩ :=
    matches_spelled hb h₁ dollarBrace_spells
  obtain rfl := hopening.literal
  obtain ⟨name, more, n, b, hname, hstop₂, hvalue, hentries, hbounds, hfirst, hlast⟩ := h₂.name rfl
  obtain ⟨rest, hindex⟩ := h₃.index rfl
  have hroot : (Value.node n).Finished (Spelled source) := by
    refine finished_variable hentries hbounds (.inr (.inr ?_))
    rw [hfirst, hlast, String.toList_ofList]
    refine ⟨slice_of_holds hholds hname hstop₂, ?_⟩
    rw [hstop₂] at hindex
    obtain rfl := hname.move.unique hindex
    rw [hstop₁] at hname
    obtain rfl := hhas.move.unique hname
    obtain ⟨beyond, hbeyond⟩ := hholds.has hhas
    refine ⟨input.base + m₁.start, rest ++ beyond, ?_, ?_⟩
    · rw [hstop₁, Nat.add_assoc]
    · simpa using hbeyond
  have hname : (ruleForm "BracedName").Has (Spelled source) m₂.value := by
    rw [hvalue]
    exact ⟨hroot, n, rfl⟩
  have hm : Matches skipped input.text (fun r _ _ m => (ruleForm r).Has (Spelled source) m.value)
      bracedVariableIndex.pattern false offset _ :=
    ⟨_, ⟨m₁, h₁, m₂, hname, m₃, h₃.tree (by simp), m₄, h₄, rfl⟩, rfl⟩
  exact pattern_has hd (fun _ _ _ _ h => h) hm

theorem spelling_closed (hlines : s.lines = .ofText source)
    (hbounds : s.options.captureBounds = true) : (spelling source).Closed s rules where
  deep _ _ _ _ := trivial
  shape input hgood d hd trivia offset m hb hplaced hm reparse hanswers := by
    refine ⟨fun v h hstring => ?_, fun _ _ => trivial⟩
    rw [(rules_locate hd).shape hb hm] at h
    have hasks : Asks (Spelled source)
        ⟨⟨m.start, m.stop⟩, input, s.lines, s.options, input.located reparse⟩ :=
      told_asks hgood hanswers rfl
    have hctx : Grounded source
        ⟨⟨m.start, m.stop⟩, input, s.lines, s.options, input.located reparse⟩ :=
      ⟨hlines, by simp [Options.instruments, hbounds], hgood, hplaced.start, hplaced.stop⟩
    have htold := told_calls hd hstring hm
    have hraw : d.name ∈ inString → trivia = false := by
      intro hin
      by_contra htrue
      exact hstring (Bool.eq_true_of_not_eq_false htrue) hin
    have hrule : ∀ r ∈ [variableRule, bracedVariableName, bracedName, bracedIndex,
        bracedVariableIndex], d.name = r.name → d = r := by
      intro r hr hname
      refine rule_unique hd ?_ hname
      simp only [List.mem_cons, List.not_mem_nil, or_false] at hr
      obtain rfl | rfl | rfl | rfl | rfl := hr <;> simp [rules, stringRules, lexicalRules]
    by_cases hname : d.name = "BracedName"
    · obtain rfl := hrule bracedName (by simp) hname
      rw [hraw (by decide)] at hm
      exact bracedName_told hctx hbounds rfl hb hm h
    refine ⟨fun _ => ?_, fun h => absurd h hname, fun hindex => ?_⟩
    · by_cases hvariable : d.name ∈ variableRules
      · rw [ruleForm_variable _ hvariable]
        simp only [variableRules, List.mem_cons, hname, List.not_mem_nil, or_false] at hvariable
        obtain hvariable | hvariable := hvariable
        · obtain rfl := hrule variableRule (by simp) hvariable
          exact variableRule_told hctx hbounds rfl hb hm h
        · obtain rfl := hrule bracedVariableName (by simp) hvariable
          rw [hraw (by decide)] at hm
          exact bracedVariableName_told hctx hbounds rfl hb hm h
      · refine rule_yields (spelled_lawful source) hd hvariable hasks ?_ h
        by_cases hbraced : d.name = "BracedVariableIndex"
        · obtain rfl := hrule bracedVariableIndex (by simp) hbraced
          rw [hraw (by decide)] at htold
          exact bracedVariableIndex_has hgood hb
            (Matches.of_calls _ (fun _ _ _ _ hcall => hcall.2.1) htold)
        · exact pattern_has hd (fun r _ _ _ hcall => hcall.2.1.tree (hcall.2.2 hbraced)) htold
    · obtain rfl := hrule bracedIndex (by simp) hindex
      rw [hraw (by decide)] at hm
      exact bracedIndex_begins hb hm

end Written

section Opened

variable {input : Input} {skipped : Option Lexeme} {trivia : Bool} {calls : Calls} {offset : Nat}
  {m : Matched} (hb : input.text.Boundary offset) (lines : Lines) (options : Options)

include hb

/-- A string in double quotes has what stands behind its quote parsed again. -/
theorem doubleQuotedString_consults
    (hm : Matches skipped input.text calls doubleQuotedString.pattern trivia offset m) :
    ∃ body rest, input.text.Has m.start ('\x22' :: (body ++ rest)) ∧
      doubleQuotedString.Consults ⟨m.start, m.stop⟩ input lines options m.value "StringParts"
        (String.ofList body) (m.start + 1) := by
  obtain ⟨body, rest, hhas, -, hvalue⟩ := doubleQuotedString_takes hb hm
  refine ⟨body, rest, hhas, .of_fails fun reparse e he => ?_⟩
  have htext : (NodeOf.ofFields "StringLiteral"
      ⟨[("string", .text (String.ofList body))]⟩).text? "string" = some (String.ofList body) := rfl
  have hprocess : interpolateDoubleQuoted (.node (NodeOf.ofFields "StringLiteral"
      ⟨[("string", .text (String.ofList body))]⟩))
      ⟨⟨m.start, m.stop⟩, input, lines, options, reparse⟩ = .error e := by
    simp only [interpolateDoubleQuoted, htext, Option.getD_some, he]
    rfl
  rw [hvalue]
  exact congrArg (· >>= _) hprocess

/-- A heredoc has what stands behind its header parsed again. -/
theorem heredoc_consults
    (hm : Matches skipped input.text calls heredoc.pattern trivia offset m) :
    ∃ head body rest, input.text.Has m.start (head ++ (body ++ rest)) ∧
      heredoc.Consults ⟨m.start, m.stop⟩ input lines options m.value "HeredocParts"
        (String.ofList body) (m.start + byteLength head) := by
  obtain ⟨head, body, rest, hhas, hheader, -, hvalue⟩ := heredoc_takes hb hm
  refine ⟨head, body, rest, hhas, .of_fails fun reparse e he => ?_⟩
  have htext : (NodeOf.ofFields "Heredoc" ⟨[("body", .text (String.ofList body))]⟩).text? "body" =
      some (String.ofList body) := rfl
  have hprocess : interpolateHeredoc (.node (NodeOf.ofFields "Heredoc"
      ⟨[("body", .text (String.ofList body))]⟩))
      ⟨⟨m.start, m.stop⟩, input, lines, options, reparse⟩ = .error e := by
    simp only [interpolateHeredoc, htext, Option.getD_some, Context.text, hheader, he]
    rfl
  rw [hvalue]
  exact congrArg (· >>= _) hprocess

end Opened

/-- Double-quoted strings and heredocs have their bodies parsed by sessions of their own. -/
theorem string_opens {s : Setting} (hs : s.grammar = grammar) {source input : Input}
    (hstart : source.text.Boundary 0) {start : String} {trivia skip : Bool} {rule offset : Nat}
    {r : LinkedRule} {σ σ' : Progress} {m : Matched}
    (h : Takes s source start trivia input (.evaluate rule offset skip) σ)
    (hr : s.grammar.rules[rule]? = some r)
    (hstring : r.written = doubleQuotedString ∨ r.written = heredoc)
    (hexec : Exec s (· ≤ s.limit) input (.pattern r.pattern skip offset) σ (.ok (some m)) σ') :
    ∃ head body rest id, input.text.Has m.start (head ++ (body ++ rest)) ∧
      Takes s source start trivia (input.within (String.ofList body) (m.start + byteLength head))
        (.call id 0 false) ⟨.empty, σ'.depth, 0⟩ := by
  obtain ⟨-, hb, calls, hm⟩ := h.matched (hs ▸ grammar_lists) hstart hr hexec
  have hnumber : ∀ d ∈ [stringParts, heredocParts], ∃ id, s.grammar.ruleId? d.name = some id := by
    intro d hd
    have hmem : [stringParts, heredocParts] ⊆ rules := by simp [rules, stringRules]
    obtain ⟨id, -, hid, -⟩ := Grammar.rule_of_link grammar_linked (hmem hd)
    exact ⟨id, hs ▸ hid⟩
  obtain hwritten | hwritten := hstring
  · rw [hwritten] at hm
    obtain ⟨body, rest, hhas, hconsults⟩ := doubleQuotedString_consults hb s.lines s.options hm
    obtain ⟨id, hid⟩ := hnumber stringParts (by simp)
    rw [← hwritten] at hconsults
    exact ⟨['\x22'], body, rest, id, hhas, .opened h hr hexec hconsults hid⟩
  · rw [hwritten] at hm
    obtain ⟨head, body, rest, hhas, hconsults⟩ := heredoc_consults hb s.lines s.options hm
    obtain ⟨id, hid⟩ := hnumber heredocParts (by simp)
    rw [← hwritten] at hconsults
    exact ⟨head, body, rest, id, hhas, .opened h hr hexec hconsults hid⟩

/-- A program is no variable, and neither is a halt. -/
theorem program_told {source : Text} {v : Value} (h : programForm.Has (Spelled source) v) :
    v.Finished (Spelled source) := by
  obtain ⟨n, rfl, hname, _, _, hentries, ⟨vs, rfl, hvs⟩, rfl⟩ := h
  have hother : ∀ {w : Node} {tag : String}, w.name = tag → tag ≠ "Variable" →
      Spelled source w := by
    intro w tag hw hne hvariable
    exact absurd (hw.symm.trans hvariable) hne
  refine Value.finished_node.2 ⟨hother hname (by decide), ?_⟩
  rw [hentries]
  simp only [List.mem_singleton, forall_eq, Value.finished_list]
  intro v hv
  obtain hfinished | ⟨w, rfl, hhalt, data, _, hdata, hfinished, rfl⟩ := hvs v hv
  · exact hfinished
  refine Value.finished_node.2 ⟨hother hhalt (by decide), ?_⟩
  rw [hdata]
  simp only [List.mem_singleton, forall_eq]
  exact hfinished

end Php

/-- All sessions of a parse, at any depth of strings, read what stands in the source where they
say they do, and the bodies of double-quoted strings and heredocs are read by such sessions.
Variables are written where their places are. -/
theorem parse_located {p : Parser} (hbounds : p.options.captureBounds = true) {source : String}
    {n : Node} (h : p.parse source = .ok n) :
    let s := (Parser.session p.options (.ofString source)).setting
    let whole : Input := ⟨.ofString source, 0⟩
    (∀ input job σ, Takes s whole Php.startRule true input job σ →
      (Text.ofString source).slice? input.base (input.base + input.text.size) =
        some input.text.chars) ∧
      (∀ input rule offset skip σ r m σ',
        Takes s whole Php.startRule true input (.evaluate rule offset skip) σ →
        s.grammar.rules[rule]? = some r →
        r.written = Php.doubleQuotedString ∨ r.written = Php.heredoc →
        Exec s (· ≤ s.limit) input (.pattern r.pattern skip offset) σ (.ok (some m)) σ' →
        ∃ head body rest id, input.text.Has m.start (head ++ (body ++ rest)) ∧
          Takes s whole Php.startRule true
            (input.within (String.ofList body) (m.start + byteLength head)) (.call id 0 false)
            ⟨.empty, σ'.depth, 0⟩) ∧
      (Value.node n).Finished (Spelled (.ofString source)) := by
  intro s whole
  have hstart : (Text.ofString source).Boundary 0 := ⟨_, Text.has_start _⟩
  have hwhole : (Text.ofString source).Holds 0 (.ofString source) := by
    refine ⟨source.toList, [], rfl, ?_⟩
    rw [List.append_nil]
    exact Text.has_start _
  refine ⟨?_, ?_, ?_⟩
  · intro input job σ htakes
    obtain ⟨cs, rest, hcs, hhas⟩ := htakes.holds Php.grammar_lists
      (fun d hd => Php.rules_locate hd) hstart hwhole
    rw [hcs, Text.size_ofList]
    exact hhas.slice?
  · intro input rule offset skip σ r m σ' htakes hr hstring hexec
    exact Php.string_opens rfl hstart htakes hr hstring hexec
  · have hclosed : (Php.spelling (.ofString source)).Closed s Php.rules :=
      Php.spelling_closed rfl hbounds
    have hgood : (Php.spelling (.ofString source)).good whole := hwhole
    obtain ⟨m, ⟨-, hm⟩, hvalue⟩ := (Session.run_keeps hclosed Php.grammar_lists hgood hstart).1 _
      (Parser.run_of_parse h)
    have htree := (hm (by decide)).tree (by decide)
    rw [hvalue] at htree
    exact Php.program_told htree

/-- The body of a string with a variable is parsed where it stands, and so is the variable. -/
theorem parse_located_variable :
    let p : Parser := .withOptions ⟨true, false⟩
    let x : Php.Ident := ⟨'b', [], rfl, by simp⟩
    let source := Php.interpolatedSource x " c".toList
    let s := (Parser.session p.options (.ofString source)).setting
    let whole : Input := ⟨.ofString source, 0⟩
    p.options.captureBounds = true ∧ ∃ n, p.parse source = .ok n ∧
      n.strip = Php.interpolatedReturn x " c".toList ∧
      (∀ input job σ, Takes s whole Php.startRule true input job σ →
        (Text.ofString source).slice? input.base (input.base + input.text.size) =
          some input.text.chars) ∧
      (∀ input rule offset skip σ r m σ',
        Takes s whole Php.startRule true input (.evaluate rule offset skip) σ →
        s.grammar.rules[rule]? = some r →
        r.written = Php.doubleQuotedString ∨ r.written = Php.heredoc →
        Exec s (· ≤ s.limit) input (.pattern r.pattern skip offset) σ (.ok (some m)) σ' →
        ∃ head body rest id, input.text.Has m.start (head ++ (body ++ rest)) ∧
          Takes s whole Php.startRule true
            (input.within (String.ofList body) (m.start + byteLength head)) (.call id 0 false)
            ⟨.empty, σ'.depth, 0⟩) ∧
      (Value.node n).Finished (Spelled (.ofString source)) := by
  intro p x source s whole
  have hending : Php.Ending " c".toList :=
    ⟨by decide, by simp [Php.specialInDouble], by decide, by decide, by decide⟩
  obtain ⟨n, hn, hstrip, -⟩ := parse_interpolated p x hending
  exact ⟨rfl, n, hn, hstrip, parse_located rfl hn⟩

end PhpSyntax
