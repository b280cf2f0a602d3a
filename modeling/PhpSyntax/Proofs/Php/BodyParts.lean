import PhpSyntax.Proofs.Php.Cutting
import PhpSyntax.Proofs.Php.Spelling
import PhpSyntax.Proofs.Php.Unquoted

namespace PhpSyntax.Php

open Peg Regex Program Literal

/-- The strings whose bodies are parsed again. -/
inductive Body where
  | doubleQuoted
  | heredoc

namespace Body

def set : Body → EscapeSet
  | doubleQuoted => .doubleQuoted
  | heredoc => .heredoc

def run : Body → RuleDef
  | doubleQuoted => doubleQuotedText
  | heredoc => heredocText

def part : Body → RuleDef
  | doubleQuoted => stringPart
  | heredoc => heredocPart

def parts : Body → RuleDef
  | doubleQuoted => stringParts
  | heredoc => heredocParts

variable (k : Body)

theorem mem_rules : k.run ∈ rules ∧ k.part ∈ rules ∧ k.parts ∈ rules := by
  cases k <;> simp [run, part, parts, rules, stringRules]

end Body

def IsLiteral (s : String) (v : Value) : Prop :=
  ∃ n, v = .node n ∧ n.name = "StringLiteral" ∧ n.fields.entries = [("string", .text s)]

/-- A literal run at an offset, with the text that it stands for. -/
structure Body.IsRun (k : Body) (text : Text) (offset : Nat) (m : Matched) (run : List Char) :
    Prop where
  stands : ∃ rest, text.Has offset (run ++ rest) ∧ literalRun (run ++ rest) = run
  nonempty : run ≠ []
  start : m.start = offset
  stop : m.stop = offset + byteLength run
  value : IsLiteral (k.set.apply (String.ofList run)) m.value

/-- A match that begins at once, with what begins an interpolation. -/
structure Opens (text : Text) (offset : Nat) (m : Matched) : Prop where
  begins : ∃ cs, text.Has offset cs ∧ Interpolates cs
  start : m.start = offset

/-- An interpolation at an offset. -/
structure IsInterpolation (text : Text) (offset : Nat) (m : Matched) : Prop
    extends Opens text offset m where
  value : Unquoted m.value

def Body.IsPart (k : Body) (text : Text) (offset : Nat) (m : Matched) : Prop :=
  (∃ run, k.IsRun text offset m run) ∨ IsInterpolation text offset m

def interpolations : List RuleDef :=
  [complexInterpolation, bracedVariableName, bracedVariableIndex, bracedVariableExpression,
    simpleInterpolation]

def interpolators : List RuleDef :=
  variableRule :: interpolation :: interpolations

theorem interpolators_mem {d : RuleDef} (hd : d ∈ interpolators) : d ∈ rules := by
  have hsub : interpolators ⊆ rules := by
    simp [interpolators, interpolations, rules, stringRules, lexicalRules]
  exact hsub hd

-- Evaluated in turn.
mutual

theorem variableName_begins : variableName.Begins [.single '$', identStarts] := by
  decide +kernel

theorem dollarBrace_begins : (lit "$\x7b").Begins (['$', '\x7b'].map .single) := by
  decide +kernel

theorem brace_begins : (lit "\x7b").Begins (['\x7b'].map .single) := by
  decide +kernel

end

/-- What is known of the match of a rule where nothing is skipped. -/
structure Splits (text : Text) (rule : String) (offset : Nat) (m : Matched) : Prop where
  root : rule = "Variable" → offset < m.stop ∧ ∃ cs, text.Has offset ('$' :: cs)
  interpolation : ∀ d ∈ interpolators, rule = d.name → IsInterpolation text offset m
  run : ∀ k : Body, rule = k.run.name → ∃ run, k.IsRun text offset m run
  part : ∀ k : Body, rule = k.part.name → k.IsPart text offset m

/-- Bodies fall into literal runs and interpolations. -/
def splitting : Invariant where
  good _ := True
  holds input rule trivia offset m := Unquotes input.text rule offset m.value ∧
    (trivia = false → Splits input.text rule offset m)
  fails _ := True

section Shapes

variable {ctx : Context} {d : RuleDef} {n : Node} {v : Value}

theorem IsLiteral.place {s : String} (h : IsLiteral s v) : IsLiteral s (LinkedRule.place ctx v) := by
  obtain ⟨n, rfl, hname, hentries⟩ := h
  simp only [LinkedRule.place]
  split
  · exact ⟨_, rfl, hname, hentries⟩
  · exact ⟨n, rfl, hname, hentries⟩

theorem IsLiteral.shape {s : String} (h : IsLiteral s v) (hpick : d.pick = none)
    (hprocessor : d.processor = none) {w : Value} (hw : RuleDef.shape d ctx v = .ok w) :
    IsLiteral s w := by
  obtain ⟨n, rfl, hn⟩ := h
  simp only [RuleDef.shape, LinkedRule.shape, LinkedRule.fallback?, LinkedRule.process,
    hprocessor, LinkedRule.tagged, hpick] at hw
  obtain rfl := Except.ok.inj hw
  exact IsLiteral.place ⟨n, rfl, hn⟩

end Shapes

section Opening

variable {skipped : Option Lexeme} {input : Input} {calls : Calls} {offset : Nat} {m : Matched}

theorem matches_oneOf {trivia : Bool} : (names : List String) →
    Matches skipped input.text calls (.choice (names.map .rule)) trivia offset m →
    ∃ r ∈ names, calls r trivia offset m
  | [], h => h.elim
  | name :: names, h => by
    obtain h | h := h
    · exact ⟨name, List.mem_cons_self .., h⟩
    · obtain ⟨r, hr, h⟩ := matches_oneOf names h
      exact ⟨r, List.mem_cons_of_mem _ hr, h⟩

/-- A variable in front of an index, with a name in the braces. -/
theorem bracedVariableIndex_root
    (hm : Matches skipped input.text calls bracedVariableIndex.pattern false offset m) :
    ∃ (place : Nat) (m' : Matched) (members : Value), calls "BracedName" false place m' ∧
      m.value = .record ⟨[("root", m'.value), ("members", members)]⟩ := by
  obtain ⟨ps, ⟨m₁, h₁, m₂, h₂, m₃, h₃, m₄, h₄, rfl⟩, rfl⟩ := hm
  obtain ⟨s, hs⟩ := matches_text h₁
  have h₄ : Matches skipped input.text calls (.terminal (lit "\x7d")) true _ m₄ := h₄
  obtain ⟨s', hs'⟩ := matches_text h₄
  refine ⟨_, m₂, Capture.list.apply m₃.value, h₂, ?_⟩
  simp only [Parts.finish, Parts.push, hs, hs', Parts.startingAt]
  rfl

variable (hb : input.text.Boundary offset)

include hb

theorem variableRule_opens
    (hm : Matches skipped input.text calls variableRule.pattern false offset m) :
    Opens input.text offset m ∧ offset < m.stop ∧ ∃ cs, input.text.Has offset ('$' :: cs) := by
  obtain ⟨hstart, begun, rest, hhas, hspell⟩ := matches_opening hb variableName_begins hm
  obtain ⟨name, behind, -, hstop, -⟩ := variable_written hb hm
  cases hspell with
  | cons hdollar hspell => cases hspell with
    | cons hfirst hspell =>
      cases hspell
      obtain rfl := eq_of_has_single hdollar
      rw [identStarts_has] at hfirst
      refine ⟨⟨⟨_, hhas, .inl ⟨_, _, rfl, .inr hfirst⟩⟩, hstart⟩, ?_, _, hhas⟩
      have hpos := byteLength_cons_pos '$' name
      rw [hstop, hstart]
      omega

/-- What begins with a dollar sign in front of a brace. -/
theorem braced_opens {rest : List ComponentDef}
    (hm : Matches skipped input.text calls
      (.sequence (⟨none, .value, .terminal (lit "$\x7b")⟩ :: rest)) false offset m) :
    Opens input.text offset m := by
  obtain ⟨hstart, begun, rest, hhas, hspell⟩ := matches_opening hb dollarBrace_begins hm
  obtain rfl : begun = ['$', '\x7b'] := Spell.literal hspell
  exact ⟨⟨_, hhas, .inl ⟨_, rest, rfl, .inl rfl⟩⟩, hstart⟩

/-- A brace in front of a dollar sign, where the expression in braces begins. -/
theorem complexInterpolation_opens
    (hm : Matches skipped input.text calls complexInterpolation.pattern false offset m) :
    Opens input.text offset m ∧ ∃ (place : Nat) (cs : List Char) (m' : Matched),
      input.text.Has place ('$' :: cs) ∧ calls "Expression" true place m' ∧
      m.value = .record ⟨[("expression", m'.value)]⟩ := by
  obtain ⟨hstart, -⟩ := matches_opening hb brace_begins hm
  obtain ⟨ps, ⟨m₁, h₁, m₂, h₂, m₃, h₃, m₄, h₄, rfl⟩, rfl⟩ := hm
  simp only [Parts.push_cursor] at h₂ h₃ h₄
  obtain ⟨opening, behind, hlead, hhas, hopening, hstop⟩ := matches_spelled hb h₁ brace_spells
  obtain rfl := hopening.literal
  have hplace : input.text.Has m₁.stop behind := hstop ▸ hhas.move
  obtain ⟨hahead, rfl⟩ := h₂
  obtain ⟨m', hm'⟩ := hahead rfl
  obtain ⟨sign, more, hlead', hsign, hdollar, -⟩ :=
    matches_spelled ⟨behind, hplace⟩ hm' dollar_spells
  obtain rfl := hdollar.literal
  rw [hlead'.of_raw] at hsign
  obtain rfl := hplace.unique hsign
  obtain ⟨m₅, h₅, -, -, hvalue⟩ := matches_field h₃
  obtain ⟨s, hs⟩ := matches_text h₁
  have h₄ : Matches skipped input.text calls (.terminal (lit "\x7d")) true m₃.stop m₄ := h₄
  obtain ⟨s', hs'⟩ := matches_text h₄
  refine ⟨⟨⟨_, hlead.of_raw ▸ hhas, .inr ⟨more, rfl⟩⟩, hstart⟩, m₁.stop, more, m₅, hsign, h₅, ?_⟩
  simp only [Parts.finish, Parts.push, hs, hs', hvalue, Matched.empty, Parts.startingAt]
  rfl

end Opening

theorem bracedVariableIndex_folds : (foldRules.all fun r =>
    r.1.name != "BracedVariableIndex" || r.2.first? == some "root") = true := by
  decide +kernel

section Calls

variable {skipped : Option Lexeme} {input : Input} {d : RuleDef} {offset : Nat} {m : Matched}
  {ctx : Context} {v : Value}

/-- An interpolation begins with a dollar sign in front of a name or of a brace, or with a brace in
front of a dollar sign. -/
theorem interpolator_opens (hb : input.text.Boundary offset) (hd : d ∈ interpolators)
    (hm : Matches skipped input.text (splitting.calls input) d.pattern false offset m) :
    Opens input.text offset m := by
  simp only [interpolators, interpolations, List.mem_cons, List.not_mem_nil, or_false] at hd
  obtain rfl | rfl | rfl | rfl | rfl | rfl | rfl := hd
  · exact (variableRule_opens hb hm).1
  · obtain ⟨r, hr, -, -, hsplits⟩ := matches_oneOf (interpolations.map (·.name)) hm
    obtain ⟨d, hd, rfl⟩ := List.mem_map.1 hr
    exact ((hsplits rfl).interpolation d (by simp [interpolators, hd]) rfl).toOpens
  · exact (complexInterpolation_opens hb hm).1
  · exact braced_opens hb hm
  · exact braced_opens hb hm
  · exact braced_opens hb hm
  · have hfirst : ∀ m', Matches skipped input.text (splitting.calls input) (.rule "Variable") false
        offset m' → (m'.start = offset ∧ offset < m'.stop) ∧
          ∃ cs, input.text.Has offset cs ∧ Interpolates cs := by
      rintro m' ⟨-, -, hsplits⟩
      have hopens := (hsplits rfl).interpolation variableRule (by simp [interpolators]) rfl
      exact ⟨⟨hopens.start, ((hsplits rfl).root rfl).1⟩, hopens.begins⟩
    refine ⟨?_, matches_opened (fun m' hm' => (hfirst m' hm').1) hm⟩
    obtain ⟨ps, ⟨m', hm', -⟩, -⟩ := hm
    exact (hfirst m' hm').2

/-- An interpolation is no literal. -/
theorem interpolator_unquoted (hb : input.text.Boundary offset) (hd : d ∈ interpolators)
    (hm : Matches grammar.trivia input.text (splitting.calls input) d.pattern false offset m)
    (h : RuleDef.shape d ctx m.value = .ok v) : Unquoted v := by
  have hunquotes : Unquotes input.text d.name offset v :=
    rule_unquotes (interpolators_mem hd) hb (fun _ _ _ _ hcall => hcall.2.1) hm h
  simp only [interpolators, interpolations, List.mem_cons, List.not_mem_nil, or_false] at hd
  obtain rfl | rfl | rfl | rfl | rfl | rfl | rfl := hd
  · exact hunquotes (.inl (by decide))
  · obtain ⟨r, hr, -, -, hsplits⟩ := matches_oneOf (interpolations.map (·.name)) hm
    obtain ⟨d, hd, rfl⟩ := List.mem_map.1 hr
    have hvalue := ((hsplits rfl).interpolation d (by simp [interpolators, hd]) rfl).value
    have hplain : interpolation.processor = none ∧ interpolation.ifNoMatch = none := ⟨rfl, rfl⟩
    exact shape_unquoted (interpolators_mem (by simp [interpolators])) rfl (by decide)
      (by simp [hplain]) hvalue (by simp [hplain]) h
  · obtain ⟨-, place, cs, m', hcs, hcall, hvalue⟩ := complexInterpolation_opens hb hm
    rw [hvalue] at h
    have hexpression : Unquoted (Fields.take (⟨[("expression", m'.value)]⟩ : Captures)
        "expression").1 := hcall.2.1 (.inr ⟨by decide, cs, hcs⟩)
    exact shape_picked rfl rfl rfl (by decide) hexpression h
  · exact hunquotes (.inl (by decide))
  · obtain ⟨place, m', members, hcall, hvalue⟩ := bracedVariableIndex_root hm
    have hroot : Unquoted m'.value := hcall.2.1 (.inl (by decide))
    have hrecord : Unquoted m.value := by
      rw [hvalue]
      exact unquoted_of_ne nofun
    refine shape_unquoted (interpolators_mem (by simp [interpolators, interpolations])) rfl
      (by decide) (fun f _ hf => .inr ⟨_, rfl, ?_⟩) hrecord ?_ h
    · have hfold := List.all_eq_true.1 bracedVariableIndex_folds _ hf
      simp only [Bool.or_eq_true, bne_iff_ne, beq_iff_eq] at hfold
      exact hfold.resolve_left (not_not_intro rfl)
    · rintro i ⟨⟩
      rw [hvalue]
      exact hroot
  · exact hunquotes (.inl (by decide))
  · obtain ⟨ps, ⟨m', ⟨-, -, hsplits⟩, -⟩, -⟩ := hm
    exact hunquotes (.inr ⟨by decide, ((hsplits rfl).root rfl).2⟩)

theorem Body.run_pattern (k : Body) : ∃ name,
    k.run.pattern = seq [field "string" (scan ⟨name, scanLiteralRun k.set⟩)] := by
  cases k <;> exact ⟨_, rfl⟩

theorem Body.part_pattern (k : Body) :
    k.part.pattern = .choice ([interpolation.name, k.run.name].map .rule) := by
  cases k <;> rfl

/-- What the rule for literal runs matches is the run, and its node has the text of the run. -/
theorem Body.run_made (k : Body) {calls : Calls} (hb : input.text.Boundary offset)
    (hm : Matches skipped input.text calls k.run.pattern false offset m)
    (h : RuleDef.shape k.run ctx m.value = .ok v) :
    ∃ run, k.IsRun input.text offset { m with value := v } run := by
  obtain ⟨name, hpattern⟩ := k.run_pattern
  rw [hpattern] at hm
  obtain ⟨m', ⟨start, hlead, hfound⟩, hstop, hstart, hvalue⟩ := matches_field hm
  obtain rfl := hlead.of_raw
  obtain ⟨cs, hcs⟩ := hb
  obtain ⟨r, hr, rfl⟩ := Option.map_eq_some_iff.1 hfound
  rw [hcs.after?, Option.bind_some] at hr
  obtain ⟨rest, hrest⟩ := literalRun_append cs
  have hmade : literalRun cs ≠ [] ∧ r = (byteLength (literalRun cs),
      .text (k.set.apply (String.ofList (literalRun cs)))) := by
    simp only [scanLiteralRun] at hr
    split at hr
    · cases hr
    · rename_i hne
      exact ⟨hne, (Option.some.inj hr).symm⟩
  obtain ⟨hne, rfl⟩ := hmade
  refine ⟨literalRun cs, ⟨rest, hrest ▸ hcs, by rw [← hrest]⟩, hne, hstart (Nat.le_add_right _ _),
    hstop, ?_⟩
  rw [hvalue] at h
  have hshape : RuleDef.shape k.run ctx (.record ⟨[("string",
      .text (k.set.apply (String.ofList (literalRun cs))))]⟩) =
      .ok (LinkedRule.place ctx (.node (.ofFields "StringLiteral" ⟨[("string",
        .text (k.set.apply (String.ofList (literalRun cs))))]⟩))) := by
    cases k <;> rfl
  obtain rfl := Except.ok.inj (hshape.symm.trans h)
  exact IsLiteral.place ⟨_, rfl, rfl, rfl⟩

/-- What the rule for parts matches is an interpolation or a literal run. -/
theorem Body.part_made (k : Body)
    (hm : Matches skipped input.text (splitting.calls input) k.part.pattern false offset m)
    (h : RuleDef.shape k.part ctx m.value = .ok v) :
    k.IsPart input.text offset { m with value := v } := by
  have hplain : k.part.pick = none ∧ k.part.processor = none ∧ k.part.ifNoMatch = none ∧
      k.part.tag ≠ "StringLiteral" := by
    cases k <;> exact ⟨rfl, rfl, rfl, by decide⟩
  rw [k.part_pattern] at hm
  obtain ⟨r, hr, -, -, hsplits⟩ := matches_oneOf _ hm
  simp only [List.mem_cons, List.not_mem_nil, or_false] at hr
  obtain rfl | rfl := hr
  · have hpart := (hsplits rfl).interpolation interpolation (by simp [interpolators]) rfl
    have hvalue : Unquoted v := shape_unquoted k.mem_rules.2.1 hplain.1 hplain.2.2.2
      (by simp [hplain]) hpart.value (by simp [hplain]) h
    exact .inr ⟨⟨hpart.begins, hpart.start⟩, hvalue⟩
  · obtain ⟨run, hrun⟩ := (hsplits rfl).run k rfl
    exact .inl ⟨run, hrun.stands, hrun.nonempty, hrun.start, hrun.stop,
      hrun.value.shape hplain.1 hplain.2.1 h⟩

end Calls

theorem splitting_closed {s : Setting} (hs : s.grammar = grammar) : splitting.Closed s rules where
  deep _ _ _ _ := trivial
  shape input _ d hd trivia offset m hb hplaced hm reparse _ := by
    rw [hs] at hm
    refine ⟨fun v h => ⟨rule_unquotes hd hb (fun _ _ _ _ hcall => hcall.2.1) hm h, ?_⟩,
      fun _ _ => trivial⟩
    rintro rfl
    refine ⟨fun hname => ?_, fun d' hd' hname => ?_, fun k hname => ?_, fun k hname => ?_⟩
    · obtain rfl := rule_unique hd (interpolators_mem (d := variableRule) (by simp [interpolators]))
        hname
      exact (variableRule_opens hb hm).2
    · obtain rfl := rule_unique hd (interpolators_mem hd') hname
      obtain ⟨hbegins, hstart⟩ := interpolator_opens hb hd' hm
      exact ⟨⟨hbegins, hstart⟩, interpolator_unquoted hb hd' hm h⟩
    · obtain rfl := rule_unique hd k.mem_rules.1 hname
      exact k.run_made hb hm h
    · obtain rfl := rule_unique hd k.mem_rules.2.1 hname
      exact k.part_made hm h

end PhpSyntax.Php
