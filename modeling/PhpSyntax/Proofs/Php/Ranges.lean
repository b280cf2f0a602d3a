import PhpSyntax.Proofs.Peg.Calling
import PhpSyntax.Proofs.Php.Spanning
import PhpSyntax.Proofs.Php.Validation
import PhpSyntax.Proofs.Php.WellFormed
import PhpSyntax.Proofs.Tree.Beneath

namespace PhpSyntax

namespace Php

open Peg Value

section Table

/-- The rules that may take nothing and yield nodes all the same. -/
def hollow : List String :=
  ["ColonBody", "LeadingHtml", "Program", "StringParts", "HeredocParts"]

def vacantRules : List String :=
  "Terminator" :: hollow

/-- The rules that are taken apart one by one: they leave out captures, or parse texts again. -/
def peculiar : List String :=
  ["Program", "DoubleQuotedString", "Heredoc"]

-- Evaluated in turn.
mutual

/-- Rules capture in the order of what they take, those that may take nothing are known, and all
yield something else than a record. -/
theorem rules_arranged :
    (rules.all fun d => (d.name == "Program" || d.pattern.orderly vacantRules hollow false) &&
      (!d.pattern.vacant vacantRules || vacantRules.contains d.name) &&
      (ruleForm d.name).unrecorded) = true := by
  decide +kernel

/-- Markup that takes nothing is left out of a program. -/
theorem program_arranged :
    program.pattern.orderly vacantRules (hollow.erase "LeadingHtml") false = true := by
  decide +kernel

theorem folds_arranged : (foldRules.all fun r => peculiar.contains r.1.name ||
    decide (r.2 ∉ [Fold.program, .doubleQuoted, .heredoc])) = true := by
  decide +kernel

end

theorem rules_grasp {d : RuleDef} (hd : d ∈ rules) :
    (∀ t ∈ d.pattern.terminals, t.Grasps) ∧
      ∀ sc ∈ d.pattern.scanners, (sc.Honest ∧ sc.Evenly) ∧ sc.Plain := by
  refine ⟨fun t ht => ?_, fun sc hsc => ?_⟩
  · have hconsuming := rules_consuming
    simp only [consuming, List.all_eq_true, Option.any_eq_true] at hconsuming
    obtain ⟨r, hr, htakes⟩ := hconsuming d hd t ht
    refine grasps_of_takesSome ?_
    rw [hr]
    exact htakes
  · have hmem : sc ∈ rules.flatMap (·.pattern.scanners) := List.mem_flatMap.2 ⟨d, hd, hsc⟩
    exact ⟨⟨rules_honest sc hmem, rules_evenly sc hmem⟩, rules_plain hd sc hsc⟩

end Table

/-- What rules yield is laid out over their matches. -/
def arranging (source : Text) (options : Options) : Invariant where
  good input := source.Holds input.base input.text
  holds input rule _ _ m := (ruleForm rule).Has Sound m.value ∧
    Neat (Spans source options) input.base (!hollow.contains rule) (vacantRules.contains rule) []
      m ∧
    (rule = "LeadingHtml" → m.consumed = false → isEmptyMarkup m.value = true)
  fails _ := True

section Rules

variable {s : Setting} {source : Text} {input : Input} {skipped : Option Lexeme} {calls : Calls}
  {trivia : Bool} {offset : Nat} {m : Matched} {v w : Value}
  {reparse : String → String → Nat → Except Failure (Option Value)}

theorem leadingHtml_blank
    (hplaced : calls.Placed input.text)
    (hb : input.text.Boundary offset)
    (hm : Matches skipped input.text calls leadingHtml.pattern trivia offset m)
    (hunconsumed : m.consumed = false) : m.value = .record ⟨[("html", .text "")]⟩ := by
  have honest : ∀ sc ∈ leadingHtml.pattern.scanners, sc.Honest :=
    List.forall_mem_singleton.2 markupScanner_honest
  obtain ⟨first, _, ⟨start, hlead, hfound⟩, hempty, ⟨tag, htag, rfl⟩, rfl⟩ :=
    first_unconsumed hplaced honest hb hm hunconsumed
  obtain ⟨-, cs, hcs⟩ := hlead.placed hb
  obtain ⟨r, hscan, rfl⟩ := Option.map_eq_some_iff.1 hfound
  rw [hcs.after?, Option.bind_some] at hscan
  obtain rfl := Option.some.inj hscan
  have hblank : markup cs = [] := by
    cases hmarkup : markup cs with
    | nil => rfl
    | cons c taken =>
      have hpos := byteLength_cons_pos c taken
      have hshort := of_decide_eq_false hempty
      simp only [yieldText, hmarkup] at hshort
      omega
  have hrecord : ∀ fs, tag.value ≠ .record fs := by
    rintro fs hfs
    obtain htag | rfl := htag
    · obtain ⟨text, htext⟩ := matches_text htag
      rw [htext] at hfs
      cases hfs
    · cases hfs
  simp only [yieldText, hblank]
  cases hvalue : tag.value with
  | record fs => exact absurd hvalue (hrecord fs)
  | _ =>
    simp only [Parts.push, Parts.finish, hvalue]
    rfl

/-- Markup that takes nothing is left out of a program. -/
theorem leadingHtml_empty {ctx : Context}
    (hplaced : calls.Placed input.text)
    (hb : input.text.Boundary offset)
    (hm : Matches skipped input.text calls leadingHtml.pattern trivia offset m)
    (hunconsumed : m.consumed = false) (h : RuleDef.shape leadingHtml ctx m.value = .ok v) :
    isEmptyMarkup v = true := by
  rw [leadingHtml_blank hplaced hb hm hunconsumed] at h
  have hshape : RuleDef.shape leadingHtml ctx (.record ⟨[("html", .text "")]⟩) =
      .ok (LinkedRule.place ctx (.node (.ofEntries "InlineHtml" [("html", .text "")]))) := rfl
  obtain rfl := Except.ok.inj (hshape.symm.trans h)
  simp only [LinkedRule.place]
  split <;> rfl

theorem lays_iff {ctx : Context} : ctx.Lays source v ↔ v.Laid (Spans source ctx.options)
    (ctx.input.base + ctx.span.start) (ctx.input.base + ctx.span.stop) := by
  rw [Context.Lays, Context.absoluteSpan, Span.shift, Nat.add_comm, Nat.add_comm ctx.span.stop]

/-- What a nested parse finds is laid out where its text stands. -/
theorem nested_laid (hgood : source.Holds input.base input.text)
    (hanswers : (arranging source s.options).Answers input reparse) {name body : String}
    {place : Nat} (hholds : input.text.Holds place (.ofString body))
    (h : input.located reparse name body place = .ok (some v)) :
    v.Laid (Spans source s.options) (input.base + place)
      (input.base + (place + byteLength body.toList)) := by
  rw [Input.located_of_holds hholds] at h
  obtain ⟨m, ⟨hplaced, -, hneat, -⟩, rfl⟩ := (hanswers name body place (hgood.trans hholds)).1 v h
  refine hneat.laid.mono (Nat.le_add_right _ _) ?_
  have hsize : m.stop ≤ byteLength body.toList := by
    rw [← Text.size_ofList]
    exact hplaced.stop.le_size
  rw [← Nat.add_assoc]
  exact Nat.add_le_add_left hsize _

/-- What a rule shapes its match in, where nothing is parsed again but what stands there. -/
noncomputable abbrev matchContext (s : Setting) (input : Input) (m : Matched)
    (reparse : String → String → Nat → Except Failure (Option Value)) : Context :=
  ⟨⟨m.start, m.stop⟩, input, s.lines, s.options, input.located reparse⟩

section Shape

variable {d : RuleDef} (hctx : Grounded source (matchContext s input m reparse))

include hctx

/-- The body of a string that is captured is laid out within the string, if it is parsed again. -/
theorem body_lays (hanswers : (arranging source s.options).Answers input reparse)
    {name : String} {body : List Char} {place : Nat}
    (hholds : input.text.Holds place (.ofString (String.ofList body))) (hplace : m.start ≤ place)
    (hfit : place + byteLength body ≤ m.stop)
    (h : input.located reparse name (String.ofList body) place = .ok (some v)) :
    (matchContext s input m reparse).Lays source v := by
  have hlaid := nested_laid hctx.holds hanswers hholds h
  rw [String.toList_ofList] at hlaid
  exact lays_iff.2 (hlaid.mono (Nat.add_le_add_left hplace _) (Nat.add_le_add_left hfit _))

theorem doubleQuotedString_lays (hanswers : (arranging source s.options).Answers input reparse)
    (hb : input.text.Boundary offset)
    (hm : Matches skipped input.text calls doubleQuotedString.pattern trivia offset m)
    (hlaid : (matchContext s input m reparse).Lays source m.value)
    (h : RuleDef.shape doubleQuotedString (matchContext s input m reparse) m.value = .ok w) :
    (matchContext s input m reparse).Lays source w := by
  obtain ⟨body, rest, hhas, hfit, hvalue⟩ := doubleQuotedString_takes hb hm
  have hbehind : input.text.Has (m.start + byteLength ['\x22']) (body ++ rest) := hhas.move
  rw [hvalue] at h hlaid
  have hdraft : (matchContext s input m reparse).Drafts source (.node (.ofFields "StringLiteral"
      ⟨[("string", .text (String.ofList body))]⟩)) :=
    RuleDef.tagged_drafted (d := doubleQuotedString) hlaid
  refine RuleDef.shape_laid hctx hlaid (fun w' hw' => ?_) h
  refine interpolateDoubleQuoted_drafts hdraft (fun parts hparts => ?_) hw'
  exact body_lays hctx hanswers hbehind.holds (Nat.le_add_right _ _) hfit hparts

theorem heredoc_lays (hanswers : (arranging source s.options).Answers input reparse)
    (hb : input.text.Boundary offset)
    (hm : Matches skipped input.text calls heredoc.pattern trivia offset m)
    (hlaid : (matchContext s input m reparse).Lays source m.value)
    (h : RuleDef.shape heredoc (matchContext s input m reparse) m.value = .ok w) :
    (matchContext s input m reparse).Lays source w := by
  obtain ⟨head, body, rest, hhas, hheader, hfit, hvalue⟩ := heredoc_takes hb hm
  rw [hvalue] at h hlaid
  have hdraft : (matchContext s input m reparse).Drafts source (.node (.ofFields "Heredoc"
      ⟨[("body", .text (String.ofList body))]⟩)) :=
    RuleDef.tagged_drafted (d := heredoc) hlaid
  refine RuleDef.shape_laid hctx hlaid (fun w' hw' => ?_) h
  refine interpolateHeredoc_drafts hdraft (fun parts hparts => ?_) hw'
  simp only [Context.text, hheader] at hparts
  exact body_lays hctx hanswers hhas.move.holds (Nat.le_add_right _ _) hfit hparts

/-- A rule that parses nothing again and leaves nothing out. -/
theorem rule_lays (hd : d ∈ rules) (hplain : peculiar.contains d.name = false)
    (hu : (PatternDef.form ruleForm d.pattern).Has Sound v)
    (hlaid : (matchContext s input m reparse).Lays source v)
    (h : RuleDef.shape d (matchContext s input m reparse) v = .ok w) :
    (matchContext s input m reparse).Lays source w := by
  refine RuleDef.shape_laid hctx hlaid (fun w' hw' => ?_) h
  have hdraft : (matchContext s input m reparse).Drafts source (d.bare.tagged v) :=
    RuleDef.tagged_drafted hlaid
  cases hp : d.processor with
  | none =>
    simp only [LinkedRule.process, RuleDef.bare, hp] at hw'
    obtain rfl := Except.ok.inj hw'
    exact hdraft
  | some p =>
    obtain ⟨f, hf, rfl⟩ := mem_foldRules hd hp
    simp only [LinkedRule.process, RuleDef.bare, hp] at hw'
    obtain ⟨hinput, -⟩ :=
      Bool.and_eq_true_iff.1 (List.all_eq_true.1 folds_formed _ hf)
    have hfold := List.all_eq_true.1 folds_arranged _ hf
    rw [hplain, Bool.false_or] at hfold
    exact Fold.drafts hctx hdraft (of_decide_eq_true hfold)
      (Form.Has.fits sound_lawful.allows hinput (RuleDef.before_has hu)) hw'

end Shape

section Program

/-- The matches of rules, where markup that takes nothing yields no node. -/
def settledCalls (source : Text) (options : Options) (input : Input) : Calls := fun r _ o m =>
  m.Placed input.text o ∧ Neat (Spans source options) input.base
    (!(hollow.erase "LeadingHtml").contains r) (vacantRules.contains r) [] m

theorem settled_of_calls {options : Options} {r : String}
    (h : (arranging source options).calls input r trivia offset m) (hr : r ≠ "LeadingHtml") :
    settledCalls source options input r trivia offset m := by
  obtain ⟨hplaced, -, hneat, -⟩ := h
  have hkept : (hollow.erase "LeadingHtml").contains r = hollow.contains r := by
    simp [hollow, hr]
  rw [← hkept] at hneat
  exact ⟨hplaced, hneat⟩

/-- The values that the parts of a program yield are laid out one behind the other, the markup in
front being settled. -/
theorem program_laid {options : Options} {leading statements last settled : Matched}
    {vs : List Value} (hb : input.text.Boundary offset)
    (hstatements : Matches skipped input.text ((arranging source options).calls input)
      (many "TopStatement") trivia leading.stop statements)
    (hlast : Matches skipped input.text ((arranging source options).calls input) atEnd trivia
      statements.stop last)
    (hvalue : statements.value = .list vs)
    (hsettled : settledCalls source options input "LeadingHtml" trivia offset settled)
    (hstart : settled.start = leading.start) (hstop : settled.stop = leading.stop)
    (hm : m = ((((Parts.startingAt offset).push (some "leading") .value leading).push
      (some "statements") .list statements).push none .value last).finish input.text) :
    AllLaid (Spans source options) (settled.value :: vs) (input.base + m.start)
      (input.base + m.stop) := by
  have hlater : Matches skipped input.text (settledCalls source options input)
      (many "TopStatement") trivia settled.stop statements := by
    rw [hstop]
    refine Matches.of_calls _ (fun c hc o m hcall => settled_of_calls hcall ?_) hstatements
    obtain rfl := List.mem_singleton.1 hc
    show "TopStatement" ≠ "LeadingHtml"
    decide
  obtain ⟨hterminals, hscanners⟩ :=
    rules_grasp (show program ∈ rules by simp [rules, statementRules])
  have hneat := matches_neat (fun _ _ _ _ h => h) program.pattern hterminals hscanners
    program_arranged hb ⟨_, ⟨settled, hsettled, statements, hlater, last, hlast, rfl⟩, rfl⟩
  obtain ⟨start, -, hend⟩ := hlast
  rw [endFound, Option.ite_none_right_eq_some] at hend
  obtain rfl := Option.some.inj hend.2
  have hlaid := hneat.laid
  simp only [Parts.finish, Parts.push_start, Parts.push_cursor, Matched.consumed, hstart,
    hstop] at hm hlaid
  rw [hm]
  simp only [Parts.push, hvalue] at hlaid
  obtain ⟨c, hleading, d, hstatements, hle⟩ := hlaid
  exact ⟨c, hleading, hstatements.mono (Nat.le_refl _) hle⟩

/-- A program keeps what is laid out: only markup without text is left out. -/
theorem program_lays (hctx : Grounded source (matchContext s input m reparse))
    (hb : input.text.Boundary offset)
    (hm : Matches skipped input.text ((arranging source s.options).calls input) program.pattern
      trivia offset m)
    (h : RuleDef.shape program (matchContext s input m reparse) m.value = .ok w) :
    (matchContext s input m reparse).Lays source w := by
  obtain ⟨ps, ⟨leading, hleading, statements, hstatements, last, hlast, rfl⟩, hm⟩ := hm
  obtain ⟨vs, hvs⟩ : ∃ vs, statements.value = .list vs := by
    obtain ⟨rs, stop, -, -, hrounds⟩ := id hstatements
    obtain ⟨kept, -, -, rfl⟩ := Rounds.finish_some hrounds
    exact ⟨_, rfl⟩
  have hvalue : m.value = .record ⟨[("leading", leading.value), ("statements", .list vs)]⟩ := by
    obtain ⟨start, -, hend⟩ := hlast
    rw [endFound, Option.ite_none_right_eq_some] at hend
    obtain rfl := Option.some.inj hend.2
    rw [hm]
    simp only [Parts.push, hvs]
    rfl
  rw [hvalue, program_shape] at h
  obtain rfl := Except.ok.inj h
  refine hctx.place_laid (.inr ⟨_, rfl, rfl, _, laid_list.2 ?_, Nat.le_refl _⟩)
  obtain ⟨hplaced, -, hneat, hempty⟩ := hleading
  cases hconsumed : leading.consumed with
  | true =>
    have hsettled : settledCalls source s.options input "LeadingHtml" trivia offset leading :=
      ⟨hplaced, hneat.laid, hneat.empty, fun _ hun => by simp [hconsumed] at hun, hneat.labels⟩
    have hlaid := program_laid hb hstatements hlast hvs hsettled rfl rfl hm
    exact laid_list.1 (lays_iff.2 (laid_list.2 (hlaid.sublist List.filter_sublist)))
  | false =>
    have hsettled : settledCalls source s.options input "LeadingHtml" trivia offset
        { leading with value := .null } :=
      ⟨⟨hplaced.behind, hplaced.forward, hplaced.start, hplaced.stop⟩,
        .of_leaf trivial hplaced.forward fun _ => hneat.empty hconsumed⟩
    have hlaid := program_laid hb hstatements hlast hvs hsettled rfl rfl hm
    have hleft : (leading.value :: vs).filter (fun v => !isEmptyMarkup v) =
        vs.filter fun v => !isEmptyMarkup v := by
      rw [List.filter_cons_of_neg]
      simp [hempty rfl hconsumed]
    rw [hleft]
    exact laid_list.1 (lays_iff.2 (laid_list.2 (hlaid.sublist (List.filter_sublist.cons _))))

end Program

/-- What a rule makes of captures that are laid out over its match is laid out there as well. -/
theorem shape_lays {d : RuleDef} (hctx : Grounded source (matchContext s input m reparse))
    (hanswers : (arranging source s.options).Answers input reparse) (hd : d ∈ rules)
    (hb : input.text.Boundary offset)
    (hm : Matches skipped input.text ((arranging source s.options).calls input) d.pattern trivia
      offset m)
    (hu : (PatternDef.form ruleForm d.pattern).Has Sound m.value)
    (hlaid : d.name ≠ "Program" → (matchContext s input m reparse).Lays source m.value)
    (h : RuleDef.shape d (matchContext s input m reparse) m.value = .ok w) :
    (matchContext s input m reparse).Lays source w := by
  cases hpeculiar : peculiar.contains d.name with
  | false =>
    refine rule_lays hctx hd hpeculiar hu (hlaid ?_) h
    rintro hname
    simp [peculiar, hname] at hpeculiar
  | true =>
    simp only [peculiar, List.contains_eq_mem, decide_eq_true_eq, List.mem_cons, List.not_mem_nil,
      or_false] at hpeculiar
    obtain hname | hname | hname := hpeculiar
    · obtain rfl := rule_unique hd (show program ∈ rules by simp [rules, statementRules]) hname
      exact program_lays hctx hb hm h
    · obtain rfl := rule_unique hd doubleQuotedString_mem hname
      exact doubleQuotedString_lays hctx hanswers hb hm (hlaid (by decide)) h
    · obtain rfl := rule_unique hd heredoc_mem hname
      exact heredoc_lays hctx hanswers hb hm (hlaid (by decide)) h

theorem arranging_closed (hlines : s.lines = .ofText source)
    (hon : s.options.instruments = true) : (arranging source s.options).Closed s rules where
  deep _ _ _ _ := trivial
  shape input hgood d hd trivia offset m hb hplaced hm reparse hanswers := by
    refine ⟨fun v h => ?_, fun _ _ => trivial⟩
    rw [(rules_locate hd).shape hb hm] at h
    have hctx : Grounded source (matchContext s input m reparse) :=
      ⟨hlines, hon, hgood, hplaced.start, hplaced.stop⟩
    have hu := pattern_has hd (fun r _ _ _ h => h.2.1) hm
    have hform : (ruleForm d.name).Has Sound v := by
      refine rule_sound hd (.of_located rfl fun name hname text place v hholds hv => ?_) hu h
      obtain ⟨m, ⟨-, hm, -⟩, rfl⟩ := (hanswers name text place (hgood.trans hholds)).1 v hv
      rw [ruleForm_parts name hname] at hm
      exact hm
    have hchecked := List.all_eq_true.1 rules_arranged d hd
    simp only [Bool.and_eq_true, Bool.or_eq_true, beq_iff_eq, Bool.not_eq_true'] at hchecked
    obtain ⟨⟨horderly, hvacant⟩, hunrecorded⟩ := hchecked
    obtain ⟨hterminals, hscanners⟩ := rules_grasp hd
    have hneat : d.name ≠ "Program" → Neat (Spans source s.options) input.base false
        (d.pattern.vacant vacantRules) d.pattern.labels m := fun hname =>
      matches_neat (fun _ _ _ _ h => ⟨h.1, h.2.2.1⟩) d.pattern hterminals hscanners
        (horderly.resolve_left hname) hb hm
    have hlays := shape_lays hctx hanswers hd hb hm hu (fun hname => lays_iff.2 (hneat hname).laid) h
    have hempty : m.consumed = false → vacantRules.contains d.name = true := by
      intro hunconsumed
      by_cases hname : d.name = "Program"
      · rw [hname]
        decide
      · exact hvacant.resolve_left (by simp [(hneat hname).empty hunconsumed])
    refine ⟨hform, ⟨lays_iff.1 hlays, hempty, fun hfirst hunconsumed => ?_, fun fs hfs => ?_⟩,
      fun hname hunconsumed => ?_⟩
    · -- A terminator is no node.
      have hname : d.name = "Terminator" := by
        have hmem := hempty hunconsumed
        simp only [vacantRules, List.contains_cons, Bool.or_eq_true, beq_iff_eq] at hmem
        exact hmem.resolve_right (by simpa using hfirst)
      rw [hname] at hform
      exact IsLeaf.bare hform
    · exact absurd hfs (hform.unrecorded hunrecorded fs)
    · obtain rfl := rule_unique hd (show leadingHtml ∈ rules by simp [rules, statementRules]) hname
      exact leadingHtml_empty (fun _ _ _ _ _ h => h.1) hb hm hunconsumed h

end Rules

/-- The tree of what is parsed as a program stands in its source. -/
theorem session_stands {options : Options} (hon : options.instruments = true) {source : Text}
    (hsource : source.Holds 0 source) (hstart : source.Boundary 0) {v : Value}
    (h : ((Parser.session options source).run startRule true).1 = .ok v) :
    ∃ start stop, v.Stands (Spans source options) start stop := by
  have hclosed : (arranging source options).Closed (Parser.session options source).setting rules :=
    arranging_closed (s := (Parser.session options source).setting) rfl hon
  have hgood : (arranging source options).good ⟨source, 0⟩ := hsource
  obtain ⟨m, ⟨-, hform, hneat, -⟩, rfl⟩ :=
    (Session.run_keeps hclosed grammar_lists hgood hstart).1 v h
  obtain ⟨n, hn, -⟩ : programForm.Has Sound m.value := hform
  have hlaid := hneat.laid
  rw [hn] at hlaid ⊢
  obtain ⟨start, stop, -, -, hstands⟩ := hlaid.stands
  exact ⟨start, stop, hstands⟩

end Php

namespace NodeOf

/-- The range of one node lies within that of another. -/
def Encloses (n x : Node) : Prop :=
  ∃ start stop start' stop', n.byteRange? = some (start, stop) ∧
    x.byteRange? = some (start', stop') ∧ start ≤ start' ∧ stop' ≤ stop

/-- The range of one node ends where that of another begins, or before. -/
def Precedes (n x : Node) : Prop :=
  ∃ start stop start' stop', n.byteRange? = some (start, stop) ∧
    x.byteRange? = some (start', stop') ∧ stop ≤ start'

end NodeOf

/-- A node in the tree of a source. Its place is recorded as far as the options ask for it, and it is
the same wherever it is recorded; what is beneath the node lies within it, and what is right beneath
it one behind the other. -/
structure Nests (source : Text) (options : Options) (n : Node) : Prop where
  bounds : n.bounds.isSome = options.captureBounds
  extent : n.extent.isSome = options.captureOffsets
  agree : ∀ b e, n.bounds = some b → n.extent = some e →
    b.start = ⟨e.offset, e.line, e.column⟩ ∧ b.stop.offset = e.stop
  range : ∃ start stop, n.byteRange? = some (start, stop) ∧ start ≤ stop ∧ stop ≤ source.size ∧
    source.Boundary start ∧ source.Boundary stop
  encloses : ∀ x, n.Bears x → n.Encloses x
  inOrder : n.children.Pairwise NodeOf.Precedes

/-- Where a tree stands in a source, each of its nodes nests. -/
theorem nests_of_stands {source : Text} {options : Options} (hon : options.instruments = true)
    {n : Node} {start stop : Nat} (h : (Value.node n).Stands (Spans source options) start stop) :
    Nests source options n := by
  have hrange : ∀ {x : Node} {s t : Nat}, (Value.node x).Stands (Spans source options) s t →
      x.byteRange? = some (s, t) := by
    intro x s t hx
    have hle := hx.le
    obtain ⟨_, ⟨⟩, hspans, -⟩ := hx
    exact hspans.byteRange? hon hle
  have hle := h.le
  obtain ⟨_, ⟨⟩, hspans, -⟩ := id h
  refine ⟨?_, ?_, fun b e hb he => ?_, ⟨start, stop, hrange h, hle, hspans.last.le_size,
    hspans.first, hspans.last⟩, fun x hx => ?_, ?_⟩
  · rw [hspans.bounds]
    cases options.captureBounds <;> rfl
  · rw [hspans.extent]
    cases options.captureOffsets <;> rfl
  · rw [hspans.bounds, Option.ite_none_right_eq_some] at hb
    rw [hspans.extent, Option.ite_none_right_eq_some] at he
    obtain rfl := Option.some.inj hb.2
    obtain rfl := Option.some.inj he.2
    refine ⟨rfl, ?_⟩
    simp only [Lines.bounds, Lines.extent, Extent.stop, hspans.first.position_offset,
      hspans.last.position_offset, Span.length]
    omega
  · obtain ⟨start', stop', hstart, hstop, hstands⟩ := h.bears hx
    exact ⟨start, stop, start', stop', hrange h, hrange hstands, hstart, hstop⟩
  · refine h.pairwise.imp ?_
    rintro c d ⟨s, last, first, t, hlast, hc, hd⟩
    exact ⟨s, last, first, t, hrange hc, hrange hd, hlast⟩

/-- The ranges in the tree of an accepted source are properly nested, at any depth of strings. -/
theorem parse_nests {p : Parser} (hon : p.options.instruments = true) {source : String} {n : Node}
    (h : p.parse source = .ok n) {x : Node} (hx : n.Bears x) :
    Nests (.ofString source) p.options x := by
  have hwhole : (Text.ofString source).Holds 0 (.ofString source) := by
    have hall : (Text.ofString source).Has 0 (source.toList ++ []) := by
      rw [List.append_nil]
      exact Text.has_start _
    exact ⟨source.toList, [], rfl, hall⟩
  obtain ⟨start, stop, hstands⟩ :=
    Php.session_stands hon hwhole ⟨_, Text.has_start _⟩ (Parser.run_of_parse h)
  obtain ⟨start', stop', -, -, hx⟩ := hstands.bears hx
  exact nests_of_stands hon hx

theorem parse_nests_literal : ∃ (p : Parser) (n : Node), p.options.instruments = true ∧
    p.parse (Php.Quoting.double.source "a") = .ok n ∧
      Nests (.ofString (Php.Quoting.double.source "a")) p.options n := by
  obtain ⟨n, hn, -⟩ := parse_literal (.withOptions ⟨true, true⟩) .double "a"
  exact ⟨_, n, rfl, hn, parse_nests rfl hn .refl⟩

end PhpSyntax
