import PhpSyntax.Proofs.Php.Forms
import PhpSyntax.Proofs.Php.StringLiteral

namespace PhpSyntax

namespace Php

open Peg

/-- A node whose fields have names of their own. Only some are called as the tag is in a written
tree. -/
structure Keyed (n : Node) : Prop where
  distinct : n.fields.keys.Nodup
  unplaced : "bounds" ∉ n.fields.keys ∧ "offset" ∉ n.fields.keys
  named : "name" ∈ n.fields.keys → n.name ∈ named

/-- A node of a finished tree: it is no descriptor, and has the fields that its tag fixes. -/
structure Sound (n : Node) : Prop extends Keyed n where
  kind : n.name ∉ "HaltCompiler" :: "Program" :: descriptors
  fixed : ∀ keys, fixedKeys.lookup n.name = some keys → n.fields.keys = keys
  handled : n.name = "Try" → Handled n

def Halts (v : Value) : Prop :=
  ∃ (n : Node) (data : Value), v = .node n ∧ n.name = "HaltCompiler" ∧
    n.fields.entries = [("data", data)] ∧ data.Finished Sound

/-- The tree of a program: its statements are finished, and only the last one may be a halt. -/
structure WellFormed (n : Node) : Prop where
  name : n.name = "Program"
  statements : ∃ vs, n.fields.entries = [("statements", .list vs)] ∧
    (∀ v ∈ vs.dropLast, v.Finished Sound) ∧ ∀ v ∈ vs.getLast?, v.Finished Sound ∨ Halts v

theorem sound_of_lawful {n : Node} (h : lawful n.name n.fields.keys = true) : Sound n := by
  simp only [lawful, Bool.and_eq_true, Bool.not_eq_true', Bool.or_eq_true, decide_eq_true_eq,
    List.contains_eq_mem, decide_eq_false_iff_not, List.mem_append, not_or, List.mem_cons,
    distinguished, Option.all_eq_true, beq_iff_eq] at h
  obtain ⟨⟨⟨⟨⟨⟨hdescriptor, hkind⟩, hfixed⟩, hdistinct⟩, hbounds⟩, hoffset⟩, hnamed⟩ := h
  exact ⟨⟨hdistinct, ⟨hbounds, hoffset⟩, fun h => hnamed.resolve_left (absurd h)⟩,
    by simp [hdescriptor, hkind], fun keys hkeys => (hfixed keys hkeys).symm,
    fun htry => absurd htry hkind.2.2.1⟩

theorem keyed_of_keys {n : Node} {keys : List String} (hkeys : n.fields.keys = keys)
    (h : keys.Nodup ∧ "bounds" ∉ keys ∧ "offset" ∉ keys ∧ "name" ∉ keys) : Keyed n := by
  subst hkeys
  obtain ⟨hdistinct, hbounds, hoffset, hunnamed⟩ := h
  exact ⟨hdistinct, ⟨hbounds, hoffset⟩, fun h => absurd h hunnamed⟩

/-- The other nodes of finished trees. -/
theorem sound_of_kind {n : Node} {name : String} {keys : List String} (hname : n.name = name)
    (hkeys : n.fields.keys = keys) (hhandled : name = "Try" → Handled n)
    (hkind : name ∉ "HaltCompiler" :: "Program" :: descriptors ∧ fixedKeys.lookup name = none)
    (h : keys.Nodup ∧ "bounds" ∉ keys ∧ "offset" ∉ keys ∧ "name" ∉ keys) : Sound n := by
  subst hname
  refine ⟨keyed_of_keys hkeys h, hkind.1, fun keys hkeys => ?_, hhandled⟩
  rw [hkind.2] at hkeys
  cases hkeys

theorem sound_lawful : Lawful Sound where
  allows _ h _ := sound_of_lawful h
  handled _ hname hkeys hhandled _ := sound_of_kind hname hkeys (fun _ => hhandled) (by decide)
    (by decide)
  placed _ h _ _ _ := ⟨⟨h.distinct, h.unplaced, h.named⟩, h.kind, h.fixed, h.handled⟩

section Halts

/-- A halt takes everything behind it. -/
theorem haltCompiler_takes {skipped : Option Lexeme} {text : Text} {calls : Calls} {trivia : Bool}
    {offset : Nat} {m : Matched} (hb : text.Boundary offset)
    (hm : Matches skipped text calls haltCompiler.pattern trivia offset m) :
    m.stop = text.size := by
  obtain ⟨_, front, rfl, -⟩ := hb
  obtain ⟨ps, ⟨_, -, _, -, m', hm', rfl⟩, rfl⟩ := hm
  obtain ⟨rest, ⟨start, -, hfound⟩, hstop, -⟩ := matches_field hm'
  rw [Parts.finish, Parts.push_cursor, hstop]
  obtain ⟨r, hr, rfl⟩ := Option.map_eq_some_iff.1 hfound
  obtain ⟨cs, hcs, hr⟩ := Option.bind_eq_some_iff.1 hr
  obtain rfl := Option.some.inj hr
  exact (Text.after?_eq_some.1 hcs).size.symm

def HaltsLast (vs : List Value) : Prop :=
  vs.Pairwise fun v _ => v.kind? ≠ some "HaltCompiler"

theorem program_shape (ctx : Context) (leading : Value) (statements : List Value) :
    RuleDef.shape program ctx
        (.record ⟨[("leading", leading), ("statements", .list statements)]⟩) =
      .ok (LinkedRule.place ctx (.node (.ofEntries "Program" [("statements",
        .list ((leading :: statements).filter fun v => !isEmptyMarkup v))]))) :=
  rfl

variable {text : Text} {item : Nat → Matched → Prop} {offset : Nat} {rs : Rounds}
  (hitem : ∀ o m, text.Boundary o → item o m → m.Placed text o ∧
    (m.value.kind? = some "HaltCompiler" → text.size ≤ m.stop))

include hitem

/-- Nothing follows an item that takes everything behind it: what follows has to take something. -/
theorem grown_haltsLast (h : rs.Grown item none offset) (hb : text.Boundary offset) :
    text.Boundary rs.cursor ∧ HaltsLast rs.items.reverse ∧
      ∀ v ∈ rs.items, v.kind? = some "HaltCompiler" → text.size ≤ rs.cursor := by
  induction h with
  | start => exact ⟨hb, .nil, by simp [Rounds.startingAt]⟩
  | @more rs next m _ hnext hm hempty ih =>
    obtain ⟨hcursor, hlast, hhalts⟩ := ih
    cases hnext with
    | separated hp => cases hp
    | leading _ =>
      obtain ⟨hplaced, hhalt⟩ := hitem _ _ hcursor hm
      have hnone : ∀ v ∈ rs.items, v.kind? ≠ some "HaltCompiler" := by
        intro v hv hkind
        have hsize := hhalts v hv hkind
        have hstop : m.stop = rs.cursor := le_antisymm (hplaced.stop.le_size.trans hsize)
          (hplaced.behind.trans hplaced.forward)
        exact (hempty hstop).2 rfl
      refine ⟨hplaced.stop, ?_, ?_⟩
      · simp only [Rounds.pushed, Rounds.push, List.reverse_cons, HaltsLast]
        refine List.pairwise_append.2 ⟨hlast, List.pairwise_singleton _ _, fun v hv _ _ => ?_⟩
        exact hnone v (List.mem_reverse.1 hv)
      · refine List.forall_mem_cons.2 ⟨hhalt, fun v hv hkind => ?_⟩
        exact absurd hkind (hnone v hv)

theorem matchesRounds_haltsLast {least : Nat} {m : Matched} (hb : text.Boundary offset)
    (h : MatchesRounds item none least offset m) : ∃ vs, m.value = .list vs ∧ HaltsLast vs := by
  obtain ⟨rs, stop, hgrown, -, hm⟩ := h
  obtain ⟨-, hlast, -⟩ := grown_haltsLast hitem hgrown hb
  simp only [Rounds.finish, Option.ite_none_left_eq_some] at hm
  obtain ⟨-, hm⟩ := hm
  obtain rfl := Option.some.inj hm
  refine ⟨_, rfl, ?_⟩
  split
  · split
    · exact .nil
    · exact hlast
  · exact hlast

end Halts

section Trees

/-- What is known of the values of rules: they are as finished as they should be, and only the last
statement of a program is a halt. -/
def finishedTrees : Invariant where
  good _ := True
  holds input rule _ _ m := (ruleForm rule).Has Sound m.value ∧
    (rule ∈ ["HaltCompiler", "TopStatement"] → m.value.kind? = some "HaltCompiler" →
      input.text.size ≤ m.stop) ∧
    (rule = "Program" → ∃ (n : Node) (vs : List Value), m.value = .node n ∧
      n.fields.entries = [("statements", .list vs)] ∧ HaltsLast vs)
  fails _ := True

theorem place_kind? (ctx : Context) (v : Value) : (LinkedRule.place ctx v).kind? = v.kind? := by
  cases v with
  | node n =>
    simp only [LinkedRule.place]
    split <;> rfl
  | _ => rfl

theorem topStatement_shape (ctx : Context) {v : Value} (hv : ∀ fs, v ≠ .record fs) :
    RuleDef.shape topStatement ctx v = .ok (LinkedRule.place ctx v) := by
  cases v with
  | record fs => exact absurd rfl (hv fs)
  | _ => rfl

theorem finished_unhalting {v : Value} (h : v.Finished Sound) : v.kind? ≠ some "HaltCompiler" := by
  cases v with
  | node n =>
    intro hkind
    have hsound := (Value.finished_node.1 h).1
    exact hsound.kind (by rw [show n.name = _ from Option.some.inj hkind]; simp)
  | _ => simp [Value.kind?]

variable {s : Setting} {input : Input} {skipped : Option Lexeme} {trivia : Bool} {offset : Nat}
  {m : Matched} {ctx : Context} {v : Value}

theorem Asks.of_answers {reparse : String → String → Nat → Except Failure (Option Value)}
    (h : finishedTrees.Answers input reparse) (hreparse : ctx.reparse = reparse) :
    Asks Sound ctx := by
  intro name hname text offset v hv
  rw [hreparse] at hv
  obtain ⟨m, ⟨-, hm, -⟩, rfl⟩ := (h name text offset trivial).1 v hv
  rw [ruleForm_parts name hname] at hm
  exact hm

/-- A statement of the outermost scope that is a halt takes everything behind it. -/
theorem topStatement_halts
    (hm : Matches skipped input.text (finishedTrees.calls input) topStatement.pattern trivia offset m)
    (h : RuleDef.shape topStatement ctx m.value = .ok v) (hv : v.kind? = some "HaltCompiler") :
    input.text.size ≤ m.stop := by
  have hhalt : finishedTrees.calls input "HaltCompiler" trivia offset m ∨
      Form.branch.Has Sound m.value := by
    obtain hm | hm | hm | hm := hm
    · exact .inl hm
    · exact .inr hm.2.1
    · exact .inr hm.2.1
    · exact hm.elim
  have hform : topForm.Has Sound m.value := hhalt.symm.imp And.left fun hm => hm.2.1
  rw [topStatement_shape ctx (Form.Has.unrecorded rfl hform)] at h
  obtain rfl := Except.ok.inj h
  rw [place_kind?] at hv
  obtain ⟨-, -, hhalts, -⟩ | hfinished := hhalt
  · exact hhalts (by simp) hv
  · exact absurd hv (finished_unhalting hfinished.1)

/-- Only the last statement of a program is a halt. -/
theorem program_haltsLast
    (hm : Matches skipped input.text (finishedTrees.calls input) program.pattern trivia offset m)
    (h : RuleDef.shape program ctx m.value = .ok v) :
    ∃ (n : Node) (vs : List Value), v = .node n ∧
      n.fields.entries = [("statements", .list vs)] ∧ HaltsLast vs := by
  obtain ⟨ps, ⟨leading, hleading, statements, hstatements, last, ⟨start, -, hlast⟩, rfl⟩, rfl⟩ := hm
  obtain ⟨vs, hvs, hhalts⟩ := matchesRounds_haltsLast
    (fun o m _ hm => ⟨hm.1, hm.2.2.1 (by simp)⟩) hleading.1.stop hstatements
  rw [endFound, Option.ite_none_right_eq_some] at hlast
  obtain rfl := Option.some.inj hlast.2
  have hvalue : (Parts.finish input.text ((((Parts.startingAt offset).push (some "leading") .value
      leading).push (some "statements") .list statements).push none .value (.empty start))).value =
      .record ⟨[("leading", leading.value), ("statements", .list vs)]⟩ := by
    simp only [Parts.push, hvs]
    rfl
  rw [hvalue, program_shape] at h
  obtain rfl := Except.ok.inj h
  have hunhalting : leading.value.kind? ≠ some "HaltCompiler" := finished_unhalting hleading.2.1.1
  have hlast : HaltsLast ((leading.value :: vs).filter fun v => !isEmptyMarkup v) :=
    List.Pairwise.filter _ (List.pairwise_cons.2 ⟨fun _ _ => hunhalting, hhalts⟩)
  simp only [LinkedRule.place]
  split
  · exact ⟨_, _, rfl, rfl, hlast⟩
  · exact ⟨_, _, rfl, rfl, hlast⟩

/-- What a rule of the language makes of a value of its pattern's form is as finished as it should
be. -/
theorem rule_sound {d : RuleDef} (hd : d ∈ rules) (hasks : Asks Sound ctx) {u : Value}
    (hu : (PatternDef.form ruleForm d.pattern).Has Sound u) (h : RuleDef.shape d ctx u = .ok v) :
    (ruleForm d.name).Has Sound v := by
  by_cases hvariable : d.name ∈ variableRules
  · obtain ⟨u, hu, rfl⟩ := variable_yields sound_lawful hd hvariable hu h
    rw [ruleForm_variable _ hvariable]
    refine place_has sound_lawful _ ?_
    obtain ⟨n, rfl, hname, hn⟩ := hu
    obtain ⟨name, _, hentries, hleaf, rfl⟩ := hn
    have hfields : ∀ e ∈ n.fields.entries, e.2.Finished Sound := by
      rw [hentries]
      simpa using hleaf.finished
    have hkeys : n.fields.keys = ["variable"] := by
      rw [Fields.keys, hentries]
      rfl
    have hsound := sound_of_kind hname hkeys (by simp) (by decide) (by decide)
    exact ⟨Value.finished_node.2 ⟨hsound, hfields⟩, n, rfl⟩
  · exact rule_yields sound_lawful hd hvariable hasks hu h

theorem finishedTrees_closed (s : Setting) : finishedTrees.Closed s rules where
  deep _ _ _ _ := trivial
  shape input _ d hd trivia offset m hb hplaced hm reparse hanswers := by
    refine ⟨fun v hv => ⟨?_, fun hname hkind => ?_, ?_⟩, fun _ _ => trivial⟩
    · have hu := pattern_has hd (fun r _ _ _ h => h.2.1) hm
      exact rule_sound hd (Asks.of_answers hanswers rfl) hu hv
    · simp only [List.mem_cons, List.not_mem_nil, or_false] at hname
      obtain hname | hname := hname
      · obtain rfl := rule_unique hd (show haltCompiler ∈ rules by simp [rules, statementRules]) hname
        exact (haltCompiler_takes hb hm).ge
      · obtain rfl := rule_unique hd (show topStatement ∈ rules by simp [rules, statementRules]) hname
        exact topStatement_halts (m := m) hm hv hkind
    · intro hname
      obtain rfl := rule_unique hd (show program ∈ rules by simp [rules, statementRules]) hname
      exact program_haltsLast hm hv

end Trees

/-- The tree of what is parsed as a program is well-formed. -/
theorem session_wellFormed (options : Options) {source : Text} (hstart : source.Boundary 0)
    {v : Value} (h : ((Parser.session options source).run startRule true).1 = .ok v) :
    ∃ n, v = .node n ∧ WellFormed n := by
  obtain ⟨m, ⟨-, hform, -, hprogram⟩, rfl⟩ := (Session.run_keeps (finishedTrees_closed _)
    grammar_lists trivial hstart).1 v h
  obtain ⟨n, vs, hvalue, hentries, hlast⟩ := hprogram rfl
  rw [hvalue] at hform
  obtain ⟨_, hn, hname, _, _, hw, ⟨vs', rfl, hvs⟩, rfl⟩ := hform
  obtain rfl := Value.node.inj hn
  obtain rfl : vs = vs' := by
    rw [hw] at hentries
    simpa using hentries.symm
  have htop : ∀ v ∈ vs, v.Finished Sound ∨ Halts v := by
    intro v hv
    refine (hvs v hv).imp id ?_
    rintro ⟨n, rfl, hname, data, _, hn, hdata, rfl⟩
    exact ⟨n, data, rfl, hname, hn, hdata⟩
  refine ⟨n, hvalue, hname, vs, hentries, fun v hv => ?_,
    fun v hv => htop v (List.mem_of_getLast? hv)⟩
  refine (htop v (List.mem_of_mem_dropLast hv)).resolve_right ?_
  rintro ⟨n, data, rfl, hkind, -⟩
  have hne : vs ≠ [] := by
    rintro rfl
    cases hv
  rw [HaltsLast, ← List.dropLast_append_getLast hne] at hlast
  refine (List.pairwise_append.1 hlast).2.2 _ hv _ (List.mem_singleton_self _) ?_
  rw [Value.kind?, hkind]

end Php

theorem Php.wellFormed_of_parse {p : Parser} {source : String} {n : Node}
    (h : p.parse source = .ok n) : WellFormed n := by
  obtain ⟨n', hn', hwell⟩ :=
    session_wellFormed p.options ⟨_, Text.has_start _⟩ (Parser.run_of_parse h)
  obtain rfl := Value.node.inj hn'
  exact hwell

/-- A source that is accepted has a well-formed tree, and a run of the program rule yields nothing
else. -/
theorem parse_wellFormed (p : Parser) (source : String) :
    (∀ n, p.parse source = .ok n → Php.WellFormed n) ∧
      ∀ v, ((Parser.session p.options (Text.ofString source)).run Php.startRule true).1 = .ok v →
        ∃ n, v = .node n ∧ Php.WellFormed n :=
  ⟨fun _ => Php.wellFormed_of_parse, fun _ => Php.session_wellFormed _ ⟨_, Text.has_start _⟩⟩

theorem parse_wellFormed_literal : ∃ n,
    Parser.standard.parse (Php.Quoting.single.source "a") = .ok n ∧ Php.WellFormed n := by
  obtain ⟨n, hn, -⟩ := Parser.parse_of_run (run_literal .single "a") .standard
  exact ⟨n, hn, (parse_wellFormed _ _).1 n hn⟩

end PhpSyntax
