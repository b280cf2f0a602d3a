import PhpSyntax.Proofs.Peg.Raising
import PhpSyntax.Proofs.Peg.Retracing
import PhpSyntax.Proofs.Php.Diagnosis
import PhpSyntax.Proofs.Php.Leaves

namespace PhpSyntax.Php

open Peg Check

section Try

def tryPattern (word : Lexeme) (block catchRef finallyRef : RuleRef) : LinkedPattern :=
  .sequence [⟨none, .value, .terminal word⟩, ⟨some "body", .value, .rule block⟩,
    ⟨some "catches", .list, .repetition (.rule catchRef) none 0 false⟩,
    ⟨some "finally", .value, .optional (.rule finallyRef)⟩]

theorem tryStatement_linked {q : LinkedPattern} (h : Links grammar tryStatement.pattern q) :
    ∃ word block catchRef finallyRef, q = tryPattern word block catchRef finallyRef ∧
      word.toTerminal = kw "try" ∧ (block.name = "Block" ∧ block.Resolved grammar.index) ∧
      (catchRef.name = "Catch" ∧ catchRef.Resolved grammar.index) ∧
      finallyRef.name = "Finally" ∧ finallyRef.Resolved grammar.index := by
  have hpattern : tryStatement.pattern = .sequence [⟨none, .value, .terminal (kw "try")⟩,
      ⟨some "body", .value, .rule "Block"⟩,
      ⟨some "catches", .list, .repetition (.rule "Catch") none 0 false⟩,
      ⟨some "finally", .value, .optional (.rule "Finally")⟩] := rfl
  rw [hpattern] at h
  obtain ⟨_, rfl, hcomponents⟩ := h.of_sequence
  obtain ⟨_, _, rfl, hkeyword, hbehind⟩ := hcomponents.of_cons
  obtain ⟨_, _, rfl, hbody, hclauses⟩ := hbehind.of_cons
  obtain ⟨_, _, rfl, hcatches, hlast⟩ := hclauses.of_cons
  obtain ⟨_, _, rfl, hfinish, hnone⟩ := hlast.of_cons
  obtain rfl := hnone.of_nil
  obtain ⟨word, rfl, hword⟩ := hkeyword.of_terminal
  obtain ⟨block, rfl, hblock⟩ := hbody.of_rule
  obtain ⟨_, rfl, hitem⟩ := hcatches.of_repetition
  obtain ⟨catchRef, rfl, hcatch⟩ := hitem.of_rule
  obtain ⟨_, rfl, hinner⟩ := hfinish.of_optional
  obtain ⟨finallyRef, rfl, hfinally⟩ := hinner.of_rule
  exact ⟨word, block, catchRef, finallyRef, rfl, hword, hblock, hcatch, hfinally⟩

/-- What a try captures, and where it is. -/
theorem tryParts_finish (text : Text) (offset : Nat) {word : Matched}
    (body catches finishes : Matched) (hword : ∃ t, word.value = .text t)
    (hconsumed : word.consumed = true) :
    let m := (((((Parts.startingAt offset).push none .value word).push (some "body") .value
      body).push (some "catches") .list catches).push (some "finally") .value finishes).finish text
    m.value = .record ⟨[("body", body.value), ("catches", .list catches.value.toList),
      ("finally", finishes.value)]⟩ ∧ m.start = word.start ∧ m.stop = finishes.stop := by
  obtain ⟨start, stop, v⟩ := word
  obtain ⟨t, rfl⟩ := hword
  refine ⟨rfl, ?_, rfl⟩
  simp only [Parts.finish, Parts.push_start, hconsumed]
  rfl

/-- A try that is refused has no clauses. -/
theorem checkTry_refused {ctx : Context} {body : Value} {catches : List Value} {finishes : Value}
    {e : Failure} (h : checkTry (.node (.ofFields "Try"
      ⟨[("body", body), ("catches", .list catches), ("finally", finishes)]⟩)) ctx = .error e) :
    catches = [] ∧ finishes = .null := by
  generalize hn : (NodeOf.ofFields "Try" ⟨[("body", body), ("catches", .list catches),
    ("finally", finishes)]⟩ : Node) = n at h
  have hcatches : n.list? "catches" = some catches := by
    subst hn
    rfl
  have hfinishes : n.get? "finally" = some finishes := by
    subst hn
    rfl
  simp only [checkTry, hcatches, hfinishes, Option.getD_some] at h
  split at h
  · cases h
  · rename_i hbare
    rw [Bool.not_eq_true, Bool.or_eq_false_iff, Bool.not_eq_false', Bool.not_eq_false',
      List.isEmpty_iff] at hbare
    refine ⟨hbare.1, ?_⟩
    cases finishes with
    | null => rfl
    | _ => cases hbare.2

/-- Only the rule for tries refuses a try, unless a nested parse fails. -/
theorem refused_try {d : RuleDef} (hd : d ∈ rules) {ctx : Context} {u : Value} {span : Span}
    {placeholders : List (String × String)}
    (h : RuleDef.shape d ctx u = .error (.fatal Message.tryWithoutHandler span placeholders)) :
    (∃ name text place, ctx.reparse name text place =
      .error (.fatal Message.tryWithoutHandler span placeholders)) ∨
    d = tryStatement ∧ span = ctx.absoluteSpan ∧
      ∃ e, checkTry (d.bare.tagged u) ctx = .error e := by
  obtain ⟨p, hp, h⟩ := shape_error h
  obtain ⟨f, hf, rfl⟩ := mem_foldRules hd hp
  obtain ⟨r, hr, he⟩ | hnested := Fold.fails h
  · obtain ⟨hkey, hspan, -⟩ := Failure.fatal.inj he
    simp only [List.mem_cons, Prod.mk.injEq, List.not_mem_nil, or_false] at hr
    obtain ⟨rfl, rfl⟩ | ⟨rfl, rfl⟩ | ⟨rfl, rfl⟩ := hr
    · exact absurd hkey (by decide)
    · exact absurd hkey (by decide)
    · obtain rfl : d = tryStatement := by simpa [foldRules] using hf
      exact .inr ⟨rfl, hspan, _, h⟩
  · exact .inl hnested

/-- A part of a source where a try is refused: its keyword and its block were matched, and no clause
was found behind the block. -/
def Unhandled (s : Setting) (source : Input) (span : Span) : Prop :=
  ∃ (input : Input) (skip : Bool) (word block : Matched),
    source.text.Holds input.base input.text ∧ input.text.HasWord word.start "try" ∧
    Called s source input "Block" skip word.stop (some block) ∧
    span = ⟨input.base + word.start, input.base + block.stop⟩ ∧
    Called s source input "Catch" skip block.stop none ∧
    Called s source input "Finally" skip block.stop none

end Try

section Refused

variable {s : Setting} (hs : s.grammar = grammar) {source input : Input}
  (hstart : source.text.Boundary 0) {σ σ' : Progress} {skip : Bool} {offset : Nat} {m : Matched}

include hs hstart

/-- What a pattern matches in a session on the language. -/
theorem matches_of_occurs {q : LinkedPattern}
    (h : Occurs s source input (.pattern q skip offset) σ)
    (hexec : Exec s (· ≤ s.limit) input (.pattern q skip offset) σ (.ok (some m)) σ') :
    input.text.Boundary offset ∧
      Matches s.grammar.trivia input.text (finishedTrees.calls input) q.written skip offset m := by
  have hlists : s.grammar.Lists rules := hs ▸ grammar_lists
  have hunderway := h.underway (finishedTrees_closed s) hlists trivial hstart fun _ _ _ _ => trivial
  exact ⟨hunderway.before.2, (hexec.kept (finishedTrees_closed s) hlists hunderway).found m rfl⟩

/-- The clauses of a try that is refused were not found. -/
theorem clauses_missed {catchRef finallyRef : RuleRef} {σ₁ : Progress} {catches finishes : Matched}
    (hcatch : catchRef.name = "Catch" ∧ catchRef.Resolved grammar.index)
    (hfinally : finallyRef.name = "Finally" ∧ finallyRef.Resolved grammar.index)
    (h : Occurs s source input (.pattern (.repetition (.rule catchRef) none 0 false) skip offset) σ)
    (hexec : Exec s (· ≤ s.limit) input
      (.pattern (.repetition (.rule catchRef) none 0 false) skip offset) σ (.ok (some catches)) σ₁)
    (h' : Occurs s source input (.pattern (.optional (.rule finallyRef)) skip catches.stop) σ₁)
    (hexec' : Exec s (· ≤ s.limit) input (.pattern (.optional (.rule finallyRef)) skip catches.stop)
      σ₁ (.ok (some finishes)) σ')
    (hcatches : catches.value.toList = []) (hfinishes : finishes.value = .null) :
    finishes.stop = offset ∧ Called s source input "Catch" skip offset none ∧
      Called s source input "Finally" skip offset none := by
  have hlists : s.grammar.Lists rules := hs ▸ grammar_lists
  have htakes : ∀ first σ σ₁, Occurs s source input (.pattern (.rule catchRef) skip offset) σ →
      Exec s (· ≤ s.limit) input (.pattern (.rule catchRef) skip offset) σ (.ok (some first)) σ₁ →
      first.stop ≠ offset := by
    intro first σ σ₁ h hexec
    refine (takes_of_occurs hlists rules_honest rules_nullable rules_prompt hstart h hexec ?_).ne'
    show vacantRules.contains catchRef.name = false
    rw [hcatch.1]
    decide
  have htells : ∀ first σ σ₁, Occurs s source input (.pattern (.rule finallyRef) skip offset) σ →
      Exec s (· ≤ s.limit) input (.pattern (.rule finallyRef) skip offset) σ (.ok (some first)) σ₁ →
      first.value ≠ .null := by
    intro first σ σ₁ h hexec hnull
    obtain ⟨-, -, hform, -⟩ := matches_of_occurs hs hstart h hexec
    rw [show RuleRef.name finallyRef = "Finally" from hfinally.1, hnull] at hform
    obtain ⟨-, n, hn⟩ := hform
    cases hn
  obtain ⟨hstop, _, hcalled, hnone⟩ := h.unrepeated hexec hcatches htakes
  rw [hstop] at h' hexec'
  obtain ⟨hstop', _, hcalled', hnone'⟩ := h'.omitted hexec' hfinishes htells
  have hmissed := Called.of_exec (hs ▸ hcatch.2) hcalled hnone
  have hmissed' := Called.of_exec (hs ▸ hfinally.2) hcalled' hnone'
  rw [hcatch.1] at hmissed
  rw [hfinally.1] at hmissed'
  exact ⟨hstop', hmissed, hmissed'⟩

/-- A try whose captures are refused is one without handlers. -/
theorem unhandled_of_refused (hwhole : source.text.Holds input.base input.text) {rule : Nat}
    {r : LinkedRule} (h : Occurs s source input (.evaluate rule offset skip) σ)
    (hr : s.grammar.rules[rule]? = some r) (hwritten : r.written = tryStatement)
    (hexec : Exec s (· ≤ s.limit) input (.pattern r.pattern skip offset) σ (.ok (some m)) σ')
    {ctx : Context} {e : Failure}
    (hrefused : checkTry (tryStatement.bare.tagged m.value) ctx = .error e) :
    Unhandled s source ⟨input.base + m.start, input.base + m.stop⟩ := by
  have hlists : s.grammar.Lists rules := hs ▸ grammar_lists
  have hlinks : Links grammar tryStatement.pattern r.pattern := by
    rw [← hwritten, ← hs]
    exact links_written r.pattern (hlists.written rule r hr).2.1
  obtain ⟨word, block, catchRef, finallyRef, hpattern, hword, ⟨hblock, hblockId⟩, hcatch,
    hfinally⟩ := tryStatement_linked hlinks
  have hoccurs := Occurs.part h (.body hr)
  rw [hpattern] at hexec hoccurs
  cases hexec with
  | sequence hexec =>
    obtain ⟨m₁, σ₁, ⟨hoccurs₁, hexec₁⟩, hoccurs, hexec⟩ :=
      (Occurs.part hoccurs .sequence).component hexec
    obtain ⟨m₂, σ₂, ⟨hoccurs₂, hexec₂⟩, hoccurs, hexec⟩ := hoccurs.component hexec
    obtain ⟨m₃, σ₃, ⟨hoccurs₃, hexec₃⟩, hoccurs, hexec⟩ := hoccurs.component hexec
    obtain ⟨m₄, σ₄, ⟨hoccurs₄, hexec₄⟩, -, hexec⟩ := hoccurs.component hexec
    obtain rfl := hexec.allParts_eq
    simp only [Parts.push_cursor] at hoccurs₂ hexec₂ hoccurs₃ hexec₃ hoccurs₄ hexec₄
    obtain ⟨hb, hmatches⟩ := matches_of_occurs hs hstart hoccurs₁ hexec₁
    have hmatches : Matches s.grammar.trivia input.text (finishedTrees.calls input)
        (.terminal (kw "try")) skip offset m₁ := by
      rw [← hword]
      exact hmatches
    obtain ⟨hhas, hconsumed⟩ := try_cased.found hb hmatches
    obtain ⟨_, _, -, -, -, hfound⟩ := hmatches
    obtain ⟨hvalue, hbegin, hend⟩ :=
      tryParts_finish input.text offset m₂ m₃ m₄ (Lexeme.found_text hfound) hconsumed
    rw [hvalue] at hrefused
    obtain ⟨hcatches, hfinishes⟩ := checkTry_refused hrefused
    obtain ⟨hstop, hmissed⟩ := clauses_missed hs hstart hcatch hfinally hoccurs₃ hexec₃ hoccurs₄
      hexec₄ hcatches hfinishes
    have hfoundBlock := Called.of_exec (hs ▸ hblockId) hoccurs₂ hexec₂
    rw [hblock] at hfoundBlock
    rw [hbegin, hend, hstop]
    exact ⟨input, skip, m₁, m₂, hwhole, hhas, hfoundBlock, rfl, hmissed⟩

end Refused

/-- Wherever a try is refused for want of a handler, its block was matched and neither a catch nor a
finally clause was found behind it, so that what stands there is no clause or not a well-formed
one. -/
theorem refused_unhandled (options : Options) (source : String) {span : Span}
    {placeholders : List (String × String)}
    (h : Parser.run options (.ofString source) =
      .error (.fatal Message.tryWithoutHandler span placeholders)) :
    let session := Parser.session options (.ofString source)
    Unhandled session.setting session.input span := by
  intro session
  have hstart : (Text.ofString source).Boundary 0 := ⟨_, Text.has_start _⟩
  have hwhole : (Text.ofString source).Holds 0 (Text.ofString source) := by
    refine ⟨source.toList, [], rfl, ?_⟩
    rw [List.append_nil]
    exact Text.has_start _
  have hrun : (session.run startRule true).1 =
      .error (.fatal Message.tryWithoutHandler span placeholders) := by
    simp only [Parser.run] at h
    split at h
    · cases h
    · cases h
    · rename_i e s' heq
      obtain rfl := Except.error.inj h
      exact congrArg Prod.fst heq
  obtain hraised | ⟨memory, hmismatch⟩ := Session.raised_of_run hwhole [] hrun
  · generalize he : Failure.fatal Message.tryWithoutHandler span placeholders = e at hraised
    cases hraised with
    | tooDeep offset => exact absurd (Failure.fatal.inj he).1 (by decide)
    | @refused input rule offset skip r σ σ' m e reparse hwhole hoccurs hr hexec hshape hown =>
      subst he
      have hlists : session.setting.grammar.Lists rules := grammar_lists
      have hd := (hlists.written rule r hr).1
      obtain ⟨hb, hmatches⟩ := matches_of_occurs (s := session.setting) rfl hstart
        (.part hoccurs (.body hr)) hexec
      rw [LinkedRule.shape_written, (rules_locate hd).shape hb hmatches] at hshape
      obtain ⟨name, text, place, hnested⟩ | ⟨hwritten, hspan, e, hrefused⟩ := refused_try hd hshape
      · have hnested : input.located reparse name text place = _ := hnested
        by_cases hholds : input.text.Holds place (.ofString text)
        · rw [Input.located_of_holds hholds] at hnested
          exact absurd hnested (hown name text place hholds)
        · rw [Input.located_of_not hholds] at hnested
          cases hnested
      · rw [hwritten] at hrefused
        have hunhandled := unhandled_of_refused (s := session.setting) rfl hstart hwhole hoccurs hr
          hwritten hexec hrefused
        have hplace : span = ⟨input.base + m.start, input.base + m.stop⟩ :=
          hspan.trans (by simp only [Context.absoluteSpan, Span.shift, Nat.add_comm])
        rw [hplace]
        exact hunhandled
  · cases hmismatch

end PhpSyntax.Php
