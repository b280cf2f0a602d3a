import PhpSyntax.Proofs.Php.WellFormed
import PhpSyntax.Proofs.Source.Lines

namespace PhpSyntax

/-- A word stands at an offset, in some case of its letters. -/
def Text.HasWord (t : Text) (offset : Nat) (word : String) : Prop :=
  ∃ written rest, t.Has offset (written ++ rest) ∧ written.map Char.toLower = word.toList

theorem Text.Holds.hasWord {t part : Text} {offset place : Nat} {word : String}
    (h : t.Holds offset part) (hword : part.HasWord place word) :
    t.HasWord (offset + place) word := by
  obtain ⟨written, behind, hhas, hlower⟩ := hword
  obtain ⟨rest, hrest⟩ := h.has hhas
  rw [List.append_assoc] at hrest
  exact ⟨written, behind ++ rest, hrest, hlower⟩

namespace Peg

section Words

/-- Whether a character is written in one case or the other, and in no other way. -/
def isCased (c : Char) : Bool :=
  (CharSet.orbit c).ranges.all fun r => r.1 == r.2 && (Char.ofNat r.1).toLower == c

/-- A keyword with characters that may be of either case. -/
def CasedWord (word : String) : Prop :=
  (kw word).Spells (word.toList.map .orbit) ∧ word.toList ≠ [] ∧ word.toList.all isCased = true

instance (word : String) : Decidable (CasedWord word) :=
  inferInstanceAs (Decidable (_ ∧ _ ∧ _))

theorem toLower_of_has {c d : Char} (hc : isCased c = true) (hd : (CharSet.orbit c).has d = true) :
    d.toLower = c := by
  obtain ⟨r, hr, hcovers⟩ := List.any_eq_true.1 hd
  have hcased := List.all_eq_true.1 hc r hr
  simp only [Bool.and_eq_true, decide_eq_true_eq, beq_iff_eq] at hcovers hcased
  obtain ⟨hsame, hlower⟩ := hcased
  have hd : r.1 = d.toNat := by omega
  rwa [hd, Char.ofNat_toNat] at hlower

theorem lower_of_spell {cs written : List Char} (hcs : ∀ c ∈ cs, isCased c = true)
    (h : Regex.Program.Spell (cs.map .orbit) written) : written.map Char.toLower = cs := by
  rw [Regex.Program.Spell, List.forall₂_map_left_iff] at h
  induction h with
  | nil => rfl
  | cons hd _ ih =>
    obtain ⟨hc, hcs⟩ := List.forall_mem_cons.1 hcs
    rw [List.map_cons, toLower_of_has hc hd, ih hcs]

variable {word : String} (hword : CasedWord word) {skipped : Option Lexeme} {text : Text}
  {calls : Calls} {trivia : Bool} {offset : Nat} {m : Matched} (hb : text.Boundary offset)

include hword hb

theorem CasedWord.found
    (hm : Matches skipped text calls (.terminal (kw word)) trivia offset m) :
    text.HasWord m.start word ∧ m.consumed = true := by
  obtain ⟨hspells, hne, hlower⟩ := hword
  obtain ⟨written, rest, -, hcs, hspell, hstop⟩ := matches_spelled hb hm hspells
  have hwritten := lower_of_spell (List.all_eq_true.1 hlower) hspell
  have hpos : 0 < byteLength written := by
    apply byteLength_pos
    intro hnil
    rw [hnil] at hwritten
    exact hne hwritten.symm
  refine ⟨⟨written, rest, hcs, hwritten⟩, ?_⟩
  simp only [Matched.consumed, hstop, decide_eq_true_eq]
  omega

/-- A sequence that begins with a keyword is found where the keyword is. -/
theorem CasedWord.begins {rest : List ComponentDef}
    (hm : Matches skipped text calls (.sequence (⟨none, .value, .terminal (kw word)⟩ :: rest)) trivia
      offset m) : text.HasWord m.start word := by
  obtain ⟨ps, ⟨first, hfirst, hrest⟩, rfl⟩ := hm
  obtain ⟨hhas, hconsumed⟩ := hword.found hb hfirst
  have hstart : ((Parts.startingAt offset).push none .value first).start = some first.start := by
    rw [Parts.push_start, hconsumed]
    rfl
  have hps : ps.start = some first.start := matchesParts_start rest hstart hrest
  simpa only [Parts.finish, hps, Option.getD_some] using hhas

end Words

end Peg

namespace Php

open Peg

/-- A construct that is recognised and not allowed: the key and the text of its message, and the word
it begins with. -/
structure Refusal where
  key : String
  message : String
  word : String

def uncalledHalt : Refusal :=
  ⟨Message.malformedHaltCompiler, "__halt_compiler must be followed by '();'", "__halt_compiler"⟩

def innerHalt : Refusal :=
  ⟨Message.nestedHaltCompiler, "__HALT_COMPILER() can only be used from the outermost scope",
    "__halt_compiler"⟩

/-- A try that neither catches nor finishes anything. -/
def bareTry : Refusal :=
  ⟨Message.tryWithoutHandler, "Cannot use try without catch or finally", "try"⟩

def refusals : List Refusal :=
  [uncalledHalt, innerHalt, bareTry]

theorem halt_cased : CasedWord "__halt_compiler" := by
  decide +kernel

theorem try_cased : CasedWord "try" := by
  decide +kernel

/-- A failure points into a source: at the word of a construct that is not allowed, or at a rule call
that nests too deep. -/
inductive Points (source : Text) (limit : Nat) : Failure → Prop where
  | refused {r : Refusal} {span : Span} : r ∈ refusals → source.HasWord span.start r.word →
    span.start ≤ span.stop → source.Boundary span.stop → Points source limit (.fatal r.key span [])
  | tooDeep {offset : Nat} : source.Boundary offset → Points source limit (.tooDeep limit offset)

/-- Failures point into the source, wherever in it the text is that they come from. -/
def pointing (source : Text) (limit : Nat) : Invariant where
  good input := source.Holds input.base input.text
  holds _ _ _ _ _ := True
  fails := Points source limit

section Shapes

variable {source : Text} {limit : Nat} {skipped : Option Lexeme} {input : Input} {trivia : Bool}
  {offset : Nat} {m : Matched} {ctx : Context} {u : Value} {e : Failure}

/-- Only the processor of a rule fails. -/
theorem shape_error {d : RuleDef} (h : RuleDef.shape d ctx u = .error e) :
    ∃ p, d.processor = some p ∧ p (d.bare.tagged u) ctx = .error e := by
  have hprocess : d.bare.process ctx (d.bare.tagged u) = .error e := by
    simp only [RuleDef.shape, LinkedRule.shape] at h
    split at h
    · cases h
    · change (d.bare.process ctx (d.bare.tagged u) >>= fun v => pure (LinkedRule.place ctx v)) = _ at h
      cases hprocess : d.bare.process ctx (d.bare.tagged u) with
      | ok v =>
        rw [hprocess] at h
        cases h
      | error e' =>
        rw [hprocess] at h
        exact congrArg _ (Except.error.inj h)
  simp only [LinkedRule.process, RuleDef.bare] at hprocess
  cases hp : d.processor with
  | none =>
    rw [hp] at hprocess
    cases hprocess
  | some p =>
    rw [hp] at hprocess
    exact ⟨p, rfl, hprocess⟩

theorem refused_points (hgood : source.Holds input.base input.text) (hinput : ctx.input = input)
    (hspan : ctx.span = ⟨m.start, m.stop⟩) (hm : m.Placed input.text offset) {r : Refusal}
    (hr : r ∈ refusals) (hword : input.text.HasWord m.start r.word) :
    Points source limit (ctx.fatal r.key) := by
  have hplace : ctx.absoluteSpan = ⟨input.base + m.start, input.base + m.stop⟩ := by
    simp only [Context.absoluteSpan, hinput, hspan, Span.shift, Nat.add_comm]
  rw [Context.fatal, hplace]
  exact .refused hr (hgood.hasWord hword) (Nat.add_le_add_left hm.forward _)
    (hgood.boundary hm.stop)

theorem checkHaltCompiler_error (h : checkHaltCompiler u ctx = .error e) :
    e = ctx.fatal Message.malformedHaltCompiler := by
  cases u with
  | node n =>
    simp only [checkHaltCompiler] at h
    split at h
    · cases h
    · exact (Except.error.inj h).symm
  | _ => cases h

theorem checkTry_error (h : checkTry u ctx = .error e) :
    e = ctx.fatal Message.tryWithoutHandler := by
  cases u with
  | node n =>
    simp only [checkTry] at h
    split at h
    · cases h
    · exact (Except.error.inj h).symm
  | _ => cases h

theorem interpolateDoubleQuoted_error (h : interpolateDoubleQuoted u ctx = .error e) :
    ∃ name text place, ctx.reparse name text place = .error e := by
  cases u with
  | node n =>
    simp only [interpolateDoubleQuoted] at h
    cases hreparse : ctx.reparse "StringParts" ((n.text? "string").getD "") (ctx.span.start + 1) with
    | error e' =>
      rw [hreparse] at h
      obtain rfl := Except.error.inj h
      exact ⟨_, _, _, hreparse⟩
    | ok found =>
      rw [hreparse] at h
      cases found <;> cases h
  | _ => cases h

theorem interpolateHeredoc_error (h : interpolateHeredoc u ctx = .error e) :
    ∃ name text place, ctx.reparse name text place = .error e := by
  cases u with
  | node n =>
    simp only [interpolateHeredoc] at h
    cases hreparse : ctx.reparse "HeredocParts" ((n.text? "body").getD "")
        (ctx.span.start + headerLength ctx.text) with
    | error e' =>
      rw [hreparse] at h
      obtain rfl := Except.error.inj h
      exact ⟨_, _, _, hreparse⟩
    | ok found =>
      rw [hreparse] at h
      cases found <;> cases h
  | _ => cases h

/-- Why a processor fails: for a refusal of its own, or because a nested parse does. -/
theorem Fold.fails {f : Fold} (h : f.processor u ctx = .error e) :
    (∃ r, (f, r) ∈ [(.halt, uncalledHalt), (.nestedHalt, innerHalt), (.handler, bareTry)] ∧
      e = ctx.fatal r.key) ∨ ∃ name text place, ctx.reparse name text place = .error e := by
  cases f with
  | halt => exact .inl ⟨uncalledHalt, by simp, checkHaltCompiler_error h⟩
  | nestedHalt => exact .inl ⟨innerHalt, by simp, (Except.error.inj h).symm⟩
  | handler => exact .inl ⟨bareTry, by simp, checkTry_error h⟩
  | doubleQuoted => exact .inr (interpolateDoubleQuoted_error h)
  | heredoc => exact .inr (interpolateHeredoc_error h)
  | parts =>
    simp only [Fold.processor, nonEmptyParts] at h
    split at h <;> cases h
  | binary | binaryRight | ternary | branches | members | program => cases u <;> cases h

/-- A nested parse is of a text that stands in the source, so its failures point there. -/
theorem located_points (hgood : source.Holds input.base input.text)
    {reparse : String → String → Nat → Except Failure (Option Value)}
    (hanswers : (pointing source limit).Answers input reparse) {name text : String} {place : Nat}
    (h : input.located reparse name text place = .error e) : Points source limit e := by
  by_cases hholds : input.text.Holds place (.ofString text)
  · rw [Input.located_of_holds hholds] at h
    exact (hanswers name text place (hgood.trans hholds)).2 e h
  · rw [Input.located_of_not hholds] at h
    cases h

theorem pointing_closed (s : Setting) (source : Text) :
    (pointing source s.limit).Closed s rules where
  deep input offset hgood hb := .tooDeep (Text.Holds.boundary hgood hb)
  shape input hgood d hd trivia offset m hb hplaced hm reparse hanswers := by
    refine ⟨fun _ _ => trivial, fun e h => ?_⟩
    rw [(rules_locate hd).shape hb hm] at h
    obtain ⟨p, hp, h⟩ := shape_error h
    obtain ⟨f, hf, rfl⟩ := mem_foldRules hd hp
    have hrefused : ∀ r ∈ refusals, input.text.HasWord m.start r.word → Points source s.limit
        (Context.fatal ⟨⟨m.start, m.stop⟩, input, s.lines, s.options, input.located reparse⟩ r.key) :=
      fun r hr hword => refused_points hgood rfl rfl hplaced hr hword
    obtain ⟨r, hr, rfl⟩ | ⟨name, text, place, h⟩ := Fold.fails h
    · simp only [List.mem_cons, Prod.mk.injEq, List.not_mem_nil, or_false] at hr
      obtain ⟨rfl, rfl⟩ | ⟨rfl, rfl⟩ | ⟨rfl, rfl⟩ := hr
      · obtain rfl : d = haltCompiler := by simpa [foldRules] using hf
        exact hrefused uncalledHalt (by simp [refusals]) (halt_cased.begins hb hm)
      · obtain rfl : d = nestedHaltCompiler := by simpa [foldRules] using hf
        exact hrefused innerHalt (by simp [refusals]) (halt_cased.found hb hm).1
      · obtain rfl : d = tryStatement := by simpa [foldRules] using hf
        exact hrefused bareTry (by simp [refusals]) (try_cased.begins hb hm)
    · exact located_points hgood hanswers h

end Shapes

section Messages

open Message

theorem message_unexpected (c : String) :
    Catalog.standard.message unexpectedCharacter [("what", c)] =
      "syntax error, unexpected '" ++ c ++ "'" := by
  have htemplate : Catalog.standard.template? unexpectedCharacter =
      some "syntax error, unexpected '$\x7bwhat\x7d'" := by decide +kernel
  apply String.toList_inj.1
  simp only [Catalog.message, htemplate, fill, String.toList_ofList, String.toList_append]
  rfl

theorem message_tooDeep (depth : String) :
    Catalog.standard.message nestingTooDeep [("depth", depth)] =
      "Maximum nesting depth of " ++ depth ++ " rule invocations exceeded" := by
  have htemplate : Catalog.standard.template? nestingTooDeep =
      some "Maximum nesting depth of $\x7bdepth\x7d rule invocations exceeded" := by decide +kernel
  apply String.toList_inj.1
  simp only [Catalog.message, htemplate, fill, String.toList_ofList, String.toList_append]
  rfl

theorem message_end :
    Catalog.standard.message unexpectedEnd [] = "syntax error, unexpected end of file" := by
  decide +kernel

theorem message_refusal : ∀ r ∈ refusals, Catalog.standard.message r.key [] = r.message := by
  simp only [refusals, List.forall_mem_cons]
  exact ⟨by decide +kernel, by decide +kernel, by decide +kernel, by simp⟩

end Messages

end Php

/-- A diagnostic tells the truth about a source. -/
structure Diagnostic.Truthful (d : Diagnostic) (source : Text) : Prop where
  start : source.Boundary d.offset
  stop : source.Boundary (d.offset + d.length)
  /-- Lines count from one. -/
  line : d.line = 1 + {o | o ≤ d.offset ∧ source.BeginsLine o}.ncard
  /-- What is not well formed is unexpected where it stands. -/
  unexpected : d.severity = .parse → d.offset < source.size →
    ∃ c rest, source.Has d.offset (c :: rest) ∧ d.length = c.utf8Size ∧
      d.message = "syntax error, unexpected '" ++ c.toString ++ "'"
  ended : d.severity = .parse → d.offset = source.size →
    d.length = 0 ∧ d.message = "syntax error, unexpected end of file"
  /-- What is not allowed stands where it is reported. -/
  refused : d.severity = .fatal →
    (∃ r ∈ Php.refusals, d.message = r.message ∧ source.HasWord d.offset r.word) ∨
      d.message = "Maximum nesting depth of " ++ toString Peg.defaultLimit ++
        " rule invocations exceeded" ∧ d.length = 0

section Truthful

open Peg Php

variable {cs : List Char} {path : String}

theorem Text.HasWord.boundary {t : Text} {offset : Nat} {word : String}
    (h : t.HasWord offset word) : t.Boundary offset := by
  obtain ⟨_, _, h, -⟩ := h
  exact ⟨_, h⟩

theorem truthful_of_points {e : Failure} (h : Points (.ofList cs) defaultLimit e) :
    (Diagnostic.ofFailure .standard path (.ofList cs) e).Truthful (.ofList cs) := by
  cases h with
  | @refused r span hr hword hforward hstop =>
    have hstart := hword.boundary
    refine ⟨hstart, ?_, Lines.line_eq cs hstart.le_size, by simp [Diagnostic.ofFailure],
      by simp [Diagnostic.ofFailure], fun _ => .inl ?_⟩
    · simp only [Diagnostic.ofFailure, Span.length, Nat.add_sub_cancel' hforward]
      exact hstop
    · exact ⟨r, hr, message_refusal r hr, hword⟩
  | @tooDeep offset hb =>
    refine ⟨hb, ?_, Lines.line_eq cs hb.le_size, by simp [Diagnostic.ofFailure, Failure.tooDeep],
      by simp [Diagnostic.ofFailure, Failure.tooDeep], fun _ => .inr ?_⟩
    · simp only [Diagnostic.ofFailure, Failure.tooDeep, Span.length, Nat.sub_self, Nat.add_zero]
      exact hb
    · exact ⟨message_tooDeep _, Nat.sub_self _⟩

theorem truthful_of_mismatch {m : Memory} (hb : (Text.ofList cs).Boundary m.furthest) :
    (Diagnostic.ofFailure .standard path (.ofList cs) (mismatch ⟨.ofList cs, 0⟩ m)).Truthful
      (.ofList cs) := by
  have hline := Lines.line_eq cs hb.le_size
  obtain ⟨behind, hhas⟩ := hb
  have hsize := hhas.size
  have hoffset : min (0 + m.furthest) (Text.ofList cs).size = m.furthest := by omega
  cases behind with
  | nil =>
    rw [byteLength, Nat.add_zero] at hsize
    have hend : decide ((Text.ofList cs).size ≤ m.furthest) = true := decide_eq_true hsize.le
    simp only [mismatch, Diagnostic.ofFailure, hoffset, hend]
    exact ⟨⟨_, hhas⟩, ⟨_, hhas⟩, hline, fun _ hlt => absurd hlt hsize.not_gt,
      fun _ _ => ⟨rfl, message_end⟩, by simp⟩
  | cons c rest =>
    have hpos := byteLength_cons_pos c rest
    have hlt : m.furthest < (Text.ofList cs).size := by omega
    have hmore : decide ((Text.ofList cs).size ≤ m.furthest) = false :=
      decide_eq_false (Nat.not_le.2 hlt)
    have hchar : (Text.ofList cs).charAt? m.furthest = some c := by
      rw [Text.charAt?, hhas.after?]
      rfl
    have hstop : (Text.ofList cs).Has (m.furthest + c.utf8Size) rest := by
      have hmove := Text.Has.move (show (Text.ofList cs).Has m.furthest ([c] ++ rest) from hhas)
      rwa [byteLength, byteLength, Nat.add_zero] at hmove
    simp only [mismatch, Diagnostic.ofFailure, hoffset, hmore, hchar]
    exact ⟨⟨_, hhas⟩, ⟨_, hstop⟩, hline,
      fun _ _ => ⟨c, rest, hhas, rfl, message_unexpected _⟩, fun _ heq => absurd heq hlt.ne,
      by simp⟩

/-- A source is accepted, or a diagnostic tells the truth about it. -/
theorem parse_truthful (path : Option String) (options : Options) (source : String) :
    (∃ n, Parser.parse ⟨path, .standard, options⟩ source = .ok n) ∨
      ∃ d, Parser.parse ⟨path, .standard, options⟩ source = .error d ∧
        d.Truthful (Text.ofString source) := by
  have hstart : (Text.ofString source).Boundary 0 := ⟨_, Text.has_start _⟩
  have hwhole : (pointing (Text.ofString source) defaultLimit).good ⟨Text.ofString source, 0⟩ := by
    refine ⟨source.toList, [], rfl, ?_⟩
    rw [List.append_nil]
    exact Text.has_start _
  simp only [Parser.parse, Parser.run]
  cases hsession : (Parser.session options (Text.ofString source)).run startRule true with
  | mk outcome session =>
    cases outcome with
    | ok v =>
      obtain ⟨n, rfl, -⟩ := session_wellFormed options hstart (congrArg Prod.fst hsession)
      exact .inl ⟨n, rfl⟩
    | error e =>
      refine .inr ⟨_, rfl, ?_⟩
      obtain h | ⟨rfl, hb⟩ := (Session.run_keeps (pointing_closed _ (Text.ofString source))
        grammar_lists hwhole hstart).2 e (congrArg Prod.fst hsession)
      · exact truthful_of_points h
      · exact truthful_of_mismatch hb

end Truthful

end PhpSyntax
