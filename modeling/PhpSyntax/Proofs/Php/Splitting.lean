import PhpSyntax.Proofs.Peg.Chaining
import PhpSyntax.Proofs.Php.BodyParts

namespace PhpSyntax.Php

open Peg Regex Literal

/-- A part of a body: remembered as the match of the rule for parts, it begins where that was tried
and takes something. -/
structure Body.Takes (k : Body) (body : Text) (memory : Memory) (offset : Nat) (m : Matched) :
    Prop where
  remembered : ∃ id, grammar.ruleId? k.part.name = some id ∧
    memory.memo[(⟨id, offset, false, false⟩ : Call)]? = some (some m)
  start : m.start = offset
  forward : offset < m.stop
  part : k.IsPart body offset m

def IsText (v : Value) : Prop :=
  ∃ s, IsLiteral s v

/-- Parts from the start of a body to its end, of which no two in a row are literals. -/
structure Body.Tiles (k : Body) (body : Text) (memory : Memory) (ms : List Matched) : Prop where
  chain : Chain (k.Takes body memory) 0 ms body.size
  apart : ms.IsChain fun m n => ¬(IsText m.value ∧ IsText n.value)

/-- The values of parts, or an empty literal where there are none. -/
def Listed (ms : List Matched) (vs : List Value) : Prop :=
  ms ≠ [] ∧ vs = ms.map (·.value) ∨ ms = [] ∧ ∃ v, vs = [v] ∧ IsLiteral "" v

section Tiling

variable {k : Body} {body : Text} {memory : Memory} {offset : Nat} {m n : Matched} {v : Value}

theorem IsText.not_unquoted (h : IsText v) : ¬Unquoted v := by
  obtain ⟨s, n, rfl, hname, -⟩ := h
  exact fun hunquoted => hunquoted n rfl hname

theorem Body.IsPart.run (h : k.IsPart body offset m) (htext : IsText m.value) :
    ∃ run, k.IsRun body offset m run :=
  h.resolve_right fun hinterpolation => htext.not_unquoted hinterpolation.value

theorem Body.IsRun.apart {run run' : List Char} (h : k.IsRun body offset m run)
    (h' : k.IsRun body m.stop n run') : False := by
  obtain ⟨rest, hhas, hrun⟩ := h.stands
  obtain ⟨rest', hhas', hrun'⟩ := h'.stands
  have hcut : run ++ rest = literalRun (run ++ rest) ++ rest := by rw [hrun]
  have hbehind : literalRun rest = [] := literalRun_behind hcut
  rw [h.stop] at hhas'
  obtain rfl := hhas.move.unique hhas'
  exact h'.nonempty (hrun'.symm.trans hbehind)

theorem Body.Takes.apart (h : k.Takes body memory offset m) (h' : k.Takes body memory m.stop n) :
    ¬(IsText m.value ∧ IsText n.value) := by
  rintro ⟨hm, hn⟩
  obtain ⟨run, hrun⟩ := h.part.run hm
  obtain ⟨run', hrun'⟩ := h'.part.run hn
  exact hrun.apart hrun'

variable {cs : List Char} {ms : List Matched} {vs : List Value}

/-- The first part of a body is the literal run there, if that is not empty. -/
theorem Body.IsPart.first (h : k.IsPart body 0 m) (hcs : body.Has 0 cs)
    (hrun : literalRun cs ≠ []) : k.IsRun body 0 m (literalRun cs) := by
  obtain ⟨run, hpart⟩ | hinterpolation := h
  · obtain ⟨rest, hhas, hsame⟩ := hpart.stands
    obtain rfl := hcs.unique hhas
    rwa [hsame]
  · obtain ⟨cs', hcs', hbegins⟩ := hinterpolation.begins
    obtain rfl := hcs.unique hcs'
    exact absurd hbegins.literalRun hrun

theorem Body.IsPart.nonempty (h : k.IsPart body offset m) : ¬body.Has offset [] := by
  intro hend
  obtain ⟨run, hpart⟩ | hinterpolation := h
  · obtain ⟨rest, hhas, -⟩ := hpart.stands
    exact hpart.nonempty (List.append_eq_nil_iff.1 (hend.unique hhas).symm).1
  · obtain ⟨cs, hcs, hbegins⟩ := hinterpolation.begins
    obtain rfl := hend.unique hcs
    exact not_interpolates_nil hbegins

theorem Body.IsRun.alone (h : k.IsRun body 0 m cs) (hcs : body.Has 0 cs) {stop : Nat}
    (hchain : Chain (k.Takes body memory) m.stop ms stop) : ms = [] := by
  cases hchain with
  | nil => rfl
  | cons hnext _ =>
    have hend : body.Has m.stop [] := by
      rw [h.stop]
      exact Text.Has.move (by rwa [List.append_nil])
    exact absurd hend hnext.part.nonempty

/-- A body without interpolations is one literal. -/
theorem Body.Tiles.literal (h : k.Tiles body memory ms) (hcs : body.Has 0 cs)
    (hplain : ¬Interpolated cs) (hlisted : Listed ms vs) :
    ∃ v, vs = [v] ∧ IsLiteral (k.set.apply (String.ofList cs)) v := by
  have hrun := literalRun_eq_self.2 hplain
  have hsize := hcs.size
  have hchain := h.chain
  generalize body.size = size at hchain hsize
  obtain ⟨hne, rfl⟩ | ⟨rfl, v, rfl, hv⟩ := hlisted
  · cases hchain with
    | nil => exact absurd rfl hne
    | @cons _ _ m ms hm hrest =>
      have hnonempty : literalRun cs ≠ [] := by
        rw [hrun]
        rintro rfl
        exact hm.part.nonempty hcs
      have hfirst := hm.part.first hcs hnonempty
      rw [hrun] at hfirst
      obtain rfl := hfirst.alone hcs hrest
      exact ⟨_, rfl, hfirst.value⟩
  · cases hchain with
    | nil =>
      have hnil : cs = [] := by
        by_contra hne
        have hpos := byteLength_pos hne
        omega
      have hsame : k.set.apply (String.ofList []) = "" := by cases k <;> rfl
      rw [hnil, hsame]
      exact ⟨v, rfl, hv⟩

/-- A body with an interpolation is no literal. -/
theorem Body.Tiles.expression (h : k.Tiles body memory ms) (hcs : body.Has 0 cs)
    (hinterpolated : Interpolated cs) (hlisted : Listed ms vs) : ∀ v, vs = [v] → Unquoted v := by
  have hrun : literalRun cs ≠ cs := fun hrun => literalRun_eq_self.1 hrun hinterpolated
  have hsize := hcs.size
  have hchain := h.chain
  generalize body.size = size at hchain hsize
  rintro v rfl
  obtain ⟨hne, hvs⟩ | ⟨rfl, -⟩ := hlisted
  · cases hchain with
    | nil => exact absurd rfl hne
    | @cons _ _ m ms hm hrest =>
      obtain ⟨rfl, hms⟩ := List.cons.inj hvs
      obtain rfl := List.map_eq_nil_iff.1 hms.symm
      obtain ⟨run, hpart⟩ | hinterpolation := hm.part
      · obtain ⟨rest, hhas, hsame⟩ := hpart.stands
        obtain rfl := hcs.unique hhas
        have hstop := hpart.stop
        cases hrest
        have hnil : rest = [] := by
          by_contra hne
          have hpos := byteLength_pos hne
          rw [byteLength_append] at hsize
          omega
        rw [hsame, hnil, List.append_nil] at hrun
        exact absurd rfl hrun
      · exact hinterpolation.value
  · cases hchain with
    | nil =>
      have hnil : cs = [] := by
        by_contra hne
        have hpos := byteLength_pos hne
        omega
      rw [hnil] at hrun
      exact absurd rfl hrun

end Tiling

section Run

variable {s : Setting} (hs : s.grammar = grammar) {room : Nat} (hroom : room ≤ s.limit)

theorem Body.parts_pattern (k : Body) : k.parts.pattern =
    .sequence [⟨some "parts", .list, .repetition (.rule k.part.name) none 0 false⟩,
      ⟨none, .value, .endOfInput⟩] := by
  cases k <;> rfl

/-- The rule for whole bodies as it is linked. -/
theorem Body.parts_linked (k : Body) : ∃ (id : Nat) (r : LinkedRule) (ref : RuleRef),
    grammar.ruleId? k.parts.name = some id ∧ grammar.rules[id]? = some r ∧ r.written = k.parts ∧
    grammar.ruleId? k.part.name = some ref.id ∧ id ≠ ref.id ∧
    r.pattern = .sequence [⟨some "parts", .list, .repetition (.rule ref) none 0 false⟩,
      ⟨none, .value, .endOfInput⟩] := by
  obtain ⟨id, r, hid, hr, hwritten, hlinks⟩ := Grammar.rule_of_link grammar_linked k.mem_rules.2.2
  rw [k.parts_pattern] at hlinks
  generalize hname : k.part.name = name, hpattern : r.pattern = q at hlinks
  cases hlinks with
  | sequence hlinks => cases hlinks with
    | cons hrepetition hrest => cases hrepetition with
      | repetition hitem => cases hitem with
        | @rule ref hresolved => cases hrest with
          | cons hend hnil =>
            cases hend
            cases hnil
            refine ⟨id, r, ref, hid, hr, hwritten, hresolved, ?_, hpattern⟩
            rintro rfl
            obtain ⟨r', hr', hname'⟩ := grammar_lists.named _ _ hresolved
            obtain rfl := Option.some.inj (hr.symm.trans hr')
            have hsame : k.parts.name = k.part.name :=
              (congrArg (·.name) hwritten).symm.trans (hname'.trans hname.symm)
            cases k <;> exact absurd hsame (by decide)

/-- What becomes of the list of parts. -/
theorem Body.parts_shape (k : Body) (ctx : Context) (ms : List Matched) {v : Value}
    (h : RuleDef.shape k.parts ctx (.record ⟨[("parts", .list (ms.map (·.value)))]⟩) = .ok v) :
    ∃ vs, v = .list vs ∧ Listed ms vs := by
  have hshape : RuleDef.shape k.parts ctx (.record ⟨[("parts", .list (ms.map (·.value)))]⟩) =
      nonEmptyParts (.list (ms.map (·.value))) ctx >>= fun v => .ok (LinkedRule.place ctx v) := by
    cases k <;> rfl
  rw [hshape] at h
  cases ms with
  | nil =>
    obtain rfl := Except.ok.inj h
    have hempty : IsLiteral "" (.node (ctx.covering (stringLiteral "") none none)) := by
      simp only [Context.covering]
      split <;> exact ⟨_, rfl, rfl, rfl⟩
    exact ⟨_, rfl, .inr ⟨rfl, _, rfl, hempty⟩⟩
  | cons m ms =>
    obtain rfl := Except.ok.inj h
    exact ⟨_, rfl, .inl ⟨List.cons_ne_nil _ _, rfl⟩⟩

include hs hroom

/-- A parse of a body finds parts that tile it. -/
theorem Body.split (k : Body) {body : Text} {base : Nat} (hb : body.Boundary 0) {v : Value}
    {memory : Memory}
    (h : runWith s.grammar (invoke s room) ⟨body, base⟩ k.parts.name false .empty = .ok v memory) :
    ∃ ms vs, k.Tiles body memory ms ∧ v = .list vs ∧ Listed ms vs := by
  obtain ⟨depth, hdepth⟩ := Nat.exists_eq_add_of_le hroom
  have hlimit : depth + room = s.limit := by omega
  obtain ⟨id, r, ref, hid, hr, hwritten, hpart, hne, hpattern⟩ := k.parts_linked
  obtain ⟨o, memory', hrun, -, hexec⟩ :=
    runWith_performs hlimit (sane_empty (Input.mk body base).text) k.parts.name false
  have hended := hrun.symm.trans h
  cases hexec with
  | unknown _ => cases hended
  | @called id' _ _ found hid' hexec =>
    rw [hs] at hid'
    obtain rfl := Option.some.inj (hid.symm.trans hid')
    cases found with
    | error e => cases hended
    | ok found => cases found with
      | none => cases hended
      | some found =>
        cases hended
        have hr : s.grammar.rules[id]? = some r := hs ▸ hr
        have hlists : s.grammar.Lists rules := hs ▸ grammar_lists
        have hnew : (Memory.empty.memo[(⟨id, 0, false, false⟩ : Call)]? : Option _) = none :=
          Std.HashMap.getElem?_empty
        obtain ⟨ms, stop, ctx, hchain, hle, hshape⟩ := hexec.listed hr hpattern hne hnew
        have hkeeps := hexec.keeps (splitting_closed hs) hlists trivial
          (splitting.remembers_empty s hb) hb
        obtain ⟨r', hr', hname⟩ := hlists.named k.part.name ref.id (hs ▸ hpart)
        have htaken : ∀ o m, memory.Recalls ref.id false false o m →
            m.Placed body o ∧ k.Takes body memory o m := by
          intro o m hm
          obtain ⟨hplaced, -, hsplits⟩ := hkeeps.memory.memo _ m hm.1 r' hr'
          have htakes := (hsplits rfl).part k hname
          have hstart : m.start = o := by
            obtain ⟨run, hrun⟩ | hinterpolation := htakes
            · exact hrun.start
            · exact hinterpolation.start
          have hforward : o < m.stop :=
            Nat.lt_of_le_of_ne (hplaced.behind.trans hplaced.forward) hm.2.symm
          exact ⟨hplaced, ⟨ref.id, hpart, hm.1⟩, hstart, hforward, htakes⟩
        have hstop : stop = body.size := by
          have hboundary : body.Boundary stop :=
            hchain.ends hb fun o m hm => (htaken o m hm).1.stop
          exact Nat.le_antisymm hboundary.le_size hle
        rw [hstop] at hchain
        have htiles := hchain.imp fun o m hm => (htaken o m hm).2
        rw [LinkedRule.shape_written, hwritten] at hshape
        obtain ⟨vs, hvs, hlisted⟩ := k.parts_shape ctx ms hshape
        exact ⟨ms, vs, ⟨htiles, htiles.isChain fun _ _ _ hm hn => hm.apart hn⟩, hvs, hlisted⟩

end Run

section Strings

/-- What becomes of a string whose body has some parts. -/
structure IsString (body : List Char) (parts v : Value) : Prop where
  literal : ¬Interpolated body →
    IsLiteral (EscapeSet.doubleQuoted.apply (String.ofList body)) v
  expression : Interpolated body → ∃ n, v = .node n ∧ n.name = "StringExpression" ∧
    n.fields.entries = [("parts", parts)]

variable {ctx : Context}

theorem place_node (ctx : Context) (n : Node) : ∃ n', LinkedRule.place ctx (.node n) = .node n' ∧
    n'.name = n.name ∧ n'.fields = n.fields := by
  simp only [LinkedRule.place]
  split
  · exact ⟨_, rfl, rfl, rfl⟩
  · exact ⟨n, rfl, rfl, rfl⟩

theorem stringOfParts_literal {s : String} {v : Value} (h : IsLiteral s v) :
    stringOfParts [v] = stringLiteral s := by
  obtain ⟨n, rfl, hname, hentries⟩ := h
  have htext : n.text? "string" = some s := by
    simp only [NodeOf.text?, NodeOf.get?, Fields.get?, hentries]
    rfl
  simp only [stringOfParts, hname, beq_self_eq_true, if_true, htext, Option.getD_some]

theorem stringOfParts_expression {vs : List Value} (h : ∀ v, vs = [v] → Unquoted v) :
    stringOfParts vs = .ofEntries "StringExpression" [("parts", .list vs)] := by
  unfold stringOfParts
  split
  · rename_i part
    rw [if_neg]
    simpa using h _ rfl part rfl
  · rfl

/-- A string is made of the parts of its body. -/
theorem Body.Tiles.string {body : Text} {cs : List Char} {memory : Memory} {ms : List Matched}
    {vs : List Value} (h : Body.doubleQuoted.Tiles body memory ms) (hcs : body.Has 0 cs)
    (hlisted : Listed ms vs) :
    IsString cs (.list vs) (LinkedRule.place ctx (.node (stringOfParts vs))) := by
  refine ⟨fun hplain => ?_, fun hinterpolated => ?_⟩
  · obtain ⟨v, rfl, hv⟩ := h.literal hcs hplain hlisted
    rw [stringOfParts_literal hv]
    exact IsLiteral.place ⟨_, rfl, rfl, rfl⟩
  · rw [stringOfParts_expression (h.expression hcs hinterpolated hlisted)]
    obtain ⟨n, hn, hname, hfields⟩ := place_node ctx
      (.ofEntries "StringExpression" [("parts", .list vs)])
    exact ⟨n, hn, hname, by rw [hfields]; rfl⟩

/-- The rule for double-quoted strings as it is linked. -/
theorem doubleQuotedString_linked : ∃ (id : Nat) (r : LinkedRule) (l : Lexeme),
    grammar.ruleId? "DoubleQuotedString" = some id ∧ grammar.rules[id]? = some r ∧
    r.written = doubleQuotedString ∧ l.Read ∧
    r.pattern = .sequence [⟨some "string", .value, .terminal l⟩] ∧
    doubleQuotedString.pattern = .sequence [⟨some "string", .value, .terminal l.toTerminal⟩] := by
  obtain ⟨id, r, hid, hr, hwritten, hlinks⟩ :=
    Grammar.rule_of_link grammar_linked doubleQuotedString_mem
  have hpattern : doubleQuotedString.pattern = .sequence [⟨some "string", .value,
      .terminal ((re "\"((?:[^\"\\\\]|\\\\[\\s\\S])*)\"").withGroup 1)⟩] := rfl
  rw [hpattern] at hlinks ⊢
  generalize (re "\"((?:[^\"\\\\]|\\\\[\\s\\S])*)\"").withGroup 1 = terminal, hq : r.pattern = q
    at hlinks ⊢
  cases hlinks with
  | sequence hlinks => cases hlinks with
    | cons hterminal hnil => cases hterminal with
      | @terminal l hl =>
        cases hnil
        exact ⟨id, r, l, hid, hr, hwritten, hl, hq, rfl⟩

/-- What becomes of a string whose body can be parsed again. -/
theorem doubleQuotedString_shape {body : List Char} {v w : Value}
    (hreparse : ctx.reparse "StringParts" (String.ofList body) (ctx.span.start + 1) =
      .ok (some v))
    (h : RuleDef.shape doubleQuotedString ctx
      (.record ⟨[("string", .text (String.ofList body))]⟩) = .ok w) :
    w = LinkedRule.place ctx (.node (stringOfParts v.toList)) := by
  have htext : (NodeOf.ofFields "StringLiteral"
      ⟨[("string", .text (String.ofList body))]⟩).text? "string" = some (String.ofList body) := rfl
  have hprocess : interpolateDoubleQuoted (.node (NodeOf.ofFields "StringLiteral"
      ⟨[("string", .text (String.ofList body))]⟩)) ctx = .ok (.node (stringOfParts v.toList)) := by
    simp only [interpolateDoubleQuoted, htext, Option.getD_some, hreparse]
    rfl
  have hshape : RuleDef.shape doubleQuotedString ctx
      (.record ⟨[("string", .text (String.ofList body))]⟩) =
      interpolateDoubleQuoted (.node (NodeOf.ofFields "StringLiteral"
        ⟨[("string", .text (String.ofList body))]⟩)) ctx >>=
        fun v => .ok (LinkedRule.place ctx v) := rfl
  rw [hshape, hprocess] at h
  exact (Except.ok.inj h).symm

end Strings

section Main

variable {s : Setting} (hs : s.grammar = grammar) {room : Nat} (hroom : room ≤ s.limit)

include hs hroom

/-- A double-quoted string, by what stands between its quotes. -/
theorem doubleQuotedString_splits {input : Input} {c : Call} {memory memory' : Memory}
    {found : Matched} (hc : grammar.ruleId? "DoubleQuotedString" = some c.rule)
    (hb : input.text.Boundary c.offset)
    (h : evaluate s (invoke s room) input c memory = .ok (some found) memory') :
    ∃ body rest, input.text.Has found.start ('\x22' :: (body ++ '\x22' :: rest)) ∧
      found.stop = found.start + (byteLength body + 2) ∧
      ∀ v inner, runWith s.grammar (invoke s room) (input.within (String.ofList body)
        (found.start + 1)) "StringParts" false .empty = .ok v inner →
        IsString body v found.value := by
  obtain ⟨id, r, l, hid, hr, hwritten, hl, hpattern, hfield⟩ := doubleQuotedString_linked
  obtain rfl := Option.some.inj (hid.symm.trans hc)
  obtain ⟨m, hm, hstart, hstop, hshape⟩ :=
    evaluate_terminal (hs ▸ hr) hpattern hl h fun _ _ _ _ => False
  rw [← hfield] at hm
  obtain ⟨m', hm', hstop', hstart', hvalue⟩ := matches_field hm
  obtain ⟨taken, body, more, rest, hhas, htaken, hmore, hend, htext⟩ :=
    matches_framed hb hm' doubleQuoted_frames
  obtain rfl := htaken.literal
  obtain rfl := hmore.literal
  rw [hstop', hend] at hstop
  rw [← hstart' (by omega), ← hstart] at hhas hstop
  refine ⟨body, rest, hhas, ?_, fun v inner hinner => ?_⟩
  · rw [hstop]
    simp only [byteLength_append]
    show _ + (1 + (_ + 1)) = _
    omega
  · have hcs : (input.within (String.ofList body) (found.start + 1)).text.Has 0 body := by
      rw [Input.within, Text.ofString, String.toList_ofList]
      exact Text.has_start body
    obtain ⟨ms, vs, htiles, rfl, hlisted⟩ := Body.split hs hroom .doubleQuoted ⟨body, hcs⟩ hinner
    have hrecord : m.value = .record ⟨[("string", .text (String.ofList body))]⟩ := by
      rw [hvalue, htext]
      rfl
    rw [LinkedRule.shape_written, hwritten, hrecord] at hshape
    have hreparse : reparseWith s.grammar (invoke s room) input "StringParts" (String.ofList body)
        (m.start + 1) = .ok (some (.list vs)) := by
      have hinner : runWith s.grammar (invoke s room) ⟨Text.ofString (String.ofList body),
          input.base + (m.start + 1)⟩ "StringParts" false .empty = .ok (.list vs) inner := by
        rw [← hstart]
        exact hinner
      simp only [reparseWith, hinner]
    rw [doubleQuotedString_shape hreparse hshape]
    exact htiles.string hcs hlisted

/-- Splitting is exact. The parts of a body stand one behind the other from its start to its end,
no two literal runs in a row, and a literal run is the text it stands for. A double-quoted string is
a literal if its body holds no interpolation outside of pairs of a backslash and a character, and
otherwise made of the parts of its body. Where a body is cut, no escape is split. -/
theorem splitting_exact :
    (∀ (k : Body) (body : String) (base : Nat) (v : Value) (memory : Memory),
      runWith s.grammar (invoke s room) ⟨.ofString body, base⟩ k.parts.name false .empty =
        .ok v memory →
      ∃ ms vs, k.Tiles (.ofString body) memory ms ∧ v = .list vs ∧ Listed ms vs) ∧
    (∀ (input : Input) (c : Call) (memory memory' : Memory) (found : Matched),
      grammar.ruleId? "DoubleQuotedString" = some c.rule → input.text.Boundary c.offset →
      evaluate s (invoke s room) input c memory = .ok (some found) memory' →
      ∃ body rest, input.text.Has found.start ('\x22' :: (body ++ '\x22' :: rest)) ∧
        found.stop = found.start + (byteLength body + 2) ∧
        ∀ v inner, runWith s.grammar (invoke s room) (input.within (String.ofList body)
          (found.start + 1)) "StringParts" false .empty = .ok v inner →
          IsString body v found.value) ∧
    ∀ (k : Body) (body : String) (rest : List Char),
      body.toList = literalRun body.toList ++ rest →
      k.set.apply body = k.set.apply (String.ofList (literalRun body.toList)) ++
        k.set.apply (String.ofList rest) := by
  refine ⟨fun k body base v memory h => ?_, fun input c memory memory' found hc hb h => ?_,
    fun k body rest hcut => ?_⟩
  · exact Body.split hs hroom k ⟨_, Text.has_start _⟩ h
  · exact doubleQuotedString_splits hs hroom hc hb h
  · simp only [EscapeSet.apply, String.toList_ofList, ← String.ofList_append]
    rw [← unescape_cut hcut]

end Main

/-- The body of a string with a variable in front of some text. -/
theorem splitting_exact_variable : ∃ (s : Setting) (v : Value) (memory : Memory)
    (ms : List Matched), s.grammar = grammar ∧
      runWith s.grammar (invoke s s.limit) ⟨.ofString "$b c", 0⟩ "StringParts" false .empty =
        .ok v memory ∧
      Body.doubleQuoted.Tiles (.ofString "$b c") memory ms ∧
      ms.map (·.value) = [Expr.variableNode ⟨'b', [], rfl, by simp⟩, literalNode " c".toList] := by
  let s : Setting := (Parser.session .off (Text.ofString "$b c")).setting
  let x : Ident := ⟨'b', [], rfl, by simp⟩
  have hs : Plain s nesting := plain_session _ le_rfl
  have hread : Reads s (nesting + 5) (.rule "StringParts") false ('$' :: x.chars ++ " c".toList)
      (some ([], .list [Expr.variableNode x, literalNode " c".toList])) :=
    hs.reads_variableParts x (by decide) (by decide) (by decide) (by decide) (by decide)
  obtain ⟨id, -, -, hid, -⟩ := Body.doubleQuoted.parts_linked
  have hstart : (Input.mk (.ofString "$b c") 0).text.Has 0 ('$' :: x.chars ++ " c".toList) :=
    Text.has_start _
  have hrun := Session.run_of_reads_within grammar_planned hid hread hstart (by norm_cast)
  obtain ⟨memory, hmemory⟩ := Session.runWith_of_run hrun
  obtain ⟨ms, vs, htiles, hvs, hlisted⟩ :=
    (splitting_exact (s := s) rfl le_rfl).1 .doubleQuoted "$b c" 0 _ memory hmemory
  obtain rfl := Value.list.inj hvs
  obtain ⟨-, hvs⟩ | ⟨-, v, hvs, -⟩ := hlisted
  · exact ⟨s, _, memory, ms, rfl, hmemory, htiles, hvs.symm⟩
  · cases hvs

end PhpSyntax.Php
