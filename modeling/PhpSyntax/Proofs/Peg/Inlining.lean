import PhpSyntax.Proofs.Peg.Limit
import PhpSyntax.Proofs.Peg.Matches
import PhpSyntax.Proofs.Peg.Termination
import PhpSyntax.Proofs.Tree.Merging

namespace PhpSyntax.Peg

namespace Parts

/-- Parts together with the parts that were matched behind them, from a fresh start. -/
def merge (ps qs : Parts) : Parts :=
  ⟨qs.cursor, ps.start.or qs.start, ps.fields.extend qs.fields, ps.hasFields || qs.hasFields⟩

theorem merge_startingAt (ps : Parts) : ps.merge (.startingAt ps.cursor) = ps := by
  obtain ⟨cursor, start, fields, hasFields⟩ := ps
  simp [merge, startingAt, Fields.extend, Fields.empty, Fields.insertAll]

/-- What holds of all parts that were matched from a fresh start. -/
structure Collected (ps : Parts) : Prop where
  nodup : ps.fields.keys.Nodup
  bare : ps.hasFields = false → ps.fields = .empty
  took : ∀ start, ps.start = some start → start < ps.cursor

theorem collected_startingAt (offset : Nat) : (startingAt offset).Collected where
  nodup := List.nodup_nil
  bare _ := rfl
  took := nofun

theorem push_nodup {ps : Parts} (h : ps.fields.keys.Nodup) (field : Option String)
    (capture : Capture) (m : Matched) : (ps.push field capture m).fields.keys.Nodup := by
  obtain ⟨start, stop, v⟩ := m
  cases field with
  | some name => exact Fields.insert_nodup _ _ h
  | none =>
    cases v with
    | record fields => exact Fields.insertAll_nodup _ h _
    | _ => exact h

theorem push_bare {ps : Parts} {field : Option String} {capture : Capture} {m : Matched}
    (h : ps.hasFields = false → ps.fields = .empty)
    (hbare : (ps.push field capture m).hasFields = false) :
    (ps.push field capture m).fields = .empty := by
  obtain ⟨start, stop, v⟩ := m
  cases field with
  | some name => cases hbare
  | none =>
    cases v with
    | record fields => cases hbare
    | _ => exact h hbare

theorem Collected.push {ps : Parts} (h : ps.Collected) (field : Option String)
    (capture : Capture) {m : Matched} (hm : ps.cursor ≤ m.stop) :
    (ps.push field capture m).Collected where
  nodup := push_nodup h.nodup field capture m
  bare := push_bare h.bare
  took start hstart := by
    rw [push_start] at hstart
    rw [push_cursor]
    split at hstart
    · rename_i hnew
      obtain ⟨-, hconsumed⟩ := Bool.and_eq_true_iff.1 hnew
      rw [← Option.some.inj hstart]
      simpa [Matched.consumed] using hconsumed
    · have := h.took start hstart
      omega

theorem merge_push_start (ps qs : Parts) (field : Option String) (capture : Capture) (m : Matched) :
    ((ps.merge qs).push field capture m).start =
      ps.start.or (qs.push field capture m).start := by
  obtain ⟨cursor, start, fields, hasFields⟩ := ps
  rw [push_start, push_start]
  cases start with
  | none => rfl
  | some _ => rfl

/-- Parts are merged the same before a match is added and after it. -/
theorem merge_push (ps : Parts) {qs : Parts} (h : qs.fields.keys.Nodup) (field : Option String)
    (capture : Capture) (m : Matched) :
    (ps.merge qs).push field capture m = ps.merge (qs.push field capture m) := by
  have hstart := merge_push_start ps qs field capture m
  obtain ⟨start, stop, v⟩ := m
  cases field with
  | some name =>
    have hfields : ps.fields.extend (qs.fields.insert name (capture.apply v)) =
        (ps.fields.extend qs.fields).insert name (capture.apply v) :=
      Fields.extend_insert ps.fields _ h
    exact congr (congr (congrArg (mk stop) hstart) hfields.symm) (Bool.or_true _).symm
  | none =>
    cases v with
    | record fields =>
      have hfields := Fields.extend_insertAll ps.fields h fields.entries
      exact congr (congr (congrArg (mk stop) hstart) hfields.symm) (Bool.or_true _).symm
    | _ => exact congr (congr (congrArg (mk stop) hstart) rfl) rfl

/-- Adding the match of a whole sequence without a name merges its parts. -/
theorem push_finish (ps : Parts) {qs : Parts} (h : qs.Collected) (text : Text)
    (capture : Capture) : ps.push none capture (qs.finish text) = ps.merge qs := by
  obtain ⟨cursor, start, fields, hasFields⟩ := qs
  obtain ⟨-, hbare, htook⟩ := h
  have hstart : (if ps.start.isNone && decide (start.getD cursor < cursor) then
      some (start.getD cursor) else ps.start) = ps.start.or start := by
    cases ps.start with
    | some _ => rfl
    | none =>
      cases start with
      | none => simp
      | some a => simp [htook a rfl]
  cases hasFields with
  | true => simp only [Parts.push, finish, if_true, merge, Matched.consumed, hstart, Bool.or_true]
  | false =>
    obtain rfl := hbare rfl
    simp only [Parts.push, finish, Bool.false_eq_true, if_false, merge, Matched.consumed, hstart,
      Bool.or_false]
    rfl

end Parts

section Components

variable (trivia : Option Lexeme) (text : Text) (call : Call → Eval (Option Matched))

theorem matchComponents_append (cs cs' : List (Component LinkedPattern)) (mode : Mode)
    (ps : Parts) :
    matchComponents trivia text call (cs ++ cs') mode ps =
      matchComponents trivia text call cs mode ps >>= fun
        | some qs => matchComponents trivia text call cs' mode qs
        | none => pure none := by
  induction cs generalizing ps with
  | nil =>
    simp only [List.nil_append, matchComponents]
    rfl
  | cons c cs ih =>
    simp only [List.cons_append, matchComponents, bind_assoc]
    refine bind_congr fun found => ?_
    cases found with
    | none => rfl
    | some m => exact ih _

theorem matchComponents_merge (ps : Parts) (cs : List (Component LinkedPattern)) (mode : Mode)
    {qs : Parts} (h : qs.fields.keys.Nodup) :
    matchComponents trivia text call cs mode (ps.merge qs) =
      matchComponents trivia text call cs mode qs >>= fun found =>
        pure (found.map ps.merge) := by
  induction cs generalizing qs with
  | nil => rfl
  | cons c cs ih =>
    simp only [matchComponents, bind_assoc]
    refine bind_congr fun found => ?_
    cases found with
    | none => rfl
    | some m =>
      show matchComponents trivia text call cs mode ((ps.merge qs).push c.field c.capture m) = _
      rw [Parts.merge_push ps h]
      exact ih (Parts.push_nodup h c.field c.capture m)

end Components

/-- Steps that do alike from a sane memory, and leave it sane. -/
def Lifting.sane (text : Text) : Lifting Unit :=
  .tracking (fun m n => m = n ∧ Sane text m) fun _ _ offset h => ⟨by rw [h.1], h.2.note offset⟩

/-- From every sane memory two steps end alike, and leave the same sane memory. -/
abbrev Alike (text : Text) {α : Type} (x y : Eval α) : Prop :=
  (Lifting.sane text).rel (· = ·) (fun _ => x) y

namespace Alike

variable {text : Text} {α β : Type} {x y z : Eval α}

theorem iff : Alike text x y ↔ ∀ m, Sane text m →
    ∃ o m', x m = ending o m' ∧ y m = ending o m' ∧ Sane text m' := by
  constructor
  · intro h m hm
    obtain ⟨o, p, m', n', hx, hy, ho, rfl, hm'⟩ := h m m ⟨rfl, hm⟩
    obtain rfl := ho.eq
    exact ⟨o, m', hx, hy, hm'⟩
  · rintro h m _ ⟨rfl, hm⟩
    obtain ⟨o, m', hx, hy, hm'⟩ := h m hm
    exact ⟨o, o, m', m', hx, hy, .refl o, rfl, hm'⟩

theorem apply (h : Alike text x y) {m : Memory} (hm : Sane text m) : x m = y m := by
  obtain ⟨o, m', hx, hy, -⟩ := iff.1 h m hm
  rw [hx, hy]

theorem sane (h : Alike text x y) {m m' : Memory} (hm : Sane text m)
    {o : Except Failure α} (hx : x m = ending o m') : Sane text m' := by
  obtain ⟨p, n, hx', -, hn⟩ := iff.1 h m hm
  rw [hx] at hx'
  cases o <;> cases p <;> cases hx' <;> exact hn

theorem trans (h : Alike text x y) (h' : Alike text y z) : Alike text x z := by
  refine iff.2 fun m hm => ?_
  obtain ⟨o, m', hx, hy, hm'⟩ := iff.1 h m hm
  exact ⟨o, m', hx, (h'.apply hm).symm.trans hy, hm'⟩

theorem bind {f g : α → Eval β} (h : Alike text x y) (hf : ∀ a, Alike text (f a) (g a)) :
    Alike text (x >>= f) (y >>= g) :=
  (Lifting.sane text).bind h (by rintro a _ rfl; exact hf a)

theorem pure (a : α) : Alike text (Pure.pure a : Eval α) (Pure.pure a) :=
  (Lifting.sane text).pure rfl

end Alike

/-- One pattern comes from another by putting the components of a sequence in its place, any number
of times and anywhere, where it stands without a name in a sequence. -/
inductive Inlines : LinkedPattern → LinkedPattern → Prop where
  | refl (p : LinkedPattern) : Inlines p p
  | trans {p q r : LinkedPattern} : Inlines p q → Inlines q r → Inlines p r
  | here (front : List (Component LinkedPattern)) (capture : Capture)
      (inner back : List (Component LinkedPattern)) :
      Inlines (.sequence (front ++ ⟨none, capture, .sequence inner⟩ :: back))
        (.sequence (front ++ (inner ++ back)))
  | component {p q : LinkedPattern} (front : List (Component LinkedPattern))
      (field : Option String) (capture : Capture) (back : List (Component LinkedPattern)) :
      Inlines p q → Inlines (.sequence (front ++ ⟨field, capture, p⟩ :: back))
        (.sequence (front ++ ⟨field, capture, q⟩ :: back))
  | alternative {p q : LinkedPattern} (front back : List LinkedPattern) :
      Inlines p q → Inlines (.choice (front ++ p :: back)) (.choice (front ++ q :: back))
  | item {p q : LinkedPattern} (separator : Option LinkedPattern) (least : Nat)
      (trailing : Bool) : Inlines p q →
      Inlines (.repetition p separator least trailing) (.repetition q separator least trailing)
  | separator {p q : LinkedPattern} (item : LinkedPattern) (least : Nat) (trailing : Bool) :
      Inlines p q →
      Inlines (.repetition item (some p) least trailing) (.repetition item (some q) least trailing)
  | optional {p q : LinkedPattern} : Inlines p q → Inlines (.optional p) (.optional q)
  | ahead {p q : LinkedPattern} (negated : Bool) :
      Inlines p q → Inlines (.ahead negated p) (.ahead negated q)
  | trivia {p q : LinkedPattern} (skip : Bool) :
      Inlines p q → Inlines (.trivia skip p) (.trivia skip q)
  | silent {p q : LinkedPattern} : Inlines p q → Inlines (.silent p) (.silent q)

/-- Calls that do alike make every pattern match alike. -/
theorem pattern_called (trivia : Option Lexeme) {text : Text}
    {call call' : Call → Eval (Option Matched)} (hcalls : ∀ c, Alike text (call c) (call' c))
    (p : LinkedPattern) (mode : Mode) (offset : Nat) :
    Alike text (matchPattern trivia text call p mode offset)
      (matchPattern trivia text call' p mode offset) := by
  simp only [Alike, ← outcome_rel_eq] at hcalls ⊢
  exact matchPattern_rel Congruence.eq hcalls p (fun _ _ _ _ _ _ => rfl) mode offset

section Match

variable {s : Setting} {input : Input} {depth : Nat} {call : Call → Eval (Option Matched)}
  (hcall : Performing s input depth call)

theorem Mode.exists_lookaheads (mode : Mode) :
    ∃ lookaheads : Nat, mode = ⟨mode.trivia, decide (0 < lookaheads)⟩ := by
  obtain ⟨trivia, quiet⟩ := mode
  cases quiet with
  | false => exact ⟨0, rfl⟩
  | true => exact ⟨1, rfl⟩

include hcall

theorem call_alike (c : Call) : Alike input.text (call c) (call c) := by
  obtain ⟨rule, offset, trivia, quiet⟩ := c
  obtain ⟨lookaheads, hquiet⟩ := Mode.exists_lookaheads ⟨trivia, quiet⟩
  obtain rfl : quiet = decide (0 < lookaheads) := congrArg Mode.quiet hquiet
  refine Alike.iff.2 fun m hm => ?_
  obtain ⟨o, m', hx, hm', -⟩ := hcall lookaheads rule offset trivia m hm
  exact ⟨o, m', hx, hx, hm'⟩

theorem pattern_alike (p : LinkedPattern) (mode : Mode) (offset : Nat) :
    Alike input.text (matchPattern s.grammar.trivia input.text call p mode offset)
      (matchPattern s.grammar.trivia input.text call p mode offset) :=
  pattern_called _ (call_alike hcall) p mode offset

/-- A match that is found goes on from where it was tried. -/
theorem pattern_advances (p : LinkedPattern) (mode : Mode) (offset : Nat) {m m' : Memory}
    (hm : Sane input.text m) {found : Matched}
    (h : matchPattern s.grammar.trivia input.text call p mode offset m = ending (.ok (some found)) m') :
    offset ≤ found.stop ∧ Sane input.text m' := by
  obtain ⟨lookaheads, hmode⟩ := mode.exists_lookaheads
  obtain ⟨o, n, hx, hn, hadvances, -⟩ :=
    pattern_performs hcall lookaheads p mode.trivia offset m hm
  rw [matching, ← hmode, h] at hx
  cases o with
  | error e => cases hx
  | ok o =>
    cases hx
    exact ⟨(hadvances found rfl).1, hn⟩

/-- Parts stay collected from a fresh start on. -/
theorem components_collected (cs : List (Component LinkedPattern)) (mode : Mode) {ps qs : Parts}
    (hps : ps.Collected) {m m' : Memory} (hm : Sane input.text m)
    (h : matchComponents s.grammar.trivia input.text call cs mode ps m = ending (.ok (some qs)) m') :
    qs.Collected := by
  induction cs generalizing ps m with
  | nil =>
    cases h
    exact hps
  | cons c cs ih =>
    obtain ⟨field, capture, p⟩ := c
    simp only [matchComponents] at h
    obtain ⟨o, n, hx⟩ := exists_ending
      (matchPattern s.grammar.trivia input.text call p mode ps.cursor) m
    cases o with
    | error e =>
      rw [bind_failing hx] at h
      cases h
    | ok found =>
      rw [bind_ending hx] at h
      cases found with
      | none => cases h
      | some found =>
        obtain ⟨hstop, hn⟩ := pattern_advances hcall p mode ps.cursor hm hx
        exact ih (hps.push field capture hstop) hn h

theorem components_alike (cs : List (Component LinkedPattern)) (mode : Mode) (ps : Parts) :
    Alike input.text (matchComponents s.grammar.trivia input.text call cs mode ps)
      (matchComponents s.grammar.trivia input.text call cs mode ps) := by
  induction cs generalizing ps with
  | nil =>
    simp only [matchComponents]
    exact .pure _
  | cons c cs ih =>
    obtain ⟨field, capture, p⟩ := c
    simp only [matchComponents]
    refine (pattern_alike hcall p mode ps.cursor).bind fun found => ?_
    cases found with
    | none => exact .pure _
    | some m => exact ih _

/-- What is alike behind some components is alike with them. -/
theorem components_behind (front : List (Component LinkedPattern))
    {cs cs' : List (Component LinkedPattern)} {mode : Mode}
    (h : ∀ ps, Alike input.text (matchComponents s.grammar.trivia input.text call cs mode ps)
      (matchComponents s.grammar.trivia input.text call cs' mode ps)) (ps : Parts) :
    Alike input.text (matchComponents s.grammar.trivia input.text call (front ++ cs) mode ps)
      (matchComponents s.grammar.trivia input.text call (front ++ cs') mode ps) := by
  rw [matchComponents_append, matchComponents_append]
  refine (components_alike hcall front mode ps).bind fun found => ?_
  cases found with
  | none => exact .pure _
  | some qs => exact h qs

omit hcall in
theorem sequence_alike {cs cs' : List (Component LinkedPattern)} {mode : Mode}
    (h : ∀ ps, Alike input.text (matchComponents s.grammar.trivia input.text call cs mode ps)
      (matchComponents s.grammar.trivia input.text call cs' mode ps)) (offset : Nat) :
    Alike input.text
      (matchPattern s.grammar.trivia input.text call (.sequence cs) mode offset)
      (matchPattern s.grammar.trivia input.text call (.sequence cs') mode offset) := by
  simp only [matchPattern]
  exact (h _).bind fun found => .pure _

/-- The components of a sequence without a name match in its place as it does. -/
theorem components_inlined (capture : Capture) (inner back : List (Component LinkedPattern))
    (mode : Mode) (ps : Parts) :
    Alike input.text
      (matchComponents s.grammar.trivia input.text call
        (⟨none, capture, .sequence inner⟩ :: back) mode ps)
      (matchComponents s.grammar.trivia input.text call (inner ++ back) mode ps) := by
  refine Alike.iff.2 fun m hm => ?_
  obtain ⟨o, m', hinner⟩ := exists_ending
    (matchComponents s.grammar.trivia input.text call inner mode (.startingAt ps.cursor)) m
  have hsequence := map_ending hinner fun found => found.map (·.finish input.text)
  have hmerged := map_ending hinner fun found => found.map ps.merge
  rw [← matchComponents_merge _ _ _ ps inner mode (Parts.collected_startingAt _).nodup,
    ps.merge_startingAt] at hmerged
  rw [matchComponents_append]
  simp only [matchComponents, matchPattern]
  cases o with
  | error e =>
    have hm' := (components_alike hcall inner mode _).sane hm hinner
    exact ⟨_, m', bind_failing hsequence, bind_failing hmerged, hm'⟩
  | ok found =>
    have hm' := (components_alike hcall inner mode _).sane hm hinner
    cases found with
    | none => exact ⟨.ok none, m', bind_ending hsequence, bind_ending hmerged, hm'⟩
    | some qs =>
      have hqs := components_collected hcall inner mode (Parts.collected_startingAt _) hm hinner
      have hpush := ps.push_finish hqs input.text capture
      obtain ⟨o, m'', hback, -, hm''⟩ :=
        Alike.iff.1 (components_alike hcall back mode (ps.merge qs)) m' hm'
      refine ⟨o, m'', (bind_ending hsequence).trans ?_, (bind_ending hmerged).trans hback, hm''⟩
      simp only [Option.map_some, hpush]
      exact hback

theorem alternatives_alike (ps : List LinkedPattern) (mode : Mode) (offset : Nat) :
    Alike input.text (matchFirst s.grammar.trivia input.text call ps mode offset)
      (matchFirst s.grammar.trivia input.text call ps mode offset) := by
  induction ps with
  | nil =>
    simp only [matchFirst]
    exact .pure _
  | cons p ps ih =>
    simp only [matchFirst]
    refine (pattern_alike hcall p mode offset).bind fun found => ?_
    cases found with
    | none => exact ih
    | some m => exact .pure _

/-- One alternative may be put for another that matches alike. -/
theorem alternatives_replaced (front back : List LinkedPattern) {p q : LinkedPattern} {mode : Mode}
    {offset : Nat}
    (h : Alike input.text (matchPattern s.grammar.trivia input.text call p mode offset)
      (matchPattern s.grammar.trivia input.text call q mode offset)) :
    Alike input.text
      (matchFirst s.grammar.trivia input.text call (front ++ p :: back) mode offset)
      (matchFirst s.grammar.trivia input.text call (front ++ q :: back) mode offset) := by
  induction front with
  | nil =>
    simp only [List.nil_append, matchFirst]
    refine h.bind fun found => ?_
    cases found with
    | none => exact alternatives_alike hcall back mode offset
    | some m => exact .pure _
  | cons p ps ih =>
    simp only [List.cons_append, matchFirst]
    refine (pattern_alike hcall p mode offset).bind fun found => ?_
    cases found with
    | none => exact ih
    | some m => exact .pure _

omit hcall in
/-- Repetitions of items and separators that match alike. -/
theorem rounds_alike {item item' : Matcher} {separator separator' : Option Matcher}
    (hitem : ∀ offset, Alike input.text (item offset) (item' offset))
    (hseparator : SeparatorRel (Lifting.sane input.text) (· = ·) (fun _ => separator) separator')
    (trailing : Bool) (fuel : Nat) (rs : Rounds) (least offset : Nat) :
    Alike input.text
      (repeatFrom item separator trailing fuel rs >>= fun rs => pure (rs.finish offset least))
      (repeatFrom item' separator' trailing fuel rs >>= fun rs => pure (rs.finish offset least)) := by
  have hsame : Rounds.Rel (· = ·) rs rs := ⟨rfl, rfl, rfl, List.forall₂_refl _⟩
  have hitems : MatcherRel (Lifting.sane input.text) (· = ·) (fun _ => item) item' := by
    intro offset
    rw [outcome_rel_eq]
    exact hitem offset
  have hrounds := repeatFrom_rel hitems hseparator trailing fuel hsame
  simp only [Alike, ← outcome_rel_eq]
  exact (Lifting.sane input.text).bind hrounds fun a b hab =>
    (Lifting.sane input.text).pure (Rounds.rel_finish Congruence.eq hab offset least)

/-- Inlining sequences changes no match, wherever in a pattern it is done. -/
theorem Inlines.alike {p q : LinkedPattern} (h : Inlines p q) (mode : Mode) (offset : Nat) :
    Alike input.text (matchPattern s.grammar.trivia input.text call p mode offset)
      (matchPattern s.grammar.trivia input.text call q mode offset) := by
  have hmatcher : ∀ {x y : Matcher}, (∀ offset, Alike input.text (x offset) (y offset)) →
      MatcherRel (Lifting.sane input.text) (· = ·) (fun _ => x) y := by
    intro x y hxy offset
    rw [outcome_rel_eq]
    exact hxy offset
  induction h generalizing mode offset with
  | refl p => exact pattern_alike hcall p mode offset
  | trans _ _ ihp ihq => exact (ihp mode offset).trans (ihq mode offset)
  | here front capture inner back =>
    exact sequence_alike
      (components_behind hcall front (components_inlined hcall capture inner back mode)) offset
  | component front field capture back _ ih =>
    refine sequence_alike (components_behind hcall front fun ps => ?_) offset
    simp only [matchComponents]
    refine (ih mode ps.cursor).bind fun found => ?_
    cases found with
    | none => exact .pure _
    | some m => exact components_alike hcall back mode _
  | alternative front back _ ih =>
    simp only [matchPattern]
    exact alternatives_replaced hcall front back (ih mode offset)
  | item separator least trailing _ ih =>
    cases separator with
    | none =>
      simp only [matchPattern]
      exact rounds_alike (ih mode) .none trailing _ _ least offset
    | some separator =>
      simp only [matchPattern]
      exact rounds_alike (ih mode) (.some (hmatcher (pattern_alike hcall separator mode)))
        trailing _ _ least offset
  | separator item least trailing _ ih =>
    simp only [matchPattern]
    exact rounds_alike (pattern_alike hcall item mode) (.some (hmatcher (ih mode)))
      trailing _ _ least offset
  | optional _ ih =>
    simp only [matchPattern]
    exact (ih mode offset).bind fun found => .pure _
  | ahead negated _ ih =>
    simp only [matchPattern]
    exact (ih mode.beneathLookahead offset).bind fun found => .pure _
  | trivia skip _ ih =>
    simp only [matchPattern]
    exact ih (mode.skipping skip) offset
  | silent _ ih =>
    simp only [matchPattern]
    exact (ih mode offset).bind fun found => .pure _

end Match

/-- Rules that are the same but for sequences that were inlined. -/
def LinkedRule.Inlines (r r' : LinkedRule) : Prop :=
  ∃ p, Peg.Inlines r.pattern p ∧ r' = { r with pattern := p }

/-- Grammars that are the same but for sequences that were inlined. -/
structure Grammar.Inlines (g g' : Grammar) : Prop where
  rules (id : Nat) : Option.Rel LinkedRule.Inlines g.rules[id]? g'.rules[id]?
  index : g'.index = g.index
  trivia : g'.trivia = g.trivia

/-- The same setting for another grammar. -/
abbrev Setting.withGrammar (s : Setting) (g : Grammar) : Setting :=
  { s with grammar := g }

section Grammar

variable {s : Setting} {g : Grammar} (hg : s.grammar.Inlines g)

include hg

theorem Grammar.Inlines.ruleId? (name : String) : g.ruleId? name = s.grammar.ruleId? name := by
  rw [Grammar.ruleId?, hg.index]
  rfl

theorem reparse_inlined {call call' : Input → Call → Eval (Option Matched)}
    (hcalls : ∀ input c, Alike input.text (call input c) (call' input c)) (input : Input) :
    reparseWith s.grammar call input = reparseWith g call' input := by
  funext rule text offset
  cases hid : s.grammar.ruleId? rule with
  | none => rw [reparse_unknown _ _ _ _ _ _ hid,
      reparse_unknown _ _ _ _ _ _ ((hg.ruleId? rule).trans hid)]
  | some id =>
    obtain ⟨o, m, hx, hy, -⟩ := Alike.iff.1 (hcalls (input.within text offset)
      ⟨id, 0, false, false⟩) .empty (sane_empty _)
    rw [reparse_eq_verdict _ _ _ _ _ _ hid hx,
      reparse_eq_verdict _ _ _ _ _ _ ((hg.ruleId? rule).trans hid) hy]

/-- Rules match and are shaped alike if the calls they make end alike. -/
theorem evaluate_inlined {depth : Nat} {call call' : Input → Call → Eval (Option Matched)}
    (hcall : ∀ input, Performing s input depth (call input))
    (hcalls : ∀ input c, Alike input.text (call input c) (call' input c)) (input : Input)
    (c : Call) :
    Alike input.text (evaluate s call input c) (evaluate (s.withGrammar g) call' input c) := by
  have hrules := hg.rules c.rule
  cases hr : s.grammar.rules[c.rule]? with
  | none =>
    rw [hr] at hrules
    generalize hr' : g.rules[c.rule]? = found at hrules
    cases hrules with
    | none =>
      rw [evaluate_of_none hr, evaluate_of_none (s := s.withGrammar g) hr']
      exact .pure none
  | some r =>
    rw [hr] at hrules
    generalize hr' : g.rules[c.rule]? = found at hrules
    cases hrules with
    | some h =>
      obtain ⟨p, hp, rfl⟩ := h
      have htrivia : (s.withGrammar g).grammar.trivia = s.grammar.trivia := hg.trivia
      rw [evaluate_of_some hr, evaluate_of_some (s := s.withGrammar g) hr', htrivia]
      have hinlined := hp.alike (hcall input) ⟨c.trivia, c.quiet⟩ c.offset
      have hcalled := pattern_called s.grammar.trivia (hcalls input) p ⟨c.trivia, c.quiet⟩ c.offset
      refine (hinlined.trans hcalled).bind fun found => ?_
      cases found with
      | none => exact .pure none
      | some m =>
        have hconclude : conclude (s.withGrammar g) call' input { r with pattern := p } m =
            conclude s call input r m := by
          simp only [conclude, ← reparse_inlined hg hcalls input]
          rfl
        simp only [hconclude, conclude_eq]
        exact Alike.iff.2 fun m hm => ⟨_, m, map_ending (ofResult_apply _ m) _,
          map_ending (ofResult_apply _ m) _, hm⟩

/-- Calls end alike. -/
theorem invoke_inlined {room depth : Nat} (hroom : depth + room = s.limit) (input : Input)
    (c : Call) :
    Alike input.text (invoke s room input c) (invoke (s.withGrammar g) room input c) := by
  have hself := fun {depth room : Nat} (hroom : depth + room = s.limit) (input : Input) =>
    call_alike (invoke_performs hroom input)
  induction room generalizing depth input c with
  | zero => exact hself hroom input c
  | succ room ih =>
    have hnested : depth + 1 + room = s.limit := by omega
    have hevaluate := evaluate_inlined hg (invoke_performs hnested) (ih hnested) input c
    refine Alike.iff.2 fun m hm => ?_
    cases hmemo : m.memo[c]? with
    | some outcome => exact ⟨_, m, invoke_hit hmemo _, invoke_hit hmemo _, hm⟩
    | none =>
      obtain ⟨o, m', hx, hy, -⟩ := Alike.iff.1 hevaluate m hm
      have hmiss := invoke_miss hmemo hx
      exact ⟨o, _, hmiss, invoke_miss hmemo hy, (hself hroom input c).sane hm hmiss⟩

/-- A run ends alike and leaves its session alike. -/
theorem run_inlined {session : Session} (hsession : session.setting = s)
    (hm : Sane session.input.text session.memory) (rule : String) (trivia : Bool) :
    Session.run { session with setting := s.withGrammar g } rule trivia =
      ((session.run rule trivia).1,
        { (session.run rule trivia).2 with setting := s.withGrammar g }) := by
  subst hsession
  obtain ⟨s, input, m⟩ := session
  cases hid : s.grammar.ruleId? rule with
  | none =>
    have hx := Session.run_eq (s := ⟨s, input, m⟩) (runWith_unknown hid _ input trivia m)
    have hy := Session.run_eq (s := ⟨s.withGrammar g, input, m⟩)
      (runWith_unknown ((hg.ruleId? rule).trans hid) _ input trivia m)
    rw [hx]
    exact hy
  | some id =>
    obtain ⟨o, m', hcall, hcall', -⟩ := Alike.iff.1
      (invoke_inlined hg (Nat.zero_add s.limit) input ⟨id, 0, trivia, false⟩) m hm
    have hx := Session.run_eq (s := ⟨s, input, m⟩) (runWith_eq hid hcall)
    have hy := Session.run_eq (s := ⟨s.withGrammar g, input, m⟩)
      (runWith_eq ((hg.ruleId? rule).trans hid) hcall')
    rw [hx]
    exact hy

/-- Some runs end alike and leave their session alike. -/
theorem runs_inlined {session : Session} (hsession : session.setting = s)
    (hm : Sane session.input.text session.memory) (runs : List (String × Bool)) :
    Session.results { session with setting := s.withGrammar g } runs = session.results runs ∧
    Session.after Session.run { session with setting := s.withGrammar g } runs =
      { session.after Session.run runs with setting := s.withGrammar g } := by
  induction runs generalizing session with
  | nil => exact ⟨rfl, rfl⟩
  | cons start runs ih =>
    obtain ⟨rule, trivia⟩ := start
    have hrun := run_inlined hg hsession hm rule trivia
    obtain ⟨v, m, hv, hsane, -⟩ := Session.run_exec hm rule trivia
    rw [hv] at hrun
    let next : Session := { session with memory := m }
    have hnext : next.setting = s := hsession
    obtain ⟨hresults, hafter⟩ := ih hnext hsane
    constructor
    · simp only [Session.results, hrun, hv]
      exact congrArg (List.cons (v, m.furthest)) hresults
    · simp only [Session.after, List.foldl_cons, hrun, hv]
      exact hafter

end Grammar

/-- Where a sequence stands without a name in another, its components may be put in its place: runs
over the grammars with it and without it have the same results and understand the text equally far.
And every match of a pattern in which sequences were inlined has the same extent, the same value and
the same failure, and leaves the same memory, whatever was remembered before. -/
theorem inlining_changes_nothing {s : Setting} {g : Grammar} (hg : s.grammar.Inlines g)
    (input : Input) (runs : List (String × Bool)) :
    let session := (Session.start s input).after Session.run runs
    let inlined := (Session.start (s.withGrammar g) input).after Session.run runs
    (Session.start (s.withGrammar g) input).results runs = (Session.start s input).results runs ∧
    inlined.memory = session.memory ∧ Sane input.text session.memory ∧
    ∀ p q, Inlines p q → ∀ depth room, depth + room = s.limit →
      ∀ m, Sane input.text m → ∀ mode offset,
        matchPattern g.trivia input.text (invoke (s.withGrammar g) room input) q mode offset m =
          matchPattern s.grammar.trivia input.text (invoke s room input) p mode offset m := by
  intro session inlined
  have hstart : (Session.start s input).setting = s := rfl
  obtain ⟨hresults, hafter⟩ := runs_inlined hg hstart (sane_empty input.text) runs
  obtain ⟨-, -, hsane⟩ := sane_after (Session.start s input) (sane_empty input.text) runs
  have hmemory : inlined.memory = session.memory :=
    (congrArg Session.memory hafter).trans rfl
  refine ⟨hresults, hmemory, hsane, ?_⟩
  intro p q hpq depth room hroom m hm mode offset
  have hinlined := hpq.alike (invoke_performs hroom input) mode offset
  have hcalled :=
    pattern_called s.grammar.trivia (invoke_inlined hg hroom input) q mode offset
  rw [hg.trivia]
  exact ((hinlined.trans hcalled).apply hm).symm

/-- A rule for three letters, of which the last has the name of the first. -/
def threeLetters (tail : List (Component LinkedPattern)) : Grammar where
  rules := #[.ofPattern "Letters" (.sequence (⟨some "first", .value, letter 'x'⟩ :: tail))]
  index := (∅ : Std.HashMap String Nat).insert "Letters" 0
  trivia := none

def lastLetters : List (Component LinkedPattern) :=
  [⟨some "second", .list, .optional (letter 'y')⟩, ⟨some "first", .flag, letter 'z'⟩]

/-- A name that comes again within the inner sequence keeps its place in the outer one. -/
theorem inlining_changes_nothing_letters :
    let s : Setting := ⟨threeLetters [⟨none, .value, .sequence lastLetters⟩],
      .ofText (Text.ofString "xyz"), .off, 2⟩
    let g := threeLetters lastLetters
    let input : Input := ⟨Text.ofString "xyz", 0⟩
    s.grammar.Inlines g ∧
    (Session.start s input).results [("Letters", false)] =
      [(.ok (.node (.ofEntries "Letters" [("first", .bool false), ("second", .list [])])), 0)] := by
  intro s g input
  have hinlines : s.grammar.Inlines g := by
    refine ⟨fun id => ?_, rfl, rfl⟩
    cases id with
    | zero => exact .some ⟨_, .here [⟨some "first", .value, letter 'x'⟩] .value lastLetters [], rfl⟩
    | succ id => exact .none
  have hid : g.ruleId? "Letters" = some 0 := by
    simp [Grammar.ruleId?, g, threeLetters]
  have hevaluate : evaluate (s.withGrammar g) (invoke (s.withGrammar g) 1) input
      ⟨0, 0, false, false⟩ .empty = ending (.ok (some ⟨0, 3, .node
        (.ofEntries "Letters" [("first", .bool false), ("second", .list [])])⟩)) .empty := rfl
  have hcall := invoke_miss (by simp [Memory.empty]) hevaluate
  obtain ⟨hresults, -⟩ := inlining_changes_nothing hinlines input [("Letters", false)]
  refine ⟨hinlines, hresults.symm.trans ?_⟩
  simp only [Session.results,
    Session.run_eq (s := Session.start (s.withGrammar g) input) (runWith_eq hid hcall)]
  rfl

end PhpSyntax.Peg
