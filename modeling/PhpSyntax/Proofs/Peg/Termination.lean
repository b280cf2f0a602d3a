import PhpSyntax.Proofs.Peg.Execution

namespace PhpSyntax.Peg

/-- A match that was tried at `offset` goes on from there, and not from behind the text. -/
def Advances (text : Text) (offset stop : Nat) : Prop :=
  offset ≤ stop ∧ (stop = offset ∨ offset ≤ text.size)

namespace Advances

variable {text : Text} {offset mid stop : Nat}

theorem refl (text : Text) (offset : Nat) : Advances text offset offset :=
  ⟨Nat.le_refl _, .inl rfl⟩

theorem trans (h : Advances text offset mid) (h' : Advances text mid stop) :
    Advances text offset stop := by
  obtain ⟨hle, hend⟩ := h
  obtain ⟨hle', hend'⟩ := h'
  exact ⟨hle.trans hle', by omega⟩

theorem of_le (h : offset ≤ stop) (hsize : offset ≤ text.size) : Advances text offset stop :=
  ⟨h, .inr hsize⟩

end Advances

/-- Every match that is remembered goes on from where its call began. -/
def Sane (text : Text) (m : Memory) : Prop :=
  ∀ (c : Call) (found : Matched), m.memo[c]? = some (some found) →
    Advances text c.offset found.stop

theorem sane_empty (text : Text) : Sane text .empty := by
  intro c found h
  simp [Memory.empty] at h

theorem Sane.note {text : Text} {m : Memory} (h : Sane text m) (offset : Nat) :
    Sane text (m.note offset) := by
  intro c found hc
  rw [m.note_memo offset] at hc
  exact h c found hc

theorem Sane.storing {text : Text} {m : Memory} (h : Sane text m) {c : Call}
    {o : Except Failure (Option Matched)}
    (ho : ∀ found, o = .ok (some found) → Advances text c.offset found.stop) :
    Sane text (m.storing c o) := by
  cases o with
  | error e => exact h
  | ok outcome =>
    intro d found hd
    rw [Memory.storing, Std.HashMap.getElem?_insert] at hd
    split at hd
    · rename_i hcd
      obtain rfl : c = d := eq_of_beq hcd
      exact ho found (congrArg Except.ok (Option.some.inj hd))
    · exact h d found hd

theorem Text.le_size_of_after? {t : Text} {offset : Nat} {cs : List Char}
    (h : t.after? offset = some cs) : offset ≤ t.size := by
  rw [Text.after?, Array.getD_eq_getD_getElem?] at h
  by_contra hlt
  rw [Array.getElem?_eq_none (by simp only [Text.size] at hlt; omega)] at h
  cases h

section Trivia

variable {text : Text}

theorem skipFrom_skips (t : Lexeme) (fuel : Nat) {offset : Nat}
    (hfuel : text.size < offset + fuel) :
    Skips t text offset (skipFrom t text fuel offset) ∧
      Advances text offset (skipFrom t text fuel offset) := by
  induction fuel generalizing offset with
  | zero =>
    refine ⟨.stop fun n h => ?_, .refl text offset⟩
    obtain ⟨cs, hcs, -⟩ := Option.bind_eq_some_iff.1 h
    have := Text.le_size_of_after? hcs
    omega
  | succ fuel ih =>
    rw [skipFrom]
    split
    · rename_i n h
      obtain ⟨hskips, hadvances⟩ := ih (show text.size < offset + (n + 1) + fuel by omega)
      obtain ⟨cs, hcs, -⟩ := Option.bind_eq_some_iff.1 h
      refine ⟨.more h hskips, .of_le ?_ (Text.le_size_of_after? hcs)⟩
      exact Nat.le_trans (Nat.le_add_right _ _) hadvances.1
    · rename_i h
      exact ⟨.stop h, .refl text offset⟩

theorem leading_leadsTo (trivia : Option Lexeme) (mode : Mode) (offset : Nat) :
    LeadsTo trivia text mode.trivia offset (leading trivia text mode offset) ∧
      Advances text offset (leading trivia text mode offset) := by
  obtain ⟨skip, quiet⟩ := mode
  cases skip with
  | false => exact ⟨.raw, .refl text offset⟩
  | true =>
    cases trivia with
    | none => exact ⟨.bare rfl, .refl text offset⟩
    | some t =>
      obtain ⟨hskips, hadvances⟩ := skipFrom_skips t (text.size + 1)
        (show text.size < offset + (text.size + 1) by omega)
      exact ⟨.skipped rfl hskips, hadvances⟩

end Trivia

section Steps

variable {α β : Type} {x : Eval α} {f : α → Eval β} {m m' : Memory}

theorem bind_ending {a : α} (hx : x m = ending (.ok a) m') : (x >>= f) m = f a m' := by
  simp only [bind, EStateM.bind, hx, ending]

theorem bind_failing {e : Failure} (hx : x m = ending (.error e) m') :
    (x >>= f) m = ending (.error e) m' := by
  simp only [bind, EStateM.bind, hx, ending]

theorem map_ending {o : Except Failure α} (hx : x m = ending o m') (f : α → β) :
    (x >>= fun a => pure (f a)) m = ending (o.map f) m' := by
  cases o with
  | ok a => exact bind_ending hx
  | error e => exact bind_failing hx

end Steps

/-- A step does a job: the job has an execution with the outcome of the step. -/
def Performs (s : Setting) (input : Input) (depth lookaheads : Nat) (x : Eval (Option Matched))
    (job : Job) (offset : Nat) : Prop :=
  ∀ m, Sane input.text m → ∃ o m', x m = ending o m' ∧ Sane input.text m' ∧
    (∀ found, o = .ok (some found) → Advances input.text offset found.stop) ∧
    Exec s (· ≤ s.limit) input job ⟨m, depth, lookaheads⟩ o ⟨m', depth, lookaheads⟩

section Performs

variable {s : Setting} {input : Input} {depth lookaheads : Nat}

/-- What is found at a place is yielded, and that nothing is found is noted. -/
theorem Performs.settled (trivia : Bool) {offset start : Nat} {found : Option Matched}
    {x : Eval (Option Matched)} {job : Job}
    (hx : x = found.elim (miss ⟨trivia, decide (0 < lookaheads)⟩ start) fun m => pure (some m))
    (hfound : ∀ m, found = some m → Advances input.text offset m.stop)
    (hjob : ∀ σ : Progress,
      Exec s (· ≤ s.limit) input job σ (.ok found) (σ.settle start found)) :
    Performs s input depth lookaheads x job offset := by
  subst hx
  intro m hm
  have hexec := hjob ⟨m, depth, lookaheads⟩
  cases found with
  | some found => exact ⟨_, m, rfl, hm, fun _ h => hfound _ (Except.ok.inj h), hexec⟩
  | none =>
    by_cases hquiet : 0 < lookaheads
    · refine ⟨.ok none, m, ?_, hm, nofun, ?_⟩
      · simp only [Option.elim, miss, hquiet, decide_true]
        rfl
      · simpa only [Progress.settle, hquiet, if_true] using hexec
    · refine ⟨.ok none, m.note start, ?_, hm.note start, nofun, ?_⟩
      · simp only [Option.elim, miss, hquiet, decide_false]
        rfl
      · simpa only [Progress.settle, hquiet, if_false] using hexec

theorem leaf_eq (mode : Mode) (start : Nat) (found : Option (Nat × Value)) :
    leaf mode start found =
      (matchedAt start found).elim (miss mode start) fun m => pure (some m) := by
  cases found <;> rfl

theorem matchedAt_advances {text : Text} {offset start : Nat} (h : Advances text offset start)
    {f : List Char → Option (Nat × Value)} {m : Matched}
    (hm : matchedAt start ((text.after? start).bind f) = some m) : Advances text offset m.stop := by
  obtain ⟨r, hr, rfl⟩ := Option.map_eq_some_iff.1 hm
  obtain ⟨cs, hcs, -⟩ := Option.bind_eq_some_iff.1 hr
  exact h.trans (.of_le (Nat.le_add_right _ _) (Text.le_size_of_after? hcs))

section Match

variable {call : Call → Eval (Option Matched)}

/-- The step that matches a pattern. -/
abbrev matching (s : Setting) (input : Input) (call : Call → Eval (Option Matched))
    (lookaheads : Nat) (p : LinkedPattern) (trivia : Bool) : Matcher :=
  matchPattern s.grammar.trivia input.text call p ⟨trivia, decide (0 < lookaheads)⟩

/-- The matcher of separators does their job, and there is one where there are separators. -/
def Separates (s : Setting) (input : Input) (depth lookaheads : Nat) (r : Repetition)
    (separator : Option Matcher) : Prop :=
  r.separator = none ∧ separator = none ∨ ∃ p x, r.separator = some p ∧ separator = some x ∧
    ∀ offset, Performs s input depth lookaheads (x offset) (.pattern p r.trivia offset) offset

/-- How many more items there can be, and the round without one. -/
def Rounds.left (text : Text) (rs : Rounds) : Nat :=
  (if rs.items = [] then 1 else 0) + (text.size + 1 - rs.cursor)

theorem startingAt_left (text : Text) (offset : Nat) :
    (Rounds.startingAt offset).left text < text.size + 3 := by
  simp only [Rounds.left, Rounds.startingAt, if_true]
  omega

namespace Repetition

variable (r : Repetition) (item : Matcher) (separator : Option Matcher) (fuel : Nat) (rs : Rounds)

/-- A round whose item begins at an offset, and those behind it. -/
def roundAt (next : Nat) : Eval Rounds := do
  match ← item next with
  | none => return r.trailed rs next
  | some m =>
    if m.stop = rs.cursor then
      if rs.items.isEmpty && separator.isSome then
        repeatFrom item separator r.trailing fuel (rs.push m true)
      else return rs
    else repeatFrom item separator r.trailing fuel (rs.push m rs.emptyFirst)

theorem repeatFrom_succ :
    repeatFrom item separator r.trailing (fuel + 1) rs = nextItem separator rs >>= fun
      | none => pure rs
      | some next => r.roundAt item separator fuel rs next :=
  rfl

/-- The match of the rounds that a step goes through. -/
def closing (x : Eval Rounds) : Eval (Option Matched) :=
  x >>= fun rs => pure (rs.finish r.offset r.least)

end Repetition

theorem Rounds.finish_stop {rs : Rounds} {offset least : Nat} {m : Matched}
    (h : rs.finish offset least = some m) : m.stop = rs.cursor := by
  obtain ⟨-, h⟩ := Option.ite_none_left_eq_some.1 h
  rw [← Option.some.inj h]

section Rounds

variable {r : Repetition} {item : Matcher} {separator : Option Matcher}
  (hitem : ∀ offset,
    Performs s input depth lookaheads (item offset) (.pattern r.item r.trivia offset) offset)
  (hseparator : Separates s input depth lookaheads r separator)

theorem Separates.isSome (h : Separates s input depth lookaheads r separator) :
    separator.isSome = r.separator.isSome := by
  obtain ⟨hr, rfl⟩ | ⟨p, x, hr, rfl, -⟩ := h <;> rw [hr] <;> rfl

theorem finish_advances {rs : Rounds} (hrs : Advances input.text r.offset rs.cursor)
    (found : Matched) (h : r.finish rs = .ok (some found)) :
    Advances input.text r.offset found.stop := by
  rw [Rounds.finish_stop (Except.ok.inj h)]
  exact hrs

theorem left_pushed {fuel : Nat} {rs : Rounds} {m : Matched}
    (hm : Advances input.text rs.cursor m.stop) (hends : ¬r.Ends rs m)
    (hfuel : rs.left input.text < fuel + 1) : (rs.pushed m).left input.text < fuel := by
  obtain ⟨hle, hstop⟩ := hm
  simp only [Rounds.left, Rounds.pushed, Rounds.push, reduceCtorEq, if_false] at hfuel ⊢
  by_cases hi : rs.items = []
  · rw [if_pos hi] at hfuel
    omega
  · have hne : m.stop ≠ rs.cursor := fun h => hends ⟨h, .inl hi⟩
    omega

include hitem hseparator in
/-- A round behind its separator, given how the rounds behind it go on. -/
theorem roundAt_performs {fuel : Nat} {rs : Rounds} (next : Nat)
    (hrs : Advances input.text r.offset rs.cursor) (hnext : Advances input.text rs.cursor next)
    (hfuel : rs.left input.text < fuel + 1)
    (ih : ∀ rs : Rounds, Advances input.text r.offset rs.cursor → rs.left input.text < fuel →
      Performs s input depth lookaheads
        (r.closing (repeatFrom item separator r.trailing fuel rs)) (.rounds r rs) r.offset) :
    Performs s input depth lookaheads (r.closing (r.roundAt item separator fuel rs next))
      (.item r rs next) r.offset := by
  intro m hm
  obtain ⟨o, m', hx, hm', hadvances, hexec⟩ := hitem next m hm
  have hclosing : ∀ {α : Type} {x : Eval α} {k : α → Eval Rounds},
      r.closing (x >>= k) = x >>= fun a => r.closing (k a) := by
    intro α x k
    simp only [Repetition.closing, bind_assoc]
  rw [Repetition.roundAt, hclosing]
  cases o with
  | error e => exact ⟨_, m', bind_failing hx, hm', nofun, .itemFailed hexec⟩
  | ok found =>
    cases found with
    | none =>
      refine ⟨_, m', (bind_ending hx).trans rfl, hm', finish_advances ?_, .itemMissing hexec⟩
      simp only [Repetition.trailed]
      split
      · exact hrs.trans hnext
      · exact hrs
    | some found =>
      have hfound := hnext.trans (hadvances found rfl)
      by_cases hends : r.Ends rs found
      · refine ⟨_, m', (bind_ending hx).trans ?_, hm', finish_advances hrs, .itemEmpty hexec hends⟩
        obtain ⟨hstop, hfirst⟩ := hends
        have hlast : (rs.items.isEmpty && separator.isSome) = false := by
          rw [hseparator.isSome, Bool.and_eq_false_iff]
          exact hfirst.imp (fun h => List.isEmpty_eq_false_iff.2 h) fun h => by rw [h]; rfl
        simp only [hstop, if_true, hlast, Bool.false_eq_true, if_false]
        rfl
      · obtain ⟨o, m'', hy, hm'', hadvances', hexec'⟩ :=
          ih (rs.pushed found) (hrs.trans hfound) (left_pushed hfound hends hfuel) m' hm'
        refine ⟨o, m'', (bind_ending hx).trans (Eq.trans ?_ hy), hm'', hadvances',
          .itemMatched hexec hends hexec'⟩
        by_cases hstop : found.stop = rs.cursor
        · have hfirst : (rs.items.isEmpty && separator.isSome) = true := by
            rw [hseparator.isSome, Bool.and_eq_true, List.isEmpty_iff]
            simp only [Repetition.Ends, hstop, true_and, not_or, not_not] at hends
            exact ⟨hends.1, Option.isSome_iff_ne_none.2 hends.2⟩
          simp only [Rounds.pushed, hstop, if_true, hfirst, beq_self_eq_true, Bool.or_true]
        · simp only [Rounds.pushed, hstop, if_false, beq_false_of_ne hstop, Bool.or_false]

include hitem hseparator in
theorem rounds_performs (fuel : Nat) {rs : Rounds} (hrs : Advances input.text r.offset rs.cursor)
    (hfuel : rs.left input.text < fuel) :
    Performs s input depth lookaheads (r.closing (repeatFrom item separator r.trailing fuel rs))
      (.rounds r rs) r.offset := by
  induction fuel generalizing rs with
  | zero => exact absurd hfuel (Nat.not_lt_zero _)
  | succ fuel ih =>
    have hround := fun next hnext =>
      roundAt_performs hitem hseparator next hrs hnext hfuel fun _ => ih
    intro m hm
    have hclosing : ∀ {next : Option Nat} {m' : Memory},
        nextItem separator rs m = ending (.ok next) m' →
        r.closing (repeatFrom item separator r.trailing (fuel + 1) rs) m =
          r.closing (next.elim (pure rs) (r.roundAt item separator fuel rs)) m' := by
      intro next m' hnext
      rw [Repetition.closing, Repetition.repeatFrom_succ, bind_assoc, bind_ending hnext]
      cases next <;> rfl
    by_cases hlead : r.Leads rs
    · have hnext : nextItem separator rs m = ending (.ok (some rs.cursor)) m := by
        obtain ⟨-, rfl⟩ | ⟨p, x, hr, rfl, -⟩ := hseparator
        · rfl
        · obtain hnone | hi := hlead
          · cases hnone.symm.trans hr
          · simp only [nextItem, hi, List.isEmpty_nil, if_true]
            rfl
      obtain ⟨o, m', hx, hm', hadvances, hexec⟩ := hround rs.cursor (.refl _ _) m hm
      exact ⟨o, m', (hclosing hnext).trans hx, hm', hadvances, .leading hlead hexec⟩
    · obtain ⟨hr, -⟩ | ⟨p, x, hr, rfl, hp⟩ := hseparator
      · exact absurd (.inl hr) hlead
      have hi : rs.items ≠ [] := fun hi => hlead (.inr hi)
      obtain ⟨o, m', hx, hm', hadvances, hexec⟩ := hp rs.cursor m hm
      have hnext : nextItem (some x) rs m = ending (o.map fun found => found.map (·.stop)) m' := by
        simp only [nextItem, List.isEmpty_eq_false_iff.2 hi, Bool.false_eq_true, if_false]
        exact map_ending hx _
      cases o with
      | error e =>
        refine ⟨.error e, m', ?_, hm', (fun _ h => by cases h), .separatorFailed hr hi hexec⟩
        rw [Repetition.closing, Repetition.repeatFrom_succ, bind_assoc]
        exact bind_failing hnext
      | ok found =>
        cases found with
        | none =>
          exact ⟨_, m', (hclosing hnext).trans rfl, hm', finish_advances hrs,
            .separatorMissing hr hi hexec⟩
        | some found =>
          obtain ⟨o, m'', hy, hm'', hadvances', hexec'⟩ :=
            hround found.stop (hadvances found rfl) m' hm'
          exact ⟨o, m'', (hclosing hnext).trans hy, hm'', hadvances',
            .separated hr hi hexec hexec'⟩

end Rounds

section Pattern

variable {call : Call → Eval (Option Matched)}

/-- The match of the parts that a step goes through. -/
def finishing (input : Input) (x : Eval (Option Parts)) : Eval (Option Matched) :=
  x >>= fun ps => pure (ps.map (·.finish input.text))

theorem Parts.finish_stop (text : Text) (ps : Parts) : (ps.finish text).stop = ps.cursor :=
  rfl

theorem Performs.map {x : Eval (Option Matched)} {job job' : Job} {offset : Nat}
    {f : Option Matched → Option Matched} (h : Performs s input depth lookaheads x job offset)
    (hf : ∀ found, (∀ m, found = some m → Advances input.text offset m.stop) →
      ∀ m, f found = some m → Advances input.text offset m.stop)
    (hjob : ∀ {σ σ' : Progress} {o : Except Failure (Option Matched)},
      Exec s (· ≤ s.limit) input job σ o σ' → Exec s (· ≤ s.limit) input job' σ (o.map f) σ') :
    Performs s input depth lookaheads (x >>= fun found => pure (f found)) job' offset := by
  intro m hm
  obtain ⟨o, m', hx, hm', hadvances, hexec⟩ := h m hm
  refine ⟨o.map f, m', map_ending hx f, hm', ?_, hjob hexec⟩
  cases o with
  | error e => nofun
  | ok found =>
    exact fun m h => hf found (fun m hm => hadvances m (congrArg _ hm)) m (Except.ok.inj h)

theorem Performs.same {x : Eval (Option Matched)} {job job' : Job} {offset : Nat}
    (h : Performs s input depth lookaheads x job offset)
    (hjob : ∀ {σ σ' : Progress} {o : Except Failure (Option Matched)},
      Exec s (· ≤ s.limit) input job σ o σ' → Exec s (· ≤ s.limit) input job' σ o σ') :
    Performs s input depth lookaheads x job' offset := by
  intro m hm
  obtain ⟨o, m', hx, hm', hadvances, hexec⟩ := h m hm
  exact ⟨o, m', hx, hm', hadvances, hjob hexec⟩

theorem leading_settled (lookaheads : Nat) (trivia : Bool) (offset : Nat) :
    LeadsTo s.grammar.trivia input.text trivia offset
        (leading s.grammar.trivia input.text ⟨trivia, decide (0 < lookaheads)⟩ offset) ∧
      Advances input.text offset
        (leading s.grammar.trivia input.text ⟨trivia, decide (0 < lookaheads)⟩ offset) :=
  leading_leadsTo s.grammar.trivia ⟨trivia, decide (0 < lookaheads)⟩ offset

/-- Calls perform beneath any number of lookaheads. -/
def Performing (s : Setting) (input : Input) (depth : Nat) (call : Call → Eval (Option Matched)) :
    Prop :=
  ∀ lookaheads rule offset trivia, Performs s input depth lookaheads
    (call ⟨rule, offset, trivia, decide (0 < lookaheads)⟩) (.call rule offset trivia) offset

mutual

theorem pattern_performs (hcall : Performing s input depth call)
    (lookaheads : Nat) : (p : LinkedPattern) → (trivia : Bool) →
    (offset : Nat) → Performs s input depth lookaheads
      (matching s input call lookaheads p trivia offset) (.pattern p trivia offset) offset
  | .terminal t, trivia, offset => by
    obtain ⟨hleads, hadvances⟩ := leading_settled lookaheads trivia offset
    simp only [matching, matchPattern, leaf_eq]
    exact .settled trivia rfl (fun m hm => matchedAt_advances hadvances hm) fun σ =>
      .terminal hleads
  | .scan sc, trivia, offset => by
    obtain ⟨hleads, hadvances⟩ := leading_settled lookaheads trivia offset
    simp only [matching, matchPattern, leaf_eq]
    exact .settled trivia rfl (fun m hm => matchedAt_advances hadvances hm) fun σ => .scan hleads
  | .endOfInput, trivia, offset => by
    obtain ⟨hleads, hadvances⟩ := leading_settled lookaheads trivia offset
    simp only [matching, matchPattern]
    refine .settled trivia ?_ ?_ fun σ => .endOfInput hleads
    · simp only [endFound]
      split <;> rfl
    · intro m hm
      obtain ⟨-, hm⟩ := Option.ite_none_right_eq_some.1 hm
      rw [← Option.some.inj hm]
      exact hadvances
  | .rule r, trivia, offset => by
    simp only [matching, matchPattern]
    exact (hcall lookaheads r.id offset trivia).same .rule
  | .sequence components, trivia, offset => by
    simp only [matching, matchPattern]
    exact (components_performs hcall lookaheads components trivia
      (.startingAt offset)).same .sequence
  | .choice alternatives, trivia, offset => by
    simp only [matching, matchPattern]
    exact (alternatives_performs hcall lookaheads alternatives trivia offset).same .choice
  | .repetition item none least trailing, trivia, offset => by
    simp only [matching, matchPattern]
    exact (rounds_performs (r := ⟨item, none, least, trailing, trivia, offset⟩)
      (pattern_performs hcall lookaheads item trivia) (.inl ⟨rfl, rfl⟩) _ (.refl _ _)
      (startingAt_left _ _)).same .repetition
  | .repetition item (some separator) least trailing, trivia, offset => by
    simp only [matching, matchPattern]
    exact (rounds_performs (r := ⟨item, some separator, least, trailing, trivia, offset⟩)
      (pattern_performs hcall lookaheads item trivia)
      (.inr ⟨_, _, rfl, rfl, pattern_performs hcall lookaheads separator trivia⟩) _ (.refl _ _)
      (startingAt_left _ _)).same .repetition
  | .optional p, trivia, offset => by
    simp only [matching, matchPattern]
    refine (pattern_performs hcall lookaheads p trivia offset).map ?_ .optional
    rintro found hfound m ⟨rfl⟩
    cases found with
    | none => exact .refl _ _
    | some m => exact hfound m rfl
  | .ahead negated p, trivia, offset => by
    intro m hm
    obtain ⟨o, m', hx, hm', -, hexec⟩ :=
      pattern_performs hcall (lookaheads + 1) p trivia offset m hm
    have hx : matchPattern s.grammar.trivia input.text call p ⟨trivia, true⟩ offset m =
        ending o m' := by
      simpa only [matching, Nat.zero_lt_succ, decide_true] using hx
    simp only [matching, matchPattern]
    have hahead : Exec s (· ≤ s.limit) input (.pattern (.ahead negated p) trivia offset)
        ⟨m, depth, lookaheads⟩ _ (Progress.lookBack ⟨m', depth, lookaheads + 1⟩) := .ahead hexec
    refine ⟨_, m', map_ending hx _, hm', ?_, hahead⟩
    cases o with
    | error e => nofun
    | ok found =>
      intro m h
      obtain ⟨-, h⟩ := Option.ite_none_right_eq_some.1 (Except.ok.inj h)
      rw [← Option.some.inj h]
      exact .refl _ _
  | .trivia skip p, trivia, offset => by
    simp only [matching, matchPattern]
    exact (pattern_performs hcall lookaheads p skip offset).same .trivia
  | .silent p, trivia, offset => by
    simp only [matching, matchPattern]
    refine (pattern_performs hcall lookaheads p trivia offset).map ?_ .silent
    rintro found hfound m hm
    obtain ⟨m, rfl, rfl⟩ := Option.map_eq_some_iff.1 hm
    exact hfound m rfl

theorem components_performs (hcall : Performing s input depth call)
    (lookaheads : Nat) : (cs : List (Component LinkedPattern)) →
    (trivia : Bool) → (ps : Parts) → Performs s input depth lookaheads
      (finishing input (matchComponents s.grammar.trivia input.text call cs
        ⟨trivia, decide (0 < lookaheads)⟩ ps)) (.components cs trivia ps) ps.cursor
  | [], trivia, ps => by
    intro m hm
    refine ⟨_, m, rfl, hm, ?_, .allParts⟩
    rintro _ ⟨rfl⟩
    exact .refl _ _
  | ⟨field, capture, p⟩ :: rest, trivia, ps => by
    intro m hm
    obtain ⟨o, m', hx, hm', hadvances, hexec⟩ :=
      pattern_performs hcall lookaheads p trivia ps.cursor m hm
    simp only [finishing, matchComponents, bind_assoc]
    cases o with
    | error e => exact ⟨.error e, m', bind_failing hx, hm', nofun, .partUnmatched hexec nofun⟩
    | ok found =>
      cases found with
      | none =>
        exact ⟨.ok none, m', (bind_ending hx).trans rfl, hm', nofun, .partUnmatched hexec nofun⟩
      | some found =>
        obtain ⟨o, m'', hy, hm'', hadvances', hexec'⟩ :=
          components_performs hcall lookaheads rest trivia (ps.push field capture found) m' hm'
        rw [Parts.push_cursor] at hadvances'
        exact ⟨o, m'', (bind_ending hx).trans hy, hm'',
          fun m h => (hadvances found rfl).trans (hadvances' m h), .partMatched hexec hexec'⟩

theorem alternatives_performs (hcall : Performing s input depth call)
    (lookaheads : Nat) : (ps : List LinkedPattern) → (trivia : Bool) →
    (offset : Nat) → Performs s input depth lookaheads
      (matchFirst s.grammar.trivia input.text call ps ⟨trivia, decide (0 < lookaheads)⟩ offset)
      (.alternatives ps trivia offset) offset
  | [], trivia, offset => by
    intro m hm
    simp only [matchFirst]
    exact ⟨.ok none, m, rfl, hm, nofun, .noAlternative⟩
  | p :: rest, trivia, offset => by
    intro m hm
    obtain ⟨o, m', hx, hm', hadvances, hexec⟩ :=
      pattern_performs hcall lookaheads p trivia offset m hm
    simp only [matchFirst]
    cases o with
    | error e => exact ⟨.error e, m', bind_failing hx, hm', nofun, .thisAlternative hexec nofun⟩
    | ok found =>
      cases found with
      | none =>
        obtain ⟨o, m'', hy, hm'', hadvances', hexec'⟩ :=
          alternatives_performs hcall lookaheads rest trivia offset m' hm'
        exact ⟨o, m'', (bind_ending hx).trans hy, hm'', hadvances',
          .nextAlternative hexec hexec'⟩
      | some found =>
        exact ⟨_, m', (bind_ending hx).trans rfl, hm', hadvances, .thisAlternative hexec nofun⟩

end

end Pattern

end Match

section Rule

variable {call : Input → Call → Eval (Option Matched)}
  (hcall : ∀ input, Performing s input depth (call input))

include hcall

/-- Every nested parse has an execution that starts at the depth of the processor that asks for
it. -/
theorem reparse_performs (input : Input) :
    ∃ (outcomes : String → String → Nat → Except Failure (Option Matched))
      (ends : String → String → Nat → Progress),
      reparseWith s.grammar call input = answers s.grammar outcomes ∧
      ∀ name text offset id, s.grammar.ruleId? name = some id →
        Exec s (· ≤ s.limit) (input.within text offset) (.call id 0 false) ⟨.empty, depth, 0⟩
          (outcomes name text offset) (ends name text offset) := by
  have hnested : ∀ name text offset, ∃ o σ, ∀ id, s.grammar.ruleId? name = some id →
      reparseWith s.grammar call input name text offset = verdict o ∧
      Exec s (· ≤ s.limit) (input.within text offset) (.call id 0 false) ⟨.empty, depth, 0⟩ o
        σ := by
    intro name text offset
    cases hid : s.grammar.ruleId? name with
    | none => exact ⟨.ok none, ⟨.empty, 0, 0⟩, nofun⟩
    | some id =>
      obtain ⟨o, m, hx, -, -, hexec⟩ :=
        hcall (input.within text offset) 0 id 0 false .empty (sane_empty _)
      refine ⟨o, ⟨m, depth, 0⟩, ?_⟩
      rintro _ ⟨rfl⟩
      exact ⟨reparse_eq_verdict _ _ _ _ _ _ hid hx, hexec⟩
  choose outcomes ends h using hnested
  refine ⟨outcomes, ends, ?_, fun name text offset id hid => (h name text offset id hid).2⟩
  funext name text offset
  simp only [answers]
  cases hid : s.grammar.ruleId? name with
  | none => exact reparse_unknown _ _ _ _ _ _ hid
  | some id => exact (h name text offset id hid).1

theorem evaluate_performs (input : Input) (lookaheads rule offset : Nat) (trivia : Bool) :
    Performs s input depth lookaheads
      (evaluate s call input ⟨rule, offset, trivia, decide (0 < lookaheads)⟩)
      (.evaluate rule offset trivia) offset := by
  intro m hm
  cases hr : s.grammar.rules[rule]? with
  | none =>
    rw [evaluate_of_none hr]
    exact ⟨.ok none, m, rfl, hm, nofun, .unknown hr⟩
  | some r =>
    obtain ⟨o, m', hx, hm', hadvances, hexec⟩ :=
      pattern_performs (hcall input) lookaheads r.pattern trivia offset m hm
    rw [evaluate_of_some hr]
    cases o with
    | error e => exact ⟨.error e, m', bind_failing hx, hm', nofun, .unshaped hr hexec nofun⟩
    | ok found =>
      cases found with
      | none =>
        exact ⟨.ok none, m', (bind_ending hx).trans rfl, hm', nofun, .unshaped hr hexec nofun⟩
      | some found =>
        obtain ⟨outcomes, ends, hanswers, hnested⟩ := reparse_performs hcall input
        refine ⟨_, m', (bind_ending hx).trans ?_, hm', ?_, .shaped hr hexec hnested⟩
        · have hconclude := conclude_eq s call input r found
          rw [hanswers] at hconclude
          exact (congrFun hconclude m').trans (map_ending (ofResult_apply _ m') _)
        · intro m h
          cases hv : r.shape ⟨⟨found.start, found.stop⟩, input, s.lines, s.options,
              answers s.grammar outcomes⟩ found.value with
          | error e =>
            rw [hv] at h
            cases h
          | ok v =>
            rw [hv] at h
            cases h
            exact hadvances found rfl

end Rule

end Performs

/-- A call does its job with as much room as the limit leaves at its depth. -/
theorem invoke_performs {s : Setting} {room depth : Nat} (hroom : depth + room = s.limit)
    (input : Input) (lookaheads rule offset : Nat) (trivia : Bool) :
    Performs s input depth lookaheads
      (invoke s room input ⟨rule, offset, trivia, decide (0 < lookaheads)⟩)
      (.call rule offset trivia) offset := by
  induction room generalizing depth input lookaheads rule offset trivia with
  | zero =>
    intro m hm
    cases hmemo : m.memo[(⟨rule, offset, trivia, decide (0 < lookaheads)⟩ : Call)]? with
    | some outcome =>
      refine ⟨_, m, invoke_hit hmemo 0, hm, ?_, .recalled hmemo⟩
      rintro found ⟨rfl⟩
      exact hm _ found hmemo
    | none =>
      refine ⟨.error _, m, ?_, hm, nofun, .tooDeep hmemo (show s.limit ≤ depth by omega)⟩
      simp only [invoke, hmemo]
      rfl
  | succ room ih =>
    intro m hm
    cases hmemo : m.memo[(⟨rule, offset, trivia, decide (0 < lookaheads)⟩ : Call)]? with
    | some outcome =>
      refine ⟨_, m, invoke_hit hmemo _, hm, ?_, .recalled hmemo⟩
      rintro found ⟨rfl⟩
      exact hm _ found hmemo
    | none =>
      obtain ⟨o, m', hx, hm', hadvances, hexec⟩ :=
        evaluate_performs (ih (show depth + 1 + room = s.limit by omega)) input lookaheads rule
          offset trivia m hm
      have hentered : Exec s (· ≤ s.limit) input (.call rule offset trivia) ⟨m, depth, lookaheads⟩ o
          ((Progress.leave ⟨m', depth + 1, lookaheads⟩).storing
            ⟨rule, offset, trivia, decide (0 < lookaheads)⟩ o) :=
        .entered hmemo (show depth < s.limit by omega) (show depth + 1 ≤ s.limit by omega) hexec
      exact ⟨o, _, invoke_miss hmemo hx, hm'.storing hadvances, hadvances, hentered⟩

/-- How a run goes on to its result. -/
inductive RunExec (s : Setting) (P : Nat → Prop) (input : Input) (rule : String) (trivia : Bool) :
    Progress → Except Failure Value → Progress → Prop where
  | unknown {σ : Progress} : s.grammar.ruleId? rule = none →
    RunExec s P input rule trivia σ (.error (mismatch input σ.memory)) σ
  | called {id : Nat} {σ σ' : Progress} {o : Except Failure (Option Matched)} :
    s.grammar.ruleId? rule = some id → Exec s P input (.call id 0 trivia) σ o σ' →
    RunExec s P input rule trivia σ (conclusion input σ'.memory o) σ'

/-- A run has one execution at most. -/
theorem RunExec.unique {s : Setting} {P Q : Nat → Prop} {input : Input} {rule : String}
    {trivia : Bool} {σ σ' τ : Progress} {v w : Except Failure Value}
    (h : RunExec s P input rule trivia σ v σ') (h' : RunExec s Q input rule trivia σ w τ) :
    w = v ∧ τ = σ' := by
  cases h with
  | unknown hid =>
    cases h' with
    | unknown => exact ⟨rfl, rfl⟩
    | called hid' => cases hid.symm.trans hid'
  | called hid hexec =>
    cases h' with
    | unknown hid' => cases hid'.symm.trans hid
    | called hid' hexec' =>
      obtain rfl := Option.some.inj (hid.symm.trans hid')
      obtain ⟨rfl, rfl⟩ := hexec.unique hexec'
      exact ⟨rfl, rfl⟩

/-- A run at some depth, with the room that the limit leaves there, has an execution within the
limit. -/
theorem runWith_performs {s : Setting} {room depth : Nat} (hroom : depth + room = s.limit)
    {input : Input} {m : Memory} (hm : Sane input.text m) (rule : String) (trivia : Bool) :
    ∃ v m', runWith s.grammar (invoke s room) input rule trivia m = ending v m' ∧
      Sane input.text m' ∧
      RunExec s (· ≤ s.limit) input rule trivia ⟨m, depth, 0⟩ v ⟨m', depth, 0⟩ := by
  cases hid : s.grammar.ruleId? rule with
  | none => exact ⟨_, m, runWith_unknown hid _ _ _ _, hm, .unknown hid⟩
  | some id =>
    obtain ⟨o, m', hx, hm', -, hexec⟩ := invoke_performs hroom input 0 id 0 trivia m hm
    exact ⟨_, m', runWith_eq hid hx, hm', .called hid hexec⟩

/-- A session that some runs were made in remembers sane outcomes only. -/
theorem sane_after (session : Session) (h : Sane session.input.text session.memory)
    (runs : List (String × Bool)) :
    (session.after Session.run runs).setting = session.setting ∧
    (session.after Session.run runs).input = session.input ∧
    Sane session.input.text (session.after Session.run runs).memory := by
  induction runs generalizing session with
  | nil => exact ⟨rfl, rfl, h⟩
  | cons start runs ih =>
    obtain ⟨rule, trivia⟩ := start
    obtain ⟨v, m, hx, hm, -⟩ :=
      runWith_performs (Nat.zero_add session.setting.limit) h rule trivia
    have hstep : session.after Session.run ((rule, trivia) :: runs) =
        Session.after Session.run { session with memory := m } runs := by
      simp only [Session.after, List.foldl_cons, Session.run_eq hx]
    rw [hstep]
    exact ih _ hm

namespace Session

def progress (session : Session) : Progress :=
  ⟨session.memory, 0, 0⟩

theorem run_exec {session : Session} (h : Sane session.input.text session.memory) (rule : String)
    (trivia : Bool) :
    ∃ v m, session.run rule trivia = (v, { session with memory := m }) ∧
      Sane session.input.text m ∧
      RunExec session.setting (· ≤ session.setting.limit) session.input rule trivia
        session.progress v ⟨m, 0, 0⟩ := by
  obtain ⟨v, m, hx, hm, hexec⟩ :=
    runWith_performs (Nat.zero_add session.setting.limit) h rule trivia
  exact ⟨v, m, run_eq hx, hm, hexec⟩

end Session

/-- Every run ends, whatever was run before in its session. It has one execution, in which no more
rule calls than the limit are ever on the stack, those around nested parses included, and which
leaves the counts of calls and lookaheads as they were. -/
theorem run_terminates (s : Setting) (input : Input) (runs : List (String × Bool)) (rule : String)
    (trivia : Bool) :
    let session := (Session.start s input).after Session.run runs
    let before : Progress := ⟨session.memory, 0, 0⟩
    let after : Progress := ⟨(session.run rule trivia).2.memory, 0, 0⟩
    RunExec s (· ≤ s.limit) input rule trivia before (session.run rule trivia).1 after ∧
    ∀ P result σ, RunExec s P input rule trivia before result σ →
      result = (session.run rule trivia).1 ∧ σ = after := by
  intro session before after
  obtain ⟨hsetting, hinput, hsane⟩ := sane_after (.start s input) (sane_empty _) runs
  obtain ⟨v, m, hx, -, hexec⟩ := runWith_performs (Nat.zero_add s.limit) hsane rule trivia
  have hrun : session.run rule trivia = (v, { session with memory := m }) := by
    refine Session.run_eq ?_
    rw [hsetting, hinput]
    exact hx
  have hexec : RunExec s (· ≤ s.limit) input rule trivia before (session.run rule trivia).1
      after := by
    simp only [after, hrun]
    exact hexec
  exact ⟨hexec, fun P result σ h => hexec.unique h⟩

end PhpSyntax.Peg
