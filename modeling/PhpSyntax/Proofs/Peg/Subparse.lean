import PhpSyntax.Proofs.Peg.Locating
import PhpSyntax.Proofs.Peg.Moved

namespace PhpSyntax.Peg

variable {b size : Nat}

/-- The same job, with what was matched so far moved. -/
inductive Job.Moved (b size : Nat) : Job → Job → Prop where
  | call {rule offset : Nat} {trivia : Bool} :
    Moved b size (.call rule offset trivia) (.call rule offset trivia)
  | evaluate {rule offset : Nat} {trivia : Bool} :
    Moved b size (.evaluate rule offset trivia) (.evaluate rule offset trivia)
  | pattern {p : LinkedPattern} {trivia : Bool} {offset : Nat} :
    Moved b size (.pattern p trivia offset) (.pattern p trivia offset)
  | components {cs : List (Component LinkedPattern)} {trivia : Bool} {ps qs : Parts} :
    Parts.Rel (Value.Moved b size) ps qs →
    Moved b size (.components cs trivia ps) (.components cs trivia qs)
  | alternatives {ps : List LinkedPattern} {trivia : Bool} {offset : Nat} :
    Moved b size (.alternatives ps trivia offset) (.alternatives ps trivia offset)
  | rounds {r : Repetition} {rs qs : Rounds} : Rounds.Rel (Value.Moved b size) rs qs →
    Moved b size (.rounds r rs) (.rounds r qs)
  | item {r : Repetition} {rs qs : Rounds} {next : Nat} :
    Rounds.Rel (Value.Moved b size) rs qs → Moved b size (.item r rs next) (.item r qs next)

/-- Matches of the same extent with moved values. -/
abbrev Matched.Moved (b size : Nat) : Matched → Matched → Prop :=
  Matched.Rel (Value.Moved b size)

/-- An outcome and what it is where the text was moved. -/
abbrev MovedOutcome (b size : Nat) :
    Except Failure (Option Matched) → Except Failure (Option Matched) → Prop :=
  MovedResult b (Option.Rel (Matched.Moved b size))

/-- Memories of the same calls with moved outcomes. -/
structure Memory.Moved (b size : Nat) (m n : Memory) : Prop where
  furthest : m.furthest = n.furthest
  memo : ∀ c : Call, Option.Rel (Option.Rel (Matched.Moved b size)) m.memo[c]? n.memo[c]?

/-- As much progress, with what is remembered moved. -/
structure Progress.Moved (b size : Nat) (τ σ : Progress) : Prop where
  depth : τ.depth = σ.depth
  lookaheads : τ.lookaheads = σ.lookaheads
  memory : τ.memory.Moved b size σ.memory

theorem Memory.moved_empty : Memory.Moved b size .empty .empty :=
  ⟨rfl, fun c => by simp only [Memory.empty, Std.HashMap.getElem?_empty]; exact .none⟩

namespace Progress.Moved

variable {τ σ : Progress} (h : τ.Moved b size σ)

include h

theorem key (rule offset : Nat) (trivia : Bool) :
    τ.key rule offset trivia = σ.key rule offset trivia := by
  simp only [Progress.key, h.lookaheads]

theorem recalled {rule offset : Nat} {trivia : Bool} {outcome : Option Matched}
    (hc : σ.memory.memo[σ.key rule offset trivia]? = some outcome) :
    ∃ outcome', τ.memory.memo[τ.key rule offset trivia]? = some outcome' ∧
      Option.Rel (Matched.Moved b size) outcome' outcome := by
  have hmemo := h.memory.memo (σ.key rule offset trivia)
  rw [hc] at hmemo
  rw [h.key]
  generalize τ.memory.memo[σ.key rule offset trivia]? = found at hmemo ⊢
  cases hmemo with
  | some ho => exact ⟨_, rfl, ho⟩

theorem missing {rule offset : Nat} {trivia : Bool}
    (hc : σ.memory.memo[σ.key rule offset trivia]? = none) :
    τ.memory.memo[τ.key rule offset trivia]? = none := by
  have hmemo := h.memory.memo (σ.key rule offset trivia)
  rw [hc] at hmemo
  rw [h.key]
  generalize τ.memory.memo[σ.key rule offset trivia]? = found at hmemo ⊢
  cases hmemo
  rfl

theorem enter : τ.enter.Moved b size σ.enter :=
  ⟨congrArg (· + 1) h.depth, h.lookaheads, h.memory⟩

theorem leave : τ.leave.Moved b size σ.leave :=
  ⟨congrArg (· - 1) h.depth, h.lookaheads, h.memory⟩

theorem lookAhead : τ.lookAhead.Moved b size σ.lookAhead :=
  ⟨h.depth, congrArg (· + 1) h.lookaheads, h.memory⟩

theorem lookBack : τ.lookBack.Moved b size σ.lookBack :=
  ⟨h.depth, congrArg (· - 1) h.lookaheads, h.memory⟩

theorem settle (start : Nat) {found found' : Option Matched}
    (hf : Option.Rel (Matched.Moved b size) found found') :
    (τ.settle start found).Moved b size (σ.settle start found') := by
  cases hf with
  | some _ => exact h
  | none =>
    simp only [Progress.settle, h.lookaheads]
    split
    · exact h
    · refine ⟨h.depth, rfl, ?_, fun c => ?_⟩
      · simp only [Memory.note_furthest, h.memory.furthest]
      · simp only [Memory.note_memo]
        exact h.memory.memo c

theorem storing (c : Call) {p o : Except Failure (Option Matched)} (ho : MovedOutcome b size p o) :
    (τ.storing c p).Moved b size (σ.storing c o) := by
  cases ho with
  | error e => exact h
  | ok ho =>
    refine ⟨h.depth, h.lookaheads, h.memory.furthest, fun d => ?_⟩
    simp only [Progress.storing, Memory.storing, Std.HashMap.getElem?_insert]
    split
    · exact .some ho
    · exact h.memory.memo d

end Progress.Moved

namespace MovedResult

variable {α β α' β' : Type} {R : α → β → Prop} {Q : α' → β' → Prop} {x : Except Failure α}
  {y : Except Failure β}

theorem map (h : MovedResult b R x y) {f : α → α'} {g : β → β'}
    (hf : ∀ a c, R a c → Q (f a) (g c)) : MovedResult b Q (x.map f) (y.map g) := by
  cases h with
  | error e => exact .error e
  | ok h => exact .ok (hf _ _ h)

end MovedResult

namespace MovedOutcome

variable {p o : Except Failure (Option Matched)}

theorem found {m : Matched} (h : MovedOutcome b size p (.ok (some m))) :
    ∃ m', p = .ok (some m') ∧ Matched.Moved b size m' m := by
  cases h with
  | ok h =>
    cases h with
    | some hm => exact ⟨_, rfl, hm⟩

theorem missed (h : MovedOutcome b size p (.ok none)) : p = .ok none := by
  cases h with
  | ok h =>
    cases h
    rfl

theorem failed {e : Failure} (h : MovedOutcome b size p (.error e)) : p = .error (e.shift b) := by
  cases h
  rfl

theorem unmatched (h : MovedOutcome b size p o) (ho : Unmatched o) : Unmatched p := by
  rintro m rfl
  cases h with
  | ok h =>
    cases h with
    | some _ => exact ho _ rfl

theorem verdict (h : MovedOutcome b size p o) :
    MovedResult b (Option.Rel (Value.Moved b size)) (verdict p) (verdict o) := by
  cases h with
  | error e =>
    simp only [Peg.verdict, Failure.isFatal_shift]
    split
    · exact .error e
    · exact .ok .none
  | ok h =>
    cases h with
    | none => exact .ok .none
    | some hm => exact .ok (.some hm.value)

end MovedOutcome

namespace Rounds.Rel

variable {V : Value → Value → Prop} {rs qs : Rounds} (h : Rounds.Rel V rs qs)

include h

theorem items_nil : rs.items = [] ↔ qs.items = [] := by
  rw [← List.length_eq_zero_iff, ← List.length_eq_zero_iff, h.items.length_eq]

theorem items_ne (hqs : qs.items ≠ []) : rs.items ≠ [] :=
  fun hrs => hqs (h.items_nil.1 hrs)

theorem leads {r : Repetition} (hqs : r.Leads qs) : r.Leads rs :=
  hqs.imp_right h.items_nil.2

theorem ends {r : Repetition} {m n : Matched} (hm : Matched.Rel V m n) :
    r.Ends rs m ↔ r.Ends qs n := by
  simp only [Repetition.Ends, hm.stop, h.cursor, ne_eq, h.items_nil]

theorem pushed {m n : Matched} (hm : Matched.Rel V m n) :
    Rounds.Rel V (rs.pushed m) (qs.pushed n) := by
  simp only [Rounds.pushed, h.emptyFirst, hm.stop, h.cursor]
  exact Rounds.rel_push h hm _

end Rounds.Rel

theorem matchedAt_moved (start : Nat) {found : Option (Nat × Value)}
    (h : ∀ n v, found = some (n, v) → v.strip = v) :
    Option.Rel (Matched.Moved b size) (matchedAt start found) (matchedAt start found) := by
  cases found with
  | none => exact .none
  | some r => exact .some ⟨rfl, rfl, Value.moved_of_strip r.2 (h r.1 r.2 rfl)⟩

/-- A grammar whose parses can be moved: the texts of nested parses stand where they are parsed, and
its processors do not tell where the text begins. -/
structure Grammar.Movable (g : Grammar) (table : List RuleDef) : Prop where
  lists : g.Lists table
  locates : ∀ d ∈ table, d.Locates g.trivia
  moves : ∀ d ∈ table, ∀ p, d.processor = some p → p.Moves

/-- What a nested parse is done with exists, however deep it is nested. -/
theorem exists_nested (s : Setting) (input : Input) (id depth : Nat) :
    ∃ o σ, Exec s (· ≤ s.limit) input (.call id 0 false) ⟨.empty, depth, 0⟩ o σ := by
  obtain hle | hlt := le_or_gt depth s.limit
  · obtain ⟨o, m, -, -, -, hexec⟩ := invoke_performs (Nat.add_sub_of_le hle) input 0 id 0 false
      .empty (sane_empty _)
    exact ⟨o, _, hexec⟩
  · exact ⟨_, _, .tooDeep (by simp [Memory.empty]) hlt.le⟩

section Exec

/-- A job in a moved text, with the lines of another source, beside the same job in the text on its
own. -/
structure Alongside (b size : Nat) (s : Setting) (lines : Lines) (input' : Input) (job' : Job)
    (τ : Progress) (input : Input) (job : Job) (σ : Progress) : Prop where
  inputs : input'.Moved b size input
  jobs : Job.Moved b size job' job
  progress : τ.Moved b size σ
  underway : Invariant.trivial.Underway s input job σ
  underway' : Invariant.trivial.Underway { s with lines := lines } input' job' τ

variable {s : Setting} {lines : Lines} {table : List RuleDef} {input input' : Input}
  {job job' next next' : Job} {σ σ' τ τ' : Progress} {later : Bool}
  {o : Except Failure (Option Matched)}

theorem Alongside.part (ha : Alongside b size s lines input' job' τ input job σ)
    (hl : s.grammar.Lists table) (h : Part s input job σ later next σ')
    (h' : Part { s with lines := lines } input' job' τ later next' τ')
    (hjob : Job.Moved b size next' next) (hτ : τ'.Moved b size σ') :
    Alongside b size s lines input' next' τ' input next σ' :=
  ⟨ha.inputs, hjob, hτ, h.underway (Invariant.trivial_closed s table) hl ha.underway,
    h'.underway (Invariant.trivial_closed { s with lines := lines } table) hl ha.underway'⟩

/-- Nested parses of located texts answer alike, moved. -/
theorem answers_moved {outcomes outcomes' : String → String → Nat → Except Failure (Option Matched)}
    (g : Grammar) (hi : input'.Moved b size input)
    (h : ∀ name text offset id, g.ruleId? name = some id →
      (input.within text offset).base + (input.within text offset).text.size ≤ size →
      MovedOutcome b size (outcomes' name text offset) (outcomes name text offset))
    (name text : String) (offset : Nat) :
    MovedResult b (Option.Rel (Value.Moved b size))
      (input'.located (answers g outcomes') name text offset)
      (input.located (answers g outcomes) name text offset) := by
  by_cases hholds : input.text.Holds offset (.ofString text)
  · have hholds' : input'.text.Holds offset (.ofString text) := by
      rw [hi.text]
      exact hholds
    rw [Input.located_of_holds hholds', Input.located_of_holds hholds]
    simp only [answers]
    cases hid : g.ruleId? name with
    | none => exact .ok .none
    | some id =>
      refine (h name text offset id hid ?_).verdict
      have hwithin := hholds.within
      have hsize := hi.within
      simp only [Input.within]
      omega
  · have hholds' : ¬input'.text.Holds offset (.ofString text) := by
      rw [hi.text]
      exact hholds
    rw [Input.located_of_not hholds', Input.located_of_not hholds]
    exact .ok .none

theorem Input.Moved.inner (hi : input'.Moved b size input) {text : String} {offset : Nat}
    (h : (input.within text offset).base + (input.within text offset).text.size ≤ size) :
    (input'.within text offset).Moved b size (input.within text offset) := by
  refine ⟨rfl, ?_, h⟩
  simp only [Input.within, hi.base]
  omega

theorem Failure.tooDeep_shift (limit offset : Nat) :
    (Failure.tooDeep limit offset).shift b = .tooDeep limit (offset + b) :=
  rfl

/-- What a parse of a text does, a parse of the moved text does as well. -/
theorem Exec.moved (hg : s.grammar.Movable table) (hlines : Lines.Moved b size lines s.lines)
    (h : Exec s (· ≤ s.limit) input job σ o σ')
    (ha : Alongside b size s lines input' job' τ input job σ) :
    ∃ p τ', Exec { s with lines := lines } (· ≤ s.limit) input' job' τ p τ' ∧
      MovedOutcome b size p o ∧ τ'.Moved b size σ' := by
  have hl := hg.lists
  induction h generalizing input' job' τ with
  | @recalled input rule offset trivia σ outcome hmemo =>
    cases ha.jobs
    obtain ⟨outcome', hmemo', ho⟩ := ha.progress.recalled hmemo
    exact ⟨_, τ, .recalled hmemo', .ok ho, ha.progress⟩
  | @tooDeep input rule offset trivia σ hmemo hdepth =>
    cases ha.jobs
    refine ⟨_, τ, .tooDeep (ha.progress.missing hmemo) (hdepth.trans_eq ha.progress.depth.symm), ?_,
      ha.progress⟩
    rw [ha.inputs.base, Nat.add_right_comm, ← Failure.tooDeep_shift]
    exact .error _
  | @entered input rule offset trivia σ σ' o hmemo hdepth hle _ ih =>
    cases ha.jobs
    have hmemo' := ha.progress.missing hmemo
    have hdepth' : τ.depth < s.limit := ha.progress.depth.trans_lt hdepth
    obtain ⟨p, τ', hexec, ho, hτ'⟩ := ih (ha.part hl (.evaluation hmemo hdepth)
      (.evaluation hmemo' hdepth') .evaluate ha.progress.enter)
    refine ⟨p, _, .entered hmemo' hdepth' hdepth' hexec, ho, ?_⟩
    rw [ha.progress.key]
    exact hτ'.leave.storing _ ho
  | unknown hr =>
    cases ha.jobs
    exact ⟨_, τ, .unknown hr, .ok .none, ha.progress⟩
  | unshaped hr _ hnone ih =>
    cases ha.jobs
    obtain ⟨p, τ', hexec, ho, hτ'⟩ := ih (ha.part hl (.body hr) (.body hr) .pattern ha.progress)
    exact ⟨p, τ', .unshaped hr hexec (ho.unmatched hnone), ho, hτ'⟩
  | @shaped input rule offset trivia r σ σ' m outcomes ends hr hbody hnested ih ihn =>
    cases ha.jobs
    have hbodies := ha.part hl (.body hr) (.body hr) .pattern ha.progress
    obtain ⟨p, τ', hexec, ho, hτ'⟩ := ih hbodies
    obtain ⟨m', rfl, hm⟩ := ho.found
    have hinner : ∀ name text offset, ∃ p τ₁, ∀ id, s.grammar.ruleId? name = some id →
        Exec { s with lines := lines } (· ≤ s.limit) (input'.within text offset) (.call id 0 false)
          ⟨.empty, τ'.depth, 0⟩ p τ₁ ∧
        ((input.within text offset).base + (input.within text offset).text.size ≤ size →
          MovedOutcome b size p (outcomes name text offset)) := by
      intro name text offset
      cases hid : s.grammar.ruleId? name with
      | none => exact ⟨.ok none, τ', fun _ h => by cases h⟩
      | some id =>
        by_cases hwithin :
            (input.within text offset).base + (input.within text offset).text.size ≤ size
        · have hstart : (Text.ofString text).Boundary 0 := ⟨_, Text.has_start _⟩
          obtain ⟨p, τ₁, hexec₁, ho₁, -⟩ := ihn name text offset id hid
            (τ := ⟨.empty, τ'.depth, 0⟩) ⟨ha.inputs.inner hwithin, .call,
              ⟨hτ'.depth, rfl, Memory.moved_empty⟩,
              ⟨True.intro, Invariant.remembers_empty _ _ hstart, hstart⟩,
              ⟨True.intro, Invariant.remembers_empty _ _ hstart, hstart⟩⟩
          refine ⟨p, τ₁, ?_⟩
          rintro _ ⟨rfl⟩
          exact ⟨hexec₁, fun _ => ho₁⟩
        · obtain ⟨p, τ₁, hexec₁⟩ := exists_nested { s with lines := lines }
            (input'.within text offset) id τ'.depth
          refine ⟨p, τ₁, ?_⟩
          rintro _ ⟨rfl⟩
          exact ⟨hexec₁, fun h => absurd h hwithin⟩
    choose outcomes' ends' hinner using hinner
    refine ⟨_, τ', .shaped hr hexec fun name text offset id hid =>
      (hinner name text offset id hid).1, MovedResult.map (R := Value.Moved b size) ?_
        fun v w hvw => .some ⟨hm.start, hm.stop, hvw⟩, hτ'⟩
    obtain ⟨hwritten, hfit⟩ := hl.written _ _ hr
    have hb : input.text.Boundary offset := ha.underway.before
    have hb' : input'.text.Boundary offset := ha.underway'.before
    have hmatches := (hbody.kept (Invariant.trivial_closed s table) hl hbodies.underway).found m rfl
    have hmatches' := (hexec.kept (Invariant.trivial_closed { s with lines := lines } table) hl
      hbodies.underway').found m' rfl
    have hplaced := Invariant.MatchesOf.placed hfit hb hmatches
    rw [LinkedRule.shape_written, LinkedRule.shape_written,
      (hg.locates _ hwritten).shape hb hmatches, (hg.locates _ hwritten).shape hb' hmatches']
    refine LinkedRule.shape_moved ?_ (hg.moves _ hwritten) hm.value
    refine ⟨?_, ha.inputs, hlines, rfl, hplaced.forward, hplaced.stop.le_size, ?_⟩
    · simp only [hm.start, hm.stop]
    · exact answers_moved s.grammar ha.inputs fun name text offset id hid =>
        (hinner name text offset id hid).2
  | @terminal input t trivia offset start σ hlead =>
    cases ha.jobs
    rw [← ha.inputs.text] at hlead ⊢
    have hfound : Option.Rel (Matched.Moved b size) (t.found input'.text start)
        (t.found input'.text start) := by
      refine matchedAt_moved start fun n v hv => ?_
      obtain ⟨cs, -, hv⟩ := Option.bind_eq_some_iff.1 hv
      obtain ⟨r, -, hr⟩ := Option.map_eq_some_iff.1 hv
      cases hr
      rfl
    exact ⟨_, _, .terminal hlead, .ok hfound, ha.progress.settle start hfound⟩
  | @scan input sc trivia offset start σ hlead =>
    cases ha.jobs
    rw [← ha.inputs.text] at hlead ⊢
    have hfound : Option.Rel (Matched.Moved b size) (sc.found input'.text start)
        (sc.found input'.text start) := by
      refine matchedAt_moved start fun n v hv => ?_
      obtain ⟨cs, -, hv⟩ := Option.bind_eq_some_iff.1 hv
      exact (ha.underway.before.1.2 sc (List.mem_singleton.2 rfl) cs n v hv).1
    exact ⟨_, _, .scan hlead, .ok hfound, ha.progress.settle start hfound⟩
  | @endOfInput input trivia offset start σ hlead =>
    cases ha.jobs
    rw [← ha.inputs.text] at hlead ⊢
    have hfound : Option.Rel (Matched.Moved b size) (endFound input'.text start)
        (endFound input'.text start) := by
      simp only [endFound]
      split
      · exact .some ⟨rfl, rfl, trivial⟩
      · exact .none
    exact ⟨_, _, .endOfInput hlead, .ok hfound, ha.progress.settle start hfound⟩
  | rule _ ih =>
    cases ha.jobs
    obtain ⟨p, τ', hexec, ho, hτ'⟩ := ih (ha.part hl .rule .rule .call ha.progress)
    exact ⟨p, τ', .rule hexec, ho, hτ'⟩
  | sequence _ ih =>
    cases ha.jobs
    obtain ⟨p, τ', hexec, ho, hτ'⟩ := ih (ha.part hl .sequence .sequence
      (.components (Parts.rel_startingAt _)) ha.progress)
    exact ⟨p, τ', .sequence hexec, ho, hτ'⟩
  | choice _ ih =>
    cases ha.jobs
    obtain ⟨p, τ', hexec, ho, hτ'⟩ := ih (ha.part hl .choice .choice .alternatives ha.progress)
    exact ⟨p, τ', .choice hexec, ho, hτ'⟩
  | repetition _ ih =>
    cases ha.jobs
    obtain ⟨p, τ', hexec, ho, hτ'⟩ := ih (ha.part hl .repetition .repetition
      (.rounds (Rounds.rel_startingAt _)) ha.progress)
    exact ⟨p, τ', .repetition hexec, ho, hτ'⟩
  | @optional input q trivia offset σ σ' o _ ih =>
    cases ha.jobs
    obtain ⟨p, τ', hexec, ho, hτ'⟩ := ih (ha.part hl .optional .optional .pattern ha.progress)
    refine ⟨_, τ', .optional hexec, ho.map fun found found' hf => .some ?_, hτ'⟩
    cases hf with
    | none => exact ⟨rfl, rfl, trivial⟩
    | some hm => exact hm
  | @ahead input negated q trivia offset σ σ' o _ ih =>
    cases ha.jobs
    obtain ⟨p, τ', hexec, ho, hτ'⟩ := ih (ha.part hl .ahead .ahead .pattern ha.progress.lookAhead)
    refine ⟨_, τ'.lookBack, .ahead hexec, ho.map fun found found' hf => ?_, hτ'.lookBack⟩
    have hsome : found.isSome = found'.isSome := by
      cases hf <;> rfl
    rw [hsome]
    split
    · exact .some ⟨rfl, rfl, trivial⟩
    · exact .none
  | trivia _ ih =>
    cases ha.jobs
    obtain ⟨p, τ', hexec, ho, hτ'⟩ := ih (ha.part hl .trivia .trivia .pattern ha.progress)
    exact ⟨p, τ', .trivia hexec, ho, hτ'⟩
  | silent _ ih =>
    cases ha.jobs
    obtain ⟨p, τ', hexec, ho, hτ'⟩ := ih (ha.part hl .silent .silent .pattern ha.progress)
    refine ⟨_, τ', .silent hexec, ho.map fun found found' hf => ?_, hτ'⟩
    cases hf with
    | none => exact .none
    | some hm => exact .some ⟨hm.start, hm.stop, trivial⟩
  | allParts =>
    cases ha.jobs with
    | components hps =>
      refine ⟨_, τ, .allParts, .ok (.some ?_), ha.progress⟩
      rw [ha.inputs.text]
      exact Parts.rel_finish (.moved b size) _ hps
  | partUnmatched _ hnone ih =>
    cases ha.jobs with
    | components hps =>
      obtain ⟨p, τ', hexec, ho, hτ'⟩ := ih (ha.part hl .firstComponent .firstComponent
        (by rw [hps.cursor]; exact .pattern) ha.progress)
      exact ⟨p, τ', .partUnmatched hexec (ho.unmatched hnone), ho, hτ'⟩
  | partMatched hfirst _ ih ih' =>
    cases ha.jobs with
    | components hps =>
      obtain ⟨p, τ₁, hexec, ho, hτ₁⟩ := ih (ha.part hl .firstComponent .firstComponent
        (by rw [hps.cursor]; exact .pattern) ha.progress)
      obtain ⟨m', rfl, hm⟩ := ho.found
      obtain ⟨p, τ', hexec', ho', hτ'⟩ := ih' (ha.part hl (.otherComponents hfirst)
        (.otherComponents hexec) (.components (Parts.rel_push (.moved b size) hps hm _ _)) hτ₁)
      exact ⟨p, τ', .partMatched hexec hexec', ho', hτ'⟩
  | noAlternative =>
    cases ha.jobs
    exact ⟨_, τ, .noAlternative, .ok .none, ha.progress⟩
  | thisAlternative _ hsome ih =>
    cases ha.jobs
    obtain ⟨p, τ', hexec, ho, hτ'⟩ :=
      ih (ha.part hl .firstAlternative .firstAlternative .pattern ha.progress)
    refine ⟨p, τ', .thisAlternative hexec ?_, ho, hτ'⟩
    rintro rfl
    cases ho with
    | ok ho =>
      cases ho
      exact hsome rfl
  | nextAlternative hfirst _ ih ih' =>
    cases ha.jobs
    obtain ⟨p, τ₁, hexec, ho, hτ₁⟩ :=
      ih (ha.part hl .firstAlternative .firstAlternative .pattern ha.progress)
    obtain rfl := ho.missed
    obtain ⟨p, τ', hexec', ho', hτ'⟩ := ih' (ha.part hl (.otherAlternatives hfirst)
      (.otherAlternatives hexec) .alternatives hτ₁)
    exact ⟨p, τ', .nextAlternative hexec hexec', ho', hτ'⟩
  | @leading input r rs σ σ' o hleads _ ih =>
    cases ha.jobs with
    | @rounds _ rs' _ hrs =>
      have hleads' : r.Leads rs' := hrs.leads hleads
      obtain ⟨p, τ', hexec, ho, hτ'⟩ := ih (ha.part hl (.unseparated hleads) (.unseparated hleads')
        (by rw [hrs.cursor]; exact .item hrs) ha.progress)
      exact ⟨p, τ', .leading hleads' hexec, ho, hτ'⟩
  | @separated input r q rs σ σ' σ'' m o hsep hitems hfirst _ ih ih' =>
    cases ha.jobs with
    | @rounds _ rs' _ hrs =>
      have hitems' := hrs.items_ne hitems
      obtain ⟨p, τ₁, hexec, ho, hτ₁⟩ := ih (ha.part hl (.separator hsep hitems)
        (.separator hsep hitems') (by rw [hrs.cursor]; exact .pattern) ha.progress)
      obtain ⟨m', rfl, hm⟩ := ho.found
      obtain ⟨p, τ', hexec', ho', hτ'⟩ := ih' (ha.part hl (.separated hsep hitems hfirst)
        (.separated hsep hitems' hexec) (by rw [hm.stop]; exact .item hrs) hτ₁)
      exact ⟨p, τ', .separated hsep hitems' hexec hexec', ho', hτ'⟩
  | @separatorMissing input r q rs σ σ' hsep hitems _ ih =>
    cases ha.jobs with
    | @rounds _ rs' _ hrs =>
      have hitems' := hrs.items_ne hitems
      obtain ⟨p, τ', hexec, ho, hτ'⟩ := ih (ha.part hl (.separator hsep hitems)
        (.separator hsep hitems') (by rw [hrs.cursor]; exact .pattern) ha.progress)
      obtain rfl := ho.missed
      exact ⟨_, τ', .separatorMissing hsep hitems' hexec,
        .ok (Rounds.rel_finish (.moved b size) hrs _ _), hτ'⟩
  | @separatorFailed input r q rs σ σ' e hsep hitems _ ih =>
    cases ha.jobs with
    | @rounds _ rs' _ hrs =>
      have hitems' := hrs.items_ne hitems
      obtain ⟨p, τ', hexec, ho, hτ'⟩ := ih (ha.part hl (.separator hsep hitems)
        (.separator hsep hitems') (by rw [hrs.cursor]; exact .pattern) ha.progress)
      obtain rfl := ho.failed
      exact ⟨_, τ', .separatorFailed hsep hitems' hexec, ho, hτ'⟩
  | itemFailed _ ih =>
    cases ha.jobs with
    | item hrs =>
      obtain ⟨p, τ', hexec, ho, hτ'⟩ := ih (ha.part hl .item .item .pattern ha.progress)
      obtain rfl := ho.failed
      exact ⟨_, τ', .itemFailed hexec, ho, hτ'⟩
  | @itemMissing input r rs next σ σ' _ ih =>
    cases ha.jobs with
    | @item _ rs' _ _ hrs =>
      obtain ⟨p, τ', hexec, ho, hτ'⟩ := ih (ha.part hl .item .item .pattern ha.progress)
      obtain rfl := ho.missed
      have htrailed : Rounds.Rel (Value.Moved b size) (r.trailed rs' next) (r.trailed rs next) := by
        simp only [Repetition.trailed, hrs.cursor]
        split
        · exact ⟨rfl, hrs.start, hrs.emptyFirst, hrs.items⟩
        · exact hrs
      exact ⟨_, τ', .itemMissing hexec, .ok (Rounds.rel_finish (.moved b size) htrailed _ _), hτ'⟩
  | @itemEmpty input r rs next σ σ' m _ hends ih =>
    cases ha.jobs with
    | @item _ rs' _ _ hrs =>
      obtain ⟨p, τ', hexec, ho, hτ'⟩ := ih (ha.part hl .item .item .pattern ha.progress)
      obtain ⟨m', rfl, hm⟩ := ho.found
      exact ⟨_, τ', .itemEmpty hexec ((hrs.ends hm).2 hends),
        .ok (Rounds.rel_finish (.moved b size) hrs _ _), hτ'⟩
  | @itemMatched input r rs next σ σ' σ'' m o hitem hgoes _ ih ih' =>
    cases ha.jobs with
    | @item _ rs' _ _ hrs =>
      obtain ⟨p, τ₁, hexec, ho, hτ₁⟩ := ih (ha.part hl .item .item .pattern ha.progress)
      obtain ⟨m', rfl, hm⟩ := ho.found
      have hgoes' : ¬r.Ends rs' m' := fun hends => hgoes ((hrs.ends hm).1 hends)
      obtain ⟨p, τ', hexec', ho', hτ'⟩ := ih' (ha.part hl (.otherRounds hitem hgoes)
        (.otherRounds hexec hgoes') (.rounds (hrs.pushed hm)) hτ₁)
      exact ⟨p, τ', .itemMatched hexec hgoes' hexec', ho', hτ'⟩

end Exec

theorem mismatch_moved {input input' : Input} (hi : input'.Moved b size input) {m n : Memory}
    (h : m.Moved b size n) : mismatch input' m = (mismatch input n).shift b := by
  simp only [mismatch, Failure.shift, hi.base, hi.text, h.furthest, Nat.add_right_comm]

theorem conclusion_moved {input input' : Input} (hi : input'.Moved b size input) {m n : Memory}
    (h : m.Moved b size n) {p o : Except Failure (Option Matched)} (ho : MovedOutcome b size p o) :
    MovedResult b (Value.Moved b size) (conclusion input' m p) (conclusion input n o) := by
  cases ho with
  | error e => exact .error e
  | ok ho =>
    cases ho with
    | some hm => exact .ok hm.value
    | none =>
      simp only [conclusion, mismatch_moved hi h]
      exact .error _

namespace Session

/-- A session on a moved text, with the lines of another source, beside one on the text on its own,
after the same runs. -/
structure Moved (b size : Nat) (lines : Lines) (session' session : Session) : Prop where
  setting : session'.setting = { session.setting with lines := lines }
  input : session'.input.Moved b size session.input
  memory : session'.memory.Moved b size session.memory
  sane : Sane session.input.text session.memory
  sane' : Sane session.input.text session'.memory
  remembers : Invariant.trivial.Remembers session.setting session.input session.memory
  remembers' : Invariant.trivial.Remembers { session.setting with lines := lines } session'.input
    session'.memory

variable {lines : Lines} {table : List RuleDef} {session session' : Session}

/-- A further run finds the same, moved. -/
theorem Moved.run (h : session'.Moved b size lines session)
    (hg : session.setting.grammar.Movable table)
    (hlines : Lines.Moved b size lines session.setting.lines)
    (hstart : session.input.text.Boundary 0) (rule : String) (trivia : Bool) :
    MovedResult b (Value.Moved b size) (session'.run rule trivia).1 (session.run rule trivia).1 ∧
      (session'.run rule trivia).2.Moved b size lines (session.run rule trivia).2 := by
  obtain ⟨hsetting, hi, hmemory, hsane, hsane', hremembers, hremembers'⟩ := h
  have hsane'' : Sane session'.input.text session'.memory := by
    rw [hi.text]
    exact hsane'
  have hstart' : session'.input.text.Boundary 0 := by
    rw [hi.text]
    exact hstart
  obtain ⟨v, m, hrun, hm, hexec⟩ := run_exec hsane rule trivia
  obtain ⟨v', m', hrun', hm', hexec'⟩ := run_exec hsane'' rule trivia
  rw [hsetting] at hexec'
  rw [hi.text] at hm'
  rw [hrun, hrun']
  cases hexec with
  | unknown hid =>
    cases hexec' with
    | unknown _ =>
      refine ⟨?_, hsetting, hi, hmemory, hsane, hsane', hremembers, hremembers'⟩
      rw [mismatch_moved hi (show session'.progress.memory.Moved b size _ from hmemory)]
      exact .error _
    | called hid' _ => cases hid.symm.trans hid'
  | @called id _ _ o hid hexec =>
    cases hexec' with
    | unknown hid' => cases hid.symm.trans hid'
    | @called id' _ _ o' hid' hexec' =>
      obtain rfl := Option.some.inj (hid.symm.trans hid')
      have ha : Alongside b size session.setting lines session'.input (.call id 0 trivia)
          session'.progress session.input (.call id 0 trivia) session.progress :=
        ⟨hi, .call, ⟨rfl, rfl, hmemory⟩, ⟨True.intro, hremembers, hstart⟩,
          ⟨True.intro, hremembers', hstart'⟩⟩
      obtain ⟨p, τ', hmoved, ho, hτ'⟩ := hexec.moved hg hlines ha
      obtain ⟨rfl, rfl⟩ := hexec'.unique hmoved
      refine ⟨conclusion_moved hi hτ'.memory ho, hsetting, hi, hτ'.memory, hm, hm', ?_, ?_⟩
      · exact (hexec.kept (Invariant.trivial_closed _ table) hg.lists ha.underway).memory
      · exact (hexec'.kept (Invariant.trivial_closed _ table) hg.lists ha.underway').memory

/-- Sessions stay beside each other over any runs. -/
theorem Moved.after (h : session'.Moved b size lines session)
    (hg : session.setting.grammar.Movable table)
    (hlines : Lines.Moved b size lines session.setting.lines)
    (hstart : session.input.text.Boundary 0) (runs : List (String × Bool)) :
    (session'.after Session.run runs).Moved b size lines (session.after Session.run runs) := by
  induction runs generalizing session session' with
  | nil => exact h
  | cons start rest ih =>
    obtain ⟨rule, trivia⟩ := start
    obtain ⟨-, hnext⟩ := h.run hg hlines hstart rule trivia
    obtain ⟨v, m, hrun, -⟩ := run_exec h.sane rule trivia
    have hset : (session.run rule trivia).2.setting = session.setting := by
      rw [hrun]
    have hinput : (session.run rule trivia).2.input = session.input := by
      rw [hrun]
    refine ih hnext ?_ ?_ ?_
    · rw [hset]
      exact hg
    · rw [hset]
      exact hlines
    · rw [hinput]
      exact hstart

end Session

end PhpSyntax.Peg
