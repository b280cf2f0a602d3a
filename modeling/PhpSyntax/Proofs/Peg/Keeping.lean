import PhpSyntax.Proofs.Peg.Matches
import PhpSyntax.Proofs.Peg.Termination

namespace PhpSyntax.Peg

/-- What becomes of the value of a rule's match, by the rule as it is written. -/
def RuleDef.shape (d : RuleDef) : Context → Value → Except Failure Value :=
  LinkedRule.shape ⟨d.name, .endOfInput, d.captureAs, d.processor, d.ifNoMatch, d.pick, d.asNode⟩

theorem LinkedRule.shape_written (r : LinkedRule) (ctx : Context) (v : Value) :
    r.shape ctx v = RuleDef.shape r.written ctx v :=
  rfl

/-- A linked pattern as it was written. -/
abbrev LinkedPattern.written (q : LinkedPattern) : PatternDef :=
  q.map Lexeme.toTerminal RuleRef.name

/-- What is kept: of the matches of rules in some inputs, and of failures. -/
structure Invariant where
  good : Input → Prop
  holds : Input → String → Bool → Nat → Matched → Prop
  fails : Failure → Prop

namespace Invariant

variable (I : Invariant)

def calls (input : Input) : Calls := fun r trivia offset m =>
  m.Placed input.text offset ∧ I.holds input r trivia offset m

/-- Nested parses of good inputs have what is kept. -/
def Answers (input : Input) (reparse : String → String → Nat → Except Failure (Option Value)) :
    Prop :=
  ∀ name text offset, I.good (input.within text offset) →
    (∀ v, reparse name text offset = .ok (some v) →
      ∃ m, I.calls (input.within text offset) name false 0 m ∧ m.value = v) ∧
    ∀ e, reparse name text offset = .error e → I.fails e

/-- Every rule of a table keeps it. -/
structure Closed (s : Setting) (table : List RuleDef) : Prop where
  deep : ∀ input offset, I.good input → input.text.Boundary offset →
    I.fails (.tooDeep s.limit (input.base + offset))
  shape : ∀ input, I.good input → ∀ d ∈ table, ∀ trivia offset m, input.text.Boundary offset →
    m.Placed input.text offset →
    Matches s.grammar.trivia input.text (I.calls input) d.pattern trivia offset m →
    ∀ reparse, I.Answers input reparse →
    let o := RuleDef.shape d ⟨⟨m.start, m.stop⟩, input, s.lines, s.options, reparse⟩ m.value
    (∀ v, o = .ok v → I.holds input d.name trivia offset { m with value := v }) ∧
      ∀ e, o = .error e → I.fails e

end Invariant

/-- A pattern of a grammar: its terminals are read and its rules known, and its scanners take what
is there. -/
def LinkedPattern.Fit (g : Grammar) (q : LinkedPattern) : Prop :=
  q.Every Lexeme.Read (RuleRef.Resolved g.index) ∧ ∀ sc ∈ q.scanners, sc.Honest

/-- The rules of a grammar are those of a table, under the numbers of their names. -/
structure Grammar.Lists (g : Grammar) (table : List RuleDef) : Prop where
  written : ∀ (id : Nat) (r : LinkedRule), g.rules[id]? = some r →
    r.written ∈ table ∧ LinkedPattern.Fit g r.pattern
  named : ∀ (name : String) (id : Nat), g.index[name]? = some id →
    ∃ r, g.rules[id]? = some r ∧ r.name = name

/-- A linked grammar lists its table. -/
theorem Grammar.lists_of_link {table : List RuleDef} {trivia : Option Terminal} {g : Grammar}
    (h : link table trivia = .ok g)
    (honest : ∀ sc ∈ table.flatMap (·.pattern.scanners), sc.Honest) : g.Lists table := by
  obtain ⟨hrules, hevery⟩ := link_rules h
  obtain ⟨index, hindex, h⟩ := bind_ok h
  obtain ⟨rules, -, h⟩ := bind_ok h
  obtain ⟨l, -, h⟩ := bind_ok h
  cases h
  refine ⟨fun id r hr => ?_, fun name id hid => ?_⟩
  · have hr : r ∈ rules := List.mem_of_getElem? (by simpa using hr)
    have hwritten : r.written ∈ table := by
      rw [← hrules]
      exact List.mem_map_of_mem hr
    refine ⟨hwritten, hevery r hr, fun sc hsc => ?_⟩
    refine honest sc (List.mem_flatMap.2 ⟨r.written, hwritten, ?_⟩)
    rw [LinkedRule.written, Pattern.scanners_map]
    exact hsc
  · obtain hold | ⟨k, d, hd, hname, rfl⟩ := number_named hindex hid
    · simp at hold
    · rw [← hrules, List.getElem?_map] at hd
      obtain ⟨r, hr, rfl⟩ := Option.map_eq_some_iff.1 hd
      refine ⟨r, ?_, hname⟩
      rw [Nat.zero_add]
      simpa using hr

section Keeping

variable {s : Setting} {table : List RuleDef} {I : Invariant}

/-- A match of the rule with a number has what is kept. -/
def Invariant.Kept (I : Invariant) (s : Setting) (input : Input) (id : Nat) (trivia : Bool)
    (offset : Nat) (m : Matched) : Prop :=
  ∀ r : LinkedRule, s.grammar.rules[id]? = some r → I.calls input r.name trivia offset m

/-- What is remembered has what is kept, and parsing came as far as between two characters. -/
structure Invariant.Remembers (I : Invariant) (s : Setting) (input : Input) (m : Memory) :
    Prop where
  memo : ∀ (c : Call) (found : Matched), m.memo[c]? = some (some found) →
    I.Kept s input c.rule c.trivia c.offset found
  furthest : input.text.Boundary m.furthest

theorem Invariant.Remembers.note {input : Input} {m : Memory} (h : I.Remembers s input m)
    {offset : Nat} (hb : input.text.Boundary offset) : I.Remembers s input (m.note offset) := by
  refine ⟨fun c found hc => h.memo c found ?_, ?_⟩
  · rw [m.note_memo offset] at hc
    exact hc
  · simp only [Memory.note]
    split
    · exact hb
    · exact h.furthest

theorem Invariant.Remembers.storing {input : Input} {m : Memory} (h : I.Remembers s input m)
    {c : Call} {o : Except Failure (Option Matched)}
    (ho : ∀ found, o = .ok (some found) → I.Kept s input c.rule c.trivia c.offset found) :
    I.Remembers s input (m.storing c o) := by
  cases o with
  | error e => exact h
  | ok outcome =>
    refine ⟨fun d found hd => ?_, h.furthest⟩
    rw [Memory.storing, Std.HashMap.getElem?_insert] at hd
    split at hd
    · rename_i hcd
      obtain rfl : c = d := eq_of_beq hcd
      exact ho found (congrArg Except.ok (Option.some.inj hd))
    · exact h.memo d found hd

theorem Invariant.remembers_empty (I : Invariant) (s : Setting) {input : Input}
    (hb : input.text.Boundary 0) : I.Remembers s input .empty := by
  refine ⟨fun c found h => ?_, hb⟩
  simp [Memory.empty] at h

theorem Invariant.Remembers.settle {input : Input} {σ : Progress}
    (h : I.Remembers s input σ.memory) {start : Nat} (hb : input.text.Boundary start)
    (found : Option Matched) : I.Remembers s input (σ.settle start found).memory := by
  cases found with
  | some m => exact h
  | none =>
    simp only [Progress.settle]
    split
    · exact h
    · exact h.note hb

/-- The matches of a linked pattern by what was written. -/
def Invariant.MatchesOf (I : Invariant) (s : Setting) (input : Input) (trivia : Bool)
    (q : LinkedPattern) : Nat → Matched → Prop :=
  Matches s.grammar.trivia input.text (I.calls input) q.written trivia

/-- What a repetition in progress has matched so far. -/
def Invariant.GrownOf (I : Invariant) (s : Setting) (input : Input) (r : Repetition)
    (rs : Rounds) : Prop :=
  rs.Grown (I.MatchesOf s input r.trivia r.item)
    (r.separator.map (I.MatchesOf s input r.trivia)) r.offset

/-- The pattern of a repetition and its separators belong to the grammar, and it begins between two
characters. -/
def Repetition.Fit (s : Setting) (input : Input) (r : Repetition) : Prop :=
  (r.item.Fit s.grammar ∧ ∀ q ∈ r.separator, q.Fit s.grammar) ∧ input.text.Boundary r.offset

/-- What is known when a job begins. -/
def Invariant.Before (I : Invariant) (s : Setting) (input : Input) : Job → Prop
  | .call _ offset _ => input.text.Boundary offset
  | .evaluate _ offset _ => input.text.Boundary offset
  | .pattern q _ offset => q.Fit s.grammar ∧ input.text.Boundary offset
  | .components cs _ ps => LinkedPattern.Fit s.grammar (.sequence cs) ∧
    ∃ offset, Run input.text offset ps.start ps.cursor
  | .alternatives qs _ offset => LinkedPattern.Fit s.grammar (.choice qs) ∧
    input.text.Boundary offset
  | .rounds r rs => r.Fit s input ∧ I.GrownOf s input r rs
  | .item r rs next => r.Fit s input ∧ I.GrownOf s input r rs ∧
    rs.Next (r.separator.map (I.MatchesOf s input r.trivia)) next

/-- What is known of the match that a job ends with. -/
def Invariant.After (I : Invariant) (s : Setting) (input : Input) : Job → Matched → Prop
  | .call id offset trivia, m => I.Kept s input id trivia offset m
  | .evaluate id offset trivia, m => I.Kept s input id trivia offset m
  | .pattern q trivia offset, m => I.MatchesOf s input trivia q offset m
  | .components cs trivia ps, m => ∃ ps', MatchesParts s.grammar.trivia input.text (I.calls input)
    (Pattern.mapComponents Lexeme.toTerminal RuleRef.name cs) trivia ps ps' ∧
    m = ps'.finish input.text
  | .alternatives qs trivia offset, m => MatchesOne s.grammar.trivia input.text (I.calls input)
    (Pattern.mapAll Lexeme.toTerminal RuleRef.name qs) trivia offset m
  | .rounds r _, m => MatchesRounds (I.MatchesOf s input r.trivia r.item)
    (r.separator.map (I.MatchesOf s input r.trivia)) r.least r.offset m
  | .item r _ _, m => MatchesRounds (I.MatchesOf s input r.trivia r.item)
    (r.separator.map (I.MatchesOf s input r.trivia)) r.least r.offset m

theorem Invariant.MatchesOf.placed {input : Input} {trivia : Bool} {q : LinkedPattern}
    (hq : q.Fit s.grammar) {offset : Nat} (hb : input.text.Boundary offset) {m : Matched}
    (h : I.MatchesOf s input trivia q offset m) : m.Placed input.text offset := by
  refine matches_placed (fun _ _ _ _ _ hm => hm.1) q.written ?_ trivia offset m hb h
  rw [LinkedPattern.written, Pattern.scanners_map]
  exact hq.2

section Rounds

variable {input : Input} {r : Repetition} {rs : Rounds} {next : Nat}

theorem Invariant.separator_placed (hr : r.Fit s input) : ∀ p ∈ r.separator.map
    (I.MatchesOf s input r.trivia), ∀ o m, input.text.Boundary o → p o m →
    m.Placed input.text o := by
  intro p hp o m hb hm
  obtain ⟨q, hq, rfl⟩ := Option.map_eq_some_iff.1 hp
  exact Invariant.MatchesOf.placed (hr.1.2 q hq) hb hm

theorem Invariant.GrownOf.here (h : I.GrownOf s input r rs) (hr : r.Fit s input) :
    input.text.Boundary rs.cursor :=
  (Rounds.Grown.run (fun _ _ hb hm => Invariant.MatchesOf.placed hr.1.1 hb hm)
    (Invariant.separator_placed hr) h hr.2).here

theorem Invariant.GrownOf.onward (h : I.GrownOf s input r rs) (hr : r.Fit s input)
    (hnext : rs.Next (r.separator.map (I.MatchesOf s input r.trivia)) next) :
    input.text.Boundary next :=
  (hnext.placed (Invariant.separator_placed hr) (h.here hr)).2

end Rounds

theorem LinkedPattern.Fit.sequence_cons {g : Grammar} {field : Option String} {capture : Capture}
    {q : LinkedPattern} {rest : List (Component LinkedPattern)}
    (h : LinkedPattern.Fit g (.sequence (⟨field, capture, q⟩ :: rest))) :
    q.Fit g ∧ LinkedPattern.Fit g (.sequence rest) := by
  obtain ⟨⟨hq, hrest⟩, honest⟩ := h
  obtain ⟨honest, honest'⟩ := List.forall_mem_append.1 honest
  exact ⟨⟨hq, honest⟩, hrest, honest'⟩

theorem LinkedPattern.Fit.choice_cons {g : Grammar} {q : LinkedPattern} {rest : List LinkedPattern}
    (h : LinkedPattern.Fit g (.choice (q :: rest))) :
    q.Fit g ∧ LinkedPattern.Fit g (.choice rest) := by
  obtain ⟨⟨hq, hrest⟩, honest⟩ := h
  obtain ⟨honest, honest'⟩ := List.forall_mem_append.1 honest
  exact ⟨⟨hq, honest⟩, hrest, honest'⟩

theorem LinkedPattern.Fit.repetition {g : Grammar} {item : LinkedPattern}
    {separator : Option LinkedPattern} {least : Nat} {trailing : Bool}
    (h : LinkedPattern.Fit g (.repetition item separator least trailing)) :
    item.Fit g ∧ ∀ q ∈ separator, q.Fit g := by
  cases separator with
  | none => exact ⟨h, by simp⟩
  | some separator =>
    obtain ⟨⟨hitem, hseparator⟩, honest⟩ := h
    obtain ⟨honest, honest'⟩ := List.forall_mem_append.1 honest
    refine ⟨⟨hitem, honest⟩, ?_⟩
    rintro q ⟨⟩
    exact ⟨hseparator, honest'⟩

/-- How a job ends that keeps it. -/
structure Invariant.Keeps (I : Invariant) (s : Setting) (input : Input) (job : Job)
    (o : Except Failure (Option Matched)) (m : Memory) : Prop where
  memory : I.Remembers s input m
  found : ∀ m, o = .ok (some m) → I.After s input job m
  failed : ∀ e, o = .error e → I.fails e

section Steps

variable {input : Input} {job job' : Job} {o : Except Failure (Option Matched)} {m : Memory}

theorem Invariant.Keeps.imp (h : I.Keeps s input job o m)
    (hafter : ∀ m, I.After s input job m → I.After s input job' m) : I.Keeps s input job' o m :=
  ⟨h.memory, fun m hm => hafter m (h.found m hm), h.failed⟩

/-- A job that ends with something made of the outcome of another one. -/
theorem Invariant.Keeps.map (h : I.Keeps s input job o m)
    {f : Option Matched → Option Matched}
    (hafter : ∀ found m, (∀ m', found = some m' → I.After s input job m') → f found = some m →
      I.After s input job' m) : I.Keeps s input job' (o.map f) m := by
  cases o with
  | error e => exact ⟨h.memory, nofun, h.failed⟩
  | ok found =>
    refine ⟨h.memory, fun m hm => ?_, nofun⟩
    exact hafter found m (fun m' hm' => h.found m' (congrArg Except.ok hm')) (Except.ok.inj hm)

theorem Invariant.Keeps.unmatched (h : I.Keeps s input job o m) (ho : Unmatched o) :
    I.Keeps s input job' o m :=
  ⟨h.memory, fun m hm => absurd hm (ho m), h.failed⟩

/-- A terminal, scanner or the end, tried behind trivia. -/
theorem Invariant.keeps_leaf {σ : Progress} (hσ : I.Remembers s input σ.memory)
    {offset start : Nat} {trivia : Bool} (hb : input.text.Boundary offset)
    (hl : LeadsTo s.grammar.trivia input.text trivia offset start) {found : Option Matched}
    (hfound : ∀ m, found = some m → I.After s input job m) :
    I.Keeps s input job (.ok found) (σ.settle start found).memory :=
  ⟨hσ.settle (hl.placed hb).2 found, fun m hm => hfound m (Except.ok.inj hm), nofun⟩

theorem Invariant.keeps_finish {σ : Progress} (hσ : I.Remembers s input σ.memory)
    {r : Repetition} {rs : Rounds} {stop : Nat} (hgrown : I.GrownOf s input r rs)
    (hstop : stop = rs.cursor ∨
      rs.cursor < stop ∧ rs.Next (r.separator.map (I.MatchesOf s input r.trivia)) stop)
    (hjob : ∀ m, I.After s input (.rounds r rs) m → I.After s input job m) :
    I.Keeps s input job (r.finish { rs with cursor := stop }) σ.memory :=
  ⟨hσ, fun m hm => hjob m ⟨rs, stop, hgrown, hstop, Except.ok.inj hm⟩, nofun⟩

end Steps

/-- Nested parses that keep it have answers that do. -/
theorem Invariant.answers_of (hl : s.grammar.Lists table) {input : Input}
    {outcomes : String → String → Nat → Except Failure (Option Matched)}
    (h : ∀ name text offset id, s.grammar.ruleId? name = some id →
      I.good (input.within text offset) →
      (∀ m, outcomes name text offset = .ok (some m) →
        I.Kept s (input.within text offset) id false 0 m) ∧
      ∀ e, outcomes name text offset = .error e → I.fails e) :
    I.Answers input (answers s.grammar outcomes) := by
  intro name text offset hnested
  simp only [answers]
  cases hid : s.grammar.ruleId? name with
  | none => exact ⟨(fun _ h => by cases h), fun _ h => by cases h⟩
  | some id =>
    obtain ⟨hfound, hfailed⟩ := h name text offset id hid hnested
    obtain ⟨r, hr, rfl⟩ := hl.named name id hid
    show (∀ v, verdict (outcomes r.name text offset) = .ok (some v) → _) ∧
      ∀ e, verdict (outcomes r.name text offset) = .error e → _
    cases ho : outcomes r.name text offset with
    | error e =>
      simp only [verdict]
      split
      · refine ⟨(fun _ h => by cases h), ?_⟩
        rintro e' ⟨⟩
        exact hfailed e ho
      · exact ⟨(fun _ h => by cases h), fun _ h => by cases h⟩
    | ok found =>
      refine ⟨fun v hv => ?_, fun _ h => by cases h⟩
      obtain ⟨m, rfl, rfl⟩ := Option.map_eq_some_iff.1 (Except.ok.inj hv)
      exact ⟨m, hfound m ho r hr, rfl⟩

/-- What the rules of a table keep is kept by every job that begins in a good input. -/
theorem Exec.keeps (hc : I.Closed s table) (hl : s.grammar.Lists table) {P : Nat → Prop}
    {input : Input} {job : Job} {σ σ' : Progress} {o : Except Failure (Option Matched)}
    (h : Exec s P input job σ o σ') (hgood : I.good input)
    (hσ : I.Remembers s input σ.memory) (hbefore : I.Before s input job) :
    I.Keeps s input job o σ'.memory := by
  induction h with
  | @recalled input rule offset trivia σ outcome hmemo =>
    refine ⟨hσ, ?_, fun _ h => by cases h⟩
    rintro m ⟨rfl⟩
    exact hσ.memo _ m hmemo
  | tooDeep _ _ =>
    refine ⟨hσ, (fun _ h => by cases h), ?_⟩
    rintro e ⟨⟩
    exact hc.deep _ _ hgood hbefore
  | entered _ _ _ _ ih =>
    obtain ⟨hmemory, hfound, hfailed⟩ := ih hgood hσ hbefore
    exact ⟨hmemory.storing hfound, hfound, hfailed⟩
  | unknown _ => exact ⟨hσ, (fun _ h => by cases h), fun _ h => by cases h⟩
  | unshaped hr _ hnone ih =>
    exact (ih hgood hσ ⟨(hl.written _ _ hr).2, hbefore⟩).unmatched hnone
  | @shaped input rule offset trivia r σ σ' m outcomes ends hr _ _ ih ihn =>
    obtain ⟨hwritten, hfit⟩ := hl.written _ _ hr
    obtain ⟨hmemory, hfound, -⟩ := ih hgood hσ ⟨hfit, hbefore⟩
    have hmatches := hfound m rfl
    have hplaced := Invariant.MatchesOf.placed hfit hbefore hmatches
    have hanswers : I.Answers input (answers s.grammar outcomes) := by
      refine Invariant.answers_of hl fun name text offset id hid hnested => ?_
      have hstart : (input.within text offset).text.Boundary 0 := ⟨_, Text.has_start _⟩
      obtain ⟨-, hfound, hfailed⟩ := ihn name text offset id hid hnested
        (I.remembers_empty s hstart) hstart
      exact ⟨hfound, hfailed⟩
    obtain ⟨hok, herror⟩ := hc.shape input hgood _ hwritten trivia offset m hbefore hplaced
      hmatches _ hanswers
    rw [LinkedRule.shape_written]
    refine ⟨hmemory, fun m' hm' r' hr' => ?_, fun e he => ?_⟩
    · obtain rfl := Option.some.inj (hr.symm.trans hr')
      cases hv : RuleDef.shape r.written
          ⟨⟨m.start, m.stop⟩, input, s.lines, s.options, answers s.grammar outcomes⟩ m.value with
      | error e =>
        rw [hv] at hm'
        cases hm'
      | ok v =>
        rw [hv] at hm'
        cases hm'
        exact ⟨⟨hplaced.behind, hplaced.forward, hplaced.start, hplaced.stop⟩, hok v hv⟩
    · cases hv : RuleDef.shape r.written
          ⟨⟨m.start, m.stop⟩, input, s.lines, s.options, answers s.grammar outcomes⟩ m.value with
      | error e' =>
        rw [hv] at he
        cases he
        exact herror e hv
      | ok v =>
        rw [hv] at he
        cases he
  | terminal hlead =>
    exact Invariant.keeps_leaf hσ hbefore.2 hlead fun m hm =>
      ⟨_, _, rfl, hbefore.1.1, hlead, hm⟩
  | scan hlead => exact Invariant.keeps_leaf hσ hbefore.2 hlead fun m hm => ⟨_, hlead, hm⟩
  | endOfInput hlead => exact Invariant.keeps_leaf hσ hbefore.2 hlead fun m hm => ⟨_, hlead, hm⟩
  | @rule input ref trivia offset σ σ' o _ ih =>
    refine (ih hgood hσ hbefore.2).imp fun m hm => ?_
    obtain ⟨r, hr, hname⟩ := hl.named _ _ hbefore.1.1
    have hkept := hm r hr
    rw [hname] at hkept
    exact hkept
  | sequence _ ih =>
    exact (ih hgood hσ ⟨hbefore.1, _, .starting hbefore.2⟩).imp fun m hm => hm
  | choice _ ih => exact (ih hgood hσ hbefore).imp fun m hm => hm
  | @repetition input item separator least trailing trivia offset σ σ' o _ ih =>
    obtain ⟨hfit, hb⟩ := hbefore
    refine (ih hgood hσ ⟨⟨hfit.repetition, hb⟩, .start⟩).imp fun m hm => ?_
    cases separator <;> exact hm
  | optional _ ih =>
    refine (ih hgood hσ hbefore).map fun found m hfound hm => ?_
    cases found with
    | none => exact .inr (Option.some.inj hm).symm
    | some m' =>
      obtain rfl := Option.some.inj hm
      exact .inl (hfound m' rfl)
  | @ahead input negated p trivia offset σ σ' o _ ih =>
    refine (ih hgood hσ hbefore).map fun found m hfound hm => ?_
    rw [Option.ite_none_right_eq_some] at hm
    obtain ⟨hsome, hm⟩ := hm
    refine ⟨fun hneg => ?_, (Option.some.inj hm).symm⟩
    rw [hneg, bne_iff_ne, Bool.ne_false_iff, Option.isSome_iff_exists] at hsome
    obtain ⟨m', hm'⟩ := hsome
    exact ⟨m', hfound m' hm'⟩
  | trivia _ ih => exact (ih hgood hσ hbefore).imp fun m hm => hm
  | silent _ ih =>
    refine (ih hgood hσ hbefore).map fun found m hfound hm => ?_
    obtain ⟨m', rfl, rfl⟩ := Option.map_eq_some_iff.1 hm
    exact ⟨m', hfound m' rfl, rfl⟩
  | allParts =>
    refine ⟨hσ, ?_, fun _ h => by cases h⟩
    rintro m ⟨rfl⟩
    exact ⟨_, rfl, rfl⟩
  | partUnmatched _ hnone ih =>
    obtain ⟨hfit, offset, hrun⟩ := hbefore
    exact (ih hgood hσ ⟨hfit.sequence_cons.1, hrun.here⟩).unmatched hnone
  | partMatched _ _ ih ih' =>
    obtain ⟨hfit, offset, hrun⟩ := hbefore
    obtain ⟨hfirst, hrest⟩ := hfit.sequence_cons
    obtain ⟨hmemory, hfound, -⟩ := ih hgood hσ ⟨hfirst, hrun.here⟩
    have hmatch := hfound _ rfl
    have hplaced := Invariant.MatchesOf.placed hfirst hrun.here hmatch
    refine (ih' hgood hmemory ⟨hrest, offset, Parts.push_run hrun _ _ hplaced⟩).imp ?_
    rintro m ⟨ps', hps', rfl⟩
    exact ⟨ps', ⟨_, hmatch, hps'⟩, rfl⟩
  | noAlternative => exact ⟨hσ, (fun _ h => by cases h), fun _ h => by cases h⟩
  | thisAlternative _ _ ih =>
    exact (ih hgood hσ ⟨hbefore.1.choice_cons.1, hbefore.2⟩).imp fun m hm => .inl hm
  | nextAlternative _ _ ih ih' =>
    obtain ⟨hfirst, hrest⟩ := hbefore.1.choice_cons
    obtain ⟨hmemory, -, -⟩ := ih hgood hσ ⟨hfirst, hbefore.2⟩
    exact (ih' hgood hmemory ⟨hrest, hbefore.2⟩).imp fun m hm => .inr hm
  | leading hr _ ih =>
    refine (ih hgood hσ ⟨hbefore.1, hbefore.2, .leading ?_⟩).imp fun m hm => hm
    exact hr.imp_left fun hnone => by rw [hnone, Option.map_none]
  | @separated input r p rs σ σ' σ'' m o hr hi _ _ ih ih' =>
    obtain ⟨hfit, hgrown⟩ := hbefore
    obtain ⟨hmemory, hfound, -⟩ := ih hgood hσ ⟨hfit.1.2 p hr, hgrown.here hfit⟩
    have hnext : rs.Next (r.separator.map (I.MatchesOf s input r.trivia)) m.stop :=
      .separated (p := I.MatchesOf s input r.trivia p) (by rw [hr, Option.map_some]) hi
        (hfound m rfl)
    exact (ih' hgood hmemory ⟨hfit, hgrown, hnext⟩).imp fun m hm => hm
  | separatorMissing hr _ _ ih =>
    obtain ⟨hfit, hgrown⟩ := hbefore
    obtain ⟨hmemory, -, -⟩ := ih hgood hσ ⟨hfit.1.2 _ hr, hgrown.here hfit⟩
    exact Invariant.keeps_finish hmemory hgrown (.inl rfl) fun m hm => hm
  | separatorFailed hr _ _ ih =>
    obtain ⟨hfit, hgrown⟩ := hbefore
    exact (ih hgood hσ ⟨hfit.1.2 _ hr, hgrown.here hfit⟩).unmatched fun _ h => by cases h
  | itemFailed _ ih =>
    obtain ⟨hfit, hgrown, hnext⟩ := hbefore
    exact (ih hgood hσ ⟨hfit.1.1, hgrown.onward hfit hnext⟩).unmatched fun _ h => by cases h
  | @itemMissing input r rs next σ σ' _ ih =>
    obtain ⟨hfit, hgrown, hnext⟩ := hbefore
    obtain ⟨hmemory, -, -⟩ := ih hgood hσ ⟨hfit.1.1, hgrown.onward hfit hnext⟩
    unfold Repetition.trailed
    split
    · rename_i htrailing
      rw [Bool.and_eq_true, decide_eq_true_eq] at htrailing
      exact Invariant.keeps_finish hmemory hgrown (.inr ⟨htrailing.2, hnext⟩) fun m hm => hm
    · exact Invariant.keeps_finish hmemory hgrown (.inl rfl) fun m hm => hm
  | itemEmpty _ _ ih =>
    obtain ⟨hfit, hgrown, hnext⟩ := hbefore
    obtain ⟨hmemory, -, -⟩ := ih hgood hσ ⟨hfit.1.1, hgrown.onward hfit hnext⟩
    exact Invariant.keeps_finish hmemory hgrown (.inl rfl) fun m hm => hm
  | @itemMatched input r rs next σ σ' σ'' m o _ hgoes _ ih ih' =>
    obtain ⟨hfit, hgrown, hnext⟩ := hbefore
    obtain ⟨hmemory, hfound, -⟩ := ih hgood hσ ⟨hfit.1.1, hgrown.onward hfit hnext⟩
    have hfirst : m.stop = rs.cursor → rs.items = [] ∧
        r.separator.map (I.MatchesOf s input r.trivia) ≠ none := by
      intro hstop
      by_contra hnot
      refine hgoes ⟨hstop, ?_⟩
      rw [not_and_or, not_not, Option.map_eq_none_iff] at hnot
      exact hnot
    exact (ih' hgood hmemory ⟨hfit, hgrown.more hnext (hfound m rfl) hfirst⟩).imp fun m hm => hm

/-- What a run in a good input keeps: its value is that of a match of the start rule, its failures
are such, and a mismatch lies between two characters. -/
theorem Session.run_keeps (hc : I.Closed s table) (hl : s.grammar.Lists table) {input : Input}
    (hgood : I.good input) (hstart : input.text.Boundary 0) {rule : String} {trivia : Bool} :
    let session := (Session.start s input).run rule trivia
    (∀ v, session.1 = .ok v → ∃ m, I.calls input rule trivia 0 m ∧ m.value = v) ∧
      ∀ e, session.1 = .error e → I.fails e ∨ e = mismatch input session.2.memory ∧
        input.text.Boundary session.2.memory.furthest := by
  obtain ⟨v, m, hx, -, hexec⟩ :=
    runWith_performs (Nat.zero_add s.limit) (sane_empty input.text) rule trivia
  have hrun : (Session.start s input).run rule trivia = (v, ⟨s, input, m⟩) := Session.run_eq hx
  rw [hrun]
  cases hexec with
  | unknown _ =>
    refine ⟨nofun, ?_⟩
    rintro e ⟨⟩
    exact .inr ⟨rfl, hstart⟩
  | @called id σ σ' o hid hexec =>
    obtain ⟨hmemory, hfound, hfailed⟩ :=
      hexec.keeps hc hl hgood (I.remembers_empty s hstart) hstart
    obtain ⟨r, hr, rfl⟩ := hl.named _ _ hid
    cases o with
    | error e =>
      refine ⟨nofun, ?_⟩
      rintro e' ⟨⟩
      exact .inl (hfailed e rfl)
    | ok found =>
      cases found with
      | none =>
        refine ⟨nofun, ?_⟩
        rintro e' ⟨⟩
        exact .inr ⟨rfl, hmemory.furthest⟩
      | some m' =>
        refine ⟨?_, nofun⟩
        rintro v ⟨⟩
        exact ⟨m', hfound m' rfl r hr, rfl⟩

end Keeping

end PhpSyntax.Peg
