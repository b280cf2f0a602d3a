import PhpSyntax.Proofs.Peg.Linking
import PhpSyntax.Proofs.Peg.Termination

namespace PhpSyntax.Peg

def RuleRef.renumber (ρ : Nat → Nat) (r : RuleRef) : RuleRef :=
  { r with id := ρ r.id }

def LinkedPattern.renumber (ρ : Nat → Nat) (q : LinkedPattern) : LinkedPattern :=
  q.map id (RuleRef.renumber ρ)

def LinkedRule.renumber (ρ : Nat → Nat) (r : LinkedRule) : LinkedRule :=
  { r with pattern := LinkedPattern.renumber ρ r.pattern }

def Call.renumber (ρ : Nat → Nat) (c : Call) : Call :=
  { c with rule := ρ c.rule }

def Repetition.renumber (ρ : Nat → Nat) (r : Repetition) : Repetition :=
  { r with
    item := LinkedPattern.renumber ρ r.item
    separator := r.separator.map (LinkedPattern.renumber ρ) }

def Job.renumber (ρ : Nat → Nat) : Job → Job
  | .call rule offset trivia => .call (ρ rule) offset trivia
  | .evaluate rule offset trivia => .evaluate (ρ rule) offset trivia
  | .pattern q trivia offset => .pattern (LinkedPattern.renumber ρ q) trivia offset
  | .components cs trivia ps =>
    .components (Pattern.mapComponents id (RuleRef.renumber ρ) cs) trivia ps
  | .alternatives qs trivia offset =>
    .alternatives (Pattern.mapAll id (RuleRef.renumber ρ) qs) trivia offset
  | .rounds r rs => .rounds (r.renumber ρ) rs
  | .item r rs next => .item (r.renumber ρ) rs next

/-- Every rule in a pattern is one of some rules. -/
def LinkedPattern.Among (kept : Nat → Prop) (q : LinkedPattern) : Prop :=
  q.Every (fun _ => True) fun r => kept r.id

/-- A job on some rules only. -/
def Job.Among (kept : Nat → Prop) : Job → Prop
  | .call rule _ _ => kept rule
  | .evaluate rule _ _ => kept rule
  | .pattern q _ _ => LinkedPattern.Among kept q
  | .components cs _ _ => Pattern.EveryComponent (fun _ => True) (fun r => kept r.id) cs
  | .alternatives qs _ _ => Pattern.EveryAlternative (fun _ => True) (fun r => kept r.id) qs
  | .rounds r _ => LinkedPattern.Among kept r.item ∧ ∀ q ∈ r.separator, LinkedPattern.Among kept q
  | .item r _ _ => LinkedPattern.Among kept r.item ∧ ∀ q ∈ r.separator, LinkedPattern.Among kept q

/-- Two grammars in which the same rules stand under other numbers. Their processors ask for the
rules with some names only. -/
structure Renumbering (g g' : Grammar) (asked : String → Prop) (kept : Nat → Prop)
    (ρ : Nat → Nat) : Prop where
  trivia : g'.trivia = g.trivia
  rules : ∀ id, kept id → g'.rules[ρ id]? = g.rules[id]?.map (LinkedRule.renumber ρ)
  inside : ∀ id r, kept id → g.rules[id]? = some r → LinkedPattern.Among kept r.pattern
  injective : ∀ id id', kept id → kept id' → ρ id = ρ id' → id = id'
  named : ∀ name id', g'.ruleId? name = some id' →
    ∃ id, g.ruleId? name = some id ∧ kept id ∧ ρ id = id'
  numbered : ∀ name, asked name → g'.ruleId? name = (g.ruleId? name).map ρ
  shape : ∀ id r, kept id → g.rules[id]? = some r → ∀ v span input lines options reparse reparse',
    (∀ name, asked name → ∀ text offset, reparse name text offset = reparse' name text offset) →
    r.shape ⟨span, input, lines, options, reparse⟩ v =
      r.shape ⟨span, input, lines, options, reparse'⟩ v

/-- The same progress with rules under other numbers. -/
structure Progress.Alike (kept : Nat → Prop) (ρ : Nat → Nat) (σ τ : Progress) : Prop where
  depth : τ.depth = σ.depth
  lookaheads : τ.lookaheads = σ.lookaheads
  furthest : τ.memory.furthest = σ.memory.furthest
  memo : ∀ c : Call, kept c.rule → τ.memory.memo[c.renumber ρ]? = σ.memory.memo[c]?

namespace Progress.Alike

variable {kept : Nat → Prop} {ρ : Nat → Nat} {σ τ : Progress} (h : σ.Alike kept ρ τ)

include h

theorem key (rule offset : Nat) (trivia : Bool) :
    τ.key (ρ rule) offset trivia = (σ.key rule offset trivia).renumber ρ := by
  simp only [Progress.key, Call.renumber, h.lookaheads]

theorem remembered {rule : Nat} (hrule : kept rule) (offset : Nat) (trivia : Bool) :
    τ.memory.memo[τ.key (ρ rule) offset trivia]? = σ.memory.memo[σ.key rule offset trivia]? := by
  rw [h.key, h.memo (σ.key rule offset trivia) hrule]

theorem enter : σ.enter.Alike kept ρ τ.enter :=
  ⟨congrArg (· + 1) h.depth, h.lookaheads, h.furthest, h.memo⟩

theorem leave : σ.leave.Alike kept ρ τ.leave :=
  ⟨congrArg (· - 1) h.depth, h.lookaheads, h.furthest, h.memo⟩

theorem lookAhead : σ.lookAhead.Alike kept ρ τ.lookAhead :=
  ⟨h.depth, congrArg (· + 1) h.lookaheads, h.furthest, h.memo⟩

theorem lookBack : σ.lookBack.Alike kept ρ τ.lookBack :=
  ⟨h.depth, congrArg (· - 1) h.lookaheads, h.furthest, h.memo⟩

theorem settle (start : Nat) (found : Option Matched) :
    (σ.settle start found).Alike kept ρ (τ.settle start found) := by
  cases found with
  | some m => exact h
  | none =>
    simp only [Progress.settle, h.lookaheads]
    split
    · exact h
    · refine ⟨h.depth, rfl, ?_, fun c hc => ?_⟩
      · simp only [Memory.note_furthest, h.furthest]
      · simp only [Memory.note_memo, h.memo c hc]

theorem storing (hinj : ∀ id id', kept id → kept id' → ρ id = ρ id' → id = id') {c : Call}
    (hc : kept c.rule) (o : Except Failure (Option Matched)) :
    (σ.storing c o).Alike kept ρ (τ.storing (c.renumber ρ) o) := by
  cases o with
  | error e => exact h
  | ok outcome =>
    refine ⟨h.depth, h.lookaheads, h.furthest, fun d hd => ?_⟩
    have hsame : (c.renumber ρ == d.renumber ρ) = (c == d) := by
      rw [Bool.eq_iff_iff, beq_iff_eq, beq_iff_eq]
      refine ⟨fun heq => ?_, congrArg _⟩
      obtain ⟨rule, offset, trivia, quiet⟩ := c
      obtain ⟨rule', offset', trivia', quiet'⟩ := d
      obtain ⟨hrule, rfl, rfl, rfl⟩ := Call.mk.inj heq
      obtain rfl := hinj _ _ hc hd hrule
      rfl
    simp only [Progress.storing, Memory.storing, Std.HashMap.getElem?_insert, hsame, h.memo d hd]

end Progress.Alike

theorem LinkedPattern.renumber_repetition (ρ : Nat → Nat) (item : LinkedPattern)
    (separator : Option LinkedPattern) (least : Nat) (trailing : Bool) :
    LinkedPattern.renumber ρ (.repetition item separator least trailing) =
      .repetition (LinkedPattern.renumber ρ item)
        (separator.map (LinkedPattern.renumber ρ)) least trailing := by
  cases separator <;> rfl

theorem LinkedPattern.Among.repetition {kept : Nat → Prop} {item : LinkedPattern}
    {separator : Option LinkedPattern} {least : Nat} {trailing : Bool}
    (h : LinkedPattern.Among kept (.repetition item separator least trailing)) :
    LinkedPattern.Among kept item ∧ ∀ q ∈ separator, LinkedPattern.Among kept q := by
  cases separator with
  | none => exact ⟨h, fun q hq => by cases hq⟩
  | some separator =>
    refine ⟨h.1, fun q hq => ?_⟩
    cases hq
    exact h.2

theorem Repetition.renumber_leads {ρ : Nat → Nat} {r : Repetition} {rs : Rounds}
    (h : r.Leads rs) : (r.renumber ρ).Leads rs :=
  h.imp_left fun hr => by rw [renumber, hr, Option.map_none]

theorem Repetition.renumber_separator {ρ : Nat → Nat} {r : Repetition} {q : LinkedPattern}
    (h : r.separator = some q) : (r.renumber ρ).separator = some (LinkedPattern.renumber ρ q) := by
  rw [renumber, h, Option.map_some]

theorem Repetition.renumber_ends {ρ : Nat → Nat} {r : Repetition} {rs : Rounds} {m : Matched} :
    (r.renumber ρ).Ends rs m ↔ r.Ends rs m := by
  simp only [Ends, renumber, Option.map_eq_none_iff]

section Exec

variable {s : Setting} {g' : Grammar} {asked : String → Prop} {kept : Nat → Prop} {ρ : Nat → Nat}
  {P : Nat → Prop} {input : Input} {job : Job} {σ σ' τ : Progress}
  {o : Except Failure (Option Matched)}

/-- What is done with some rules is done with the same rules under other numbers. -/
theorem Exec.renumbered (hr : Renumbering s.grammar g' asked kept ρ)
    (h : Exec s P input job σ o σ') (hjob : job.Among kept) (hτ : σ.Alike kept ρ τ) :
    ∃ τ', Exec { s with grammar := g' } P input (job.renumber ρ) τ o τ' ∧ σ'.Alike kept ρ τ' := by
  induction h generalizing τ with
  | @recalled input rule offset trivia σ outcome hmemo =>
    exact ⟨τ, .recalled ((hτ.remembered hjob offset trivia).trans hmemo), hτ⟩
  | @tooDeep input rule offset trivia σ hmemo hdepth =>
    exact ⟨τ, .tooDeep ((hτ.remembered hjob offset trivia).trans hmemo)
      (hdepth.trans_eq hτ.depth.symm), hτ⟩
  | @entered input rule offset trivia σ σ' o hmemo hdepth hP _ ih =>
    obtain ⟨τ', hexec, hτ'⟩ := ih hjob hτ.enter
    refine ⟨τ'.leave.storing (τ.key (ρ rule) offset trivia) o,
      .entered ((hτ.remembered hjob offset trivia).trans hmemo) (hτ.depth.trans_lt hdepth) ?_ hexec,
      ?_⟩
    · rw [hτ.depth]
      exact hP
    · rw [hτ.key]
      exact hτ'.leave.storing hr.injective (c := σ.key rule offset trivia) hjob o
  | @unknown input rule offset trivia σ hrule =>
    refine ⟨τ, .unknown ?_, hτ⟩
    rw [hr.rules rule hjob, hrule, Option.map_none]
  | @unshaped input rule offset trivia r σ σ' o hrule _ hnone ih =>
    obtain ⟨τ', hexec, hτ'⟩ := ih (hr.inside rule r hjob hrule) hτ
    refine ⟨τ', .unshaped (r := r.renumber ρ) ?_ hexec hnone, hτ'⟩
    rw [hr.rules rule hjob, hrule, Option.map_some]
  | @shaped input rule offset trivia r σ σ' m outcomes ends hrule _ _ ih ihn =>
    obtain ⟨τ', hexec, hτ'⟩ := ih (hr.inside rule r hjob hrule) hτ
    have hnested : ∀ name text offset, ∃ τ₁, ∀ id', g'.ruleId? name = some id' →
        Exec { s with grammar := g' } P (input.within text offset) (.call id' 0 false)
          ⟨.empty, τ'.depth, 0⟩ (outcomes name text offset) τ₁ := by
      intro name text offset
      cases hid' : g'.ruleId? name with
      | none => exact ⟨τ', fun _ h => by cases h⟩
      | some id' =>
        obtain ⟨id, hid, hkept, rfl⟩ := hr.named name id' hid'
        obtain ⟨τ₁, hexec₁, -⟩ := ihn name text offset id hid hkept (τ := ⟨.empty, τ'.depth, 0⟩)
          ⟨hτ'.depth, rfl, rfl, fun c _ => by simp only [Memory.empty, Std.HashMap.getElem?_empty]⟩
        refine ⟨τ₁, fun _ h => ?_⟩
        cases h
        exact hexec₁
    choose ends' hnested using hnested
    have hanswers : ∀ name, asked name → ∀ text offset,
        answers s.grammar outcomes name text offset = answers g' outcomes name text offset := by
      intro name hname text offset
      simp only [answers, hr.numbered name hname]
      cases s.grammar.ruleId? name <;> rfl
    rw [hr.shape rule r hjob hrule _ _ _ _ _ _ _ hanswers]
    refine ⟨τ', .shaped (r := r.renumber ρ) ?_ hexec hnested, hτ'⟩
    rw [hr.rules rule hjob, hrule, Option.map_some]
  | terminal hl => exact ⟨_, .terminal (hr.trivia ▸ hl), hτ.settle _ _⟩
  | scan hl => exact ⟨_, .scan (hr.trivia ▸ hl), hτ.settle _ _⟩
  | endOfInput hl => exact ⟨_, .endOfInput (hr.trivia ▸ hl), hτ.settle _ _⟩
  | rule _ ih =>
    obtain ⟨τ', hexec, hτ'⟩ := ih hjob hτ
    exact ⟨τ', .rule hexec, hτ'⟩
  | sequence _ ih =>
    obtain ⟨τ', hexec, hτ'⟩ := ih hjob hτ
    exact ⟨τ', .sequence hexec, hτ'⟩
  | choice _ ih =>
    obtain ⟨τ', hexec, hτ'⟩ := ih hjob hτ
    exact ⟨τ', .choice hexec, hτ'⟩
  | repetition _ ih =>
    obtain ⟨τ', hexec, hτ'⟩ := ih hjob.repetition hτ
    rw [Job.renumber, LinkedPattern.renumber_repetition]
    exact ⟨τ', .repetition hexec, hτ'⟩
  | optional _ ih =>
    obtain ⟨τ', hexec, hτ'⟩ := ih hjob hτ
    exact ⟨τ', .optional hexec, hτ'⟩
  | ahead _ ih =>
    obtain ⟨τ', hexec, hτ'⟩ := ih hjob hτ.lookAhead
    exact ⟨τ'.lookBack, .ahead hexec, hτ'.lookBack⟩
  | trivia _ ih =>
    obtain ⟨τ', hexec, hτ'⟩ := ih hjob hτ
    exact ⟨τ', .trivia hexec, hτ'⟩
  | silent _ ih =>
    obtain ⟨τ', hexec, hτ'⟩ := ih hjob hτ
    exact ⟨τ', .silent hexec, hτ'⟩
  | allParts => exact ⟨τ, .allParts, hτ⟩
  | partUnmatched _ hnone ih =>
    obtain ⟨τ', hexec, hτ'⟩ := ih hjob.1 hτ
    exact ⟨τ', .partUnmatched hexec hnone, hτ'⟩
  | partMatched _ _ ih ih' =>
    obtain ⟨τ₁, hexec, hτ₁⟩ := ih hjob.1 hτ
    obtain ⟨τ', hexec', hτ'⟩ := ih' hjob.2 hτ₁
    exact ⟨τ', .partMatched hexec hexec', hτ'⟩
  | noAlternative => exact ⟨τ, .noAlternative, hτ⟩
  | thisAlternative _ hsome ih =>
    obtain ⟨τ', hexec, hτ'⟩ := ih hjob.1 hτ
    exact ⟨τ', .thisAlternative hexec hsome, hτ'⟩
  | nextAlternative _ _ ih ih' =>
    obtain ⟨τ₁, hexec, hτ₁⟩ := ih hjob.1 hτ
    obtain ⟨τ', hexec', hτ'⟩ := ih' hjob.2 hτ₁
    exact ⟨τ', .nextAlternative hexec hexec', hτ'⟩
  | leading hlead _ ih =>
    obtain ⟨τ', hexec, hτ'⟩ := ih hjob hτ
    exact ⟨τ', .leading (Repetition.renumber_leads hlead) hexec, hτ'⟩
  | separated hsep hitems _ _ ih ih' =>
    obtain ⟨τ₁, hexec, hτ₁⟩ := ih (hjob.2 _ hsep) hτ
    obtain ⟨τ', hexec', hτ'⟩ := ih' hjob hτ₁
    exact ⟨τ', .separated (Repetition.renumber_separator hsep) hitems hexec hexec', hτ'⟩
  | separatorMissing hsep hitems _ ih =>
    obtain ⟨τ', hexec, hτ'⟩ := ih (hjob.2 _ hsep) hτ
    exact ⟨τ', .separatorMissing (Repetition.renumber_separator hsep) hitems hexec, hτ'⟩
  | separatorFailed hsep hitems _ ih =>
    obtain ⟨τ', hexec, hτ'⟩ := ih (hjob.2 _ hsep) hτ
    exact ⟨τ', .separatorFailed (Repetition.renumber_separator hsep) hitems hexec, hτ'⟩
  | itemFailed _ ih =>
    obtain ⟨τ', hexec, hτ'⟩ := ih hjob.1 hτ
    exact ⟨τ', .itemFailed hexec, hτ'⟩
  | itemMissing _ ih =>
    obtain ⟨τ', hexec, hτ'⟩ := ih hjob.1 hτ
    exact ⟨τ', .itemMissing hexec, hτ'⟩
  | itemEmpty _ hends ih =>
    obtain ⟨τ', hexec, hτ'⟩ := ih hjob.1 hτ
    exact ⟨τ', .itemEmpty hexec (Repetition.renumber_ends.2 hends), hτ'⟩
  | itemMatched _ hgoes _ ih ih' =>
    obtain ⟨τ₁, hexec, hτ₁⟩ := ih hjob.1 hτ
    obtain ⟨τ', hexec', hτ'⟩ := ih' hjob hτ₁
    exact ⟨τ', .itemMatched hexec (fun h => hgoes (Repetition.renumber_ends.1 h)) hexec', hτ'⟩

/-- A run finds the same under other numbers. -/
theorem RunExec.renumbered (hr : Renumbering s.grammar g' asked kept ρ) {rule : String}
    {trivia : Bool} {v : Except Failure Value} (h : RunExec s P input rule trivia σ v σ')
    (hrule : asked rule) (hτ : σ.Alike kept ρ τ) :
    ∃ τ', RunExec { s with grammar := g' } P input rule trivia τ v τ' ∧ σ'.Alike kept ρ τ' := by
  have hnumber := hr.numbered rule hrule
  have hmismatch : ∀ {σ τ : Progress}, σ.Alike kept ρ τ → ∀ o,
      conclusion input σ.memory o = conclusion input τ.memory o := by
    intro σ τ h o
    simp only [conclusion, mismatch, h.furthest]
  cases h with
  | unknown hid =>
    rw [hid, Option.map_none] at hnumber
    have hsame : mismatch input σ.memory = mismatch input τ.memory := by
      simp only [mismatch, hτ.furthest]
    rw [hsame]
    exact ⟨τ, .unknown hnumber, hτ⟩
  | @called id _ _ o hid hexec =>
    rw [hid, Option.map_some] at hnumber
    obtain ⟨id', hid', hkept, -⟩ := hr.named rule _ hnumber
    obtain rfl := Option.some.inj (hid.symm.trans hid')
    obtain ⟨τ', hexec', hτ'⟩ := hexec.renumbered hr hkept hτ
    rw [hmismatch hτ']
    exact ⟨τ', .called hnumber hexec', hτ'⟩

end Exec

namespace Session

/-- The same runs of sessions that parse the same input by grammars with other numbers. -/
structure Alike (g' : Grammar) (kept : Nat → Prop) (ρ : Nat → Nat) (session session' : Session) :
    Prop where
  setting : session'.setting = { session.setting with grammar := g' }
  input : session'.input = session.input
  sane : Sane session.input.text session.memory
  sane' : Sane session.input.text session'.memory
  progress : session.progress.Alike kept ρ session'.progress

variable {g' : Grammar} {asked : String → Prop} {kept : Nat → Prop} {ρ : Nat → Nat}
  {session session' : Session}

theorem Alike.run (h : session.Alike g' kept ρ session')
    (hr : Renumbering session.setting.grammar g' asked kept ρ) {rule : String} (hrule : asked rule)
    (trivia : Bool) : (session'.run rule trivia).1 = (session.run rule trivia).1 ∧
      (session.run rule trivia).2.Alike g' kept ρ (session'.run rule trivia).2 := by
  obtain ⟨hsetting, hinput, hsane, hsane', hprogress⟩ := h
  have hsane'' : Sane session'.input.text session'.memory := by
    rw [hinput]
    exact hsane'
  obtain ⟨v, m, hrun, hm, hexec⟩ := run_exec hsane rule trivia
  obtain ⟨v', m', hrun', hm', hexec'⟩ := run_exec hsane'' rule trivia
  rw [hsetting, hinput] at hexec'
  rw [hinput] at hm'
  obtain ⟨τ', hrenumbered, hτ'⟩ := hexec.renumbered hr hrule hprogress
  obtain ⟨rfl, rfl⟩ := hexec'.unique hrenumbered
  rw [hrun, hrun']
  exact ⟨rfl, hsetting, hinput, hm, hm', hτ'⟩

theorem Alike.after (h : session.Alike g' kept ρ session')
    (hr : Renumbering session.setting.grammar g' asked kept ρ) {runs : List (String × Bool)}
    (hruns : ∀ start ∈ runs, asked start.1) :
    (session.after Session.run runs).Alike g' kept ρ (session'.after Session.run runs) := by
  induction runs generalizing session session' with
  | nil => exact h
  | cons start rest ih =>
    obtain ⟨rule, trivia⟩ := start
    obtain ⟨hrule, hrest⟩ := List.forall_mem_cons.1 hruns
    obtain ⟨-, hnext⟩ := h.run hr hrule trivia
    obtain ⟨v, m, hrun, -⟩ := run_exec h.sane rule trivia
    have hr' : Renumbering (session.run rule trivia).2.setting.grammar g' asked kept ρ := by
      rw [hrun]
      exact hr
    exact ih hnext hr' hrest

end Session

end PhpSyntax.Peg
