import PhpSyntax.Proofs.Peg.Termination

namespace PhpSyntax.Peg

namespace Memory

/-- What is remembered in a memory is remembered in another one, with the same outcomes. -/
def Within (m n : Memory) : Prop :=
  ∀ (c : Call) (outcome : Option Matched), m.memo[c]? = some outcome → n.memo[c]? = some outcome

variable {m n k : Memory}

theorem within_of_eq (h : m.memo = n.memo) : m.Within n := by
  intro c outcome hc
  rwa [← h]

theorem Within.trans (h : m.Within n) (h' : n.Within k) : m.Within k :=
  fun c outcome hc => h' c outcome (h c outcome hc)

theorem Within.none (h : m.Within n) {c : Call} (hc : n.memo[c]? = .none) : m.memo[c]? = .none := by
  cases hm : m.memo[c]? with
  | none => rfl
  | some outcome =>
    rw [h c outcome hm] at hc
    cases hc

theorem storing_furthest (m : Memory) (c : Call) (o : Except Failure (Option Matched)) :
    (m.storing c o).furthest = m.furthest := by
  cases o <;> rfl

theorem within_storing {c : Call} (hc : m.memo[c]? = .none) (h : m.Within n)
    (o : Except Failure (Option Matched)) : m.Within (n.storing c o) := by
  cases o with
  | error e => exact h
  | ok outcome =>
    intro d found hd
    rw [storing, Std.HashMap.getElem?_insert]
    split
    · rename_i hcd
      obtain rfl : c = d := eq_of_beq hcd
      rw [hc] at hd
      cases hd
    · exact h d found hd

end Memory

namespace Progress

def quiet (σ : Progress) : Bool :=
  decide (0 < σ.lookaheads)

theorem key_congr {σ τ : Progress} (h : τ.quiet = σ.quiet) (rule offset : Nat) (trivia : Bool) :
    τ.key rule offset trivia = σ.key rule offset trivia :=
  congrArg (Call.mk rule offset trivia) h

theorem quiet_lookAhead (σ : Progress) : σ.lookAhead.quiet = true := by
  simp only [quiet, lookAhead, Nat.zero_lt_succ, decide_true]

theorem le_settle_furthest (σ : Progress) (start : Nat) (found : Option Matched) :
    σ.memory.furthest ≤ (σ.settle start found).memory.furthest := by
  cases found with
  | some m => exact Nat.le_refl _
  | none =>
    simp only [settle]
    split
    · exact Nat.le_refl _
    · rw [Memory.note_furthest]
      exact Nat.le_max_left ..

theorem settle_memo (σ : Progress) (start : Nat) (found : Option Matched) :
    (σ.settle start found).memory.memo = σ.memory.memo := by
  cases found with
  | some m => rfl
  | none =>
    simp only [settle]
    split
    · rfl
    · exact σ.memory.note_memo start

end Progress

section Replaying

variable {s : Setting} {P : Nat → Prop} {input : Input} {job : Job} {σ σ' : Progress}
  {o : Except Failure (Option Matched)}

theorem Exec.quiet (h : Exec s P input job σ o σ') : σ'.quiet = σ.quiet := by
  simp only [Progress.quiet, h.counters.2]

/-- Nothing that is remembered is forgotten or changed. -/
theorem Exec.grows (h : Exec s P input job σ o σ') : σ.memory.Within σ'.memory := by
  induction h with
  | entered hnew _ _ _ ih => exact Memory.within_storing hnew ih _
  | terminal _ => exact Memory.within_of_eq (Progress.settle_memo ..).symm
  | scan _ => exact Memory.within_of_eq (Progress.settle_memo ..).symm
  | endOfInput _ => exact Memory.within_of_eq (Progress.settle_memo ..).symm
  | partMatched _ _ ih ih' => exact ih.trans ih'
  | nextAlternative _ _ ih ih' => exact ih.trans ih'
  | separated _ _ _ _ ih ih' => exact ih.trans ih'
  | itemMatched _ _ _ ih ih' => exact ih.trans ih'
  | shaped _ _ _ ih _ => exact ih
  | recalled _ => exact Memory.within_of_eq rfl
  | tooDeep _ _ => exact Memory.within_of_eq rfl
  | unknown _ => exact Memory.within_of_eq rfl
  | allParts => exact Memory.within_of_eq rfl
  | noAlternative => exact Memory.within_of_eq rfl
  | _ => assumption

/-- Whether a job is the evaluation of a call, which is never done a second time. -/
def Job.isEvaluation : Job → Bool
  | .evaluate .. => true
  | _ => false

theorem map_eq_ok {α β : Type} {f : α → β} {x : Except Failure α} {b : β} (h : x.map f = .ok b) :
    ∃ a, x = .ok a ∧ f a = b := by
  cases x with
  | error e => cases h
  | ok a => exact ⟨a, rfl, Except.ok.inj h⟩

/-- No mark goes back. -/
theorem Exec.furthest_le (h : Exec s P input job σ o σ') :
    σ.memory.furthest ≤ σ'.memory.furthest := by
  induction h with
  | entered _ _ _ _ ih => exact ih.trans_eq (Memory.storing_furthest ..).symm
  | terminal _ => exact Progress.le_settle_furthest ..
  | scan _ => exact Progress.le_settle_furthest ..
  | endOfInput _ => exact Progress.le_settle_furthest ..
  | partMatched _ _ ih ih' => exact ih.trans ih'
  | nextAlternative _ _ ih ih' => exact ih.trans ih'
  | separated _ _ _ _ ih ih' => exact ih.trans ih'
  | itemMatched _ _ _ ih ih' => exact ih.trans ih'
  | shaped _ _ _ ih _ => exact ih
  | recalled _ => exact Nat.le_refl _
  | tooDeep _ _ => exact Nat.le_refl _
  | unknown _ => exact Nat.le_refl _
  | allParts => exact Nat.le_refl _
  | noAlternative => exact Nat.le_refl _
  | _ => assumption

/-- A job was done again: nothing more is remembered, and nothing new is noted. -/
structure Progress.Again (σ' τ τ' : Progress) : Prop where
  memo : τ'.memory.memo = τ.memory.memo
  furthest : τ'.memory.furthest ≤ max τ.memory.furthest σ'.memory.furthest

namespace Progress.Again

variable {σ₁ σ' τ τ₁ τ' : Progress}

theorem refl (σ' τ : Progress) : Again σ' τ τ :=
  ⟨rfl, Nat.le_max_left ..⟩

theorem trans (h : Again σ₁ τ τ₁) (hσ : σ₁.memory.furthest ≤ σ'.memory.furthest)
    (h' : Again σ' τ₁ τ') : Again σ' τ τ' := by
  refine ⟨h'.memo.trans h.memo, ?_⟩
  have hfirst := h.furthest
  have hrest := h'.furthest
  omega

theorem settle (hq : τ.quiet = σ₁.quiet) (start : Nat) (found : Option Matched) :
    Again (σ₁.settle start found) τ (τ.settle start found) := by
  refine ⟨Progress.settle_memo .., ?_⟩
  cases found with
  | some m => exact Nat.le_max_left ..
  | none =>
    have hlook : 0 < τ.lookaheads ↔ 0 < σ₁.lookaheads := decide_eq_decide.1 hq
    by_cases h : 0 < τ.lookaheads
    · simp only [Progress.settle, h, if_true]
      exact Nat.le_max_left ..
    · simp only [Progress.settle, h, hlook.not.1 h, if_false, Memory.note_furthest]
      omega

end Progress.Again

/-- What was done without a failure is done again in the same way where its outcomes are remembered,
and nothing more is remembered then. -/
theorem Exec.replays (h : Exec s P input job σ o σ') (hjob : job.isEvaluation = false)
    {found : Option Matched} (ho : o = .ok found) {τ : Progress} (hq : τ.quiet = σ.quiet)
    (hm : σ'.memory.Within τ.memory) :
    ∃ τ', Exec s P input job τ (.ok found) τ' ∧ Progress.Again σ' τ τ' := by
  have hagain : ∀ {σ₁ σ₂ τ₁ τ : Progress}, σ₁.memory.Within τ.memory →
      Progress.Again σ₂ τ τ₁ → σ₁.memory.Within τ₁.memory := by
    intro σ₁ σ₂ τ₁ τ hw he
    exact hw.trans (Memory.within_of_eq he.memo.symm)
  induction h generalizing found τ with
  | recalled hmemo =>
    cases ho
    rw [← Progress.key_congr hq] at hmemo
    exact ⟨τ, .recalled (hm _ _ hmemo), .refl _ _⟩
  | tooDeep _ _ => cases ho
  | @entered input rule offset trivia σ σ' o _ _ _ _ _ =>
    subst ho
    have hstored : (σ'.leave.storing (σ.key rule offset trivia) (.ok found)).memory.memo[
        σ.key rule offset trivia]? = some found := Std.HashMap.getElem?_insert_self
    have hknown := hm _ _ hstored
    rw [← Progress.key_congr hq] at hknown
    exact ⟨τ, .recalled hknown, .refl _ _⟩
  | unknown _ => cases hjob
  | unshaped _ _ _ _ => cases hjob
  | shaped _ _ _ _ _ => cases hjob
  | terminal hl =>
    cases ho
    exact ⟨_, .terminal hl, .settle hq _ _⟩
  | scan hl =>
    cases ho
    exact ⟨_, .scan hl, .settle hq _ _⟩
  | endOfInput hl =>
    cases ho
    exact ⟨_, .endOfInput hl, .settle hq _ _⟩
  | rule _ ih =>
    obtain ⟨τ', h, he⟩ := ih rfl ho hq hm
    exact ⟨τ', .rule h, he⟩
  | sequence _ ih =>
    obtain ⟨τ', h, he⟩ := ih rfl ho hq hm
    exact ⟨τ', .sequence h, he⟩
  | choice _ ih =>
    obtain ⟨τ', h, he⟩ := ih rfl ho hq hm
    exact ⟨τ', .choice h, he⟩
  | repetition _ ih =>
    obtain ⟨τ', h, he⟩ := ih rfl ho hq hm
    exact ⟨τ', .repetition h, he⟩
  | optional _ ih =>
    obtain ⟨found, rfl, rfl⟩ := map_eq_ok ho
    obtain ⟨τ', h, he⟩ := ih rfl rfl hq hm
    exact ⟨τ', .optional h, he⟩
  | ahead _ ih =>
    obtain ⟨found, rfl, rfl⟩ := map_eq_ok ho
    obtain ⟨τ', h, he⟩ := ih (τ := τ.lookAhead) rfl rfl
      (τ.quiet_lookAhead.trans (Progress.quiet_lookAhead _).symm) hm
    exact ⟨τ'.lookBack, .ahead h, he.memo, he.furthest⟩
  | trivia _ ih =>
    obtain ⟨τ', h, he⟩ := ih rfl ho hq hm
    exact ⟨τ', .trivia h, he⟩
  | silent _ ih =>
    obtain ⟨found, rfl, rfl⟩ := map_eq_ok ho
    obtain ⟨τ', h, he⟩ := ih rfl rfl hq hm
    exact ⟨τ', .silent h, he⟩
  | allParts =>
    cases ho
    exact ⟨τ, .allParts, .refl _ _⟩
  | partUnmatched _ hnone ih =>
    obtain ⟨τ', h, he⟩ := ih rfl ho hq hm
    exact ⟨τ', .partUnmatched h (ho ▸ hnone), he⟩
  | partMatched hfirst hrest ih ih' =>
    obtain ⟨τ₁, h, he⟩ := ih rfl rfl hq (hrest.grows.trans hm)
    obtain ⟨τ', h', he'⟩ := ih' rfl ho (h.quiet.trans (hq.trans hfirst.quiet.symm)) (hagain hm he)
    exact ⟨τ', .partMatched h h', he.trans hrest.furthest_le he'⟩
  | noAlternative =>
    cases ho
    exact ⟨τ, .noAlternative, .refl _ _⟩
  | thisAlternative _ hsome ih =>
    obtain ⟨τ', h, he⟩ := ih rfl ho hq hm
    exact ⟨τ', .thisAlternative h (ho ▸ hsome), he⟩
  | nextAlternative hfirst hrest ih ih' =>
    obtain ⟨τ₁, h, he⟩ := ih rfl rfl hq (hrest.grows.trans hm)
    obtain ⟨τ', h', he'⟩ := ih' rfl ho (h.quiet.trans (hq.trans hfirst.quiet.symm)) (hagain hm he)
    exact ⟨τ', .nextAlternative h h', he.trans hrest.furthest_le he'⟩
  | leading hr _ ih =>
    obtain ⟨τ', h, he⟩ := ih rfl ho hq hm
    exact ⟨τ', .leading hr h, he⟩
  | separated hr hi hfirst hrest ih ih' =>
    obtain ⟨τ₁, h, he⟩ := ih rfl rfl hq (hrest.grows.trans hm)
    obtain ⟨τ', h', he'⟩ := ih' rfl ho (h.quiet.trans (hq.trans hfirst.quiet.symm)) (hagain hm he)
    exact ⟨τ', .separated hr hi h h', he.trans hrest.furthest_le he'⟩
  | separatorMissing hr hi _ ih =>
    cases ho
    obtain ⟨τ', h, he⟩ := ih rfl rfl hq hm
    exact ⟨τ', .separatorMissing hr hi h, he⟩
  | separatorFailed _ _ _ _ => cases ho
  | itemFailed _ _ => cases ho
  | itemMissing _ ih =>
    cases ho
    obtain ⟨τ', h, he⟩ := ih rfl rfl hq hm
    exact ⟨τ', .itemMissing h, he⟩
  | itemEmpty _ hends ih =>
    cases ho
    obtain ⟨τ', h, he⟩ := ih rfl rfl hq hm
    exact ⟨τ', .itemEmpty h hends, he⟩
  | itemMatched hitem hgoes hrest ih ih' =>
    obtain ⟨τ₁, h, he⟩ := ih rfl rfl hq (hrest.grows.trans hm)
    obtain ⟨τ', h', he'⟩ := ih' rfl ho (h.quiet.trans (hq.trans hitem.quiet.symm)) (hagain hm he)
    exact ⟨τ', .itemMatched h hgoes h', he.trans hrest.furthest_le he'⟩

/-- What was done without a failure changes nothing when it is done again in a state that remembers
all of it. -/
theorem Exec.repeats (h : Exec s P input job σ o σ') (hjob : job.isEvaluation = false)
    {found : Option Matched} (ho : o = .ok found) {τ : Progress} (hq : τ.quiet = σ.quiet)
    (hm : σ'.memory.Within τ.memory) (hfurthest : σ'.memory.furthest ≤ τ.memory.furthest) :
    Exec s P input job τ (.ok found) τ := by
  obtain ⟨τ', h', hagain⟩ := h.replays hjob ho hq hm
  have hback : τ'.memory.furthest = τ.memory.furthest := by
    have hle := h'.furthest_le
    have hge := hagain.furthest
    omega
  have hsame : τ' = τ := by
    obtain ⟨⟨memo, furthest⟩, depth, lookaheads⟩ := τ
    obtain ⟨⟨memo', furthest'⟩, depth', lookaheads'⟩ := τ'
    obtain ⟨hdepth, hlookaheads⟩ := h'.counters
    have hmemo := hagain.memo
    simp only at hmemo hback hdepth hlookaheads
    rw [hmemo, hback, hdepth, hlookaheads]
  rwa [hsame] at h'

end Replaying

/-- The parts that a job is done in, each with the state it begins in. `later` tells the second
part, which begins behind the first, from the first or only one. -/
inductive Part (s : Setting) (input : Input) :
    Job → Progress → Bool → Job → Progress → Prop where
  | evaluation {rule offset : Nat} {trivia : Bool} {σ : Progress} :
    σ.memory.memo[σ.key rule offset trivia]? = none → σ.depth < s.limit →
    Part s input (.call rule offset trivia) σ false (.evaluate rule offset trivia) σ.enter
  | body {rule offset : Nat} {trivia : Bool} {r : LinkedRule} {σ : Progress} :
    s.grammar.rules[rule]? = some r →
    Part s input (.evaluate rule offset trivia) σ false (.pattern r.pattern trivia offset) σ
  | rule {r : RuleRef} {trivia : Bool} {offset : Nat} {σ : Progress} :
    Part s input (.pattern (.rule r) trivia offset) σ false (.call r.id offset trivia) σ
  | sequence {cs : List (Component LinkedPattern)} {trivia : Bool} {offset : Nat} {σ : Progress} :
    Part s input (.pattern (.sequence cs) trivia offset) σ false
      (.components cs trivia (.startingAt offset)) σ
  | choice {ps : List LinkedPattern} {trivia : Bool} {offset : Nat} {σ : Progress} :
    Part s input (.pattern (.choice ps) trivia offset) σ false (.alternatives ps trivia offset) σ
  | repetition {item : LinkedPattern} {separator : Option LinkedPattern} {least : Nat}
    {trailing trivia : Bool} {offset : Nat} {σ : Progress} :
    Part s input (.pattern (.repetition item separator least trailing) trivia offset) σ false
      (.rounds ⟨item, separator, least, trailing, trivia, offset⟩ (.startingAt offset)) σ
  | optional {p : LinkedPattern} {trivia : Bool} {offset : Nat} {σ : Progress} :
    Part s input (.pattern (.optional p) trivia offset) σ false (.pattern p trivia offset) σ
  | ahead {negated : Bool} {p : LinkedPattern} {trivia : Bool} {offset : Nat} {σ : Progress} :
    Part s input (.pattern (.ahead negated p) trivia offset) σ false (.pattern p trivia offset)
      σ.lookAhead
  | trivia {skip : Bool} {p : LinkedPattern} {trivia : Bool} {offset : Nat} {σ : Progress} :
    Part s input (.pattern (.trivia skip p) trivia offset) σ false (.pattern p skip offset) σ
  | silent {p : LinkedPattern} {trivia : Bool} {offset : Nat} {σ : Progress} :
    Part s input (.pattern (.silent p) trivia offset) σ false (.pattern p trivia offset) σ
  | firstComponent {field : Option String} {capture : Capture} {p : LinkedPattern}
    {rest : List (Component LinkedPattern)} {trivia : Bool} {ps : Parts} {σ : Progress} :
    Part s input (.components (⟨field, capture, p⟩ :: rest) trivia ps) σ false
      (.pattern p trivia ps.cursor) σ
  | otherComponents {field : Option String} {capture : Capture} {p : LinkedPattern}
    {rest : List (Component LinkedPattern)} {trivia : Bool} {ps : Parts} {σ σ' : Progress}
    {m : Matched} :
    Exec s (· ≤ s.limit) input (.pattern p trivia ps.cursor) σ (.ok (some m)) σ' →
    Part s input (.components (⟨field, capture, p⟩ :: rest) trivia ps) σ true
      (.components rest trivia (ps.push field capture m)) σ'
  | firstAlternative {p : LinkedPattern} {rest : List LinkedPattern} {trivia : Bool} {offset : Nat}
    {σ : Progress} :
    Part s input (.alternatives (p :: rest) trivia offset) σ false (.pattern p trivia offset) σ
  | otherAlternatives {p : LinkedPattern} {rest : List LinkedPattern} {trivia : Bool}
    {offset : Nat} {σ σ' : Progress} :
    Exec s (· ≤ s.limit) input (.pattern p trivia offset) σ (.ok none) σ' →
    Part s input (.alternatives (p :: rest) trivia offset) σ true (.alternatives rest trivia offset)
      σ'
  | unseparated {r : Repetition} {rs : Rounds} {σ : Progress} : r.Leads rs →
    Part s input (.rounds r rs) σ false (.item r rs rs.cursor) σ
  | separator {r : Repetition} {p : LinkedPattern} {rs : Rounds} {σ : Progress} :
    r.separator = some p → rs.items ≠ [] →
    Part s input (.rounds r rs) σ false (.pattern p r.trivia rs.cursor) σ
  | separated {r : Repetition} {p : LinkedPattern} {rs : Rounds} {σ σ' : Progress} {m : Matched} :
    r.separator = some p → rs.items ≠ [] →
    Exec s (· ≤ s.limit) input (.pattern p r.trivia rs.cursor) σ (.ok (some m)) σ' →
    Part s input (.rounds r rs) σ true (.item r rs m.stop) σ'
  | item {r : Repetition} {rs : Rounds} {next : Nat} {σ : Progress} :
    Part s input (.item r rs next) σ false (.pattern r.item r.trivia next) σ
  | otherRounds {r : Repetition} {rs : Rounds} {next : Nat} {σ σ' : Progress} {m : Matched} :
    Exec s (· ≤ s.limit) input (.pattern r.item r.trivia next) σ (.ok (some m)) σ' →
    ¬r.Ends rs m → Part s input (.item r rs next) σ true (.rounds r (rs.pushed m)) σ'

/-- The call that goes into evaluation with the part of a job. -/
def Job.opened (σ : Progress) : Job → List Call
  | .call rule offset trivia => [σ.key rule offset trivia]
  | _ => []

/-- What a parse is at on its way down from a job, and the calls on the way whose evaluation is in
progress, the last one first. -/
inductive At (s : Setting) (input : Input) (job₀ : Job) (σ₀ : Progress) :
    List Call → Job → Progress → Prop where
  | start : At s input job₀ σ₀ [] job₀ σ₀
  | part {calls : List Call} {job job' : Job} {σ σ' : Progress} {later : Bool} :
    At s input job₀ σ₀ calls job σ → Part s input job σ later job' σ' →
    At s input job₀ σ₀ (job.opened σ ++ calls) job' σ'

section Part

variable {s : Setting} {input : Input} {job job' : Job} {σ σ' τ : Progress} {later : Bool}
  {o : Except Failure (Option Matched)}

theorem Part.grows (h : Part s input job σ later job' σ') : σ.memory.Within σ'.memory := by
  cases h with
  | otherComponents h => exact h.grows
  | otherAlternatives h => exact h.grows
  | separated _ _ h => exact h.grows
  | otherRounds h _ => exact h.grows
  | _ => exact Memory.within_of_eq rfl

/-- How a part of a job is done: what it remembers is remembered behind the whole job, and no job
swallows the failure of a part. -/
structure Part.Done (s : Setting) (input : Input) (job' : Job) (σ' : Progress)
    (o : Except Failure (Option Matched)) (τ : Progress)
    (o' : Except Failure (Option Matched)) (τ' : Progress) : Prop where
  exec : Exec s (· ≤ s.limit) input job' σ' o' τ'
  memory : ∀ c : Call, τ.memory.memo[c]? = none → τ'.memory.memo[c]? = none
  failure : ∀ e, o' = .error e → o = .error e

/-- A part of a job that is done is done, and the job fails if the part does. -/
theorem Part.done (h : Part s input job σ later job' σ')
    (hexec : Exec s (· ≤ s.limit) input job σ o τ) : ∃ o' τ', Done s input job' σ' o τ o' τ' := by
  have hsame : ∀ {o : Except Failure (Option Matched)} {τ : Progress},
      Exec s (· ≤ s.limit) input job' σ' o τ → ∃ o' τ', Done s input job' σ' o τ o' τ' :=
    fun h => ⟨_, _, h, fun _ hc => hc, fun _ he => he⟩
  have hmap : ∀ {o : Except Failure (Option Matched)} (f : Option Matched → Option Matched)
      {τ₁ τ : Progress}, Exec s (· ≤ s.limit) input job' σ' o τ₁ → τ.memory = τ₁.memory →
      ∃ o' τ', Done s input job' σ' (o.map f) τ o' τ' := by
    refine fun f τ₁ τ h hm => ⟨_, _, h, fun c hc => hm ▸ hc, ?_⟩
    rintro e rfl
    rfl
  cases h with
  | evaluation hnew hroom =>
    cases hexec with
    | recalled hmemo => cases hnew.symm.trans hmemo
    | tooDeep _ hdepth => exact absurd hroom (Nat.not_lt.2 hdepth)
    | entered _ _ _ h =>
      refine ⟨_, _, h, fun c hc => ?_, fun _ he => he⟩
      cases o with
      | error e => exact hc
      | ok outcome =>
        rw [Progress.storing, Memory.storing, Std.HashMap.getElem?_insert] at hc
        split at hc
        · cases hc
        · exact hc
  | body hr =>
    cases hexec with
    | unknown hr' => cases hr'.symm.trans hr
    | unshaped hr' h _ =>
      obtain rfl := Option.some.inj (hr.symm.trans hr')
      exact hsame h
    | shaped hr' h _ =>
      obtain rfl := Option.some.inj (hr.symm.trans hr')
      exact ⟨_, _, h, fun _ hc => hc, fun _ he => by cases he⟩
  | rule =>
    cases hexec with
    | rule h => exact hsame h
  | sequence =>
    cases hexec with
    | sequence h => exact hsame h
  | choice =>
    cases hexec with
    | choice h => exact hsame h
  | repetition =>
    cases hexec with
    | repetition h => exact hsame h
  | optional =>
    cases hexec with
    | optional h => exact hmap _ h rfl
  | ahead =>
    cases hexec with
    | ahead h => exact hmap _ h rfl
  | trivia =>
    cases hexec with
    | trivia h => exact hsame h
  | silent =>
    cases hexec with
    | silent h => exact hmap _ h rfl
  | firstComponent =>
    cases hexec with
    | partUnmatched h _ => exact hsame h
    | partMatched h hrest =>
      exact ⟨_, _, h, fun _ hc => hrest.grows.none hc, fun _ he => by cases he⟩
  | otherComponents h =>
    cases hexec with
    | partUnmatched h' hnone => exact absurd (h.unique h').1 (hnone _)
    | partMatched h' hrest =>
      obtain ⟨he, rfl⟩ := h.unique h'
      cases he
      exact hsame hrest
  | firstAlternative =>
    cases hexec with
    | thisAlternative h _ => exact hsame h
    | nextAlternative h hrest =>
      exact ⟨_, _, h, fun _ hc => hrest.grows.none hc, fun _ he => by cases he⟩
  | otherAlternatives h =>
    cases hexec with
    | thisAlternative h' hsome => exact absurd (h.unique h').1 hsome
    | nextAlternative h' hrest =>
      obtain ⟨-, rfl⟩ := h.unique h'
      exact hsame hrest
  | unseparated hr =>
    cases hexec with
    | leading _ h => exact hsame h
    | separated hr' hi => exact absurd hr (Repetition.not_leads hr' hi)
    | separatorMissing hr' hi => exact absurd hr (Repetition.not_leads hr' hi)
    | separatorFailed hr' hi => exact absurd hr (Repetition.not_leads hr' hi)
  | separator hr hi =>
    cases hexec with
    | leading hr' => exact absurd hr' (Repetition.not_leads hr hi)
    | separated hr' _ h hrest =>
      obtain rfl := Option.some.inj (hr.symm.trans hr')
      exact ⟨_, _, h, fun _ hc => hrest.grows.none hc, fun _ he => by cases he⟩
    | separatorMissing hr' _ h =>
      obtain rfl := Option.some.inj (hr.symm.trans hr')
      exact ⟨_, _, h, fun _ hc => hc, fun _ he => by cases he⟩
    | separatorFailed hr' _ h =>
      obtain rfl := Option.some.inj (hr.symm.trans hr')
      exact hsame h
  | separated hr hi h =>
    cases hexec with
    | leading hr' => exact absurd hr' (Repetition.not_leads hr hi)
    | separated hr' _ h' hrest =>
      obtain rfl := Option.some.inj (hr.symm.trans hr')
      obtain ⟨he, rfl⟩ := h.unique h'
      cases he
      exact hsame hrest
    | separatorMissing hr' _ h' =>
      obtain rfl := Option.some.inj (hr.symm.trans hr')
      cases (h.unique h').1
    | separatorFailed hr' _ h' =>
      obtain rfl := Option.some.inj (hr.symm.trans hr')
      cases (h.unique h').1
  | item =>
    cases hexec with
    | itemFailed h => exact hsame h
    | itemMissing h => exact ⟨_, _, h, fun _ hc => hc, fun _ he => by cases he⟩
    | itemEmpty h _ => exact ⟨_, _, h, fun _ hc => hc, fun _ he => by cases he⟩
    | itemMatched h _ hrest =>
      exact ⟨_, _, h, fun _ hc => hrest.grows.none hc, fun _ he => by cases he⟩
  | otherRounds h hgoes =>
    cases hexec with
    | itemFailed h' => cases (h.unique h').1
    | itemMissing h' => cases (h.unique h').1
    | itemEmpty h' hends =>
      cases (h.unique h').1
      exact absurd hends hgoes
    | itemMatched h' _ hrest =>
      obtain ⟨he, rfl⟩ := h.unique h'
      cases he
      exact hsame hrest

/-- Where the outcomes of what lies in front of a part are remembered, the job comes to that part
again, one level deeper if it is the evaluation of a call. -/
theorem Part.again (h : Part s input job σ later job' σ') (hq : τ.quiet = σ.quiet)
    (hm : σ'.memory.Within τ.memory)
    (hopen : ∀ c ∈ job.opened σ, τ.memory.memo[c]? = none)
    (hroom : job.opened σ ≠ [] → τ.depth < s.limit) :
    ∃ τ', Part s input job τ later job' τ' ∧ τ'.memory.memo = τ.memory.memo ∧
      τ'.quiet = σ'.quiet ∧ τ'.depth = τ.depth + (job.opened σ).length := by
  have hfirst : ∀ {p : LinkedPattern} {trivia : Bool} {offset : Nat} {found : Option Matched},
      Exec s (· ≤ s.limit) input (.pattern p trivia offset) σ (.ok found) σ' →
      ∃ τ', Exec s (· ≤ s.limit) input (.pattern p trivia offset) τ (.ok found) τ' ∧
        τ'.memory.memo = τ.memory.memo ∧ τ'.quiet = σ'.quiet ∧ τ'.depth = τ.depth := by
    intro p trivia offset found h
    obtain ⟨τ', h', he⟩ := h.replays rfl rfl hq hm
    exact ⟨τ', h', he.memo, h'.quiet.trans (hq.trans h.quiet.symm), h'.counters.1⟩
  cases h with
  | @evaluation rule offset trivia _ hnew hdepth =>
    have hkey := hopen _ (List.mem_singleton.2 rfl)
    rw [← Progress.key_congr hq] at hkey
    exact ⟨_, .evaluation hkey (hroom (List.cons_ne_nil _ _)), rfl, hq, rfl⟩
  | body hr => exact ⟨τ, .body hr, rfl, hq, rfl⟩
  | rule => exact ⟨τ, .rule, rfl, hq, rfl⟩
  | sequence => exact ⟨τ, .sequence, rfl, hq, rfl⟩
  | choice => exact ⟨τ, .choice, rfl, hq, rfl⟩
  | repetition => exact ⟨τ, .repetition, rfl, hq, rfl⟩
  | optional => exact ⟨τ, .optional, rfl, hq, rfl⟩
  | ahead =>
    exact ⟨τ.lookAhead, .ahead, rfl,
      τ.quiet_lookAhead.trans (Progress.quiet_lookAhead _).symm, rfl⟩
  | trivia => exact ⟨τ, .trivia, rfl, hq, rfl⟩
  | silent => exact ⟨τ, .silent, rfl, hq, rfl⟩
  | firstComponent => exact ⟨τ, .firstComponent, rfl, hq, rfl⟩
  | otherComponents h =>
    obtain ⟨τ', h', hrest⟩ := hfirst h
    exact ⟨τ', .otherComponents h', hrest⟩
  | firstAlternative => exact ⟨τ, .firstAlternative, rfl, hq, rfl⟩
  | otherAlternatives h =>
    obtain ⟨τ', h', hrest⟩ := hfirst h
    exact ⟨τ', .otherAlternatives h', hrest⟩
  | unseparated hr => exact ⟨τ, .unseparated hr, rfl, hq, rfl⟩
  | separator hr hi => exact ⟨τ, .separator hr hi, rfl, hq, rfl⟩
  | separated hr hi h =>
    obtain ⟨τ', h', hrest⟩ := hfirst h
    exact ⟨τ', .separated hr hi h', hrest⟩
  | item => exact ⟨τ, .item, rfl, hq, rfl⟩
  | otherRounds h hgoes =>
    obtain ⟨τ', h', hrest⟩ := hfirst h
    exact ⟨τ', .otherRounds h' hgoes, hrest⟩

end Part

def TooDeep (s : Setting) (o : Except Failure (Option Matched)) : Prop :=
  ∃ offset, o = .error (.tooDeep s.limit offset)

section At

variable {s : Setting} {input : Input} {job₀ job : Job} {σ₀ σ σ' τ τ' : Progress}
  {calls : List Call} {o : Except Failure (Option Matched)}

/-- A job on the way down from one that is done is done, and its failure is that of the whole. -/
theorem At.done (h : At s input job₀ σ₀ calls job σ)
    (hexec : Exec s (· ≤ s.limit) input job₀ σ₀ o τ) :
    ∃ o' τ', Exec s (· ≤ s.limit) input job σ o' τ' ∧ ∀ e, o' = .error e → o = .error e := by
  induction h with
  | start => exact ⟨o, τ, hexec, fun _ he => he⟩
  | part _ hpart ih =>
    obtain ⟨o₁, τ₁, h₁, hfail₁⟩ := ih
    obtain ⟨o₂, τ₂, h₂⟩ := hpart.done h₁
    exact ⟨o₂, τ₂, h₂.exec, fun e he => hfail₁ e (h₂.failure e he)⟩

theorem At.trans {job₁ : Job} {σ₁ : Progress} {calls₁ : List Call}
    (h₁ : At s input job₀ σ₀ calls₁ job₁ σ₁) (h : At s input job₁ σ₁ calls job σ) :
    At s input job₀ σ₀ (calls ++ calls₁) job σ := by
  induction h with
  | start => exact h₁
  | part _ hpart ih =>
    rw [List.append_assoc]
    exact ih.part hpart

/-- The way down from the evaluation of a call that is in progress. -/
theorem At.inner (h : At s input job₀ σ₀ calls job σ) {c : Call} (hc : c ∈ calls) :
    ∃ σ₁ inner, At s input (.evaluate c.rule c.offset c.trivia) σ₁ inner job σ ∧
      σ₁.quiet = c.quiet ∧ inner ⊆ calls := by
  induction h with
  | start => cases hc
  | @part calls job job' σ σ' later _ hpart ih =>
    obtain hc | hc := List.mem_append.1 hc
    · cases hpart with
      | evaluation =>
        obtain rfl := List.mem_singleton.1 hc
        exact ⟨_, [], .start, rfl, List.nil_subset _⟩
      | _ => cases hc
    · obtain ⟨σ₁, inner, hat, hquiet, hsub⟩ := ih hc
      exact ⟨σ₁, _, hat.part hpart, hquiet, List.append_subset.2
        ⟨List.subset_append_left .., fun c hc => List.mem_append_right _ (hsub hc)⟩⟩

theorem Exec.tooDeep_of_opened (hexec : Exec s (· ≤ s.limit) input job τ o τ')
    (hjob : job.opened σ ≠ []) (hq : τ.quiet = σ.quiet)
    (hopen : ∀ c ∈ job.opened σ, τ.memory.memo[c]? = none) (hdepth : s.limit ≤ τ.depth) :
    TooDeep s o := by
  cases job with
  | call rule offset trivia =>
    have hnone := hopen _ (List.mem_singleton.2 rfl)
    rw [← Progress.key_congr hq] at hnone
    cases hexec with
    | recalled hmemo => cases hnone.symm.trans hmemo
    | tooDeep => exact ⟨_, rfl⟩
    | entered _ hroom => exact absurd hroom (Nat.not_lt.2 hdepth)
  | _ => exact absurd rfl hjob

/-- A job that is begun again where all that was found on the way down is remembered, and none of
the calls in progress is, goes the same way down. -/
theorem At.again (h : At s input job₀ σ₀ calls job σ) (hq : τ.quiet = σ₀.quiet)
    (hm : σ.memory.Within τ.memory) (hopen : ∀ c ∈ calls, τ.memory.memo[c]? = none)
    (hexec : Exec s (· ≤ s.limit) input job₀ τ o τ') :
    TooDeep s o ∨ ∃ τ₁ o₁ τ₂, Exec s (· ≤ s.limit) input job τ₁ o₁ τ₂ ∧
      τ₁.memory.memo = τ.memory.memo ∧ τ₁.quiet = σ.quiet ∧ τ.depth ≤ τ₁.depth ∧
      ∀ e, o₁ = .error e → o = .error e := by
  induction h with
  | start => exact .inr ⟨τ, o, τ', hexec, rfl, hq, Nat.le_refl _, fun _ he => he⟩
  | @part calls job job' σ σ' later _ hpart ih =>
    obtain ⟨hnew, hold⟩ := List.forall_mem_append.1 hopen
    obtain hdeep | ⟨τ₁, o₁, τ₂, h₁, hmemo, hquiet, hdepth, hfail⟩ :=
      ih (hpart.grows.trans hm) hold
    · exact .inl hdeep
    have hnew₁ : ∀ c ∈ job.opened σ, τ₁.memory.memo[c]? = none := by
      rw [hmemo]
      exact hnew
    by_cases hroom : job.opened σ ≠ [] → τ₁.depth < s.limit
    · obtain ⟨τ₃, hpart₁, hmemo₃, hquiet₃, hdepth₃⟩ :=
        hpart.again hquiet (hm.trans (Memory.within_of_eq hmemo.symm)) hnew₁ hroom
      obtain ⟨o₃, τ₄, hdone⟩ := hpart₁.done h₁
      refine .inr ⟨τ₃, o₃, τ₄, hdone.exec, hmemo₃.trans hmemo, hquiet₃, ?_, fun e he => ?_⟩
      · rw [hdepth₃]
        exact hdepth.trans (Nat.le_add_right _ _)
      · exact hfail e (hdone.failure e he)
    · rw [Classical.not_imp] at hroom
      obtain ⟨hjob, hroom⟩ := hroom
      obtain ⟨offset, rfl⟩ := h₁.tooDeep_of_opened hjob hquiet hnew₁ (Nat.not_lt.1 hroom)
      exact .inl ⟨offset, hfail _ rfl⟩

variable {rule offset : Nat} {trivia : Bool}

/-- An evaluation that comes to its own call on the way down goes down until it nests too deep. -/
theorem At.dives
    (h : At s input (.evaluate rule offset trivia) σ₀ calls (.call rule offset trivia) σ)
    (hkey : σ.quiet = σ₀.quiet) (hq : τ.quiet = σ₀.quiet) (hm : σ.memory.Within τ.memory)
    (hcall : τ.memory.memo[σ₀.key rule offset trivia]? = none)
    (hopen : ∀ c ∈ calls, τ.memory.memo[c]? = none)
    (hexec : Exec s (· ≤ s.limit) input (.evaluate rule offset trivia) τ o τ') : TooDeep s o := by
  induction hn : s.limit - τ.depth using Nat.strong_induction_on generalizing τ o τ' with
  | h n ih =>
    obtain hdeep | ⟨τ₁, o₁, τ₂, h₁, hmemo, hquiet, hdepth, hfail⟩ := h.again hq hm hopen hexec
    · exact hdeep
    have hquiet₁ : τ₁.quiet = σ₀.quiet := hquiet.trans hkey
    have hcall₁ : τ₁.memory.memo[τ₁.key rule offset trivia]? = none := by
      rw [Progress.key_congr hquiet₁, hmemo]
      exact hcall
    have hdeep₁ : TooDeep s o₁ := by
      cases h₁ with
      | recalled hfound => cases hcall₁.symm.trans hfound
      | tooDeep => exact ⟨_, rfl⟩
      | entered _ hroom _ hnext =>
        refine ih (s.limit - (τ₁.depth + 1)) (by omega) (τ := τ₁.enter) hquiet₁ ?_ ?_ ?_ hnext rfl
        · exact hm.trans (Memory.within_of_eq hmemo.symm)
        · exact hmemo ▸ hcall
        · exact hmemo ▸ hopen
    obtain ⟨deepest, rfl⟩ := hdeep₁
    exact ⟨deepest, hfail _ rfl⟩

/-- A call whose evaluation is in progress nests too deep, if none that is in progress is
remembered. -/
theorem At.reentered (h : At s input job₀ σ₀ calls (.call rule offset trivia) σ)
    (hc : σ.key rule offset trivia ∈ calls) (hopen : ∀ c ∈ calls, σ.memory.memo[c]? = none)
    (hexec : Exec s (· ≤ s.limit) input (.call rule offset trivia) σ o σ') : TooDeep s o := by
  obtain ⟨σ₁, inner, hat, hquiet, hsub⟩ := h.inner hc
  have hkey : σ.quiet = σ₁.quiet := hquiet.symm
  have hcall := hopen _ hc
  cases hexec with
  | recalled hmemo => cases hcall.symm.trans hmemo
  | tooDeep => exact ⟨_, rfl⟩
  | entered _ _ _ hnext =>
    refine hat.dives hkey (τ := σ.enter) hkey (Memory.within_of_eq rfl) ?_
      (fun c hc => hopen c (hsub hc)) hnext
    rw [← Progress.key_congr hkey]
    exact hcall

/-- A job that ends without a failure leaves no outcome of a call that is in progress around it. -/
theorem Exec.keepsOpen (hexec : Exec s (· ≤ s.limit) input job σ o σ')
    (h : At s input job₀ σ₀ calls job σ) (hopen : ∀ c ∈ calls, σ.memory.memo[c]? = none)
    {found : Option Matched} (ho : o = .ok found) :
    ∀ c ∈ calls, σ'.memory.memo[c]? = none := by
  induction hexec generalizing calls found with
  | recalled _ => exact hopen
  | tooDeep _ _ => cases ho
  | @entered input rule offset trivia σ σ' o hnew hroom hle hexec ih =>
    subst ho
    have hinner := ih (h.part (.evaluation hnew hroom))
      (List.forall_mem_cons.2 ⟨hnew, hopen⟩) rfl
    intro c hc
    rw [Progress.storing, Memory.storing, Std.HashMap.getElem?_insert]
    split
    · rename_i hcd
      obtain rfl : σ.key rule offset trivia = c := eq_of_beq hcd
      obtain ⟨deepest, hdeep⟩ := h.reentered hc hopen (.entered hnew hroom hle hexec)
      cases hdeep
    · exact hinner c (List.mem_cons_of_mem _ hc)
  | unknown _ => exact hopen
  | unshaped hr _ _ ih => exact ih (h.part (.body hr)) hopen ho
  | shaped hr _ _ ih _ => exact ih (h.part (.body hr)) hopen rfl
  | terminal _ => rwa [Progress.settle_memo]
  | scan _ => rwa [Progress.settle_memo]
  | endOfInput _ => rwa [Progress.settle_memo]
  | rule _ ih => exact ih (h.part .rule) hopen ho
  | sequence _ ih => exact ih (h.part .sequence) hopen ho
  | choice _ ih => exact ih (h.part .choice) hopen ho
  | repetition _ ih => exact ih (h.part .repetition) hopen ho
  | optional _ ih =>
    obtain ⟨found, rfl, -⟩ := map_eq_ok ho
    exact ih (h.part .optional) hopen rfl
  | ahead _ ih =>
    obtain ⟨found, rfl, -⟩ := map_eq_ok ho
    exact ih (h.part .ahead) hopen rfl
  | trivia _ ih => exact ih (h.part .trivia) hopen ho
  | silent _ ih =>
    obtain ⟨found, rfl, -⟩ := map_eq_ok ho
    exact ih (h.part .silent) hopen rfl
  | allParts => exact hopen
  | partUnmatched _ _ ih => exact ih (h.part .firstComponent) hopen ho
  | partMatched hfirst _ ih ih' =>
    exact ih' (h.part (.otherComponents hfirst)) (ih (h.part .firstComponent) hopen rfl) ho
  | noAlternative => exact hopen
  | thisAlternative _ _ ih => exact ih (h.part .firstAlternative) hopen ho
  | nextAlternative hfirst _ ih ih' =>
    exact ih' (h.part (.otherAlternatives hfirst)) (ih (h.part .firstAlternative) hopen rfl) ho
  | leading hr _ ih => exact ih (h.part (.unseparated hr)) hopen ho
  | separated hr hi hfirst _ ih ih' =>
    exact ih' (h.part (.separated hr hi hfirst)) (ih (h.part (.separator hr hi)) hopen rfl) ho
  | separatorMissing hr hi _ ih => exact ih (h.part (.separator hr hi)) hopen rfl
  | separatorFailed _ _ _ _ => cases ho
  | itemFailed _ _ => cases ho
  | itemMissing _ ih => exact ih (h.part .item) hopen rfl
  | itemEmpty _ _ ih => exact ih (h.part .item) hopen rfl
  | itemMatched hitem hgoes _ ih ih' =>
    exact ih' (h.part (.otherRounds hitem hgoes)) (ih (h.part .item) hopen rfl) ho

theorem At.unremembered (h : At s input job₀ σ₀ calls job σ) :
    ∀ c ∈ calls, σ.memory.memo[c]? = none := by
  induction h with
  | start => exact fun c hc => absurd hc List.not_mem_nil
  | part hat hpart ih =>
    cases hpart with
    | evaluation hnew _ => exact List.forall_mem_cons.2 ⟨hnew, ih⟩
    | otherComponents h => exact h.keepsOpen (hat.part .firstComponent) ih rfl
    | otherAlternatives h => exact h.keepsOpen (hat.part .firstAlternative) ih rfl
    | separated hr hi h => exact h.keepsOpen (hat.part (.separator hr hi)) ih rfl
    | otherRounds h _ => exact h.keepsOpen (hat.part .item) ih rfl
    | _ => exact ih

/-- A job on whose way down a call is made while its evaluation is in progress nests too deep. -/
theorem At.tooDeep (h : At s input job₀ σ₀ calls (.call rule offset trivia) σ)
    (hc : σ.key rule offset trivia ∈ calls)
    (hexec : Exec s (· ≤ s.limit) input job₀ σ₀ o τ) : TooDeep s o := by
  obtain ⟨o', τ', h', hfail⟩ := h.done hexec
  obtain ⟨deepest, rfl⟩ := h.reentered hc h.unremembered h'
  exact ⟨deepest, hfail _ rfl⟩

end At

end PhpSyntax.Peg
