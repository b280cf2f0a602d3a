import PhpSyntax.Proofs.Peg.Nesting

namespace PhpSyntax.Peg

/-- The calls whose evaluation begins while a job is done, in the order in which they begin. -/
inductive Evaluates (s : Setting) (input : Input) : Job → Progress → List Call → Prop where
  | alone {job : Job} {σ : Progress} : (∀ later job' σ', ¬Part s input job σ later job' σ') →
    Evaluates s input job σ []
  | one {job job' : Job} {σ σ' : Progress} {calls : List Call} :
    Part s input job σ false job' σ' → (∀ job' σ', ¬Part s input job σ true job' σ') →
    Evaluates s input job' σ' calls → Evaluates s input job σ (job.opened σ ++ calls)
  | two {job first second : Job} {σ σ₁ σ₂ : Progress} {calls others : List Call} :
    Part s input job σ false first σ₁ → Part s input job σ true second σ₂ →
    Evaluates s input first σ₁ calls → Evaluates s input second σ₂ others →
    Evaluates s input job σ (calls ++ others)

section Parts

variable {s : Setting} {input : Input} {job job₁ job₂ : Job} {σ σ₁ σ₂ : Progress} {later : Bool}

theorem Part.unique (h : Part s input job σ later job₁ σ₁)
    (h' : Part s input job σ later job₂ σ₂) : job₂ = job₁ ∧ σ₂ = σ₁ := by
  cases h with
  | body hr =>
    cases h' with
    | body hr' =>
      obtain rfl := Option.some.inj (hr.symm.trans hr')
      exact ⟨rfl, rfl⟩
  | otherComponents h =>
    cases h' with
    | otherComponents h' =>
      obtain ⟨he, rfl⟩ := h.unique h'
      cases he
      exact ⟨rfl, rfl⟩
  | otherAlternatives h =>
    cases h' with
    | otherAlternatives h' =>
      obtain ⟨-, rfl⟩ := h.unique h'
      exact ⟨rfl, rfl⟩
  | unseparated hr =>
    cases h' with
    | unseparated => exact ⟨rfl, rfl⟩
    | separator hr' hi => exact absurd hr (Repetition.not_leads hr' hi)
  | separator hr hi =>
    cases h' with
    | unseparated hr' => exact absurd hr' (Repetition.not_leads hr hi)
    | separator hr' =>
      obtain rfl := Option.some.inj (hr.symm.trans hr')
      exact ⟨rfl, rfl⟩
  | separated hr hi h =>
    cases h' with
    | separated hr' _ h' =>
      obtain rfl := Option.some.inj (hr.symm.trans hr')
      obtain ⟨he, rfl⟩ := h.unique h'
      cases he
      exact ⟨rfl, rfl⟩
  | otherRounds h =>
    cases h' with
    | otherRounds h' =>
      obtain ⟨he, rfl⟩ := h.unique h'
      cases he
      exact ⟨rfl, rfl⟩
  | _ =>
    cases h'
    exact ⟨rfl, rfl⟩

/-- The second part of a job begins where the first one ended. -/
theorem Part.next (h₁ : Part s input job σ false job₁ σ₁) (h₂ : Part s input job σ true job₂ σ₂) :
    ∃ found, Exec s (· ≤ s.limit) input job₁ σ₁ (.ok found) σ₂ := by
  cases h₂ with
  | otherComponents h =>
    cases h₁
    exact ⟨_, h⟩
  | otherAlternatives h =>
    cases h₁
    exact ⟨_, h⟩
  | separated hr hi h =>
    cases h₁ with
    | unseparated hr' => exact absurd hr' (Repetition.not_leads hr hi)
    | separator hr' =>
      obtain rfl := Option.some.inj (hr.symm.trans hr')
      exact ⟨_, h⟩
  | otherRounds h =>
    cases h₁
    exact ⟨_, h⟩

theorem Part.opened (h : Part s input job σ true job₂ σ₂) : job.opened σ = [] := by
  cases h <;> rfl

theorem Part.exists_first (h : Part s input job σ true job₂ σ₂) :
    ∃ job₁ σ₁, Part s input job σ false job₁ σ₁ := by
  cases h with
  | otherComponents => exact ⟨_, _, .firstComponent⟩
  | otherAlternatives => exact ⟨_, _, .firstAlternative⟩
  | separated hr hi => exact ⟨_, _, .separator hr hi⟩
  | otherRounds => exact ⟨_, _, .item⟩

end Parts

/-- What holds of every job if it holds of its parts holds of every job that has an execution. -/
theorem Exec.by_parts {s : Setting} {P : Nat → Prop} {input : Input} {job : Job} {σ σ' : Progress}
    {o : Except Failure (Option Matched)} (h : Exec s P input job σ o σ')
    {motive : Input → Job → Progress → Prop}
    (step : ∀ input job σ, (∀ later job' σ', Part s input job σ later job' σ' →
      motive input job' σ') → motive input job σ) : motive input job σ := by
  induction h with
  | recalled hmemo =>
    refine step _ _ _ fun _ _ _ hpart => ?_
    cases hpart with
    | evaluation hnew => cases hnew.symm.trans hmemo
  | tooDeep _ hdepth =>
    refine step _ _ _ fun _ _ _ hpart => ?_
    cases hpart with
    | evaluation _ hroom => exact absurd hroom (Nat.not_lt.2 hdepth)
  | unknown hr =>
    refine step _ _ _ fun _ _ _ hpart => ?_
    cases hpart with
    | body hr' => cases hr.symm.trans hr'
  | unshaped hr _ _ ih =>
    refine step _ _ _ fun _ _ _ hpart => ?_
    cases hpart with
    | body hr' =>
      obtain rfl := Option.some.inj (hr.symm.trans hr')
      exact ih
  | shaped hr _ _ ih _ =>
    refine step _ _ _ fun _ _ _ hpart => ?_
    cases hpart with
    | body hr' =>
      obtain rfl := Option.some.inj (hr.symm.trans hr')
      exact ih
  | partUnmatched h hnone ih =>
    refine step _ _ _ fun _ _ _ hpart => ?_
    cases hpart with
    | firstComponent => exact ih
    | otherComponents h' => exact absurd (h.unique h').1.symm (hnone _)
  | partMatched h _ ih ih' =>
    refine step _ _ _ fun _ _ _ hpart => ?_
    cases hpart with
    | firstComponent => exact ih
    | otherComponents h' =>
      obtain ⟨he, rfl⟩ := h.unique h'
      cases he
      exact ih'
  | thisAlternative h hsome ih =>
    refine step _ _ _ fun _ _ _ hpart => ?_
    cases hpart with
    | firstAlternative => exact ih
    | otherAlternatives h' => exact absurd (h.unique h').1.symm hsome
  | nextAlternative h _ ih ih' =>
    refine step _ _ _ fun _ _ _ hpart => ?_
    cases hpart with
    | firstAlternative => exact ih
    | otherAlternatives h' =>
      obtain ⟨-, rfl⟩ := h.unique h'
      exact ih'
  | leading hr _ ih =>
    refine step _ _ _ fun _ _ _ hpart => ?_
    cases hpart with
    | unseparated => exact ih
    | separator hr' hi => exact absurd hr (Repetition.not_leads hr' hi)
    | separated hr' hi => exact absurd hr (Repetition.not_leads hr' hi)
  | separated hr hi h _ ih ih' =>
    refine step _ _ _ fun _ _ _ hpart => ?_
    cases hpart with
    | unseparated hr' => exact absurd hr' (Repetition.not_leads hr hi)
    | separator hr' =>
      obtain rfl := Option.some.inj (hr.symm.trans hr')
      exact ih
    | separated hr' _ h' =>
      obtain rfl := Option.some.inj (hr.symm.trans hr')
      obtain ⟨he, rfl⟩ := h.unique h'
      cases he
      exact ih'
  | separatorMissing hr hi h ih =>
    refine step _ _ _ fun _ _ _ hpart => ?_
    cases hpart with
    | unseparated hr' => exact absurd hr' (Repetition.not_leads hr hi)
    | separator hr' =>
      obtain rfl := Option.some.inj (hr.symm.trans hr')
      exact ih
    | separated hr' _ h' =>
      obtain rfl := Option.some.inj (hr.symm.trans hr')
      cases (h.unique h').1
  | separatorFailed hr hi h ih =>
    refine step _ _ _ fun _ _ _ hpart => ?_
    cases hpart with
    | unseparated hr' => exact absurd hr' (Repetition.not_leads hr hi)
    | separator hr' =>
      obtain rfl := Option.some.inj (hr.symm.trans hr')
      exact ih
    | separated hr' _ h' =>
      obtain rfl := Option.some.inj (hr.symm.trans hr')
      cases (h.unique h').1
  | itemFailed h ih =>
    refine step _ _ _ fun _ _ _ hpart => ?_
    cases hpart with
    | item => exact ih
    | otherRounds h' => cases (h.unique h').1
  | itemMissing h ih =>
    refine step _ _ _ fun _ _ _ hpart => ?_
    cases hpart with
    | item => exact ih
    | otherRounds h' => cases (h.unique h').1
  | itemEmpty h hends ih =>
    refine step _ _ _ fun _ _ _ hpart => ?_
    cases hpart with
    | item => exact ih
    | otherRounds h' hgoes =>
      cases (h.unique h').1
      exact absurd hends hgoes
  | itemMatched h _ _ ih ih' =>
    refine step _ _ _ fun _ _ _ hpart => ?_
    cases hpart with
    | item => exact ih
    | otherRounds h' _ =>
      obtain ⟨he, rfl⟩ := h.unique h'
      cases he
      exact ih'
  | _ =>
    refine step _ _ _ fun _ _ _ hpart => ?_
    cases hpart
    try assumption

section Evaluates

variable {s : Setting} {input : Input} {job : Job} {σ τ : Progress} {calls : List Call}
  {found : Option Matched}

theorem Exec.evaluates {P : Nat → Prop} {o : Except Failure (Option Matched)}
    (h : Exec s P input job σ o τ) : ∃ calls, Evaluates s input job σ calls := by
  refine h.by_parts (motive := fun input job σ => ∃ calls, Evaluates s input job σ calls) ?_
  intro input job σ ih
  by_cases htwo : ∃ job' σ', Part s input job σ true job' σ'
  · obtain ⟨second, σ₂, h₂⟩ := htwo
    obtain ⟨first, σ₁, h₁⟩ := h₂.exists_first
    obtain ⟨calls, hcalls⟩ := ih _ _ _ h₁
    obtain ⟨others, hothers⟩ := ih _ _ _ h₂
    exact ⟨_, .two h₁ h₂ hcalls hothers⟩
  have htwo : ∀ job' σ', ¬Part s input job σ true job' σ' := by
    intro job' σ' h
    exact htwo ⟨_, _, h⟩
  by_cases hone : ∃ job' σ', Part s input job σ false job' σ'
  · obtain ⟨job', σ', h⟩ := hone
    obtain ⟨calls, hcalls⟩ := ih _ _ _ h
    exact ⟨_, .one h htwo hcalls⟩
  · refine ⟨[], .alone fun later job' σ' h => ?_⟩
    cases later with
    | false => exact hone ⟨_, _, h⟩
    | true => exact htwo _ _ h

theorem Evaluates.unique (h : Evaluates s input job σ calls) {calls' : List Call}
    (h' : Evaluates s input job σ calls') : calls' = calls := by
  induction h generalizing calls' with
  | alone hnone =>
    cases h' with
    | alone => rfl
    | one h₁ => exact absurd h₁ (hnone _ _ _)
    | two h₁ => exact absurd h₁ (hnone _ _ _)
  | one h₁ hone _ ih =>
    cases h' with
    | alone hnone => exact absurd h₁ (hnone _ _ _)
    | one h₁' _ hcalls =>
      obtain ⟨rfl, rfl⟩ := h₁.unique h₁'
      rw [ih hcalls]
    | two _ h₂ => exact absurd h₂ (hone _ _)
  | two h₁ h₂ _ _ ih ih' =>
    cases h' with
    | alone hnone => exact absurd h₁ (hnone _ _ _)
    | one _ hone => exact absurd h₂ (hone _ _)
    | two h₁' h₂' hcalls hothers =>
      obtain ⟨rfl, rfl⟩ := h₁.unique h₁'
      obtain ⟨rfl, rfl⟩ := h₂.unique h₂'
      rw [ih hcalls, ih' hothers]

theorem Evaluates.new (h : Evaluates s input job σ calls) :
    ∀ c ∈ calls, σ.memory.memo[c]? = none := by
  induction h with
  | alone _ => exact fun c hc => absurd hc List.not_mem_nil
  | one h₁ _ _ ih =>
    refine List.forall_mem_append.2 ⟨?_, fun c hc => h₁.grows.none (ih c hc)⟩
    cases h₁ with
    | evaluation hnew _ => exact List.forall_mem_singleton.2 hnew
    | _ => exact fun c hc => absurd hc List.not_mem_nil
  | two h₁ h₂ _ _ ih ih' =>
    exact List.forall_mem_append.2
      ⟨fun c hc => h₁.grows.none (ih c hc), fun c hc => h₂.grows.none (ih' c hc)⟩

/-- A part of a job that ends without a failure does too, and all that it remembers stays. -/
theorem Part.succeeds {job' : Job} {σ' : Progress} {later : Bool}
    (h : Part s input job σ later job' σ')
    (hexec : Exec s (· ≤ s.limit) input job σ (.ok found) τ) :
    ∃ found' τ', Exec s (· ≤ s.limit) input job' σ' (.ok found') τ' ∧
      ∀ c : Call, τ.memory.memo[c]? = none → τ'.memory.memo[c]? = none := by
  obtain ⟨o, τ', hdone⟩ := h.done hexec
  cases o with
  | ok found' => exact ⟨found', τ', hdone.exec, hdone.memory⟩
  | error e => cases hdone.failure e rfl

/-- What was evaluated without a failure is remembered. -/
theorem Evaluates.remembered (h : Evaluates s input job σ calls)
    (hexec : Exec s (· ≤ s.limit) input job σ (.ok found) τ) :
    ∀ c ∈ calls, τ.memory.memo[c]? ≠ none := by
  induction h generalizing found τ with
  | alone _ => exact fun c hc => absurd hc List.not_mem_nil
  | one h₁ _ _ ih =>
    obtain ⟨found', τ', hexec', hmemory⟩ := h₁.succeeds hexec
    refine List.forall_mem_append.2 ⟨?_, fun c hc hnone => ih hexec' c hc (hmemory c hnone)⟩
    cases h₁ with
    | evaluation hnew hroom =>
      cases hexec with
      | recalled hmemo => cases hnew.symm.trans hmemo
      | entered =>
        refine List.forall_mem_singleton.2 fun hnone => ?_
        cases (Std.HashMap.getElem?_insert_self).symm.trans hnone
    | _ => exact fun c hc => absurd hc List.not_mem_nil
  | two h₁ h₂ _ _ ih ih' =>
    obtain ⟨_, _, hexec₁, hmemory₁⟩ := h₁.succeeds hexec
    obtain ⟨_, _, hexec₂, hmemory₂⟩ := h₂.succeeds hexec
    exact List.forall_mem_append.2 ⟨fun c hc hnone => ih hexec₁ c hc (hmemory₁ c hnone),
      fun c hc hnone => ih' hexec₂ c hc (hmemory₂ c hnone)⟩

/-- What is evaluated in a part of a job is evaluated in the job. -/
theorem Evaluates.of_part (h : Evaluates s input job σ calls) {job' : Job} {σ' : Progress}
    {later : Bool} (hpart : Part s input job σ later job' σ') :
    ∃ inner, Evaluates s input job' σ' inner ∧ job.opened σ ++ inner ⊆ calls := by
  cases h with
  | alone hnone => exact absurd hpart (hnone _ _ _)
  | one h₁ hone hinner =>
    cases later with
    | false =>
      obtain ⟨rfl, rfl⟩ := h₁.unique hpart
      exact ⟨_, hinner, fun _ hc => hc⟩
    | true => exact absurd hpart (hone _ _)
  | two h₁ h₂ hfirst hsecond =>
    simp only [h₂.opened, List.nil_append]
    cases later with
    | false =>
      obtain ⟨rfl, rfl⟩ := h₁.unique hpart
      exact ⟨_, hfirst, List.subset_append_left ..⟩
    | true =>
      obtain ⟨rfl, rfl⟩ := h₂.unique hpart
      exact ⟨_, hsecond, List.subset_append_right ..⟩

/-- Every call in progress on the way down from a job is evaluated in it. -/
theorem Evaluates.of_at (h : Evaluates s input job σ calls) {job' : Job} {σ' : Progress}
    {open' : List Call} (hat : At s input job σ open' job' σ') :
    open' ⊆ calls ∧ ∃ inner, Evaluates s input job' σ' inner ∧ inner ⊆ calls := by
  induction hat with
  | start => exact ⟨List.nil_subset _, calls, h, fun _ hc => hc⟩
  | part _ hpart ih =>
    obtain ⟨hopen, inner, hinner, hsub⟩ := ih
    obtain ⟨inner', hinner', hsub'⟩ := hinner.of_part hpart
    obtain ⟨hopened, hrest⟩ := List.append_subset.1 fun _ hc => hsub (hsub' hc)
    exact ⟨List.append_subset.2 ⟨hopened, hopen⟩, inner', hinner', hrest⟩

/-- A call that a job is the first to remember was evaluated on some way down from it. -/
theorem Exec.remembers {o : Except Failure (Option Matched)}
    (h : Exec s (· ≤ s.limit) input job σ o τ) {c : Call} (hnew : σ.memory.memo[c]? = none)
    (hknown : τ.memory.memo[c]? ≠ none) :
    ∃ open' job' σ', At s input job σ open' job' σ' ∧ c ∈ open' := by
  have hvia : ∀ {input : Input} {job job₁ : Job} {σ σ₁ : Progress} {later : Bool},
      Part s input job σ later job₁ σ₁ →
      (∃ open' job' σ', At s input job₁ σ₁ open' job' σ' ∧ c ∈ open') →
      ∃ open' job' σ', At s input job σ open' job' σ' ∧ c ∈ open' := by
    intro input job job₁ σ σ₁ later hpart ⟨open', job', σ', hat, hc⟩
    exact ⟨_, job', σ', (At.part .start hpart).trans hat, List.mem_append_left _ hc⟩
  induction h with
  | @entered input rule offset trivia σ σ' o hmemo hroom _ _ ih =>
    by_cases hc : c = σ.key rule offset trivia
    · exact ⟨_, _, _, .part .start (.evaluation hmemo hroom), List.mem_cons.2 (.inl hc)⟩
    · refine hvia (.evaluation hmemo hroom) (ih hnew ?_)
      cases o with
      | error e => exact hknown
      | ok outcome =>
        rw [Progress.storing, Memory.storing, Std.HashMap.getElem?_insert,
          if_neg fun h => hc (eq_of_beq h).symm] at hknown
        exact hknown
  | recalled _ => exact absurd hnew hknown
  | tooDeep _ _ => exact absurd hnew hknown
  | unknown _ => exact absurd hnew hknown
  | allParts => exact absurd hnew hknown
  | noAlternative => exact absurd hnew hknown
  | terminal _ =>
    rw [Progress.settle_memo] at hknown
    exact absurd hnew hknown
  | scan _ =>
    rw [Progress.settle_memo] at hknown
    exact absurd hnew hknown
  | endOfInput _ =>
    rw [Progress.settle_memo] at hknown
    exact absurd hnew hknown
  | unshaped hr _ _ ih => exact hvia (.body hr) (ih hnew hknown)
  | shaped hr _ _ ih _ => exact hvia (.body hr) (ih hnew hknown)
  | rule _ ih => exact hvia .rule (ih hnew hknown)
  | sequence _ ih => exact hvia .sequence (ih hnew hknown)
  | choice _ ih => exact hvia .choice (ih hnew hknown)
  | repetition _ ih => exact hvia .repetition (ih hnew hknown)
  | optional _ ih => exact hvia .optional (ih hnew hknown)
  | ahead _ ih => exact hvia .ahead (ih hnew hknown)
  | trivia _ ih => exact hvia .trivia (ih hnew hknown)
  | silent _ ih => exact hvia .silent (ih hnew hknown)
  | partUnmatched _ _ ih => exact hvia .firstComponent (ih hnew hknown)
  | @partMatched _ _ _ _ _ _ _ _ σ₁ _ _ _ hfirst _ ih ih' =>
    by_cases hmid : σ₁.memory.memo[c]? = none
    · exact hvia (.otherComponents hfirst) (ih' hmid hknown)
    · exact hvia .firstComponent (ih hnew hmid)
  | thisAlternative _ _ ih => exact hvia .firstAlternative (ih hnew hknown)
  | @nextAlternative _ _ _ _ _ _ σ₁ _ _ hfirst _ ih ih' =>
    by_cases hmid : σ₁.memory.memo[c]? = none
    · exact hvia (.otherAlternatives hfirst) (ih' hmid hknown)
    · exact hvia .firstAlternative (ih hnew hmid)
  | leading hr _ ih => exact hvia (.unseparated hr) (ih hnew hknown)
  | @separated _ _ _ _ _ σ₁ _ _ _ hr hi hfirst _ ih ih' =>
    by_cases hmid : σ₁.memory.memo[c]? = none
    · exact hvia (.separated hr hi hfirst) (ih' hmid hknown)
    · exact hvia (.separator hr hi) (ih hnew hmid)
  | separatorMissing hr hi _ ih => exact hvia (.separator hr hi) (ih hnew hknown)
  | separatorFailed hr hi _ ih => exact hvia (.separator hr hi) (ih hnew hknown)
  | itemFailed _ ih => exact hvia .item (ih hnew hknown)
  | itemMissing _ ih => exact hvia .item (ih hnew hknown)
  | itemEmpty _ _ ih => exact hvia .item (ih hnew hknown)
  | @itemMatched _ _ _ _ _ σ₁ _ _ _ hitem hgoes _ ih ih' =>
    by_cases hmid : σ₁.memory.memo[c]? = none
    · exact hvia (.otherRounds hitem hgoes) (ih' hmid hknown)
    · exact hvia .item (ih hnew hmid)

/-- The parse is at some point at every call that is evaluated. -/
theorem Evaluates.at_call (h : Evaluates s input job σ calls) {c : Call} (hc : c ∈ calls)
    {job₀ : Job} {σ₀ : Progress} {open₀ : List Call} (hat : At s input job₀ σ₀ open₀ job σ) :
    ∃ rule offset trivia inner σ',
      At s input job₀ σ₀ (inner ++ open₀) (.call rule offset trivia) σ' ∧
      σ'.key rule offset trivia = c := by
  induction h generalizing open₀ with
  | alone _ => cases hc
  | one h₁ _ _ ih =>
    obtain hc | hc := List.mem_append.1 hc
    · cases h₁ with
      | evaluation => exact ⟨_, _, _, [], _, hat, (List.mem_singleton.1 hc).symm⟩
      | _ => cases hc
    · obtain ⟨rule, offset, trivia, inner, σ', hat', hkey⟩ := ih hc (hat.part h₁)
      rw [← List.append_assoc] at hat'
      exact ⟨rule, offset, trivia, _, σ', hat', hkey⟩
  | two h₁ h₂ _ _ ih ih' =>
    obtain hc | hc := List.mem_append.1 hc
    · obtain ⟨rule, offset, trivia, inner, σ', hat', hkey⟩ := ih hc (hat.part h₁)
      rw [← List.append_assoc] at hat'
      exact ⟨rule, offset, trivia, _, σ', hat', hkey⟩
    · obtain ⟨rule, offset, trivia, inner, σ', hat', hkey⟩ := ih' hc (hat.part h₂)
      rw [← List.append_assoc] at hat'
      exact ⟨rule, offset, trivia, _, σ', hat', hkey⟩

/-- The calls that are evaluated are those that the job is the first to remember. -/
theorem Evaluates.mem_iff (h : Evaluates s input job σ calls)
    (hexec : Exec s (· ≤ s.limit) input job σ (.ok found) τ) (c : Call) :
    c ∈ calls ↔ σ.memory.memo[c]? = none ∧ τ.memory.memo[c]? ≠ none := by
  constructor
  · exact fun hc => ⟨h.new c hc, h.remembered hexec c hc⟩
  · rintro ⟨hnew, hknown⟩
    obtain ⟨open', job', σ', hat, hc⟩ := hexec.remembers hnew hknown
    exact (h.of_at hat).1 hc

/-- No call is evaluated twice in a job that ends without a failure. -/
theorem Evaluates.nodup (h : Evaluates s input job σ calls)
    (hexec : Exec s (· ≤ s.limit) input job σ (.ok found) τ) : calls.Nodup := by
  induction h generalizing found τ with
  | alone _ => exact List.nodup_nil
  | @one job job' σ σ' calls h₁ _ hcalls ih =>
    obtain ⟨_, _, hexec', -⟩ := h₁.succeeds hexec
    refine List.nodup_append.2 ⟨?_, ih hexec', fun c hc d hd hcd => ?_⟩
    · cases h₁ with
      | evaluation => exact List.nodup_singleton _
      | _ => exact List.nodup_nil
    · subst hcd
      obtain ⟨rule, offset, trivia, inner, σ', hat, hkey⟩ := hcalls.at_call hd (.part .start h₁)
      have hopen : σ'.key rule offset trivia ∈ inner ++ (job.opened σ ++ []) := by
        rw [hkey, List.append_nil]
        exact List.mem_append_right _ hc
      obtain ⟨deepest, hdeep⟩ := hat.tooDeep hopen hexec
      cases hdeep
  | two h₁ h₂ hcalls hothers ih ih' =>
    obtain ⟨_, _, hexec₁, -⟩ := h₁.succeeds hexec
    obtain ⟨_, _, hexec₂, -⟩ := h₂.succeeds hexec
    refine List.nodup_append.2 ⟨ih hexec₁, ih' hexec₂, fun c hc d hd hcd => ?_⟩
    subst hcd
    obtain ⟨_, hexec⟩ := h₁.next h₂
    exact hcalls.remembered hexec c hc (hothers.new c hd)

end Evaluates

section Runs

variable (s : Setting) (input : Input) (rule : String) (trivia : Bool) (σ : Progress)

/-- The calls that are evaluated in a run. -/
inductive RunEvaluates : List Call → Prop where
  | unknown : s.grammar.ruleId? rule = none → RunEvaluates []
  | called {id : Nat} {calls : List Call} : s.grammar.ruleId? rule = some id →
    Evaluates s input (.call id 0 trivia) σ calls → RunEvaluates calls

/-- A run ends in a failure of the call of its start rule. Where the call is done and finds nothing,
the run is a mismatch, which is none. -/
def RunFails : Prop :=
  ∃ id e σ', s.grammar.ruleId? rule = some id ∧
    Exec s (· ≤ s.limit) input (.call id 0 trivia) σ (.error e) σ'

/-- In a run, a call is made while its own evaluation is in progress. -/
def RunReenters : Prop :=
  ∃ id calls inner offset skip σ', s.grammar.ruleId? rule = some id ∧
    At s input (.call id 0 trivia) σ calls (.call inner offset skip) σ' ∧
    σ'.key inner offset skip ∈ calls

variable {s input rule trivia σ} {σ' : Progress} {v : Except Failure Value}

/-- How the calls of a run that does not fail are evaluated. -/
structure EvaluatesOnce (s : Setting) (input : Input) (rule : String) (trivia : Bool)
    (σ σ' : Progress) (calls : List Call) : Prop where
  evaluates : RunEvaluates s input rule trivia σ calls
  nodup : calls.Nodup
  mem_iff : ∀ c, c ∈ calls ↔ σ.memory.memo[c]? = none ∧ σ'.memory.memo[c]? ≠ none

theorem RunExec.once (h : RunExec s (· ≤ s.limit) input rule trivia σ v σ')
    (hfails : ¬RunFails s input rule trivia σ) :
    ∃ calls, EvaluatesOnce s input rule trivia σ σ' calls := by
  cases h with
  | unknown hid =>
    refine ⟨[], .unknown hid, List.nodup_nil, fun c => iff_of_false List.not_mem_nil ?_⟩
    exact fun h => h.2 h.1
  | @called id σ σ' o hid hexec =>
    cases o with
    | error e => exact absurd ⟨id, e, σ', hid, hexec⟩ hfails
    | ok found =>
      obtain ⟨calls, hcalls⟩ := hexec.evaluates
      exact ⟨calls, .called hid hcalls, hcalls.nodup hexec, hcalls.mem_iff hexec⟩

theorem RunExec.grows (h : RunExec s (· ≤ s.limit) input rule trivia σ v σ') :
    σ.memory.Within σ'.memory := by
  cases h with
  | unknown _ => exact Memory.within_of_eq rfl
  | called _ hexec => exact hexec.grows

theorem RunExec.tooDeep (h : RunExec s (· ≤ s.limit) input rule trivia σ v σ')
    (hre : RunReenters s input rule trivia σ) : ∃ offset, v = .error (.tooDeep s.limit offset) := by
  obtain ⟨id, calls, inner, offset, skip, σ₁, hid, hat, hopen⟩ := hre
  cases h with
  | unknown hid' => cases hid.symm.trans hid'
  | called hid' hexec =>
    obtain rfl := Option.some.inj (hid.symm.trans hid')
    obtain ⟨deepest, rfl⟩ := hat.tooDeep hopen hexec
    exact ⟨deepest, rfl⟩

theorem RunEvaluates.unique {calls calls' : List Call}
    (h : RunEvaluates s input rule trivia σ calls)
    (h' : RunEvaluates s input rule trivia σ calls') : calls' = calls := by
  cases h with
  | unknown hid =>
    cases h' with
    | unknown => rfl
    | called hid' => cases hid.symm.trans hid'
  | called hid hcalls =>
    cases h' with
    | unknown hid' => cases hid.symm.trans hid'
    | called hid' hcalls' =>
      obtain rfl := Option.some.inj (hid.symm.trans hid')
      exact hcalls.unique hcalls'

end Runs

namespace Session

def Fails (session : Session) (rule : String) (trivia : Bool) : Prop :=
  RunFails session.setting session.input rule trivia session.progress

def Unfailing (session : Session) : List (String × Bool) → Prop
  | [] => True
  | (rule, trivia) :: rest =>
    ¬session.Fails rule trivia ∧ Unfailing (session.run rule trivia).2 rest

/-- The calls that are evaluated in some runs. -/
inductive Evaluates : Session → List (String × Bool) → List Call → Prop where
  | none {session : Session} : Evaluates session [] []
  | run {session : Session} {rule : String} {trivia : Bool} {rest : List (String × Bool)}
    {calls others : List Call} :
    RunEvaluates session.setting session.input rule trivia session.progress calls →
    Evaluates (session.run rule trivia).2 rest others →
    Evaluates session ((rule, trivia) :: rest) (calls ++ others)

theorem Evaluates.unique {session : Session} {runs : List (String × Bool)}
    {calls calls' : List Call} (h : session.Evaluates runs calls)
    (h' : session.Evaluates runs calls') : calls' = calls := by
  induction h generalizing calls' with
  | none =>
    cases h'
    rfl
  | run hcalls _ ih =>
    cases h' with
    | run hcalls' hothers' => rw [hcalls.unique hcalls', ih hothers']

theorem once {session : Session} (h : Sane session.input.text session.memory)
    {runs : List (String × Bool)} (hruns : session.Unfailing runs) :
    ∃ calls, session.Evaluates runs calls ∧ calls.Nodup ∧
      session.memory.Within (session.after run runs).memory ∧
      ∀ c, c ∈ calls ↔ session.memory.memo[c]? = none ∧
        (session.after run runs).memory.memo[c]? ≠ none := by
  induction runs generalizing session with
  | nil =>
    refine ⟨[], .none, List.nodup_nil, Memory.within_of_eq rfl,
      fun c => iff_of_false List.not_mem_nil ?_⟩
    exact fun h => h.2 h.1
  | cons start rest ih =>
    obtain ⟨rule, trivia⟩ := start
    obtain ⟨hfails, hrest⟩ := hruns
    obtain ⟨v, m, hrun, hm, hexec⟩ := run_exec h rule trivia
    obtain ⟨calls, hcalls⟩ := hexec.once hfails
    have hafter : session.after run ((rule, trivia) :: rest) =
        (session.run rule trivia).2.after run rest := rfl
    rw [hafter]
    rw [hrun] at hrest ⊢
    obtain ⟨others, hothers, hnodup, hwithin, hmem⟩ := ih hm hrest
    refine ⟨_, .run hcalls.evaluates (hrun ▸ hothers), List.nodup_append.2
      ⟨hcalls.nodup, hnodup, fun c hc d hd hcd => ?_⟩, hexec.grows.trans hwithin, fun c => ?_⟩
    · subst hcd
      exact ((hcalls.mem_iff c).1 hc).2 ((hmem c).1 hd).1
    rw [List.mem_append, hcalls.mem_iff, hmem]
    constructor
    · rintro (⟨hnew, hknown⟩ | ⟨hnew, hknown⟩)
      · exact ⟨hnew, fun hnone => hknown (hwithin.none hnone)⟩
      · exact ⟨hexec.grows.none hnew, hknown⟩
    · rintro ⟨hnew, hknown⟩
      by_cases hmid : m.memo[c]? = .none
      · exact .inr ⟨hmid, hknown⟩
      · exact .inl ⟨hnew, hmid⟩

end Session

/-- The rules of a grammar fail fatally only, as long as nested parses do. -/
def Grammar.FailsFatally (g : Grammar) : Prop :=
  ∀ r ∈ g.rules, ∀ (ctx : Context) (v : Value) (e : Failure),
    (∀ rule text offset e', ctx.reparse rule text offset = .error e' → e'.isFatal) →
    r.shape ctx v = .error e → e.isFatal

theorem answers_fatal {g : Grammar}
    {outcomes : String → String → Nat → Except Failure (Option Matched)} {rule text : String}
    {offset : Nat} {e : Failure} (h : answers g outcomes rule text offset = .error e) :
    e.isFatal := by
  simp only [answers] at h
  split at h
  · simp only [verdict] at h
    split at h
    · cases h
    · split at h
      · cases h
        assumption
      · cases h
  · cases h

/-- Mismatches are no failures: only processors fail, and calls that nest too deep. -/
theorem Exec.fatal {s : Setting} (hg : s.grammar.FailsFatally) {P : Nat → Prop} {input : Input}
    {job : Job} {σ σ' : Progress} {o : Except Failure (Option Matched)}
    (h : Exec s P input job σ o σ') {e : Failure} (he : o = .error e) : e.isFatal := by
  have hmap : ∀ {α β : Type} {f : α → β} {o : Except Failure α}, o.map f = .error e →
      o = .error e := by
    intro α β f o h
    cases o with
    | error e' =>
      obtain rfl := Except.error.inj h
      rfl
    | ok a => cases h
  induction h with
  | tooDeep _ _ =>
    cases he
    rfl
  | @shaped input rule offset trivia r σ σ' m outcomes ends hr _ _ _ _ =>
    exact hg r (Array.mem_of_getElem? hr) _ _ e (fun _ _ _ _ => answers_fatal) (hmap he)
  | entered _ _ _ _ ih => exact ih he
  | unshaped _ _ _ ih => exact ih he
  | rule _ ih => exact ih he
  | sequence _ ih => exact ih he
  | choice _ ih => exact ih he
  | repetition _ ih => exact ih he
  | optional _ ih => exact ih (hmap he)
  | ahead _ ih => exact ih (hmap he)
  | trivia _ ih => exact ih he
  | silent _ ih => exact ih (hmap he)
  | partUnmatched _ _ ih => exact ih he
  | partMatched _ _ _ ih' => exact ih' he
  | thisAlternative _ _ ih => exact ih he
  | nextAlternative _ _ _ ih' => exact ih' he
  | leading _ _ ih => exact ih he
  | separated _ _ _ _ _ ih' => exact ih' he
  | separatorFailed _ _ _ ih => exact ih he
  | itemFailed _ ih => exact ih he
  | itemMatched _ _ _ _ ih' => exact ih' he
  | _ => cases he

/-- Where rules fail fatally only, the runs that fail are those whose result is a fatal failure. -/
theorem RunExec.fails_iff {s : Setting} (hg : s.grammar.FailsFatally) {input : Input}
    {rule : String} {trivia : Bool} {σ σ' : Progress} {v : Except Failure Value}
    (h : RunExec s (· ≤ s.limit) input rule trivia σ v σ') :
    RunFails s input rule trivia σ ↔ ∃ e, v = .error e ∧ e.isFatal := by
  constructor
  · rintro ⟨id, e, σ₁, hid, hexec⟩
    obtain ⟨rfl, -⟩ := h.unique (.called hid hexec)
    exact ⟨e, rfl, hexec.fatal hg rfl⟩
  · rintro ⟨e, hv, he⟩
    cases h with
    | unknown _ =>
      cases hv
      cases he
    | @called id σ σ' o hid hexec =>
      cases o with
      | error e' => exact ⟨id, e', σ', hid, hexec⟩
      | ok found =>
        cases found with
        | none =>
          cases hv
          cases he
        | some m => cases hv

/-- In a session, no call is evaluated twice unless a run fails, and a run in which a call is made
while its evaluation is in progress nests too deep, whatever was run before. So it is in the parses
that processors nest, each of which is a session of one run. To fail means to end in a fatal failure
where processors raise no others. -/
theorem packrat (s : Setting) (input : Input) (runs : List (String × Bool)) :
    let session := Session.start s input
    let last := session.after Session.run runs
    (session.Unfailing runs → ∃ calls, session.Evaluates runs calls ∧ calls.Nodup ∧
      (∀ c, c ∈ calls ↔ last.memory.memo[c]? ≠ none) ∧
      ∀ calls', session.Evaluates runs calls' → calls' = calls) ∧
    (∀ rule trivia, RunReenters s input rule trivia last.progress →
      ∃ offset, (last.run rule trivia).1 = .error (.tooDeep s.limit offset)) ∧
    (∀ room depth rule text offset, depth + room = s.limit →
      let nested := input.within text offset
      let σ : Progress := ⟨.empty, depth, 0⟩
      (¬RunFails s nested rule false σ →
        ∃ calls, RunEvaluates s nested rule false σ calls ∧ calls.Nodup) ∧
      (RunReenters s nested rule false σ →
        ∃ offset', reparseWith s.grammar (invoke s room) input rule text offset =
          .error (.tooDeep s.limit offset'))) ∧
    (s.grammar.FailsFatally → ∀ rule trivia, last.Fails rule trivia ↔
      ∃ e, (last.run rule trivia).1 = .error e ∧ e.isFatal) := by
  intro session last
  obtain ⟨hsetting, hinput, hsane⟩ := sane_after session (sane_empty _) runs
  have hlast : ∀ rule trivia, ∃ m, RunExec s (· ≤ s.limit) input rule trivia last.progress
      (last.run rule trivia).1 ⟨m, 0, 0⟩ := by
    intro rule trivia
    have hsane : Sane last.input.text last.memory := by
      rw [hinput]
      exact hsane
    obtain ⟨v, m, hrun, -, hexec⟩ := Session.run_exec hsane rule trivia
    rw [hsetting, hinput] at hexec
    rw [hrun]
    exact ⟨m, hexec⟩
  refine ⟨fun hruns => ?_, fun rule trivia hre => ?_, fun room depth rule text offset hroom => ?_,
    fun hg rule trivia => ?_⟩
  · obtain ⟨calls, hcalls, hnodup, -, hmem⟩ := Session.once (sane_empty _) hruns
    refine ⟨calls, hcalls, hnodup, fun c => (hmem c).trans (and_iff_right ?_),
      fun calls' h => hcalls.unique h⟩
    show Memory.empty.memo[c]? = none
    simp only [Memory.empty, Std.HashMap.getElem?_empty]
  · obtain ⟨m, hexec⟩ := hlast rule trivia
    exact hexec.tooDeep hre
  · intro nested σ
    obtain ⟨v, m, hx, -, hexec⟩ := runWith_performs hroom (sane_empty nested.text) rule false
    refine ⟨fun hfails => ?_, fun hre => ?_⟩
    · obtain ⟨calls, hcalls⟩ := hexec.once hfails
      exact ⟨calls, hcalls.evaluates, hcalls.nodup⟩
    · obtain ⟨offset', rfl⟩ := hexec.tooDeep hre
      have hx' : runWith s.grammar (invoke s room) ⟨Text.ofString text, input.base + offset⟩ rule
          false .empty = ending (.error (.tooDeep s.limit offset')) m := hx
      simp only [reparseWith, hx']
      exact ⟨offset', rfl⟩
  · obtain ⟨m, hexec⟩ := hlast rule trivia
    have hfails := hexec.fails_iff hg
    rw [Session.Fails, hsetting, hinput]
    exact hfails

/-- A rule that begins with itself comes to its own call at once. -/
example (s : Setting) (input : Input) (r : LinkedRule) (rest : List LinkedPattern)
    (hid : s.grammar.ruleId? "Sum" = some 0) (hr : s.grammar.rules[0]? = some r)
    (hp : r.pattern = .choice (.rule ⟨"Sum", 0⟩ :: rest)) (hlimit : 0 < s.limit) :
    RunReenters s input "Sum" true (Session.start s input).progress := by
  have hcall : At s input (.call 0 0 true) (Session.start s input).progress _
      (.evaluate 0 0 true) _ :=
    .part .start (.evaluation (by simp [Session.progress, Session.start, Memory.empty]) hlimit)
  have hpattern := hcall.part (.body hr)
  rw [hp] at hpattern
  exact ⟨0, _, 0, 0, true, _, hid, ((hpattern.part .choice).part .firstAlternative).part .rule,
    List.mem_singleton.2 rfl⟩

end PhpSyntax.Peg
