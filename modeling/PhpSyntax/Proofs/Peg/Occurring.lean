import PhpSyntax.Proofs.Peg.Underway

namespace PhpSyntax.Peg

/-- The jobs of the runs of a session on a source and of the parses nested in them, each with its
input and the state it begins in. Nested parses that no processor asks for are among them. -/
inductive Occurs (s : Setting) (source : Input) : Input → Job → Progress → Prop where
  | run {rule : String} {id : Nat} (runs : List (String × Bool)) (trivia : Bool) :
    s.grammar.ruleId? rule = some id →
    Occurs s source source (.call id 0 trivia)
      ((Session.start s source).after Session.run runs).progress
  | part {input : Input} {job job' : Job} {σ σ' : Progress} {later : Bool} :
    Occurs s source input job σ → Part s input job σ later job' σ' →
    Occurs s source input job' σ'
  | nested {input : Input} {rule offset id : Nat} {trivia : Bool} {r : LinkedRule}
    {σ σ' : Progress} {m : Matched} {name : String} (text : String) (place : Nat) :
    Occurs s source input (.evaluate rule offset trivia) σ → s.grammar.rules[rule]? = some r →
    Exec s (· ≤ s.limit) input (.pattern r.pattern trivia offset) σ (.ok (some m)) σ' →
    s.grammar.ruleId? name = some id →
    Occurs s source (input.within text place) (.call id 0 false) ⟨.empty, σ'.depth, 0⟩

section Occurs

variable {s : Setting} {table : List RuleDef} {I : Invariant} {source input : Input} {job : Job}
  {σ σ' : Progress} {rule : String} {trivia : Bool} {v : Except Failure Value}

theorem RunExec.remembers {P : Nat → Prop} (h : RunExec s P input rule trivia σ v σ')
    (hc : I.Closed s table) (hl : s.grammar.Lists table) (hgood : I.good input)
    (hstart : input.text.Boundary 0) (hσ : I.Remembers s input σ.memory) :
    I.Remembers s input σ'.memory := by
  cases h with
  | unknown _ => exact hσ
  | called _ hexec => exact (hexec.keeps hc hl hgood hσ hstart).memory

/-- What is remembered behind some runs has what is kept. -/
theorem Invariant.remembers_after (hc : I.Closed s table) (hl : s.grammar.Lists table)
    (hgood : I.good input) (hstart : input.text.Boundary 0) (runs : List (String × Bool)) :
    I.Remembers s input ((Session.start s input).after Session.run runs).memory := by
  suffices h : ∀ m, Sane input.text m → I.Remembers s input m →
      I.Remembers s input (Session.after Session.run ⟨s, input, m⟩ runs).memory from
    h _ (sane_empty _) (I.remembers_empty s hstart)
  induction runs with
  | nil => exact fun _ _ hm => hm
  | cons start runs ih =>
    obtain ⟨rule, trivia⟩ := start
    intro m hsane hm
    obtain ⟨v, m', hrun, hsane', hexec⟩ :=
      @Session.run_exec ⟨s, input, m⟩ hsane rule trivia
    have hstep : Session.after Session.run ⟨s, input, m⟩ ((rule, trivia) :: runs) =
        Session.after Session.run ⟨s, input, m'⟩ runs := by
      simp only [Session.after, List.foldl_cons, hrun]
    rw [hstep]
    exact ih m' hsane' (hexec.remembers hc hl hgood hstart hm)

/-- Wherever a session is at, what is kept is known there, if it is about nested inputs as well. -/
theorem Occurs.underway (h : Occurs s source input job σ) (hc : I.Closed s table)
    (hl : s.grammar.Lists table) (hsource : I.good source) (hstart : source.text.Boundary 0)
    (hnested : ∀ input text place, I.good input → I.good (input.within text place)) :
    I.Underway s input job σ := by
  induction h with
  | run runs trivia _ => exact ⟨hsource, I.remembers_after hc hl hsource hstart runs, hstart⟩
  | part _ hpart ih => exact hpart.underway hc hl ih
  | @nested input _ _ _ _ _ _ _ _ _ text place _ _ _ _ ih =>
    have hbegin : (input.within text place).text.Boundary 0 := ⟨_, Text.has_start _⟩
    exact ⟨hnested input text place ih.good, I.remembers_empty s hbegin, hbegin⟩

end Occurs

section Hereditary

/-- A property of patterns that all patterns within them have as well. -/
structure Hereditary (F : LinkedPattern → Prop) : Prop where
  component : ∀ {cs}, F (.sequence cs) → ∀ c ∈ cs, F c.pattern
  alternative : ∀ {ps}, F (.choice ps) → ∀ p ∈ ps, F p
  item : ∀ {p separator least trailing}, F (.repetition p separator least trailing) → F p
  separator : ∀ {p separator least trailing}, F (.repetition p (some separator) least trailing) →
    F separator
  optional : ∀ {p}, F (.optional p) → F p
  ahead : ∀ {negated p}, F (.ahead negated p) → F p
  trivia : ∀ {skip p}, F (.trivia skip p) → F p
  silent : ∀ {p}, F (.silent p) → F p

def Repetition.pattern (r : Repetition) : LinkedPattern :=
  .repetition r.item r.separator r.least r.trailing

/-- The patterns that a job works on have a property. -/
def Job.Has (F : LinkedPattern → Prop) : Job → Prop
  | .call .. => True
  | .evaluate .. => True
  | .pattern q _ _ => F q
  | .components cs _ _ => ∀ c ∈ cs, F c.pattern
  | .alternatives qs _ _ => ∀ q ∈ qs, F q
  | .rounds r _ => F r.pattern
  | .item r _ _ => F r.pattern

variable {s : Setting} {source input : Input} {job job' : Job} {σ σ' : Progress} {later : Bool}
  {F : LinkedPattern → Prop}

theorem Part.has (h : Part s input job σ later job' σ') (hF : Hereditary F)
    (hrules : ∀ (id : Nat) (r : LinkedRule), s.grammar.rules[id]? = some r → F r.pattern)
    (hjob : job.Has F) : job'.Has F := by
  cases h with
  | evaluation _ _ => exact trivial
  | body hr => exact hrules _ _ hr
  | rule => exact trivial
  | sequence => exact hF.component hjob
  | choice => exact hF.alternative hjob
  | repetition => exact hjob
  | optional => exact hF.optional hjob
  | ahead => exact hF.ahead hjob
  | trivia => exact hF.trivia hjob
  | silent => exact hF.silent hjob
  | firstComponent => exact hjob _ (List.mem_cons_self ..)
  | otherComponents _ => exact fun c hc => hjob c (List.mem_cons_of_mem _ hc)
  | firstAlternative => exact hjob _ (List.mem_cons_self ..)
  | otherAlternatives _ => exact fun q hq => hjob q (List.mem_cons_of_mem _ hq)
  | unseparated _ => exact hjob
  | @separator r p _ _ hr _ =>
    simp only [Job.Has, Repetition.pattern, hr] at hjob
    exact hF.separator hjob
  | separated _ _ _ => exact hjob
  | item => exact hF.item hjob
  | otherRounds _ _ => exact hjob

/-- What the patterns of all rules have, those have that a session works on. -/
theorem Occurs.has (h : Occurs s source input job σ) (hF : Hereditary F)
    (hrules : ∀ (id : Nat) (r : LinkedRule), s.grammar.rules[id]? = some r → F r.pattern) :
    job.Has F := by
  induction h with
  | run _ _ _ => exact trivial
  | part _ hpart ih => exact hpart.has hF hrules ih
  | nested _ _ _ _ _ _ _ => exact trivial

section Every

variable {P : Lexeme → Prop} {Q : RuleRef → Prop}

theorem every_of_component {cs : List (Component LinkedPattern)}
    (h : Pattern.EveryComponent P Q cs) : ∀ c ∈ cs, c.pattern.Every P Q := by
  induction cs with
  | nil => exact nofun
  | cons c rest ih => exact List.forall_mem_cons.2 ⟨h.1, ih h.2⟩

theorem every_of_alternative {ps : List LinkedPattern}
    (h : Pattern.EveryAlternative P Q ps) : ∀ p ∈ ps, p.Every P Q := by
  induction ps with
  | nil => exact nofun
  | cons p rest ih => exact List.forall_mem_cons.2 ⟨h.1, ih h.2⟩

theorem every_hereditary (P : Lexeme → Prop) (Q : RuleRef → Prop) :
    Hereditary (Pattern.Every P Q) where
  component := every_of_component
  alternative := every_of_alternative
  item {_ separator _ _} h := by
    cases separator with
    | none => exact h
    | some separator => exact h.1
  separator h := h.2
  optional h := h
  ahead h := h
  trivia h := h
  silent h := h

end Every

theorem componentTerminals_eq (cs : List (Component LinkedPattern)) :
    Pattern.componentTerminals cs = cs.flatMap (·.pattern.terminals) := by
  induction cs with
  | nil => rfl
  | cons c rest ih => rw [Pattern.componentTerminals, ih, List.flatMap_cons]

theorem allTerminals_eq (ps : List LinkedPattern) :
    Pattern.allTerminals ps = ps.flatMap (·.terminals) := by
  induction ps with
  | nil => rfl
  | cons p rest ih => rw [Pattern.allTerminals, ih, List.flatMap_cons]

theorem componentScanners_eq (cs : List (Component LinkedPattern)) :
    Pattern.componentScanners cs = cs.flatMap (·.pattern.scanners) := by
  induction cs with
  | nil => rfl
  | cons c rest ih => rw [Pattern.componentScanners, ih, List.flatMap_cons]

theorem allScanners_eq (ps : List LinkedPattern) :
    Pattern.allScanners ps = ps.flatMap (·.scanners) := by
  induction ps with
  | nil => rfl
  | cons p rest ih => rw [Pattern.allScanners, ih, List.flatMap_cons]

theorem terminals_hereditary (P : Lexeme → Prop) :
    Hereditary fun q => ∀ t ∈ q.terminals, P t where
  component {cs} h c hc t ht := by
    refine h t ?_
    rw [Pattern.terminals, componentTerminals_eq]
    exact List.mem_flatMap.2 ⟨c, hc, ht⟩
  alternative {ps} h p hp t ht := by
    refine h t ?_
    rw [Pattern.terminals, allTerminals_eq]
    exact List.mem_flatMap.2 ⟨p, hp, ht⟩
  item {_ separator _ _} h := by
    cases separator with
    | none => exact h
    | some separator => exact (List.forall_mem_append.1 h).1
  separator h := (List.forall_mem_append.1 h).2
  optional h := h
  ahead h := h
  trivia h := h
  silent h := h

theorem scanners_hereditary (P : Scanner → Prop) :
    Hereditary fun q => ∀ sc ∈ q.scanners, P sc where
  component {cs} h c hc sc hsc := by
    refine h sc ?_
    rw [Pattern.scanners, componentScanners_eq]
    exact List.mem_flatMap.2 ⟨c, hc, hsc⟩
  alternative {ps} h p hp sc hsc := by
    refine h sc ?_
    rw [Pattern.scanners, allScanners_eq]
    exact List.mem_flatMap.2 ⟨p, hp, hsc⟩
  item {_ separator _ _} h := by
    cases separator with
    | none => exact h
    | some separator => exact (List.forall_mem_append.1 h).1
  separator h := (List.forall_mem_append.1 h).2
  optional h := h
  ahead h := h
  trivia h := h
  silent h := h

/-- The rules of a grammar refer to nothing outside of it. -/
structure Grammar.Whole (g : Grammar) : Prop where
  every : ∀ (id : Nat) (r : LinkedRule), g.rules[id]? = some r →
    r.pattern.Every Lexeme.Read (RuleRef.Resolved g.index)
  named : ∀ (name : String) (id : Nat), g.index[name]? = some id → ∃ r, g.rules[id]? = some r

theorem Occurs.called {id offset : Nat} {skip : Bool}
    (h : Occurs s source input (.call id offset skip) σ) (hg : s.grammar.Whole) :
    ∃ r, s.grammar.rules[id]? = some r := by
  cases h with
  | run _ _ hid => exact hg.named _ _ hid
  | part h hpart =>
    cases hpart with
    | rule => exact hg.named _ _ (h.has (every_hereditary _ _) hg.every)
  | nested _ _ _ _ _ hid => exact hg.named _ _ hid

theorem Occurs.tried {l : Lexeme} {skip : Bool} {offset : Nat}
    (h : Occurs s source input (.pattern (.terminal l) skip offset) σ) (hg : s.grammar.Whole) :
    l.Read :=
  h.has (every_hereditary _ _) hg.every

end Hereditary

end PhpSyntax.Peg
