import PhpSyntax.Proofs.Peg.Keeping
import PhpSyntax.Proofs.Peg.Nesting

namespace PhpSyntax.Peg

/-- Nothing in particular: that matches are in their place is kept all the same. -/
def Invariant.trivial : Invariant :=
  ⟨fun _ => True, fun _ _ _ _ _ => True, fun _ => True⟩

theorem Invariant.trivial_closed (s : Setting) (table : List RuleDef) :
    Invariant.trivial.Closed s table :=
  ⟨fun _ _ _ _ => True.intro,
    fun _ _ _ _ _ _ _ _ _ _ _ _ => ⟨fun _ _ => True.intro, fun _ _ => True.intro⟩⟩

/-- What is known where a job begins. -/
structure Invariant.Underway (I : Invariant) (s : Setting) (input : Input) (job : Job)
    (σ : Progress) : Prop where
  good : I.good input
  remembers : I.Remembers s input σ.memory
  before : I.Before s input job

section Underway

variable {s : Setting} {table : List RuleDef} {I : Invariant} {input : Input} {job job' : Job}
  {σ σ' : Progress} {later : Bool} {o : Except Failure (Option Matched)} {P : Nat → Prop}

theorem Exec.kept (h : Exec s P input job σ o σ') (hc : I.Closed s table)
    (hl : s.grammar.Lists table) (hu : I.Underway s input job σ) :
    I.Keeps s input job o σ'.memory :=
  h.keeps hc hl hu.good hu.remembers hu.before

/-- Where a part of a job begins, as much is known. -/
theorem Part.underway (h : Part s input job σ later job' σ') (hc : I.Closed s table)
    (hl : s.grammar.Lists table) (hu : I.Underway s input job σ) :
    I.Underway s input job' σ' := by
  obtain ⟨hgood, hσ, hb⟩ := hu
  have hfirst : ∀ {p : LinkedPattern} {trivia : Bool} {offset : Nat} {found : Option Matched},
      p.Fit s.grammar → input.text.Boundary offset →
      Exec s (· ≤ s.limit) input (.pattern p trivia offset) σ (.ok found) σ' →
      I.Remembers s input σ'.memory ∧ ∀ m, found = some m → I.MatchesOf s input trivia p offset m ∧
        m.Placed input.text offset := by
    intro p trivia offset found hfit hb hexec
    obtain ⟨hmemory, hfound, -⟩ := hexec.keeps hc hl hgood hσ ⟨hfit, hb⟩
    refine ⟨hmemory, fun m hm => ?_⟩
    have hmatch := hfound m (congrArg Except.ok hm)
    exact ⟨hmatch, Invariant.MatchesOf.placed hfit hb hmatch⟩
  suffices hpart : I.Remembers s input σ'.memory ∧ I.Before s input job' from
    ⟨hgood, hpart.1, hpart.2⟩
  cases h with
  | evaluation _ _ => exact ⟨hσ, hb⟩
  | body hr => exact ⟨hσ, (hl.written _ _ hr).2, hb⟩
  | rule => exact ⟨hσ, hb.2⟩
  | sequence => exact ⟨hσ, hb.1, _, .starting hb.2⟩
  | choice => exact ⟨hσ, hb⟩
  | repetition => exact ⟨hσ, ⟨hb.1.repetition, hb.2⟩, .start⟩
  | optional => exact ⟨hσ, hb⟩
  | ahead => exact ⟨hσ, hb⟩
  | trivia => exact ⟨hσ, hb⟩
  | silent => exact ⟨hσ, hb⟩
  | firstComponent =>
    obtain ⟨hfit, offset, hrun⟩ := hb
    exact ⟨hσ, hfit.sequence_cons.1, hrun.here⟩
  | otherComponents hexec =>
    obtain ⟨hfit, offset, hrun⟩ := hb
    obtain ⟨hmemory, hfound⟩ := hfirst hfit.sequence_cons.1 hrun.here hexec
    exact ⟨hmemory, hfit.sequence_cons.2, offset, Parts.push_run hrun _ _ (hfound _ rfl).2⟩
  | firstAlternative => exact ⟨hσ, hb.1.choice_cons.1, hb.2⟩
  | otherAlternatives hexec =>
    exact ⟨(hfirst hb.1.choice_cons.1 hb.2 hexec).1, hb.1.choice_cons.2, hb.2⟩
  | unseparated hr =>
    refine ⟨hσ, hb.1, hb.2, .leading ?_⟩
    exact hr.imp_left fun hnone => by rw [hnone, Option.map_none]
  | separator hr _ => exact ⟨hσ, hb.1.1.2 _ hr, hb.2.here hb.1⟩
  | @separated r p rs σ σ' m hr hi hexec =>
    obtain ⟨hmemory, hfound⟩ := hfirst (hb.1.1.2 _ hr) (hb.2.here hb.1) hexec
    refine ⟨hmemory, hb.1, hb.2, .separated (p := I.MatchesOf s input r.trivia p) ?_ hi
      (hfound m rfl).1⟩
    rw [hr, Option.map_some]
  | item => exact ⟨hσ, hb.1.1.1, hb.2.1.onward hb.1 hb.2.2⟩
  | @otherRounds r rs next σ σ' m hexec hgoes =>
    obtain ⟨hfit, hgrown, hnext⟩ := hb
    obtain ⟨hmemory, hfound⟩ := hfirst hfit.1.1 (hgrown.onward hfit hnext) hexec
    refine ⟨hmemory, hfit, hgrown.more hnext (hfound m rfl).1 fun hstop => ?_⟩
    by_contra hnot
    refine hgoes ⟨hstop, ?_⟩
    rw [not_and_or, not_not, Option.map_eq_none_iff] at hnot
    exact hnot

/-- Wherever a parse is at on its way down, as much is known as where it began. -/
theorem At.underway {job₀ : Job} {σ₀ : Progress} {calls : List Call}
    (h : At s input job₀ σ₀ calls job σ) (hc : I.Closed s table) (hl : s.grammar.Lists table)
    (hu : I.Underway s input job₀ σ₀) : I.Underway s input job σ := by
  induction h with
  | start => exact hu
  | part _ hpart ih => exact hpart.underway hc hl ih

end Underway

end PhpSyntax.Peg
