import PhpSyntax.Proofs.Peg.Relation

namespace PhpSyntax.Peg

/-- What a processor does with one match: it yields a result, or asks for a nested parse and goes on
with the outcome. -/
inductive Plan where
  | done (result : Except Failure Value)
  | ask (rule text : String) (offset : Nat) (next : Except Failure (Option Value) → Plan)

namespace Plan

/-- Carries out a plan. A nested parse that nests too deep ends the whole parse. -/
def run (reparse : String → String → Nat → Except Failure (Option Value)) :
    Plan → Except Failure Value
  | .done result => result
  | .ask rule text offset next =>
    match reparse rule text offset with
    | .ok v => (next (.ok v)).run reparse
    | .error e => if e.isTooDeep then .error e else (next (.error e)).run reparse

end Plan

/-- A processor that depends on the value, the match, the options and the outcomes of nested
parses only, and passes on the failure of one that nests too deep. -/
def Processor.Planned (p : Processor) : Prop :=
  ∀ v span input lines options, ∃ plan : Plan, ∀ reparse,
    p v ⟨span, input, lines, options, reparse⟩ = plan.run reparse

def Grammar.Planned (g : Grammar) : Prop :=
  ∀ r ∈ g.rules, ∀ p, r.processor = some p → p.Planned

def ofResult {α : Type} : Except Failure α → Eval α
  | .ok a => pure a
  | .error e => throw e

theorem ofResult_ask (reparse : String → String → Nat → Except Failure (Option Value))
    (rule text : String) (offset : Nat) (next : Except Failure (Option Value) → Plan) :
    ofResult ((Plan.ask rule text offset next).run reparse) =
      attempt (ofResult (reparse rule text offset)) (fun v => ofResult ((next (.ok v)).run reparse))
        fun e => ofResult ((next (.error e)).run reparse) := by
  funext m
  simp only [Plan.run]
  cases reparse rule text offset with
  | ok v => rfl
  | error e =>
    simp only [attempt, ofResult, throw, throwThe, MonadExceptOf.throw, EStateM.throw]
    cases e.isTooDeep <;> rfl

section Lifting

variable {ι : Type} (L : Lifting ι)

/-- Plans carried out over related nested parses are related. -/
theorem Plan.run_rel {x : ι → String → String → Nat → Except Failure (Option Value)}
    {y : String → String → Nat → Except Failure (Option Value)}
    (h : ∀ rule text offset,
      L.rel (· = ·) (fun i => ofResult (x i rule text offset)) (ofResult (y rule text offset)))
    (plan : Plan) : L.rel (· = ·) (fun i => ofResult (plan.run (x i))) (ofResult (plan.run y)) := by
  induction plan with
  | done result =>
    cases result with
    | ok v => exact L.pure rfl
    | error e => exact L.throw e
  | ask rule text offset next ih =>
    simp only [ofResult_ask]
    refine L.attempt (h rule text offset) ?_ fun e _ => ih (.error e)
    rintro v _ rfl
    exact ih (.ok v)

theorem LinkedRule.shape_rel {r : LinkedRule} (hp : ∀ p, r.processor = some p → p.Planned)
    (span : Span) (input : Input) (lines : Lines) (options : Options)
    {x : ι → String → String → Nat → Except Failure (Option Value)}
    {y : String → String → Nat → Except Failure (Option Value)}
    (h : ∀ rule text offset,
      L.rel (· = ·) (fun i => ofResult (x i rule text offset)) (ofResult (y rule text offset)))
    (v : Value) :
    L.rel (· = ·) (fun i => ofResult (r.shape ⟨span, input, lines, options, x i⟩ v))
      (ofResult (r.shape ⟨span, input, lines, options, y⟩ v)) := by
  simp only [shape]
  cases r.fallback? v with
  | some v => exact L.pure rfl
  | none =>
    have hplace : ∀ (reparse : String → String → Nat → Except Failure (Option Value))
        (result : Except Failure Value),
        ofResult (do return place ⟨span, input, lines, options, reparse⟩ (← result)) =
          ofResult result >>= fun v => pure (place ⟨span, input, lines, options, y⟩ v) := by
      intro reparse result
      cases result <;> rfl
    simp only [hplace]
    refine L.bind (R := (· = ·)) ?_ ?_
    · simp only [process]
      cases hr : r.processor with
      | none => exact L.pure rfl
      | some p =>
        obtain ⟨plan, hplan⟩ := hp p hr (r.tagged v) span input lines options
        simp only [hplan]
        exact plan.run_rel L h
    · rintro v _ rfl
      exact L.pure rfl

theorem conclude_eq (s : Setting) (call : Input → Call → Eval (Option Matched)) (input : Input)
    (rule : LinkedRule) (m : Matched) :
    conclude s call input rule m =
      ofResult (rule.shape ⟨⟨m.start, m.stop⟩, input, s.lines, s.options,
        reparseWith s.grammar call input⟩ m.value) >>=
          fun v => pure (some { m with value := v }) := by
  simp only [conclude]
  cases rule.shape _ _ <;> rfl

/-- Rules of a planned grammar conclude matches alike over related nested parses. -/
theorem conclude_rel {s : Setting} (hg : s.grammar.Planned)
    {x : ι → Input → Call → Eval (Option Matched)} {y : Input → Call → Eval (Option Matched)}
    {input : Input}
    (h : ∀ rule text offset,
      L.rel (· = ·) (fun i => ofResult (reparseWith s.grammar (x i) input rule text offset))
        (ofResult (reparseWith s.grammar y input rule text offset)))
    {r : LinkedRule} (hr : r ∈ s.grammar.rules) {m n : Matched} (hm : Matched.Rel (· = ·) m n) :
    L.rel (Option.Rel (Matched.Rel (· = ·))) (fun i => conclude s (x i) input r m)
      (conclude s y input r n) := by
  obtain ⟨start, stop, v⟩ := m
  obtain ⟨start', stop', v'⟩ := n
  obtain ⟨rfl, rfl, rfl⟩ := hm
  simp only [conclude_eq]
  refine L.bind (LinkedRule.shape_rel L (hg r hr) _ _ _ _ h v) ?_
  rintro v _ rfl
  exact L.pure (.some ⟨rfl, rfl, rfl⟩)

end Lifting

end PhpSyntax.Peg
