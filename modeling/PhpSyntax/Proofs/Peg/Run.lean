import PhpSyntax.Proofs.Peg.Afresh

namespace PhpSyntax.Peg

/-- What a run makes of the call of its start rule. -/
def conclusion (input : Input) (m : Memory) : Except Failure (Option Matched) → Except Failure Value
  | .ok (some found) => .ok found.value
  | .ok none => .error (mismatch input m)
  | .error e => .error e

theorem runWith_eq {g : Grammar} {rule : String} {id : Nat} (h : g.ruleId? rule = some id)
    {call : Input → Call → Eval (Option Matched)} {input : Input} {trivia : Bool} {m m' : Memory}
    {o : Except Failure (Option Matched)}
    (hc : call input ⟨id, 0, trivia, false⟩ m = ending o m') :
    runWith g call input rule trivia m = ending (conclusion input m' o) m' := by
  simp only [runWith, h, hc]
  cases o with
  | error e => rfl
  | ok found => cases found <;> rfl

theorem runWith_unknown {g : Grammar} {rule : String} (h : g.ruleId? rule = none)
    (call : Input → Call → Eval (Option Matched)) (input : Input) (trivia : Bool) (m : Memory) :
    runWith g call input rule trivia m = ending (.error (mismatch input m)) m := by
  simp only [runWith, h, ending]

theorem Session.run_eq {s : Session} {rule : String} {trivia : Bool} {r : Except Failure Value}
    {m : Memory}
    (h : runWith s.setting.grammar (invoke s.setting s.setting.limit) s.input rule trivia s.memory =
      ending r m) : s.run rule trivia = (r, { s with memory := m }) := by
  simp only [run, h]
  cases r <;> rfl

/-- A run that finds something leaves the memory of the step that it is. -/
theorem Session.runWith_of_run {s : Session} {rule : String} {trivia : Bool} {v : Value}
    (h : (s.run rule trivia).1 = .ok v) :
    ∃ m, runWith s.setting.grammar (invoke s.setting s.setting.limit) s.input rule trivia s.memory =
      .ok v m := by
  simp only [run] at h
  split at h
  · rename_i w m hrun
    obtain rfl := Except.ok.inj h
    exact ⟨m, hrun⟩
  · cases h

end PhpSyntax.Peg
