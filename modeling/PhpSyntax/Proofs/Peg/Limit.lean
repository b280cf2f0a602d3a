import PhpSyntax.Proofs.Peg.Transparency

namespace PhpSyntax.Peg

/-- A processor that passes on the failure of a nested parse that nests too deep. What such a parse
would have found otherwise matters to its result only where that is such a failure, too. -/
def Processor.PassesOn (p : Processor) : Prop :=
  ∀ v span input lines options reparse reparse',
    (∀ rule text offset, Deep (reparse rule text offset) ∨
      reparse rule text offset = reparse' rule text offset) →
    Deep (p v ⟨span, input, lines, options, reparse⟩) ∨
      p v ⟨span, input, lines, options, reparse⟩ = p v ⟨span, input, lines, options, reparse'⟩

def Grammar.PassesOn (g : Grammar) : Prop :=
  ∀ r ∈ g.rules, ∀ p, r.processor = some p → p.PassesOn

theorem Plan.run_passesOn {reparse reparse' : String → String → Nat → Except Failure (Option Value)}
    (h : ∀ rule text offset, Deep (reparse rule text offset) ∨
      reparse rule text offset = reparse' rule text offset) (plan : Plan) :
    Deep (plan.run reparse) ∨ plan.run reparse = plan.run reparse' := by
  induction plan with
  | done result => exact .inr rfl
  | ask rule text offset next ih =>
    simp only [run]
    obtain hd | heq := h rule text offset
    · cases ho : reparse rule text offset with
      | ok v =>
        rw [ho] at hd
        exact hd.elim
      | error e =>
        rw [ho] at hd
        simp only [show e.isTooDeep = true from hd, if_true]
        exact .inl hd
    · rw [← heq]
      cases reparse rule text offset with
      | ok v => exact ih (.ok v)
      | error e =>
        cases he : e.isTooDeep with
        | true => simp only [he, if_true, or_true]
        | false =>
          simp only [he, Bool.false_eq_true, if_false]
          exact ih (.error e)

theorem Processor.Planned.passesOn {p : Processor} (h : p.Planned) : p.PassesOn := by
  intro v span input lines options reparse reparse' hsame
  obtain ⟨plan, hplan⟩ := h v span input lines options
  rw [hplan, hplan]
  exact plan.run_passesOn hsame

theorem Grammar.Planned.passesOn {g : Grammar} (h : g.Planned) : g.PassesOn :=
  fun r hr p hp => (h r hr p hp).passesOn

theorem LinkedRule.shape_passesOn {r : LinkedRule}
    (hp : ∀ p, r.processor = some p → p.PassesOn) (span : Span) (input : Input) (lines : Lines)
    (options : Options) {reparse reparse' : String → String → Nat → Except Failure (Option Value)}
    (h : ∀ rule text offset, Deep (reparse rule text offset) ∨
      reparse rule text offset = reparse' rule text offset) (v : Value) :
    Deep (r.shape ⟨span, input, lines, options, reparse⟩ v) ∨
      r.shape ⟨span, input, lines, options, reparse⟩ v =
        r.shape ⟨span, input, lines, options, reparse'⟩ v := by
  simp only [shape]
  cases r.fallback? v with
  | some v => exact .inr rfl
  | none =>
    simp only [process]
    cases hr : r.processor with
    | none => exact .inr rfl
    | some p =>
      obtain hd | heq := hp p hr (r.tagged v) span input lines options reparse reparse' h
      · left
        cases hx : p (r.tagged v) ⟨span, input, lines, options, reparse⟩ with
        | ok v =>
          rw [hx] at hd
          exact hd.elim
        | error e =>
          rw [hx] at hd
          simp only [hx]
          exact hd
      · right
        simp only [heq]
        cases p (r.tagged v) ⟨span, input, lines, options, reparse'⟩ <;> rfl

/-- A setting with another limit. -/
abbrev Setting.limited (s : Setting) (limit : Nat) : Setting :=
  { s with limit := limit }

section Raised

variable {s : Setting} (hg : s.grammar.PassesOn) (limit : Nat)

include hg

/-- A rule concludes as with another limit if nested parses do, or nests too deep. -/
theorem conclude_raised {x y : Input → Call → Eval (Option Matched)} {input : Input}
    (h : ∀ rule text offset, Deep (reparseWith s.grammar x input rule text offset) ∨
      reparseWith s.grammar x input rule text offset =
        reparseWith s.grammar y input rule text offset)
    {r : LinkedRule} (hr : r ∈ s.grammar.rules) (m : Matched) :
    UpToDepth (· = ·) (fun _ => conclude s x input r m)
      (conclude (s.limited limit) y input r m) := by
  intro memory
  simp only [conclude]
  obtain hd | heq := LinkedRule.shape_passesOn (hg r hr) ⟨m.start, m.stop⟩ input s.lines s.options
    h m.value
  · cases hx : r.shape ⟨⟨m.start, m.stop⟩, input, s.lines, s.options,
        reparseWith s.grammar x input⟩ m.value with
    | ok v =>
      rw [hx] at hd
      exact hd.elim
    | error e =>
      rw [hx] at hd
      exact ⟨.error e, memory, rfl, .inl hd⟩
  · rw [heq]
    cases r.shape ⟨⟨m.start, m.stop⟩, input, s.lines, s.options,
        reparseWith s.grammar y input⟩ m.value with
    | ok v =>
      exact ⟨.ok (some { m with value := v }), memory, rfl, .inr ⟨_, rfl, .refl _⟩⟩
    | error e => exact ⟨.error e, memory, rfl, .inr ⟨_, rfl, .error e⟩⟩

/-- A call finds and remembers what it does with more room, or nests too deep. -/
theorem invoke_raised (room extra : Nat) (input : Input) (c : Call) :
    UpToDepth (· = ·) (fun _ => invoke s room input c)
      (invoke (s.limited limit) (room + extra) input c) := by
  induction room generalizing input c with
  | zero =>
    intro m
    cases hm : m.memo[c]? with
    | some outcome => exact ⟨_, m, invoke_hit hm _, .inr ⟨_, invoke_hit hm _, .refl _⟩⟩
    | none =>
      refine ⟨.error (.tooDeep s.limit (input.base + c.offset)), m, ?_, .inl rfl⟩
      simp only [invoke, hm, ending]
  | succ room ih =>
    have hnested : ∀ rule text offset,
        Deep (reparseWith s.grammar (invoke s room) input rule text offset) ∨
          reparseWith s.grammar (invoke s room) input rule text offset =
            reparseWith s.grammar (invoke (s.limited limit) (room + extra)) input rule text
              offset := by
      intro rule text offset
      cases hid : s.grammar.ruleId? rule with
      | none => exact .inr (by simp only [reparse_unknown _ _ _ _ _ _ hid])
      | some id =>
        obtain ⟨o, m', hx, ho⟩ := ih (input.within text offset) ⟨id, 0, false, false⟩ .empty
        rw [reparse_eq_verdict _ _ _ _ _ _ hid hx]
        refine ho.imp deep_verdict.2 ?_
        rintro ⟨p, hy, ho⟩
        rw [reparse_eq_verdict _ _ _ _ _ _ hid hy, ho.eq]
    have hevaluate : UpToDepth (· = ·) (fun _ => evaluate s (invoke s room) input c)
        (evaluate (s.limited limit) (invoke (s.limited limit) (room + extra)) input c) := by
      rw [← outcome_rel_eq] at ih ⊢
      refine evaluate_rel .upToDepth Congruence.eq rfl (fun _ _ _ _ _ _ _ _ => rfl)
        (x := fun _ => invoke s room) (ih input) ?_ c
      rw [outcome_rel_eq, matched_rel_eq]
      rintro r hr m _ rfl
      exact conclude_raised hg limit hnested hr m
    intro m
    cases hm : m.memo[c]? with
    | some outcome => exact ⟨_, m, invoke_hit hm _, .inr ⟨_, invoke_hit hm _, .refl _⟩⟩
    | none =>
      obtain ⟨o, m', hx, ho⟩ := hevaluate m
      refine ⟨o, m'.storing c o, invoke_miss hm hx, ho.imp_right ?_⟩
      rintro ⟨p, hy, hp⟩
      obtain rfl := hp.eq
      rw [Nat.add_right_comm]
      exact ⟨o, invoke_miss hm hy, .refl _⟩

end Raised

namespace Session

/-- A session with another limit. -/
abbrev limited (session : Session) (limit : Nat) : Session :=
  { session with setting := session.setting.limited limit }

/-- The results of some runs, each with how far the text was understood behind it. -/
def results (session : Session) : List (String × Bool) → List (Except Failure Value × Nat)
  | [] => []
  | (rule, trivia) :: rest =>
    ((session.run rule trivia).1, (session.run rule trivia).2.furthest) ::
      results (session.run rule trivia).2 rest

/-- A run with a higher limit ends alike and leaves the session alike, or it nests too deep with the
lower one. -/
theorem run_raised {session : Session} (hg : session.setting.grammar.PassesOn) {limit : Nat}
    (hle : session.setting.limit ≤ limit) (rule : String) (trivia : Bool) :
    Deep (session.run rule trivia).1 ∨
      (session.limited limit).run rule trivia =
        ((session.run rule trivia).1, (session.run rule trivia).2.limited limit) := by
  obtain ⟨s, input, m⟩ := session
  obtain ⟨extra, rfl⟩ := Nat.exists_eq_add_of_le hle
  cases hid : s.grammar.ruleId? rule with
  | none =>
    right
    have hlow : run ⟨s, input, m⟩ rule trivia = (.error (mismatch input m), ⟨s, input, m⟩) :=
      run_eq (runWith_unknown hid _ _ _ _)
    rw [hlow]
    exact run_eq (runWith_unknown hid _ _ _ _)
  | some id =>
    obtain ⟨o, m', hx, ho⟩ :=
      invoke_raised hg (s.limit + extra) s.limit extra input ⟨id, 0, trivia, false⟩ m
    have hlow : run ⟨s, input, m⟩ rule trivia = (conclusion input m' o, ⟨s, input, m'⟩) :=
      run_eq (runWith_eq hid hx)
    rw [hlow]
    refine ho.imp conclusion_deep ?_
    rintro ⟨p, hy, hp⟩
    obtain rfl := hp.eq
    exact run_eq (runWith_eq hid hy)

theorem results_raised {session : Session} (hg : session.setting.grammar.PassesOn) {limit : Nat}
    (hle : session.setting.limit ≤ limit) {runs : List (String × Bool)}
    (h : session.Shallow Session.run runs) :
    (session.limited limit).results runs = session.results runs := by
  induction runs generalizing session with
  | nil => rfl
  | cons start runs ih =>
    obtain ⟨rule, trivia⟩ := start
    obtain ⟨hshallow, hrest⟩ := h
    have hset := run_setting session rule trivia
    have hrun := (run_raised hg hle rule trivia).resolve_left hshallow
    simp only [results, hrun]
    rw [ih (hset ▸ hg) (hset ▸ hle) hrest]
    rfl

end Session

/-- A limit only ever adds one failure. Where no run of a session nests too deep, the same runs with
any higher limit end with the same values and failures, and understand the text as far. -/
theorem limit_raised {s : Setting} (hg : s.grammar.PassesOn) {limit : Nat} (hle : s.limit ≤ limit)
    (input : Input) (runs : List (String × Bool))
    (h : (Session.start s input).Shallow Session.run runs) :
    (Session.start (s.limited limit) input).results runs = (Session.start s input).results runs :=
  Session.results_raised hg hle h

theorem Session.results_two {s s' s'' : Session} {rule rule' : String} {trivia trivia' : Bool}
    {o o' : Except Failure Value} (h : s.run rule trivia = (o, s'))
    (h' : s'.run rule' trivia' = (o', s'')) :
    s.results [(rule, trivia), (rule', trivia')] = [(o, s'.furthest), (o', s''.furthest)] := by
  simp only [results, h, h']

theorem evaluate_S_failed (p : Option Processor) (limit : Nat)
    {call : Input → Call → Eval (Option Matched)} {m m' : Memory} {e : Failure}
    (hX : call xy ⟨2, 0, false, false⟩ m = ending (.error e) m') :
    evaluate (cramped p limit) call xy ⟨0, 0, false, false⟩ m = ending (.error e) m' := by
  simp [evaluate, shortcut, Rule.ofPattern, matchFirst, matchComponents, matchPattern, bind,
    EStateM.bind, ending, hX, Parts.startingAt]

theorem invoke_S_deep (p : Option Processor) (limit : Nat) :
    invoke (cramped p limit) 1 xy ⟨0, 0, false, false⟩ .empty =
      ending (.error (.tooDeep limit 0)) .empty := by
  have hnew : ∀ c : Call, Memory.empty.memo[c]? = none := fun c => by simp [Memory.empty]
  have hX : invoke (cramped p limit) 0 xy ⟨2, 0, false, false⟩ .empty =
      ending (.error (.tooDeep limit 0)) .empty := by
    simp only [invoke, hnew]
    rfl
  exact invoke_miss (hnew _) (evaluate_S_failed p limit hX)

end PhpSyntax.Peg
