import PhpSyntax.Proofs.Peg.Plan

namespace PhpSyntax.Peg

/-- Calls a rule, with `room` for the calls nested in it, and looks up and remembers nothing. -/
def afresh (s : Setting) : Nat → Input → Call → Eval (Option Matched)
  | 0, input, c => throw (.tooDeep s.limit (input.base + c.offset))
  | room + 1, input, c => evaluate s (afresh s room) input c

namespace Memory

theorem note_furthest (m : Memory) (offset : Nat) :
    (m.note offset).furthest = max m.furthest offset := by
  simp only [note]
  split
  · rename_i h
    exact (Nat.max_eq_right (Nat.le_of_lt h)).symm
  · rename_i h
    exact (Nat.max_eq_left (Nat.le_of_not_lt h)).symm

theorem note_memo (m : Memory) (offset : Nat) : (m.note offset).memo = m.memo := by
  simp only [note]
  split <;> rfl

end Memory

theorem matched_rel_eq : Matched.Rel (· = ·) = (· = ·) := by
  funext m n
  refine propext ⟨?_, ?_⟩
  · rintro ⟨hs, ht, hv⟩
    obtain ⟨start, stop, v⟩ := m
    cases hs
    cases ht
    cases hv
    rfl
  · rintro rfl
    exact ⟨rfl, rfl, rfl⟩

theorem outcome_rel_eq : Option.Rel (Matched.Rel (· = ·)) = (· = ·) := by
  funext a b
  rw [matched_rel_eq]
  refine propext ⟨?_, ?_⟩
  · intro h
    cases h with
    | none => rfl
    | some h => rw [h]
  · rintro rfl
    cases a with
    | none => exact .none
    | some m => exact .some rfl

/-- Two ways to call rules that are related by a lifting give rise to related evaluations, where
values are compared by equality. -/
theorem evaluate_rel_of_planned {ι : Type} (L : Lifting ι) {s : Setting} (hg : s.grammar.Planned)
    {x : ι → Input → Call → Eval (Option Matched)} {y : Input → Call → Eval (Option Matched)}
    {input : Input} (hc : ∀ c, L.rel (· = ·) (fun i => x i input c) (y input c))
    (hr : ∀ rule text offset,
      L.rel (· = ·) (fun i => ofResult (reparseWith s.grammar (x i) input rule text offset))
        (ofResult (reparseWith s.grammar y input rule text offset))) (c : Call) :
    L.rel (· = ·) (fun i => evaluate s (x i) input c) (evaluate s y input c) := by
  rw [← outcome_rel_eq] at hc ⊢
  exact evaluate_rel L Congruence.eq rfl
    (fun _ _ _ _ _ _ _ _ => rfl) hc
    (fun r hmem _ _ hm => conclude_rel L hg hr hmem hm) c

/-- The result of a step with an outcome, which leaves a memory. -/
def ending {α : Type} : Except Failure α → Memory → EStateM.Result Failure Memory α
  | .ok a, m => .ok a m
  | .error e, m => .error e m

def Deep {α : Type} : Except Failure α → Prop
  | .ok _ => False
  | .error e => e.isTooDeep

/-- Related values, or the same failure. -/
inductive ResultRel {α β : Type} (R : α → β → Prop) :
    Except Failure α → Except Failure β → Prop where
  | ok {a : α} {b : β} : R a b → ResultRel R (.ok a) (.ok b)
  | error (e : Failure) : ResultRel R (.error e) (.error e)

theorem ResultRel.refl {α : Type} (o : Except Failure α) : ResultRel (· = ·) o o := by
  cases o with
  | ok a => exact .ok rfl
  | error e => exact .error e

theorem ResultRel.eq {α : Type} {o o' : Except Failure α} (h : ResultRel (· = ·) o o') :
    o = o' := by
  cases h with
  | ok h => rw [h]
  | error e => rfl

theorem ofResult_apply {α : Type} (o : Except Failure α) (m : Memory) :
    ofResult o m = ending o m := by
  cases o <;> rfl

theorem exists_ending {α : Type} (x : Eval α) (m : Memory) : ∃ o m', x m = ending o m' := by
  cases h : x m with
  | ok a m' => exact ⟨.ok a, m', rfl⟩
  | error e m' => exact ⟨.error e, m', rfl⟩

section Attempt

variable {α β : Type} {x : Eval α} {f : α → Eval β} {h : Failure → Eval β} {m m' : Memory}

theorem attempt_ok {a : α} (hx : x m = ending (.ok a) m') : attempt x f h m = f a m' := by
  simp only [attempt, hx, ending]

theorem attempt_tooDeep {e : Failure} (he : e.isTooDeep = true)
    (hx : x m = ending (.error e) m') : attempt x f h m = ending (.error e) m' := by
  simp only [attempt, hx, ending, he, if_true]

theorem attempt_deep {o : Except Failure α} (hd : Deep o) (hx : x m = ending o m') :
    ∃ p, attempt x f h m = ending p m' ∧ Deep p := by
  cases o with
  | ok a => exact hd.elim
  | error e => exact ⟨.error e, attempt_tooDeep hd hx, hd⟩

theorem attempt_error {e : Failure} (he : e.isTooDeep = false)
    (hx : x m = ending (.error e) m') : attempt x f h m = h e m' := by
  simp only [attempt, hx, ending, he, Bool.false_eq_true, if_false]

end Attempt

section Tracking

/-- From memories that `M` relates, a step does as another, up to memories that `M` relates. -/
def Tracks (M : Memory → Memory → Prop) {α β : Type} (R : α → β → Prop) (x : Unit → Eval α)
    (y : Eval β) : Prop :=
  ∀ m n, M m n → ∃ o p m' n', x () m = ending o m' ∧ y n = ending p n' ∧ ResultRel R o p ∧ M m' n'

/-- Steps in step with each other. -/
def Lifting.tracking (M : Memory → Memory → Prop)
    (hM : ∀ m n offset, M m n → M (m.note offset) (n.note offset)) : Lifting Unit where
  rel := Tracks M
  pure h := fun m n hm => ⟨_, _, m, n, rfl, rfl, .ok h, hm⟩
  throw e := fun m n hm => ⟨_, _, m, n, rfl, rfl, .error e, hm⟩
  attempt h hf hk := by
    intro m n hm
    obtain ⟨o, p, m', n', hx, hy, ho, hm'⟩ := h m n hm
    cases ho with
    | ok hab =>
      obtain ⟨o, p, m'', n'', hx', hy', ho, hm''⟩ := hf _ _ hab m' n' hm'
      exact ⟨o, p, m'', n'', (attempt_ok hx).trans hx', (attempt_ok hy).trans hy', ho, hm''⟩
    | error e =>
      cases he : e.isTooDeep with
      | true => exact ⟨_, _, m', n', attempt_tooDeep he hx, attempt_tooDeep he hy, .error e, hm'⟩
      | false =>
        obtain ⟨o, p, m'', n'', hx', hy', ho, hm''⟩ := hk e he m' n' hm'
        exact ⟨o, p, m'', n'', (attempt_error he hx).trans hx', (attempt_error he hy).trans hy',
          ho, hm''⟩
  note offset := fun m n hm =>
    ⟨.ok ⟨⟩, .ok ⟨⟩, _, _, rfl, rfl, .ok trivial, hM m n offset hm⟩

theorem Tracks.bind {M : Memory → Memory → Prop} {α β α' β' : Type} {R : α → β → Prop}
    {Q : α' → β' → Prop} {x : Unit → Eval α} {y : Eval β} {f : Unit → α → Eval α'}
    {g : β → Eval β'} (h : Tracks M R x y)
    (hM : ∀ m n offset, M m n → M (m.note offset) (n.note offset))
    (hf : ∀ a b, R a b → Tracks M Q (fun i => f i a) (g b)) :
    Tracks M Q (fun i => x i >>= f i) (y >>= g) :=
  (Lifting.tracking M hM).bind h hf

theorem tracks_ofResult (M : Memory → Memory → Prop) {α β : Type} {R : α → β → Prop}
    {o : Except Failure α} {p : Except Failure β} (h : ResultRel R o p) :
    Tracks M R (fun _ => ofResult o) (ofResult p) :=
  fun m n hm => ⟨o, p, m, n, ofResult_apply o m, ofResult_apply p n, h, hm⟩

/-- Memories of which one knows the text to be understood up to `offset` besides. -/
structure Further (memo memo' : Std.HashMap Call (Option Matched)) (offset : Nat)
    (m n : Memory) : Prop where
  memo : m.memo = memo
  memo' : n.memo = memo'
  furthest : m.furthest = max n.furthest offset

theorem afresh_tracks {s : Setting} (hg : s.grammar.Planned)
    (memo memo' : Std.HashMap Call (Option Matched)) (offset room : Nat) (input : Input)
    (c : Call) :
    Tracks (Further memo memo' offset) (· = ·) (fun _ => afresh s room input c)
      (afresh s room input c) := by
  have hM : ∀ m n k, Further memo memo' offset m n →
      Further memo memo' offset (m.note k) (n.note k) := by
    intro m n k hm
    refine ⟨(m.note_memo k).trans hm.memo, (n.note_memo k).trans hm.memo', ?_⟩
    rw [m.note_furthest, n.note_furthest, hm.furthest]
    exact Nat.max_right_comm _ _ _
  induction room generalizing input c with
  | zero => exact tracks_ofResult _ (.error (.tooDeep s.limit (input.base + c.offset)))
  | succ room ih =>
    exact evaluate_rel_of_planned (.tracking _ hM) hg (x := fun _ => afresh s room) (ih input)
      (fun rule text offset => tracks_ofResult _ (.refl _)) c

end Tracking

section Verdict

/-- What a nested parse makes of the call of its start rule. -/
def verdict : Except Failure (Option Matched) → Except Failure (Option Value)
  | .ok found => .ok (found.map (·.value))
  | .error e => if e.isFatal then .error e else .ok none

theorem deep_verdict {o : Except Failure (Option Matched)} : Deep (verdict o) ↔ Deep o := by
  cases o with
  | ok found => exact Iff.rfl
  | error e =>
    cases e with
    | mismatch furthest atEnd unexpected => simp [verdict, Deep, Failure.isFatal, Failure.isTooDeep]
    | fatal key span placeholders => exact Iff.rfl

variable (g : Grammar) (call : Input → Call → Eval (Option Matched)) (input : Input)
  (rule text : String) (offset : Nat)

theorem reparse_unknown (h : g.ruleId? rule = none) :
    reparseWith g call input rule text offset = .ok none := by
  simp only [reparseWith, runWith, h, mismatch, Failure.isFatal]
  rfl

def Input.within (input : Input) (text : String) (offset : Nat) : Input :=
  ⟨Text.ofString text, input.base + offset⟩

theorem reparse_eq_verdict {id : Nat} (h : g.ruleId? rule = some id)
    {o : Except Failure (Option Matched)} {m : Memory}
    (hc : call (input.within text offset) ⟨id, 0, false, false⟩ .empty = ending o m) :
    reparseWith g call input rule text offset = verdict o := by
  simp only [Input.within] at hc
  simp only [reparseWith, runWith, h, hc]
  cases o with
  | ok found =>
    cases found with
    | none => rfl
    | some m => rfl
  | error e => rfl

end Verdict

section Mono

/-- Nested too deep, or done as by another step. -/
def UpToDepth {α β : Type} (R : α → β → Prop) (x : Unit → Eval α) (y : Eval β) : Prop :=
  ∀ m, ∃ o m', x () m = ending o m' ∧ (Deep o ∨ ∃ p, y m = ending p m' ∧ ResultRel R o p)

def Lifting.upToDepth : Lifting Unit where
  rel := UpToDepth
  pure h := fun m => ⟨_, m, rfl, .inr ⟨_, rfl, .ok h⟩⟩
  throw e := fun m => ⟨_, m, rfl, .inr ⟨_, rfl, .error e⟩⟩
  attempt h hf hk := by
    intro m
    obtain ⟨o, m', hx, hd | ⟨p, hy, ho⟩⟩ := h m
    · obtain ⟨o, hx, hd⟩ := attempt_deep hd hx
      exact ⟨o, m', hx, .inl hd⟩
    · cases ho with
      | ok hab =>
        obtain ⟨o, m'', hx', ho⟩ := hf _ _ hab m'
        refine ⟨o, m'', (attempt_ok hx).trans hx', ho.imp_right ?_⟩
        rintro ⟨p, hy', ho⟩
        exact ⟨p, (attempt_ok hy).trans hy', ho⟩
      | error e =>
        cases he : e.isTooDeep with
        | true => exact ⟨_, m', attempt_tooDeep he hx, .inl he⟩
        | false =>
          obtain ⟨o, m'', hx', ho⟩ := hk e he m'
          refine ⟨o, m'', (attempt_error he hx).trans hx', ho.imp_right ?_⟩
          rintro ⟨p, hy', ho⟩
          exact ⟨p, (attempt_error he hy).trans hy', ho⟩
  note offset := fun m => ⟨.ok ⟨⟩, _, rfl, .inr ⟨.ok ⟨⟩, rfl, .ok trivial⟩⟩

variable {s : Setting} (hg : s.grammar.Planned)

include hg

/-- More room finds the same wherever less room was enough. -/
theorem afresh_mono (room extra : Nat) (input : Input) (c : Call) :
    UpToDepth (· = ·) (fun _ => afresh s room input c) (afresh s (room + extra) input c) := by
  induction room generalizing input c with
  | zero => exact fun m => ⟨.error (.tooDeep s.limit (input.base + c.offset)), m, rfl, .inl rfl⟩
  | succ room ih =>
    rw [Nat.add_right_comm]
    refine evaluate_rel_of_planned .upToDepth hg (x := fun _ => afresh s room) (ih input)
      (fun rule text offset m => ?_) c
    cases hid : s.grammar.ruleId? rule with
    | none =>
      simp only [reparse_unknown _ _ _ _ _ _ hid]
      exact ⟨_, m, rfl, .inr ⟨_, rfl, .ok rfl⟩⟩
    | some id =>
      obtain ⟨o, m', hx, ho⟩ := ih (input.within text offset) ⟨id, 0, false, false⟩ .empty
      simp only [reparse_eq_verdict _ _ _ _ _ _ hid hx]
      obtain hd | ⟨p, hy, ho⟩ := ho
      · exact ⟨verdict o, m, ofResult_apply _ m, .inl (deep_verdict.2 hd)⟩
      · obtain rfl := ho.eq
        simp only [reparse_eq_verdict _ _ _ _ _ _ hid hy]
        exact ⟨verdict o, m, ofResult_apply _ m, .inr ⟨_, ofResult_apply _ m, .refl _⟩⟩

end Mono

end PhpSyntax.Peg
