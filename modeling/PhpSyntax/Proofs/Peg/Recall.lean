import PhpSyntax.Proofs.Peg.Afresh

namespace PhpSyntax.Peg

theorem ending_inj {α : Type} {o p : Except Failure α} {m n : Memory}
    (h : ending o m = ending p n) : o = p ∧ m = n := by
  cases o <;> cases p <;> cases h <;> exact ⟨rfl, rfl⟩

/-- A step has an outcome and gets so far, whatever is remembered. -/
def Gives {α : Type} (x : Eval α) (before : Nat) (o : Except Failure α) (after : Nat) : Prop :=
  ∀ memo, x ⟨memo, before⟩ = ending o ⟨memo, after⟩

/-- A step does so with room enough for nested calls. -/
def Settles {α : Type} (x : Nat → Eval α) (before : Nat) (o : Except Failure α) (after : Nat) :
    Prop :=
  ∃ enough, ∀ room, enough ≤ room → Gives (x room) before o after

section Gives

variable {α β : Type} {f : Nat → α → Eval β} {h : Nat → Failure → Eval β} {before mid after : Nat}
  {o : Except Failure β}

theorem Settles.attempt_ok {x : Nat → Eval α} {a : α} (hx : Settles x before (.ok a) mid)
    (hf : Settles (fun room => f room a) mid o after) :
    Settles (fun room => attempt (x room) (f room) (h room)) before o after := by
  obtain ⟨enough, hx⟩ := hx
  obtain ⟨more, hf⟩ := hf
  refine ⟨max enough more, fun room hroom memo => ?_⟩
  exact (Peg.attempt_ok (hx room (by omega) memo)).trans (hf room (by omega) memo)

theorem Settles.attempt_error {x : Nat → Eval α} {e : Failure} (he : e.isTooDeep = false)
    (hx : Settles x before (.error e) mid)
    (hh : Settles (fun room => h room e) mid o after) :
    Settles (fun room => attempt (x room) (f room) (h room)) before o after := by
  obtain ⟨enough, hx⟩ := hx
  obtain ⟨more, hh⟩ := hh
  refine ⟨max enough more, fun room hroom memo => ?_⟩
  exact (Peg.attempt_error he (hx room (by omega) memo)).trans (hh room (by omega) memo)

theorem Settles.of_gives {x : Nat → Eval α} {o : Except Failure α}
    (h : ∀ room, Gives (x room) before o after) : Settles x before o after :=
  ⟨0, fun room _ => h room⟩

end Gives

section Further

variable {s : Setting} (hg : s.grammar.Planned) {input : Input} {c : Call}
  {o : Except Failure (Option Matched)} {before after : Nat}

include hg

theorem afresh_further {room : Nat} (h : Gives (afresh s room input c) before o after)
    (offset : Nat) :
    Gives (afresh s room input c) (max before offset) o (max after offset) := by
  intro memo
  obtain ⟨p, q, m, n, hx, hy, hpq, hm⟩ :=
    afresh_tracks hg memo memo offset room input c ⟨memo, max before offset⟩ ⟨memo, before⟩
      ⟨rfl, rfl, rfl⟩
  obtain ⟨rfl, rfl⟩ := ending_inj (hy.symm.trans (h memo))
  obtain rfl := hpq.eq
  have hend : m = ⟨memo, max after offset⟩ := by
    obtain ⟨memo', furthest⟩ := m
    simp only [Memory.mk.injEq]
    exact ⟨hm.memo, hm.furthest⟩
  subst hend
  exact hx

theorem settles_further (h : Settles (fun room => afresh s room input c) before o after)
    (offset : Nat) :
    Settles (fun room => afresh s room input c) (max before offset) o (max after offset) := by
  obtain ⟨enough, h⟩ := h
  exact ⟨enough, fun room hroom => afresh_further hg (h room hroom) offset⟩

end Further

/-- Every outcome that is remembered is what the call, made afresh, finds with room enough, and no
further than the text was understood. -/
def Sound (s : Setting) (input : Input) (m : Memory) : Prop :=
  ∀ c outcome, m.memo[c]? = some outcome →
    Settles (fun room => afresh s room input c) m.furthest (.ok outcome) m.furthest

/-- A step on sound memories finds what a step afresh finds with room enough, if it does not nest
too deep, and it nests too deep only where the step afresh does with the same room. The step afresh
takes the room it has, or none for the same room. -/
def Recalls (s : Setting) (input : Input) {α β : Type} (R : α → β → Prop)
    (x : Option Nat → Eval α) (y : Eval β) : Prop :=
  ∀ m, Sound s input m → ∃ o p m', y m = ending p m' ∧ ResultRel R o p ∧ Sound s input m' ∧
    m.furthest ≤ m'.furthest ∧
    (¬Deep o → Settles (fun room => x (some room)) m.furthest o m'.furthest) ∧
    ∀ memo, ∃ q n, x none ⟨memo, m.furthest⟩ = ending q n ∧
      (Deep q ∨ q = o ∧ n = ⟨memo, m'.furthest⟩)

section Sound

variable {s : Setting} (hg : s.grammar.Planned) {input : Input} {m : Memory}

theorem sound_empty (s : Setting) (input : Input) : Sound s input .empty := by
  intro c outcome h
  simp [Memory.empty] at h

include hg

theorem sound_further (hm : Sound s input m) {furthest : Nat} (hf : m.furthest ≤ furthest) :
    Sound s input ⟨m.memo, furthest⟩ := by
  intro c outcome h
  have hs := settles_further hg (hm c outcome h) furthest
  rwa [Nat.max_eq_right hf] at hs

theorem sound_remember (hm : Sound s input m) {c : Call} {outcome : Option Matched} {before : Nat}
    (hf : before ≤ m.furthest)
    (hc : Settles (fun room => afresh s room input c) before (.ok outcome) m.furthest) :
    Sound s input { m with memo := m.memo.insert c outcome } := by
  intro d found h
  rw [Std.HashMap.getElem?_insert] at h
  split at h
  · rename_i hcd
    obtain rfl : c = d := eq_of_beq hcd
    obtain rfl := Option.some.inj h
    have hs := settles_further hg hc m.furthest
    rwa [Nat.max_eq_right hf, Nat.max_self] at hs
  · exact hm d found h

end Sound

theorem Memory.note_mk (m : Memory) (memo : Std.HashMap Call (Option Matched)) (offset : Nat) :
    (⟨memo, m.furthest⟩ : Memory).note offset = ⟨memo, (m.note offset).furthest⟩ := by
  simp only [note]
  split <;> rfl

/-- Remembering outcomes respects how the steps of a parse are put together. -/
def Lifting.recalling {s : Setting} (hg : s.grammar.Planned) (input : Input) :
    Lifting (Option Nat) where
  rel := Recalls s input
  pure h := fun m hm => ⟨_, _, m, rfl, .ok h, hm, Nat.le_refl _,
    fun _ => .of_gives fun _ _ => rfl, fun _ => ⟨_, _, rfl, .inr ⟨rfl, rfl⟩⟩⟩
  throw e := fun m hm => ⟨_, _, m, rfl, .error e, hm, Nat.le_refl _,
    fun _ => .of_gives fun _ _ => rfl, fun _ => ⟨_, _, rfl, .inr ⟨rfl, rfl⟩⟩⟩
  attempt h hf hk := by
    intro m hm
    obtain ⟨o, p, m', hy, ho, hm', hle, hbig, hsame⟩ := h m hm
    cases ho with
    | ok hab =>
      obtain ⟨o, p, m'', hy', ho, hm'', hle', hbig', hsame'⟩ := hf _ _ hab m' hm'
      refine ⟨o, p, m'', (attempt_ok hy).trans hy', ho, hm'', Nat.le_trans hle hle',
        fun hd => (hbig id).attempt_ok (hbig' hd), fun memo => ?_⟩
      obtain ⟨q, n, hx, hd | ⟨rfl, rfl⟩⟩ := hsame memo
      · obtain ⟨q, hx, hd⟩ := attempt_deep hd hx
        exact ⟨q, n, hx, .inl hd⟩
      · obtain ⟨q, n, hx', hq⟩ := hsame' memo
        exact ⟨q, n, (attempt_ok hx).trans hx', hq⟩
    | error e =>
      cases he : e.isTooDeep with
      | true =>
        refine ⟨_, _, m', attempt_tooDeep he hy, .error e, hm', hle, fun hd => absurd he hd,
          fun memo => ?_⟩
        obtain ⟨q, n, hx, hq⟩ := hsame memo
        have hd : Deep q := by
          obtain hd | ⟨rfl, -⟩ := hq
          · exact hd
          · exact he
        obtain ⟨q, hx, hd⟩ := attempt_deep hd hx
        exact ⟨q, n, hx, .inl hd⟩
      | false =>
        obtain ⟨o, p, m'', hy', ho, hm'', hle', hbig', hsame'⟩ := hk e he m' hm'
        refine ⟨o, p, m'', (attempt_error he hy).trans hy', ho, hm'', Nat.le_trans hle hle',
          fun hd => (hbig (by simp [Deep, he])).attempt_error he (hbig' hd), fun memo => ?_⟩
        obtain ⟨q, n, hx, hd | ⟨rfl, rfl⟩⟩ := hsame memo
        · obtain ⟨q, hx, hd⟩ := attempt_deep hd hx
          exact ⟨q, n, hx, .inl hd⟩
        · obtain ⟨q, n, hx', hq⟩ := hsame' memo
          exact ⟨q, n, (attempt_error he hx).trans hx', hq⟩
  note offset := by
    intro m hm
    have hnote : ∀ memo, (modify (·.note offset) : Eval PUnit) ⟨memo, m.furthest⟩ =
        ending (.ok ⟨⟩) ⟨memo, (m.note offset).furthest⟩ := by
      intro memo
      exact congrArg (EStateM.Result.ok _) (m.note_mk memo offset)
    have hle : m.furthest ≤ (m.note offset).furthest := by
      rw [m.note_furthest]
      exact Nat.le_max_left _ _
    have hs := sound_further hg hm hle
    rw [← m.note_mk] at hs
    exact ⟨.ok ⟨⟩, .ok ⟨⟩, m.note offset, rfl, .ok trivial, hs, hle,
      fun _ => .of_gives fun _ => hnote, fun memo => ⟨_, _, hnote memo, .inr ⟨rfl, rfl⟩⟩⟩

/-- A call made afresh with the room given, or with `room` for none. -/
def afreshWithin (s : Setting) (room : Nat) : Option Nat → Input → Call → Eval (Option Matched)
  | some n => afresh s n
  | none => afresh s room

theorem invoke_hit {s : Setting} {input : Input} {c : Call} {m : Memory} {outcome : Option Matched}
    (h : m.memo[c]? = some outcome) (room : Nat) :
    invoke s room input c m = ending (.ok outcome) m := by
  cases room <;> simp only [invoke, h, ending]

def Memory.storing (m : Memory) (c : Call) : Except Failure (Option Matched) → Memory
  | .ok outcome => { m with memo := m.memo.insert c outcome }
  | .error _ => m

theorem invoke_miss {s : Setting} {input : Input} {c : Call} {m : Memory}
    (h : m.memo[c]? = none) {room : Nat} {o : Except Failure (Option Matched)} {m' : Memory}
    (he : evaluate s (invoke s room) input c m = ending o m') :
    invoke s (room + 1) input c m = ending o (m'.storing c o) := by
  have hfresh : ∀ f : Unit → EStateM.Result Failure Memory (Option Matched),
      onFreshStack f = f () := fun _ => rfl
  simp only [invoke, h, hfresh, ite_self, he]
  cases o <;> rfl

section Invoke

variable {s : Setting} (hg : s.grammar.Planned)

include hg

/-- With little room a call afresh finds what it finds with more, or nests too deep. -/
theorem afresh_within {room : Nat} {input : Input} {c : Call} {before after : Nat}
    {o : Except Failure (Option Matched)}
    (h : Settles (fun room => afresh s room input c) before o after)
    (memo : Std.HashMap Call (Option Matched)) :
    ∃ q n, afresh s room input c ⟨memo, before⟩ = ending q n ∧
      (Deep q ∨ q = o ∧ n = ⟨memo, after⟩) := by
  obtain ⟨enough, h⟩ := h
  obtain ⟨q, n, hx, hq⟩ := afresh_mono hg room enough input c ⟨memo, before⟩
  refine ⟨q, n, hx, hq.imp_right ?_⟩
  rintro ⟨p, hy, hqp⟩
  obtain rfl := hqp.eq
  exact ending_inj (hy.symm.trans (h (room + enough) (by omega) memo))

theorem hit_recalls {room : Nat} {input : Input} {c : Call} {m : Memory}
    {outcome : Option Matched} (hm : Sound s input m) (h : m.memo[c]? = some outcome) :
    ∃ o p m', invoke s room input c m = ending p m' ∧ ResultRel (· = ·) o p ∧ Sound s input m' ∧
      m.furthest ≤ m'.furthest ∧
      (¬Deep o → Settles (fun n => afresh s n input c) m.furthest o m'.furthest) ∧
      ∀ memo, ∃ q n, afresh s room input c ⟨memo, m.furthest⟩ = ending q n ∧
        (Deep q ∨ q = o ∧ n = ⟨memo, m'.furthest⟩) :=
  ⟨_, _, m, invoke_hit h room, .ok rfl, hm, Nat.le_refl _, fun _ => hm c outcome h,
    afresh_within hg (hm c outcome h)⟩

theorem reparse_recalls {room : Nat}
    (h : ∀ input c, Recalls s input (· = ·) (fun i => afreshWithin s room i input c)
      (invoke s room input c)) (input : Input) (rule text : String) (offset : Nat) :
    Recalls s input (· = ·)
      (fun i => ofResult (reparseWith s.grammar (afreshWithin s room i) input rule text offset))
      (ofResult (reparseWith s.grammar (invoke s room) input rule text offset)) := by
  intro m hm
  cases hid : s.grammar.ruleId? rule with
  | none =>
    simp only [reparse_unknown _ _ _ _ _ _ hid]
    exact (Lifting.recalling hg input).pure rfl m hm
  | some id =>
    obtain ⟨o, p, n, hy, ho, -, -, hbig, hsame⟩ :=
      h (input.within text offset) ⟨id, 0, false, false⟩ .empty (sound_empty _ _)
    obtain rfl := ho.eq
    rw [reparse_eq_verdict _ _ _ _ _ _ hid hy]
    refine ⟨_, _, m, ofResult_apply _ m, .refl _, hm, Nat.le_refl _, fun hd => ?_, fun memo => ?_⟩
    · obtain ⟨enough, hbig⟩ := hbig (mt deep_verdict.2 hd)
      refine ⟨enough, fun n hn memo => ?_⟩
      have hx := reparse_eq_verdict _ _ _ _ _ _ hid (hbig n hn ∅)
      exact (congrArg (ofResult · _) hx).trans (ofResult_apply _ _)
    · obtain ⟨q, n, hx, hq⟩ := hsame ∅
      have hx := reparse_eq_verdict _ _ _ _ _ _ hid hx
      refine ⟨_, _, (congrArg (ofResult · _) hx).trans (ofResult_apply _ _), ?_⟩
      obtain hd | ⟨rfl, -⟩ := hq
      · exact .inl (deep_verdict.2 hd)
      · exact .inr ⟨rfl, rfl⟩

/-- What is remembered stands for what is found afresh. -/
theorem invoke_recalls (room : Nat) (input : Input) (c : Call) :
    Recalls s input (· = ·) (fun i => afreshWithin s room i input c) (invoke s room input c) := by
  induction room generalizing input c with
  | zero =>
    intro m hm
    cases hc : m.memo[c]? with
    | some outcome => exact hit_recalls hg hm hc
    | none =>
      have hy : invoke s 0 input c m =
          ending (.error (.tooDeep s.limit (input.base + c.offset))) m := by
        simp only [invoke, hc]
        rfl
      exact ⟨_, _, m, hy, .error _, hm, Nat.le_refl _, fun hd => absurd rfl hd,
        fun memo => ⟨.error _, _, rfl, .inl rfl⟩⟩
  | succ room ih =>
    intro m hm
    cases hc : m.memo[c]? with
    | some outcome => exact hit_recalls hg hm hc
    | none =>
      obtain ⟨o, p, m', hy, ho, hm', hle, hbig, hsame⟩ :=
        evaluate_rel_of_planned (.recalling hg input) hg (x := afreshWithin s room)
          (y := invoke s room) (ih input) (reparse_recalls hg ih input) c m hm
      obtain rfl := ho.eq
      have hinvoke := invoke_miss hc hy
      have hsettles : ¬Deep o →
          Settles (fun n => afresh s n input c) m.furthest o m'.furthest := by
        intro hd
        obtain ⟨enough, h⟩ := hbig hd
        refine ⟨enough + 1, fun n hn => ?_⟩
        obtain ⟨n, rfl⟩ : ∃ k, n = k + 1 := ⟨n - 1, by omega⟩
        exact h n (by omega)
      cases o with
      | ok outcome =>
        exact ⟨_, _, _, hinvoke, .refl _, sound_remember hg hm' hle (hsettles id), hle, hsettles,
          hsame⟩
      | error e => exact ⟨_, _, _, hinvoke, .refl _, hm', hle, hsettles, hsame⟩

end Invoke

end PhpSyntax.Peg
