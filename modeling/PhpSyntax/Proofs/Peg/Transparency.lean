import PhpSyntax.Proofs.Peg.Recall
import PhpSyntax.Proofs.Peg.Run

namespace PhpSyntax.Peg

namespace Session

/-- Matches a start rule at the start of the text, and looks up and remembers nothing. -/
def runAfresh (s : Session) (rule : String) (trivia : Bool) : Except Failure Value × Session :=
  let call := afresh s.setting s.setting.limit
  match runWith s.setting.grammar call s.input rule trivia s.memory with
  | .ok v m => (.ok v, { s with memory := m })
  | .error e m => (.error e, { s with memory := m })

/-- A way to match start rules in a session. -/
abbrev Runner := Session → String → Bool → Except Failure Value × Session

def after (runner : Runner) (s : Session) (runs : List (String × Bool)) : Session :=
  runs.foldl (fun s (rule, trivia) => (runner s rule trivia).2) s

def Shallow (runner : Runner) (s : Session) : List (String × Bool) → Prop
  | [] => True
  | (rule, trivia) :: rest =>
    ¬Deep (runner s rule trivia).1 ∧ Shallow runner (runner s rule trivia).2 rest

end Session

/-- The same result, or a mismatch in both places. -/
inductive Agrees : Except Failure Value → Except Failure Value → Prop where
  | same (r : Except Failure Value) : Agrees r r
  | mismatch (furthest furthest' : Nat) (atEnd atEnd' : Bool)
      (unexpected unexpected' : Option Char) :
      Agrees (.error (.mismatch furthest atEnd unexpected))
        (.error (.mismatch furthest' atEnd' unexpected'))

theorem Agrees.deep {r r' : Except Failure Value} (h : Agrees r r') : Deep r ↔ Deep r' := by
  cases h with
  | same => exact Iff.rfl
  | mismatch => exact Iff.rfl

theorem conclusion_agrees (input : Input) (m n : Memory) (o : Except Failure (Option Matched)) :
    Agrees (conclusion input m o) (conclusion input n o) := by
  cases o with
  | error e => exact .same _
  | ok found =>
    cases found with
    | none => exact .mismatch ..
    | some found => exact .same _

theorem conclusion_deep {input : Input} {m : Memory} {o : Except Failure (Option Matched)}
    (h : Deep o) : Deep (conclusion input m o) := by
  cases o with
  | ok found => exact h.elim
  | error e => exact h

namespace Session

theorem runAfresh_eq {s : Session} {rule : String} {trivia : Bool} {r : Except Failure Value}
    {m : Memory}
    (h : runWith s.setting.grammar (afresh s.setting s.setting.limit) s.input rule trivia s.memory =
      ending r m) : s.runAfresh rule trivia = (r, { s with memory := m }) := by
  simp only [runAfresh, h]
  cases r <;> rfl

end Session

/-- How far the text was understood before does not matter to what a call afresh finds. -/
theorem afresh_elsewhere {s : Setting} (hg : s.grammar.Planned) {room : Nat} {input : Input}
    {c : Call} {m m' : Memory} {o : Except Failure (Option Matched)}
    (h : afresh s room input c m = ending o m') (n : Memory) :
    ∃ n', afresh s room input c n = ending o n' := by
  obtain ⟨p, q, k, k', hx, hy, hpq, -⟩ :=
    afresh_tracks hg ∅ m.memo n.furthest room input c ⟨∅, max m.furthest n.furthest⟩ m
      ⟨rfl, rfl, rfl⟩
  obtain ⟨p', q', l, l', hx', hy', hpq', -⟩ :=
    afresh_tracks hg ∅ n.memo m.furthest room input c ⟨∅, max m.furthest n.furthest⟩ n
      ⟨rfl, rfl, Nat.max_comm _ _⟩
  obtain rfl := hpq.eq
  obtain rfl := hpq'.eq
  obtain ⟨rfl, -⟩ := ending_inj (hx.symm.trans hx')
  obtain ⟨rfl, -⟩ := ending_inj (hy.symm.trans h)
  exact ⟨l', hy'⟩

/-- Two sessions over one text, of which the first remembers outcomes. -/
structure Beside (s t : Session) : Prop where
  setting : t.setting = s.setting
  input : t.input = s.input
  sound : Sound s.setting s.input s.memory

theorem beside_start (s : Setting) (input : Input) :
    Beside (.start s input) (.start s input) :=
  ⟨rfl, rfl, sound_empty s input⟩

/-- One run with outcomes remembered, and one without. -/
theorem run_step {s t : Session} (h : Beside s t) (hg : s.setting.grammar.Planned) (rule : String)
    (trivia : Bool) :
    Beside (s.run rule trivia).2 (t.runAfresh rule trivia).2 ∧
    (Deep (t.runAfresh rule trivia).1 ∨
      Agrees (s.run rule trivia).1 (t.runAfresh rule trivia).1) ∧
    (s.furthest = t.furthest → Deep (t.runAfresh rule trivia).1 ∨
      (s.run rule trivia).1 = (t.runAfresh rule trivia).1 ∧
        (s.run rule trivia).2.furthest = (t.runAfresh rule trivia).2.furthest) := by
  obtain ⟨setting, input, m⟩ := s
  obtain ⟨setting', input', n⟩ := t
  obtain ⟨rfl, rfl, hm⟩ := h
  cases hid : setting'.grammar.ruleId? rule with
  | none =>
    rw [Session.run_eq (runWith_unknown hid _ _ _ _),
      Session.runAfresh_eq (runWith_unknown hid _ _ _ _)]
    refine ⟨⟨rfl, rfl, hm⟩, .inr (.mismatch ..), fun hf => .inr ⟨?_, hf⟩⟩
    obtain ⟨memo, furthest⟩ := m
    obtain rfl : furthest = n.furthest := hf
    rfl
  | some id =>
    obtain ⟨o, p, m', hy, ho, hm', -, -, hsame⟩ :=
      invoke_recalls hg setting'.limit input' ⟨id, 0, trivia, false⟩ m hm
    obtain rfl := ho.eq
    obtain ⟨q, k, hx, hq⟩ := hsame n.memo
    obtain ⟨n', hn⟩ := afresh_elsewhere hg hx n
    rw [Session.run_eq (runWith_eq hid hy), Session.runAfresh_eq (runWith_eq hid hn)]
    refine ⟨⟨rfl, rfl, hm'⟩, ?_, fun hf => ?_⟩
    · obtain hd | ⟨rfl, -⟩ := hq
      · exact .inl (conclusion_deep hd)
      · exact .inr (conclusion_agrees _ _ _ _)
    · obtain ⟨memo, furthest⟩ := n
      obtain rfl : m.furthest = furthest := hf
      obtain ⟨-, rfl⟩ := ending_inj (hx.symm.trans hn)
      obtain hd | ⟨rfl, rfl⟩ := hq
      · exact .inl (conclusion_deep hd)
      · refine .inr ⟨?_, rfl⟩
        cases q with
        | error e => rfl
        | ok found => cases found <;> rfl

theorem run_setting (s : Session) (rule : String) (trivia : Bool) :
    (s.run rule trivia).2.setting = s.setting := by
  simp only [Session.run]
  split <;> rfl

/-- Sessions stay beside each other, and get equally far while no run nests too deep. -/
theorem beside_after {s t : Session} (h : Beside s t) (hg : s.setting.grammar.Planned)
    (runs : List (String × Bool)) :
    Beside (s.after Session.run runs) (t.after Session.runAfresh runs) ∧
    (s.after Session.run runs).setting = s.setting ∧
    (s.furthest = t.furthest → t.Shallow Session.runAfresh runs →
      (s.after Session.run runs).furthest = (t.after Session.runAfresh runs).furthest) := by
  induction runs generalizing s t with
  | nil => exact ⟨h, rfl, fun hf _ => hf⟩
  | cons start runs ih =>
    obtain ⟨rule, trivia⟩ := start
    obtain ⟨hnext, -, hsame⟩ := run_step h hg rule trivia
    have hset := run_setting s rule trivia
    obtain ⟨hafter, hset', hf⟩ := ih hnext (hset ▸ hg)
    refine ⟨hafter, hset'.trans hset, fun hfurthest hshallow => ?_⟩
    obtain ⟨hd, hshallow⟩ := hshallow
    obtain hd' | ⟨-, hnextf⟩ := hsame hfurthest
    · exact absurd hd' hd
    · exact hf hnextf hshallow

section Shortcut

def letter {τ ρ : Type} (l : Char) : Pattern τ ρ :=
  .scan ⟨"letter", fun cs => if cs.head? = some l then some (1, .null) else none⟩

/-- A table in which `S` calls `X` itself before it calls it through `V`. What is remembered of the
first call saves the second a level of nesting. -/
def shortcutTable (processor : Option Processor) : List RuleDef := [
  .ofPattern "S" (.sequence [
    ⟨none, .value, .choice [
      .sequence [⟨none, .value, .rule "X"⟩, ⟨none, .value, letter '!'⟩], .rule "V"]⟩,
    ⟨none, .value, letter 'y'⟩, ⟨none, .value, letter 'z'⟩]),
  .ofPattern "V" (.rule "X"),
  .ofPattern "X" (letter 'x'),
  { Rule.ofPattern "T" .endOfInput with processor := processor }]

/-- The grammar of the table. -/
def shortcut (processor : Option Processor) : Grammar where
  rules := #[
    .ofPattern "S" (.sequence [
      ⟨none, .value, .choice [
        .sequence [⟨none, .value, .rule ⟨"X", 2⟩⟩, ⟨none, .value, letter '!'⟩],
        .rule ⟨"V", 1⟩]⟩,
      ⟨none, .value, letter 'y'⟩, ⟨none, .value, letter 'z'⟩]),
    .ofPattern "V" (.rule ⟨"X", 2⟩),
    .ofPattern "X" (letter 'x'),
    { Rule.ofPattern "T" (.endOfInput) with processor := processor }]
  index := ((((∅ : Std.HashMap String Nat).insert "S" 0).insert "V" 1).insert "X" 2).insert "T" 3
  trivia := none

/-- Yields whether a nested parse ends, be it without a match. -/
def lenient : Processor := fun _ ctx =>
  match ctx.reparse "S" "xy" 0 with
  | .ok _ => .ok (.bool true)
  | .error _ => .ok (.bool false)

theorem shortcut_planned : (shortcut none).Planned := by
  intro r hr p hp
  simp only [shortcut, List.mem_toArray, List.mem_cons, List.not_mem_nil, or_false] at hr
  obtain rfl | rfl | rfl | rfl := hr <;> cases hp

variable (p : Option Processor)

theorem shortcut_linked : Grammar.link (shortcutTable p) none = .ok (shortcut p) := by
  let index := (shortcut p).index
  have hindex : Grammar.number 0 ∅ (shortcutTable p) = .ok index := by
    simp [index, Grammar.number, shortcutTable, shortcut, Rule.ofPattern]
  obtain ⟨hV, hX⟩ : index["V"]? = some 1 ∧ index["X"]? = some 2 := by
    simp only [index, shortcut, Std.HashMap.getElem?_insert]
    simp
  have hrules : (shortcutTable p).mapM (Grammar.linkRule index) = .ok (shortcut p).rules.toList := by
    simp only [shortcutTable, List.mapM_cons, List.mapM_nil, Grammar.linkRule, Rule.ofPattern,
      Pattern.link, Pattern.linkComponents, Pattern.linkAll, letter, Grammar.linkReference, hV, hX]
    rfl
  simp only [Grammar.link, hindex, bind, Except.bind, hrules]
  rfl

theorem shortcut_S : (shortcut p).ruleId? "S" = some 0 := by
  simp only [Grammar.ruleId?, shortcut, Std.HashMap.getElem?_insert]
  simp

theorem shortcut_T : (shortcut p).ruleId? "T" = some 3 := by
  simp [Grammar.ruleId?, shortcut]

/-- A parse of the text `xy`. -/
abbrev xy : Input := ⟨Text.ofString "xy", 0⟩

/-- A parse with few levels of nesting. -/
abbrev cramped (limit : Nat) : Setting := ⟨shortcut p, .ofText xy.text, .off, limit⟩

variable (limit : Nat)

private theorem evaluate_S {call : Input → Call → Eval (Option Matched)} {m m₁ m₂ : Memory}
    (hX : call xy ⟨2, 0, false, false⟩ m = ending (.ok (some ⟨0, 1, .null⟩)) m₁)
    (hV : call xy ⟨1, 0, false, false⟩ (m₁.note 1) = ending (.ok (some ⟨0, 1, .null⟩)) m₂) :
    evaluate (cramped p limit) call xy ⟨0, 0, false, false⟩ m = ending (.ok none) (m₂.note 2) := by
  have hmiss : matchPattern none xy.text (call xy) (letter '!') ⟨false, false⟩ 1 m₁ =
      .ok none (m₁.note 1) := rfl
  have hy : matchPattern none xy.text (call xy) (letter 'y') ⟨false, false⟩ 1 m₂ =
      .ok (some ⟨1, 2, .null⟩) m₂ := rfl
  have hz : matchPattern none xy.text (call xy) (letter 'z') ⟨false, false⟩ 2 m₂ =
      .ok none (m₂.note 2) := rfl
  simp [evaluate, shortcut, Rule.ofPattern, matchFirst, matchComponents, matchPattern, bind,
    EStateM.bind, pure, EStateM.pure, ending, hmiss, hy, hz, hX, hV, Parts.startingAt, Parts.push,
    Matched.consumed, Parts.finish]

/-- Where `X` is remembered, two levels of nesting are enough for `S`. -/
theorem invoke_S :
    ∃ memo, memo[(⟨3, 0, false, false⟩ : Call)]? = none ∧
      invoke (cramped p limit) 2 xy ⟨0, 0, false, false⟩ .empty =
        ending (.ok none) ⟨memo, 2⟩ := by
  let s := cramped p limit
  let x : Call := ⟨2, 0, false, false⟩
  let v : Call := ⟨1, 0, false, false⟩
  let found : Matched := ⟨0, 1, .null⟩
  let memo : Std.HashMap Call (Option Matched) := Std.HashMap.insert ∅ x (some found)
  have hnew : ∀ c : Call, Memory.empty.memo[c]? = none := fun c => by simp [Memory.empty]
  have hbody : evaluate s (invoke s 0) xy x .empty = ending (.ok (some found)) .empty := rfl
  have hX : invoke s 1 xy x .empty = ending (.ok (some found)) ⟨memo, 0⟩ :=
    invoke_miss (hnew x) hbody
  have hhit : invoke s 0 xy x ⟨memo, 1⟩ = ending (.ok (some found)) ⟨memo, 1⟩ :=
    invoke_hit (by simp [memo]) 0
  have hbody : evaluate s (invoke s 0) xy v ⟨memo, 1⟩ = ending (.ok (some found)) ⟨memo, 1⟩ := by
    rw [evaluate_of_some (r := .ofPattern "V" (.rule ⟨"X", 2⟩)) rfl]
    simp only [Rule.ofPattern, matchPattern, bind, EStateM.bind]
    rw [hhit]
    rfl
  have hV : invoke s 1 xy v ⟨memo, 1⟩ =
      ending (.ok (some found)) ⟨memo.insert v (some found), 1⟩ :=
    invoke_miss (by simp [memo, x, v]) hbody
  exact ⟨_, by simp [Memory.note, memo, x, v], invoke_miss (hnew _) (evaluate_S p limit hX hV)⟩

private theorem afresh_S :
    afresh (cramped p limit) 2 xy ⟨0, 0, false, false⟩ .empty =
      ending (.error (.tooDeep limit 0)) ⟨∅, 1⟩ :=
  rfl

theorem evaluate_T {call : Input → Call → Eval (Option Matched)}
    {o : Except Failure (Option Matched)} {m : Memory}
    (h : call xy ⟨0, 0, false, false⟩ .empty = ending o m) :
    evaluate (cramped (some lenient) limit) call ⟨Text.ofString "", 0⟩ ⟨3, 0, false, false⟩ .empty =
      ending (.ok (some ⟨0, 0, .bool (verdict o).isOk⟩)) .empty := by
  let rule : LinkedRule := { Rule.ofPattern "T" .endOfInput with processor := some lenient }
  have hr : reparseWith (shortcut (some lenient)) call ⟨Text.ofString "", 0⟩ "S" "xy" 0 =
      verdict o := reparse_eq_verdict _ _ _ _ _ _ (shortcut_S _) h
  have hshape : ∀ span lines options, rule.shape ⟨span, ⟨Text.ofString "", 0⟩, lines, options,
      reparseWith (shortcut (some lenient)) call ⟨Text.ofString "", 0⟩⟩ .null =
        .ok (.bool (verdict o).isOk) := by
    intro span lines options
    simp only [LinkedRule.shape, LinkedRule.fallback?, LinkedRule.process, rule, lenient, hr]
    cases verdict o <;> rfl
  have hconclude : conclude (cramped (some lenient) limit) call ⟨Text.ofString "", 0⟩ rule
      (.empty 0) .empty = ending (.ok (some ⟨0, 0, .bool (verdict o).isOk⟩)) .empty := by
    simp only [conclude, Matched.empty, hshape]
    rfl
  rw [evaluate_of_some (r := rule) rfl]
  exact hconclude

/-- Remembering outcomes is transparent. Behind any runs of one session, a run nests too deep only
if the run without remembered outcomes does. Where that one does not, both yield the same value or
the same failure, or find a mismatch. They find it at the same place, and get equally far, if no run
before nested too deep. -/
theorem remembering_transparent {s : Setting} (hg : s.grammar.Planned) (input : Input)
    (runs : List (String × Bool)) (rule : String) (trivia : Bool) :
    let remembering := ((Session.start s input).after Session.run runs).run rule trivia
    let plain := ((Session.start s input).after Session.runAfresh runs).runAfresh rule trivia
    (Deep remembering.1 → Deep plain.1) ∧
    (¬Deep plain.1 → Agrees remembering.1 plain.1) ∧
    ((Session.start s input).Shallow Session.runAfresh runs → ¬Deep plain.1 →
      remembering.1 = plain.1 ∧ remembering.2.furthest = plain.2.furthest) := by
  intro remembering plain
  obtain ⟨hafter, hset, hf⟩ := beside_after (beside_start s input) hg runs
  obtain ⟨-, hagrees, hsame⟩ := run_step hafter (hset ▸ hg) rule trivia
  refine ⟨fun hd => ?_, hagrees.resolve_left, fun hshallow hd => ?_⟩
  · exact hagrees.elim id fun h => h.deep.1 hd
  · exact (hsame (hf rfl hshallow)).resolve_left hd

/-- With a level more, the same runs end alike with and without remembered outcomes. -/
theorem remembering_transparent_shortcut :
    (shortcut none).Planned ∧
    (((Session.start (cramped none 3) xy).after Session.run [("S", false)]).run "T" false).1 =
      .error (.mismatch 2 true none) := by
  let start := Session.start (cramped none 3) xy
  have hS : afresh (cramped none 3) 3 xy ⟨0, 0, false, false⟩ .empty = ending (.ok none) ⟨∅, 2⟩ :=
    rfl
  have hT : afresh (cramped none 3) 3 xy ⟨3, 0, false, false⟩ ⟨∅, 2⟩ = ending (.ok none) ⟨∅, 2⟩ :=
    rfl
  have hfirst : start.runAfresh "S" false = _ :=
    Session.runAfresh_eq (runWith_eq (shortcut_S none) hS)
  have hshallow : start.Shallow Session.runAfresh [("S", false)] := by
    simp only [Session.Shallow, hfirst]
    exact ⟨Bool.false_ne_true, trivial⟩
  have hplain : ((start.after Session.runAfresh [("S", false)]).runAfresh "T" false).1 =
      .error (.mismatch 2 true none) := by
    simp only [Session.after, List.foldl, hfirst]
    rw [Session.runAfresh_eq (runWith_eq (shortcut_T none) hT)]
    rfl
  have h := remembering_transparent (s := cramped none 3) shortcut_planned xy [("S", false)] "T"
    false
  have hdeep : ¬Deep ((start.after Session.runAfresh [("S", false)]).runAfresh "T" false).1 := by
    rw [hplain]
    exact Bool.false_ne_true
  exact ⟨shortcut_planned, (h.2.2 hshallow hdeep).1.trans hplain⟩

/-- Where a run nests too deep without remembered outcomes, what it understood with them shows in
the mismatch of a later run; and a processor that takes no notice of depth yields another value. -/
theorem remembering_shows :
    let early := Session.start (cramped none 2) xy
    let late := Session.start (cramped (some lenient) 3) ⟨Text.ofString "", 0⟩
    ((early.after Session.run [("S", false)]).run "T" false).1 = .error (.mismatch 2 true none) ∧
    ((early.after Session.runAfresh [("S", false)]).runAfresh "T" false).1 =
      .error (.mismatch 1 false (some 'y')) ∧
    (late.run "T" false).1 = .ok (.bool true) ∧
    (late.runAfresh "T" false).1 = .ok (.bool false) := by
  intro early late
  refine ⟨?_, ?_, ?_, ?_⟩
  · obtain ⟨memo, hmemo, h⟩ := invoke_S none 2
    have hS : early.run "S" false = _ := Session.run_eq (runWith_eq (shortcut_S none) h)
    simp only [Session.after, List.foldl, hS]
    have hbody : evaluate (cramped none 2) (invoke (cramped none 2) 1) xy ⟨3, 0, false, false⟩
        ⟨memo, 2⟩ = ending (.ok none) ⟨memo, 2⟩ := rfl
    rw [Session.run_eq (runWith_eq (shortcut_T none) (invoke_miss hmemo hbody))]
    rfl
  · have hS : early.runAfresh "S" false = _ :=
      Session.runAfresh_eq (runWith_eq (shortcut_S none) (afresh_S none 2))
    have hT : afresh (cramped none 2) 2 xy ⟨3, 0, false, false⟩ ⟨∅, 1⟩ =
        ending (.ok none) ⟨∅, 1⟩ := rfl
    simp only [Session.after, List.foldl, hS]
    rw [Session.runAfresh_eq (runWith_eq (shortcut_T none) hT)]
    rfl
  · obtain ⟨memo, -, h⟩ := invoke_S (some lenient) 3
    have hnew : Memory.empty.memo[(⟨3, 0, false, false⟩ : Call)]? = none := by simp [Memory.empty]
    rw [Session.run_eq (runWith_eq (shortcut_T _) (invoke_miss hnew (evaluate_T 3 h)))]
    rfl
  · rw [Session.runAfresh_eq (runWith_eq (shortcut_T _) (evaluate_T 3 (afresh_S _ 3)))]
    rfl

end Shortcut

end PhpSyntax.Peg
