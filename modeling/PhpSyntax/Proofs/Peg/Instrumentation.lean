import PhpSyntax.Proofs.Peg.Recall
import PhpSyntax.Proofs.Tree.Strip

namespace PhpSyntax.Peg

/-- A context that records places and one that does not, for the same match. -/
structure Context.Strips (ctx ctx' : Context) : Prop where
  span : ctx.span = ctx'.span
  input : ctx.input = ctx'.input
  off : ctx'.options = .off
  reparse (rule text : String) (offset : Nat) :
    (ctx.reparse rule text offset).map (Option.map Value.strip) = ctx'.reparse rule text offset

/-- A processor that makes the same of values that differ in places only. -/
def Processor.Blind (p : Processor) : Prop :=
  ∀ v ctx ctx', Context.Strips ctx ctx' → (p v ctx).map Value.strip = p v.strip ctx'

def Grammar.Blind (g : Grammar) : Prop :=
  ∀ r ∈ g.rules, ∀ p, r.processor = some p → p.Blind

/-- Every scanner of a grammar yields values without places. -/
def Grammar.ScansPlain (g : Grammar) : Prop :=
  ∀ r ∈ g.rules, ∀ s ∈ r.pattern.scanners, s.Fixed Stripped

namespace Context

@[simp]
theorem covering_strip (ctx : Context) (n : Node) (start stop : Option Nat) :
    (ctx.covering n start stop).strip = n.strip := by
  simp only [covering]
  split <;> rfl

theorem covering_off {ctx : Context} (h : ctx.options = .off) (n : Node)
    (start stop : Option Nat) : ctx.covering n start stop = n := by
  simp only [covering, h]
  rfl

theorem Strips.absoluteSpan {ctx ctx' : Context} (h : ctx.Strips ctx') :
    ctx.absoluteSpan = ctx'.absoluteSpan := by
  simp only [Context.absoluteSpan, h.span, h.input]

theorem Strips.text {ctx ctx' : Context} (h : ctx.Strips ctx') : ctx.text = ctx'.text := by
  simp only [Context.text, h.span, h.input]

theorem Strips.fatal {ctx ctx' : Context} (h : ctx.Strips ctx') (key : String) :
    ctx.fatal key = ctx'.fatal key := by
  simp only [Context.fatal, h.absoluteSpan]

end Context

namespace LinkedRule

variable (r : LinkedRule)

def picked (v : Value) : Value :=
  match r.pick, v with
  | some field, .record fields => (fields.take field).1
  | _, v => v

def named : Value → Value
  | .record fields => .node (NodeOf.ofFields r.tag fields)
  | .node n => .node n
  | v => if r.asNode then .node (NodeOf.ofFields r.tag .empty) else v

theorem tagged_eq (v : Value) : r.tagged v = r.named (r.picked v) :=
  rfl

theorem fallback?_strip (v : Value) : r.fallback? v.strip = (r.fallback? v).map Value.strip := by
  cases v with
  | record fields =>
    change r.fallback? (.record fields.strip) = _
    simp only [fallback?]
    cases r.ifNoMatch with
    | none => rfl
    | some i =>
      have he : ((fields.get? i.component).map Value.strip).all Value.isEmpty =
          (fields.get? i.component).all Value.isEmpty := by
        cases fields.get? i.component with
        | none => rfl
        | some v => exact v.isEmpty_strip
      simp only [Fields.get?_strip, he, Fields.take_strip]
      split <;> rfl
  | _ => rfl

theorem picked_strip (v : Value) : r.picked v.strip = (r.picked v).strip := by
  cases hpick : r.pick with
  | none => simp only [picked, hpick]
  | some field =>
    cases v with
    | record fields =>
      simp only [picked, hpick]
      exact congrArg Prod.fst (fields.take_strip field)
    | list items => simp only [picked, hpick, Value.strip_list]
    | _ => simp only [picked, hpick, Value.strip_node] <;> rfl

theorem named_strip (v : Value) : r.named v.strip = (r.named v).strip := by
  cases v with
  | record fields => rfl
  | node n => rfl
  | _ =>
    simp only [named]
    cases r.asNode <;> rfl

theorem tagged_strip (v : Value) : r.tagged v.strip = (r.tagged v).strip := by
  rw [tagged_eq, tagged_eq, picked_strip, named_strip]

theorem place_strip (ctx : Context) (v : Value) : (place ctx v).strip = v.strip := by
  cases v with
  | node n =>
    simp only [place]
    split <;> rfl
  | _ => rfl

variable {r}

theorem shape_strip (hp : ∀ p, r.processor = some p → p.Blind) {ctx ctx' : Context}
    (h : ctx.Strips ctx') (v : Value) :
    (r.shape ctx v).map Value.strip = r.shape ctx' v.strip := by
  simp only [shape, fallback?_strip]
  cases r.fallback? v with
  | some v => rfl
  | none =>
    have hprocess : (r.process ctx (r.tagged v)).map Value.strip =
        r.process ctx' (r.tagged v.strip) := by
      simp only [process, tagged_strip]
      cases hr : r.processor with
      | none => rfl
      | some p => exact hp p hr _ _ _ h
    simp only [Option.map_none, ← hprocess]
    cases r.process ctx (r.tagged v) with
    | error e => rfl
    | ok w =>
      have hplace : place ctx' w.strip = w.strip := place_off h.off _
      simp only [Except.map, bind, Except.bind, pure, Except.pure, place_strip, hplace]

end LinkedRule

/-- Memories that differ in places only. -/
structure SameButPlaces (m n : Memory) : Prop where
  furthest : m.furthest = n.furthest
  memo (c : Call) : Option.Rel (Option.Rel (Matched.Rel Stripped)) m.memo[c]? n.memo[c]?

theorem samePlaces_empty : SameButPlaces .empty .empty :=
  ⟨rfl, fun c => by simp only [Memory.empty, Std.HashMap.getElem?_empty]; exact .none⟩

theorem SameButPlaces.note {m n : Memory} (h : SameButPlaces m n) (offset : Nat) :
    SameButPlaces (m.note offset) (n.note offset) := by
  refine ⟨?_, fun c => ?_⟩
  · rw [m.note_furthest, n.note_furthest, h.furthest]
  · rw [m.note_memo, n.note_memo]
    exact h.memo c

/-- Steps that differ in the places of what they yield and remember. -/
def stripping : Lifting Unit :=
  .tracking SameButPlaces fun _ _ offset h => h.note offset

/-- The setting of a parse that records no places. -/
def Setting.plain (s : Setting) : Setting :=
  { s with options := .off }

section Session

variable {x y : Input → Call → Eval (Option Matched)}
  (h : ∀ input c, Tracks SameButPlaces (Option.Rel (Matched.Rel Stripped))
    (fun _ => x input c) (y input c))

include h

theorem reparse_strip (g : Grammar) (input : Input) (rule text : String) (offset : Nat) :
    (reparseWith g x input rule text offset).map (Option.map Value.strip) =
      reparseWith g y input rule text offset := by
  cases hid : g.ruleId? rule with
  | none =>
    rw [reparse_unknown _ _ _ _ _ _ hid, reparse_unknown _ _ _ _ _ _ hid]
    rfl
  | some id =>
    obtain ⟨o, p, m, n, hx, hy, ho, -⟩ :=
      h (input.within text offset) ⟨id, 0, false, false⟩ .empty .empty samePlaces_empty
    rw [reparse_eq_verdict _ _ _ _ _ _ hid hx, reparse_eq_verdict _ _ _ _ _ _ hid hy]
    cases ho with
    | error e =>
      simp only [verdict]
      split <;> rfl
    | ok hab =>
      cases hab with
      | none => rfl
      | some hm => exact congrArg (Except.ok ∘ some) hm.value

theorem conclude_strip {s : Setting} (hblind : s.grammar.Blind) {input : Input} {r : LinkedRule}
    (hr : r ∈ s.grammar.rules) {m n : Matched} (hm : Matched.Rel Stripped m n) :
    Tracks SameButPlaces (Option.Rel (Matched.Rel Stripped))
      (fun _ => conclude s x input r m) (conclude s.plain y input r n) := by
  obtain ⟨start, stop, v⟩ := m
  obtain ⟨start', stop', v'⟩ := n
  obtain ⟨rfl, rfl, rfl⟩ := hm
  have hctx : Context.Strips
      ⟨⟨start, stop⟩, input, s.lines, s.options, reparseWith s.grammar x input⟩
      ⟨⟨start, stop⟩, input, s.lines, .off, reparseWith s.grammar y input⟩ :=
    ⟨rfl, rfl, rfl, reparse_strip h s.grammar input⟩
  have hresult : ResultRel Stripped
      (r.shape ⟨⟨start, stop⟩, input, s.lines, s.options, reparseWith s.grammar x input⟩ v)
      (r.shape ⟨⟨start, stop⟩, input, s.lines, .off, reparseWith s.grammar y input⟩ v.strip) := by
    rw [← LinkedRule.shape_strip (hblind r hr) hctx v]
    cases r.shape _ v with
    | ok w => exact .ok rfl
    | error e => exact .error e
  simp only [conclude_eq]
  exact (tracks_ofResult SameButPlaces hresult).bind (fun _ _ offset h => h.note offset)
    fun a b hab => stripping.pure (.some ⟨rfl, rfl, hab⟩)

end Session

theorem SameButPlaces.storing {m n : Memory} (h : SameButPlaces m n) (c : Call)
    {o p : Except Failure (Option Matched)}
    (ho : ResultRel (Option.Rel (Matched.Rel Stripped)) o p) :
    SameButPlaces (m.storing c o) (n.storing c p) := by
  cases ho with
  | error e => exact h
  | ok ho =>
    refine ⟨h.furthest, fun d => ?_⟩
    simp only [Memory.storing, Std.HashMap.getElem?_insert]
    split
    · exact .some ho
    · exact h.memo d

/-- A call does the same where places are recorded as where they are not. -/
theorem invoke_strip {s : Setting} (hblind : s.grammar.Blind) (hscan : s.grammar.ScansPlain)
    (room : Nat) (input : Input) (c : Call) :
    Tracks SameButPlaces (Option.Rel (Matched.Rel Stripped))
      (fun _ => invoke s room input c) (invoke s.plain room input c) := by
  induction room generalizing input c with
  | zero =>
    intro m n hmn
    have hc := hmn.memo c
    generalize hm : m.memo[c]? = found, hn : n.memo[c]? = found' at hc
    cases hc with
    | some ho => exact ⟨_, _, m, n, invoke_hit hm 0, invoke_hit hn 0, .ok ho, hmn⟩
    | none =>
      simp only [invoke, hm, hn]
      exact ⟨.error _, .error _, m, n, rfl, rfl, .error _, hmn⟩
  | succ room ih =>
    intro m n hmn
    have hc := hmn.memo c
    generalize hm : m.memo[c]? = found, hn : n.memo[c]? = found' at hc
    cases hc with
    | some ho => exact ⟨_, _, m, n, invoke_hit hm _, invoke_hit hn _, .ok ho, hmn⟩
    | none =>
      have heval : Tracks SameButPlaces (Option.Rel (Matched.Rel Stripped))
          (fun _ => evaluate s (invoke s room) input c)
          (evaluate s.plain (invoke s.plain room) input c) :=
        evaluate_rel (s := s) stripping Congruence.stripped
          (show s.grammar = s.plain.grammar from rfl) hscan (x := fun _ => invoke s room)
          (ih input) (fun r hr _ _ hm => conclude_strip ih hblind hr hm) c
      obtain ⟨o, p, m', n', hx, hy, ho, hmn'⟩ := heval m n hmn
      exact ⟨o, p, _, _, invoke_miss hm hx, invoke_miss hn hy, ho, hmn'.storing c ho⟩

end PhpSyntax.Peg
