import PhpSyntax.Proofs.Peg.Instrumentation
import PhpSyntax.Proofs.Tree.Moved

namespace PhpSyntax.Peg

/-- The failure of a parse of a text that begins `b` bytes further on. -/
def Failure.shift (b : Nat) : Failure → Failure
  | .mismatch furthest atEnd unexpected => .mismatch (furthest + b) atEnd unexpected
  | .fatal key span placeholders => .fatal key (span.shift b) placeholders

@[simp]
theorem Failure.isFatal_shift (b : Nat) (e : Failure) : (e.shift b).isFatal = e.isFatal := by
  cases e <;> rfl

/-- Two results: related ones, or failures of which the first lies `b` bytes behind the second. -/
inductive MovedResult {α β : Type} (b : Nat) (R : α → β → Prop) :
    Except Failure α → Except Failure β → Prop where
  | ok {x : α} {y : β} : R x y → MovedResult b R (.ok x) (.ok y)
  | error (e : Failure) : MovedResult b R (.error (e.shift b)) (.error e)

/-- The same text as the input of two parses, `b` bytes further on in the first. The second parse
goes on within a source of `size` bytes. -/
structure Input.Moved (b size : Nat) (input input' : Input) : Prop where
  text : input.text = input'.text
  base : input.base = input'.base + b
  within : input'.base + input'.text.size ≤ size

/-- Two sources that are long enough: the second one for `size` bytes, the first one for as many,
`b` bytes further on. -/
structure Lines.Moved (b size : Nat) (lines lines' : Lines) : Prop where
  ahead : size + b ≤ lines.source.size
  within : size ≤ lines'.source.size

/-- A match in a moved text and in the text on its own. -/
structure Context.Moved (b size : Nat) (ctx ctx' : Context) : Prop where
  span : ctx.span = ctx'.span
  input : ctx.input.Moved b size ctx'.input
  lines : Lines.Moved b size ctx.lines ctx'.lines
  options : ctx.options = ctx'.options
  forward : ctx'.span.start ≤ ctx'.span.stop
  within : ctx'.span.stop ≤ ctx'.input.text.size
  reparse (rule text : String) (offset : Nat) :
    MovedResult b (Option.Rel (Value.Moved b size)) (ctx.reparse rule text offset)
      (ctx'.reparse rule text offset)

/-- A processor that makes of moved values what it makes of others, moved as well. -/
def Processor.Moves (p : Processor) : Prop :=
  ∀ b size v w ctx ctx', Value.Moved b size v w → Context.Moved b size ctx ctx' →
    MovedResult b (Value.Moved b size) (p v ctx) (p w ctx')

variable {b size : Nat}

section Place

variable {lines lines' : Lines} (h : Lines.Moved b size lines lines')

include h

theorem Lines.Moved.position {offset offset' : Nat} (ho : Ahead b size offset offset') :
    Ahead b size (lines.position offset).offset (lines'.position offset').offset := by
  obtain ⟨hahead, hwithin⟩ := h
  obtain ⟨rfl, hle⟩ := ho
  have hfirst : (lines.position (offset' + b)).offset = offset' + b :=
    Nat.min_eq_left (Nat.le_trans (Nat.add_le_add_right hle b) hahead)
  have hsecond : (lines'.position offset').offset = offset' :=
    Nat.min_eq_left (hle.trans hwithin)
  rw [hfirst, hsecond]
  exact ⟨rfl, hle⟩

variable {input input' : Input} (hinput : input.Moved b size input')

include hinput

/-- A node is placed within the input. -/
theorem Input.Moved.instrument {n n' : Node} (hn : n.Moved b size n') (options : Options)
    {s : Span} (hforward : s.start ≤ s.stop) (hs : input'.base + s.stop ≤ size) :
    NodeOf.Moved b size (input.instrument lines options n s)
      (input'.instrument lines' options n' s) := by
  have hoffset : ∀ offset, offset ≤ s.stop →
      Ahead b size (offset + input.base) (offset + input'.base) := by
    intro offset hle
    refine ⟨?_, ?_⟩
    · rw [hinput.base, Nat.add_assoc]
    · rw [Nat.add_comm]
      exact (Nat.add_le_add_left hle _).trans hs
  have hstart := h.position (hoffset s.start hforward)
  have hstop := h.position (hoffset s.stop (Nat.le_refl _))
  obtain ⟨hname, hfields, hbounds, hextent⟩ := hn
  refine ⟨hname, hfields, ?_, ?_⟩
  · simp only [Input.instrument]
    split
    · exact .some ⟨hstart, hstop⟩
    · exact hbounds
  · simp only [Input.instrument]
    split
    · refine .some ⟨hstart, ?_, ?_⟩
      · have hbase := hinput.base
        simp only [Extent.stop, Lines.extent, Span.shift, Span.length]
        have hstart := hstart.eq
        omega
      · have hsecond : (lines'.position (s.start + input'.base)).offset = s.start + input'.base :=
          Nat.min_eq_left (Nat.le_trans (hoffset s.start hforward).within h.within)
        simp only [Extent.stop, Lines.extent, Span.shift, Span.length, hsecond]
        omega
    · exact hextent

end Place

namespace Context.Moved

variable {ctx ctx' : Context} (h : ctx.Moved b size ctx')

include h

theorem span_within : ctx'.input.base + ctx'.span.stop ≤ size :=
  (Nat.add_le_add_left h.within _).trans h.input.within

theorem absoluteSpan : ctx.absoluteSpan = ctx'.absoluteSpan.shift b := by
  simp only [Context.absoluteSpan, Span.shift, h.span, h.input.base, Nat.add_assoc]

theorem text : ctx.text = ctx'.text := by
  simp only [Context.text, h.span, h.input.text]

theorem fatal (key : String) : ctx.fatal key = (ctx'.fatal key).shift b := by
  simp only [Context.fatal, h.absoluteSpan, Failure.shift]

/-- An edge that is given, or that of the match, as an offset of the input. -/
theorem edge {o o' : Option Nat} (ho : Option.Rel (Ahead b size) o o') {other : Nat}
    (hother : ctx'.input.base + other ≤ size) :
    o.getD (other + ctx.input.base) - ctx.input.base =
      o'.getD (other + ctx'.input.base) - ctx'.input.base ∧
    ctx'.input.base + (o'.getD (other + ctx'.input.base) - ctx'.input.base) ≤ size := by
  have hbase := h.input.base
  have hwithin := h.input.within
  cases ho with
  | none =>
    simp only [Option.getD_none, Nat.add_sub_cancel]
    exact ⟨trivial, hother⟩
  | some hoff =>
    obtain ⟨rfl, hle⟩ := hoff
    simp only [Option.getD_some, hbase, Nat.add_sub_add_right]
    refine ⟨trivial, ?_⟩
    omega

theorem covering {n n' : Node} (hn : n.Moved b size n') {start start' stop stop' : Option Nat}
    (hstart : Option.Rel (Ahead b size) start start')
    (hstop : Option.Rel (Ahead b size) stop stop') :
    NodeOf.Moved b size (ctx.covering n start stop) (ctx'.covering n' start' stop') := by
  have hspan := h.span_within
  have hforward : ctx'.input.base + ctx'.span.start ≤ size :=
    (Nat.add_le_add_left h.forward _).trans hspan
  obtain ⟨hstarts, hstart⟩ := h.edge hstart hforward
  obtain ⟨hstops, hstop⟩ := h.edge hstop hspan
  have hspans := h.span
  simp only [Context.covering, h.options]
  split
  · simp only [Context.absoluteSpan, Span.shift, hspans, hstarts, hstops]
    refine h.input.instrument h.lines hn _ (Nat.le_max_right _ _) ?_
    simp only
    omega
  · exact hn

end Context.Moved

namespace LinkedRule

variable {r : LinkedRule} {v w : Value}

theorem fallback?_moved (r : LinkedRule) (h : v.Moved b size w) :
    Option.Rel (Value.Moved b size) (r.fallback? v) (r.fallback? w) := by
  cases h.view with
  | @record fs gs hfields =>
    simp only [fallback?]
    cases r.ifNoMatch with
    | none => exact .none
    | some i =>
      have hempty : (fs.get? i.component).all Value.isEmpty =
          (gs.get? i.component).all Value.isEmpty := by
        have hk := Fields.rel_get? hfields i.component
        simp only [Fields.get?] at hk ⊢
        generalize fs.entries.lookup i.component = o, gs.entries.lookup i.component = p at hk ⊢
        cases hk with
        | none => rfl
        | some hv => exact hv.isEmpty
      simp only [hempty]
      split
      · exact .some (Fields.take_moved hfields _).1
      · exact .none
  | _ => exact .none

theorem picked_moved (r : LinkedRule) (h : v.Moved b size w) :
    (r.picked v).Moved b size (r.picked w) := by
  cases hpick : r.pick with
  | none =>
    simp only [picked, hpick]
    exact h
  | some field =>
    simp only [picked, hpick]
    cases h.view with
    | record hfields => exact (Fields.take_moved hfields field).1
    | _ => exact h

theorem named_moved (r : LinkedRule) (h : v.Moved b size w) :
    (r.named v).Moved b size (r.named w) := by
  have hnode : ∀ {fs gs : Captures}, EntriesRel (Value.Moved b size) fs.entries gs.entries →
      Value.Moved b size (.node (NodeOf.ofFields r.tag fs)) (.node (NodeOf.ofFields r.tag gs)) :=
    fun hfields => Value.moved_node.2 (NodeOf.moved_ofFields r.tag hfields)
  cases h.view with
  | record hfields => exact hnode hfields
  | node hn => exact h
  | _ =>
    simp only [named]
    split
    · exact hnode .nil
    · exact h

theorem tagged_moved (r : LinkedRule) (h : v.Moved b size w) :
    (r.tagged v).Moved b size (r.tagged w) := by
  rw [tagged_eq, tagged_eq]
  exact r.named_moved (r.picked_moved h)

variable {ctx ctx' : Context} (hctx : ctx.Moved b size ctx')

include hctx

theorem place_moved (h : v.Moved b size w) :
    Value.Moved b size (place ctx v) (place ctx' w) := by
  cases h.view with
  | node hn =>
    simp only [place, hctx.options, hn.isInstrumented]
    split
    · rw [hctx.span]
      exact Value.moved_node.2
        (hctx.input.instrument hctx.lines hn _ hctx.forward hctx.span_within)
    · exact h
  | _ => exact h

/-- What a rule makes of a moved match is moved. -/
theorem shape_moved (hp : ∀ p, r.processor = some p → p.Moves) (h : v.Moved b size w) :
    MovedResult b (Value.Moved b size) (r.shape ctx v) (r.shape ctx' w) := by
  have hfallback := r.fallback?_moved h
  simp only [shape]
  generalize r.fallback? v = o, r.fallback? w = p at hfallback ⊢
  cases hfallback with
  | some hv => exact .ok hv
  | none =>
    have hprocess : MovedResult b (Value.Moved b size) (r.process ctx (r.tagged v))
        (r.process ctx' (r.tagged w)) := by
      simp only [process]
      cases hr : r.processor with
      | none => exact .ok (r.tagged_moved h)
      | some p => exact hp p hr _ _ _ _ _ _ (r.tagged_moved h) hctx
    generalize r.process ctx (r.tagged v) = x, r.process ctx' (r.tagged w) = y at hprocess ⊢
    cases hprocess with
    | error e => exact .error e
    | ok hv => exact .ok (place_moved hctx hv)

end LinkedRule

end PhpSyntax.Peg
