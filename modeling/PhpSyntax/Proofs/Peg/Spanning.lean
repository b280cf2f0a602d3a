import PhpSyntax.Proofs.Peg.Form
import PhpSyntax.Proofs.Peg.Laying
import PhpSyntax.Proofs.Peg.Locating
import PhpSyntax.Proofs.Source.Lines

namespace PhpSyntax

open Value

/-- A node spans what lies between two offsets of a source, and records that as far as the options
ask for it. -/
structure Spans (source : Text) (options : Options) (n : Node) (start stop : Nat) : Prop where
  first : source.Boundary start
  last : source.Boundary stop
  bounds : n.bounds =
    if options.captureBounds then some ((Lines.ofText source).bounds ⟨start, stop⟩) else none
  extent : n.extent =
    if options.captureOffsets then some ((Lines.ofText source).extent ⟨start, stop⟩) else none

namespace Spans

variable {source : Text} {options : Options} {n : Node} {start stop : Nat}
  (h : Spans source options n start stop) (hon : options.instruments = true)

include h hon

theorem isInstrumented : n.isInstrumented = true := by
  rw [Options.instruments, Bool.or_eq_true] at hon
  rw [NodeOf.isInstrumented, h.bounds, h.extent, Bool.or_eq_true]
  exact hon.imp (fun hbounds => by rw [hbounds]; rfl) fun hoffsets => by rw [hoffsets]; rfl

theorem byteRange? (hle : start ≤ stop) : n.byteRange? = some (start, stop) := by
  rw [NodeOf.byteRange?, h.bounds, h.extent]
  cases hbounds : options.captureBounds with
  | true =>
    simp only [if_true, Lines.bounds, h.first.position_offset, h.last.position_offset]
  | false =>
    have hoffsets : options.captureOffsets = true := by
      simpa [Options.instruments, hbounds] using hon
    simp only [hoffsets, if_true, Bool.false_eq_true, if_false, Option.map_some, Lines.extent,
      h.first.position_offset, Extent.stop, Span.length]
    rw [Nat.add_sub_cancel' hle]

end Spans

section Drafted

variable (P : Node → Nat → Nat → Prop)

/-- A value is laid out, or it is a node without a place over what is. -/
def Value.Drafted (v : Value) (a b : Nat) : Prop :=
  v.Laid P a b ∨
    ∃ n : Node, v = .node n ∧ n.isInstrumented = false ∧ EntriesLaid P n.fields.entries a b

variable {P} {v : Value} {n : Node} {a b : Nat}

theorem Value.Drafted.le (h : v.Drafted P a b) : a ≤ b := by
  obtain h | ⟨n, -, -, h⟩ := h
  · exact h.le
  · exact h.le

theorem Value.Drafted.entries (h : (Value.node n).Drafted P a b) :
    EntriesLaid P n.fields.entries a b := by
  obtain ⟨start, stop, ha, hb, -, h⟩ | ⟨_, ⟨⟩, -, h⟩ := h
  · exact h.mono ha hb
  · exact h

/-- A node may get other fields, if these are laid out wherever its own are. -/
theorem Value.Drafted.refit {source : Text} {options : Options} {n n' : Node}
    (h : (Value.node n).Drafted (Spans source options) a b) (hbounds : n'.bounds = n.bounds)
    (hextent : n'.extent = n.extent)
    (hentries : ∀ start stop, a ≤ start →
      EntriesLaid (Spans source options) n.fields.entries start stop →
      EntriesLaid (Spans source options) n'.fields.entries start stop) :
    (Value.node n').Drafted (Spans source options) a b := by
  obtain h | ⟨_, ⟨⟩, hplain, h⟩ := h
  · obtain ⟨start, stop, ha, hb, ⟨hfirst, hlast, hn, hn'⟩, h⟩ := laid_node.1 h
    exact .inl (laid_node.2 ⟨start, stop, ha, hb,
      ⟨hfirst, hlast, hbounds.trans hn, hextent.trans hn'⟩, hentries start stop ha h⟩)
  · refine .inr ⟨n', rfl, ?_, hentries a b (Nat.le_refl a) h⟩
    rw [NodeOf.isInstrumented, hbounds, hextent]
    exact hplain

theorem Value.EntriesLaid.lookup {es : List (String × Value)} (h : EntriesLaid P es a b)
    {key : String} (hv : es.lookup key = some v) : v.Laid P a b := by
  obtain ⟨front, rest, rfl, -⟩ := List.lookup_eq_some_iff.1 hv
  refine (entriesLaid_iff.1 h).mem (List.mem_map.2 ⟨(key, v), ?_, rfl⟩)
  exact List.mem_append_right _ (List.mem_cons_self ..)

theorem Fields.take_laid {fs : Captures} (h : EntriesLaid P fs.entries a b) (key : String) :
    (fs.take key).1.Laid P a b := by
  simp only [take, get?]
  cases hv : fs.entries.lookup key with
  | none => exact h.le
  | some v => exact h.lookup hv

end Drafted

namespace Peg

/-- A match in a parse of a source that records places; the input is a part of the source. -/
structure Grounded (source : Text) (ctx : Context) : Prop where
  lines : ctx.lines = .ofText source
  on : ctx.options.instruments = true
  holds : source.Holds ctx.input.base ctx.input.text
  start : ctx.input.text.Boundary ctx.span.start
  stop : ctx.input.text.Boundary ctx.span.stop

/-- A value is laid out over the match. -/
abbrev Context.Lays (ctx : Context) (source : Text) (v : Value) : Prop :=
  v.Laid (Spans source ctx.options) ctx.absoluteSpan.start ctx.absoluteSpan.stop

/-- A value is laid out over the match, or is to get its place. -/
abbrev Context.Drafts (ctx : Context) (source : Text) (v : Value) : Prop :=
  v.Drafted (Spans source ctx.options) ctx.absoluteSpan.start ctx.absoluteSpan.stop

variable {source : Text} {ctx : Context} {v w : Value} {d : RuleDef}

theorem Grounded.boundaries (h : Grounded source ctx) :
    source.Boundary ctx.absoluteSpan.start ∧ source.Boundary ctx.absoluteSpan.stop := by
  have hboundary : ∀ {o : Nat}, ctx.input.text.Boundary o →
      source.Boundary (o + ctx.input.base) := by
    intro o ho
    rw [Nat.add_comm]
    exact h.holds.boundary ho
  exact ⟨hboundary h.start, hboundary h.stop⟩

/-- A node without a place gets that of the match. -/
theorem Grounded.place_spans (h : Grounded source ctx) {n : Node}
    (hplain : n.isInstrumented = false) :
    ∃ n' : Node, LinkedRule.place ctx (.node n) = .node n' ∧ n'.fields = n.fields ∧
      Spans source ctx.options n' ctx.absoluteSpan.start ctx.absoluteSpan.stop := by
  have hnone : n.bounds = none ∧ n.extent = none := by
    simpa [NodeOf.isInstrumented] using hplain
  refine ⟨ctx.input.instrument ctx.lines ctx.options n ctx.span, ?_, rfl, h.boundaries.1,
    h.boundaries.2, ?_, ?_⟩
  · simp only [LinkedRule.place, h.on, hplain, Bool.not_false, Bool.and_true, if_true]
  · simp only [Input.instrument, h.lines, hnone]
    rfl
  · simp only [Input.instrument, h.lines, hnone]
    rfl

theorem Grounded.place_laid (h : Grounded source ctx)
    (hv : ctx.Drafts source v) : ctx.Lays source (LinkedRule.place ctx v) := by
  obtain hv | ⟨n, rfl, hplain, hentries⟩ := hv
  · cases v with
    | node n =>
      obtain ⟨start, stop, -, -, hn, -⟩ := laid_node.1 hv
      simpa only [LinkedRule.place, hn.isInstrumented h.on, Bool.not_true, Bool.and_false,
        Bool.false_eq_true, if_false] using hv
    | _ => exact hv
  · obtain ⟨n', hplace, hfields, hspans⟩ := h.place_spans hplain
    rw [hplace]
    rw [← hfields] at hentries
    exact laid_node.2 ⟨_, _, Nat.le_refl _, Nat.le_refl _, hspans, hentries⟩

/-- The place of the match of a rule in the source is that of the captures. -/
theorem RuleDef.tagged_drafted {P : Node → Nat → Nat → Prop} {a b : Nat} (hv : v.Laid P a b) :
    (d.bare.tagged v).Drafted P a b := by
  have hnew : ∀ {fs : Captures}, EntriesLaid P fs.entries a b →
      (Value.node (.ofFields d.tag fs)).Drafted P a b :=
    fun h => .inr ⟨_, rfl, rfl, h⟩
  have hpicked : (d.pickFrom v).Laid P a b := by
    simp only [pickFrom]
    split
    · exact Fields.take_laid hv _
    · exact hv
  rw [tagged_eq]
  generalize d.pickFrom v = u at hpicked
  simp only [makeNode]
  split
  · exact hnew hpicked
  · exact .inl hpicked
  · split
    · exact hnew hpicked.le
    · exact .inl hpicked

/-- A rule yields what is laid out over its match, if its captures are. -/
theorem RuleDef.shape_laid (hctx : Grounded source ctx)
    (hv : ctx.Lays source v)
    (hprocess : ∀ w, d.bare.process ctx (d.bare.tagged v) = .ok w → ctx.Drafts source w)
    (h : RuleDef.shape d ctx v = .ok w) : ctx.Lays source w := by
  rw [RuleDef.shape, LinkedRule.shape] at h
  split at h
  · rename_i u hfallback
    obtain rfl := Except.ok.inj h
    simp only [LinkedRule.fallback?] at hfallback
    split at hfallback
    · split at hfallback
      · rw [Option.ite_none_right_eq_some] at hfallback
        obtain rfl := Option.some.inj hfallback.2
        exact Fields.take_laid hv _
      · cases hfallback
    · cases hfallback
  · obtain ⟨w', hw', h⟩ := bind_ok h
    obtain rfl := Except.ok.inj h
    exact hctx.place_laid (hprocess w' hw')

end Peg

end PhpSyntax
