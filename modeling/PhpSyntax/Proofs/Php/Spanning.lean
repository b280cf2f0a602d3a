import PhpSyntax.Proofs.Peg.Spanning
import PhpSyntax.Proofs.Php.Folding
import PhpSyntax.Proofs.Php.Forms

namespace PhpSyntax.Php

open Peg Value

section Nested

variable {source : Text} {ctx : Context} (hctx : Grounded source ctx) {left v : Value}
  {a b start stop last : Nat}

include hctx

theorem Grounded.startOf_stands (hv : v.Stands (Spans source ctx.options) start stop) :
    startOf v = some start ∧ stopOf v = some stop := by
  have hle := hv.le
  obtain ⟨n, rfl, hn, -⟩ := hv
  have hrange : (Value.node n).byteRange? = some (start, stop) := by
    rw [Value.byteRange?]
    exact hn.byteRange? hctx.on hle
  simp only [startOf, stopOf, hrange, Option.map_some, and_self]

/-- A node that is given a place stands there, if what is in it is laid out there. -/
theorem Grounded.placed_stands {n : Node} (hbase : ctx.input.base ≤ start)
    (hfirst : source.Boundary start) (hlast : source.Boundary stop)
    (hentries : EntriesLaid (Spans source ctx.options) n.fields.entries start stop) :
    (Value.node (placed ctx n (some start) (some stop))).Stands (Spans source ctx.options) start
      stop := by
  have hle := hentries.le
  have hlow : max start ctx.input.base = start := by omega
  have hhigh : max stop start = stop := by omega
  refine ⟨_, rfl, ⟨hfirst, hlast, ?_, ?_⟩, hentries⟩
  · simp only [placed, Option.getD_some, hlow, hhigh, hctx.lines]
  · simp only [placed, Option.getD_some, hlow, hhigh, hctx.lines]

variable {steps : List (Value × Value)} (hnodes : ∀ step ∈ steps, ∃ n, step.2 = .node n)

include hnodes

/-- A chain that is nested to the left stands from its first operand to its last. -/
theorem LeftNested.stands (h : LeftNested ctx left steps v)
    (hleft : left.Stands (Spans source ctx.options) start stop) (hbase : ctx.input.base ≤ start)
    (hsteps : AllLaid (Spans source ctx.options) (inTurn steps) stop b) :
    ∃ last, last ≤ b ∧ v.Stands (Spans source ctx.options) start last := by
  induction h generalizing b with
  | operand => exact ⟨stop, hsteps.le, hleft⟩
  | @step steps v operator operand _ ih =>
    obtain ⟨hinit, n, rfl⟩ : (∀ step ∈ steps, ∃ n, step.2 = .node n) ∧ ∃ n, operand = .node n :=
      ⟨fun step hstep => hnodes step (List.mem_append_left _ hstep),
        hnodes (operator, operand) (by simp)⟩
    rw [inTurn, List.flatMap_append, allLaid_append] at hsteps
    obtain ⟨c, hsteps, d, hoperator, hoperand⟩ := hsteps
    obtain ⟨last, hlast, hv⟩ := ih hinit hsteps
    obtain ⟨start', stop', hstart', hstop', hoperand⟩ := (allLaid_singleton.1 hoperand).stands
    refine ⟨stop', hstop', ?_⟩
    rw [(Grounded.startOf_stands hctx hleft).1, (Grounded.startOf_stands hctx hoperand).2]
    obtain ⟨_, -, hleft, -⟩ := hleft
    obtain ⟨_, _, hright, -⟩ := id hoperand
    refine Grounded.placed_stands hctx hbase hleft.first hright.last ?_
    exact ⟨last, hv.laid (Nat.le_refl _) (Nat.le_refl _), d,
      hoperator.mono hlast (Nat.le_refl _), stop', hoperand.laid hstart' (Nat.le_refl _),
      Nat.le_refl _⟩

/-- A chain that is nested to the right is laid out from its first part up to its end. -/
theorem RightNested.laid {make : Value → Value → Value → Node}
    (hmake : ∀ first between next, (make first between next).fields.entries.map (·.2) =
      [first, between, next]) {head : Value} {edge : Option Nat}
    (h : RightNested ctx make edge head steps v) (hedge : edge = some last)
    (hlast : source.Boundary last)
    (hhead : head.Stands (Spans source ctx.options) start stop) (hbase : ctx.input.base ≤ start)
    (hsteps : AllLaid (Spans source ctx.options) (inTurn steps) stop last) :
    v.Laid (Spans source ctx.options) start last := by
  induction h generalizing start stop with
  | last v => exact hhead.laid (Nat.le_refl _) hsteps.le
  | @step next v rest first between _ ih =>
    obtain ⟨⟨n, rfl⟩, hlater⟩ := List.forall_mem_cons.1 hnodes
    obtain ⟨c, hbetween, d, hnext, hrest⟩ :
      AllLaid (Spans source ctx.options) (between :: .node n :: inTurn rest) stop last := hsteps
    obtain ⟨start', stop', hstart', hstop', hnext⟩ := hnext.stands
    have hle := hhead.le.trans (hbetween.le.trans hstart')
    have hv := ih hlater hnext (hbase.trans hle) (hrest.mono hstop' (Nat.le_refl _))
    rw [hedge, (Grounded.startOf_stands hctx hhead).1]
    obtain ⟨_, _, hfirst, -⟩ := id hhead
    refine (Grounded.placed_stands hctx hbase hfirst.first hlast ?_).laid (Nat.le_refl _)
      (Nat.le_refl _)
    rw [entriesLaid_iff, hmake]
    exact ⟨stop, hhead.laid (Nat.le_refl _) (Nat.le_refl _), c, hbetween,
      allLaid_singleton.2 (hv.mono hstart' (Nat.le_refl _))⟩

omit hctx in
/-- The end of a chain is that of its last part. -/
theorem lastOf_stands {P : Node → Nat → Nat → Prop} (hleft : left.Stands P start stop)
    (hsteps : AllLaid P (inTurn steps) stop b) :
    ∃ start' last, last ≤ b ∧ (lastOf left steps).Stands P start' last ∧
      AllLaid P (inTurn steps) stop last := by
  obtain rfl | ⟨init, ⟨between, next⟩, rfl⟩ := steps.eq_nil_or_concat'
  · exact ⟨start, stop, hsteps.le, hleft, Nat.le_refl _⟩
  · obtain ⟨n, rfl⟩ := hnodes (between, next) (by simp)
    have hturn : inTurn (init ++ [(between, .node n)]) = (inTurn init ++ [between]) ++ [.node n] := by
      simp [inTurn]
    rw [hturn] at hsteps ⊢
    obtain ⟨start', last, hle, hstands, hlaid⟩ := hsteps.last
    refine ⟨start', last, hle, ?_, hlaid⟩
    simpa [lastOf] using hstands

omit hnodes

/-- Nested clauses are laid out from the first up to the end of the alternate, or of the last. -/
theorem ElseIfNested.laid {alternate : Value} {clauses : List ElseIf} {edge : Option Nat}
    (h : ElseIfNested ctx edge alternate clauses v) (hedge : edge = some last)
    (hlast : source.Boundary last) (hbase : ctx.input.base ≤ a)
    (hclauses : AllLaid (Spans source ctx.options) (clauses.map fun c => .node c.node) a b)
    (halternate : alternate.Laid (Spans source ctx.options) b last) :
    v.Laid (Spans source ctx.options) a last := by
  induction h generalizing a with
  | alternate => exact halternate.mono hclauses.le (Nat.le_refl _)
  | @clause v rest c _ ih =>
    obtain ⟨d, hclause, hrest⟩ := hclauses
    have hv := ih (hbase.trans hclause.le) hrest
    obtain ⟨start, stop, hstart, hstop, hclause⟩ := hclause.stands
    rw [hedge, (Grounded.startOf_stands hctx hclause).1]
    obtain ⟨_, ⟨⟩, hfirst, x, hcondition, y, hconsequent, hend⟩ := hclause
    refine (Grounded.placed_stands hctx (hbase.trans hstart) hfirst.first hlast ?_).laid hstart
      (Nat.le_refl _)
    exact ⟨x, hcondition, y, hconsequent, last, hv.mono (hend.trans hstop) (Nat.le_refl _),
      Nat.le_refl _⟩

/-- A member keeps all of what was captured of it. -/
def KeepsFields (segment : Node) : Prop :=
  ∀ access, access? segment.name = some access →
    (access.kept.map fun key => (key, fieldOf (.node segment) key)) = segment.fields.entries

/-- Nested members are laid out from the root to the last of them. -/
theorem nestMembers_laid {target : Value} {segments : List Node}
    (htarget : target.Stands (Spans source ctx.options) start stop)
    (hbase : ctx.input.base ≤ start)
    (hsegments : AllLaid (Spans source ctx.options) (segments.map .node) stop b)
    (hkept : ∀ s ∈ segments, KeepsFields s) :
    (nestMembers ctx (some start) target segments).Laid (Spans source ctx.options) start b := by
  induction segments generalizing target stop with
  | nil => exact htarget.laid (Nat.le_refl _) hsegments
  | cons segment segments ih =>
    obtain ⟨hfields, hkept⟩ := List.forall_mem_cons.1 hkept
    obtain ⟨c, hsegment, hsegments⟩ := hsegments
    simp only [nestMembers]
    cases haccess : access? segment.name with
    | none => exact ih htarget (hsegments.mono hsegment.le (Nat.le_refl _)) hkept
    | some access =>
      obtain ⟨start', stop', hstart', hstop', hsegment⟩ := hsegment.stands
      have hstop : segment.byteRange?.map (·.2) = some stop' :=
        (Grounded.startOf_stands hctx hsegment).2
      obtain ⟨_, ⟨⟩, hlast, hentries⟩ := hsegment
      obtain ⟨_, _, hfirst, -⟩ := id htarget
      have hplaced : ctx.covering (accessNode access target segment) (some start) (some stop') =
          placed ctx (accessNode access target segment) (some start) (some stop') :=
        covering_eq_placed rfl rfl _ _
      simp only [hstop, hplaced]
      refine ih (Grounded.placed_stands hctx hbase hfirst.first hlast.last ?_)
        (hsegments.mono hstop' (Nat.le_refl _)) hkept
      refine ⟨stop, htarget.laid (Nat.le_refl _) (Nat.le_refl _), ?_⟩
      rw [hfields access haccess]
      exact hentries.mono hstart' (Nat.le_refl _)

end Nested

section Captured

variable {P : Node → Nat → Nat → Prop} {Q : Node → Prop} {a b : Nat} {v : Value} {vs : List Value}

/-- Values of which each is captured from something are captured from a list. -/
theorem captured_all {α : Type} {f : α → Value} {R : α → Prop}
    (h : ∀ v ∈ vs, ∃ x, v = f x ∧ R x) : ∃ xs : List α, vs = xs.map f ∧ ∀ x ∈ xs, R x := by
  induction vs with
  | nil => exact ⟨[], rfl, by simp⟩
  | cons v vs ih =>
    obtain ⟨⟨x, rfl, hx⟩, hvs⟩ := List.forall_mem_cons.1 h
    obtain ⟨xs, rfl, hxs⟩ := ih hvs
    exact ⟨x :: xs, rfl, List.forall_mem_cons.2 ⟨hx, hxs⟩⟩

theorem step_captured (h : Fold.stepForm.Has Q v) :
    ∃ step : Value × Value, v = captureStep step ∧ ∃ n, step.2 = .node n := by
  obtain ⟨⟨es⟩, rfl, operator, _, hes, -, operand, _, rfl, ⟨-, n, rfl⟩, rfl⟩ := h
  obtain rfl : es = _ := hes
  exact ⟨(operator, .node n), rfl, n, rfl⟩

theorem operand_captured (h : (Form.either shorthandForm fullForm).Has Q v) :
    ∃ branch : Branch, v = branch.operand ∧ ∃ n, branch.parts.2 = .node n := by
  obtain ⟨⟨name, ⟨es⟩, bounds, extent⟩, rfl, rfl, _, _, hes, ⟨-, n, rfl⟩, rfl⟩ |
    ⟨⟨name, ⟨es⟩, bounds, extent⟩, rfl, rfl, consequent, _, hes, -, _, _, rfl, ⟨-, n, rfl⟩,
      rfl⟩ := h
  · obtain rfl : es = _ := hes
    exact ⟨⟨none, .node n, bounds, extent⟩, rfl, n, rfl⟩
  · obtain rfl : es = _ := hes
    exact ⟨⟨some consequent, .node n, bounds, extent⟩, rfl, n, rfl⟩

theorem clause_captured (h : elseIfForm.Has Q v) : ∃ c : ElseIf, v = .node c.node ∧ True := by
  obtain ⟨⟨name, ⟨es⟩, bounds, extent⟩, rfl, -, condition, _, hes, -, consequent, _, rfl, -,
    rfl⟩ := h
  obtain rfl : es = _ := hes
  exact ⟨⟨name, condition, consequent, bounds, extent⟩, rfl, trivial⟩

theorem inTurn_laid {steps : List (Value × Value)} (h : AllLaid P (steps.map captureStep) a b) :
    AllLaid P (inTurn steps) a b := by
  induction steps generalizing a with
  | nil => exact h
  | cons step steps ih =>
    obtain ⟨c, ⟨d, hoperator, e, hoperand, hle⟩, hsteps⟩ := h
    exact ⟨d, hoperator, e, hoperand, (ih hsteps).mono hle (Nat.le_refl _)⟩

theorem parts_laid {branches : List Branch} (h : AllLaid P (branches.map Branch.operand) a b) :
    AllLaid P (inTurn (branches.map Branch.parts)) a b := by
  induction branches generalizing a with
  | nil => exact h
  | cons branch branches ih =>
    obtain ⟨consequent, alternate, bounds, extent⟩ := branch
    obtain ⟨c, hbranch, hbranches⟩ := h
    have hrest := ih hbranches
    cases consequent with
    | some consequent =>
      obtain ⟨start, stop, hstart, hstop, -, d, hconsequent, e, halternate, hle⟩ := hbranch
      exact ⟨d, hconsequent.mono hstart (Nat.le_refl _), e, halternate,
        hrest.mono (hle.trans hstop) (Nat.le_refl _)⟩
    | none =>
      obtain ⟨start, stop, hstart, hstop, -, e, halternate, hle⟩ := hbranch
      exact ⟨start, hstart, e, halternate, hrest.mono (hle.trans hstop) (Nat.le_refl _)⟩

/-- What is looked up for each key in turn are the fields, if no key occurs twice. -/
theorem lookup_keys {es : List (String × Value)} (h : (es.map (·.1)).Nodup) :
    (es.map (·.1)).map (fun key => (key, (es.lookup key).getD .null)) = es := by
  induction es with
  | nil => rfl
  | cons e es ih =>
    obtain ⟨key, v⟩ := e
    rw [List.map_cons, List.nodup_cons] at h
    rw [List.map_cons, List.map_cons, List.lookup_cons_self, Option.getD_some]
    congr 1
    refine Eq.trans (List.map_congr_left fun other hother => ?_) (ih h.2)
    have hne : (other == key) = false := by
      rw [beq_eq_false_iff_ne]
      rintro rfl
      exact h.1 hother
    rw [List.lookup_cons, hne]

theorem keepsFields_of_form {kind : String} {keys : List String} {n : Node} (hkeys : keys.Nodup)
    (hkept : (access? kind).all (·.kept == keys) = true) (hname : n.name = kind)
    (hn : Form.HasEntries Q (treeFields keys) n.fields.entries) : KeepsFields n := by
  intro access haccess
  rw [hname] at haccess
  rw [haccess, Option.all_some, beq_iff_eq] at hkept
  have hmap : n.fields.entries.map (·.1) = keys := by
    rw [← Form.NamedRel.keys ((Form.hasEntries_iff Q).1 hn), treeFields, List.map_map]
    exact List.map_id _
  rw [hkept, ← hmap]
  exact lookup_keys (hmap ▸ hkeys)

theorem nodes_sublist (vs : List Value) : ((vs.filterMap asNode?).map .node).Sublist vs := by
  induction vs with
  | nil => exact .slnil
  | cons v vs ih =>
    rw [List.filterMap_cons]
    cases v with
    | node n => exact ih.cons_cons (.node n)
    | _ => exact ih.cons _

/-- A single member. -/
theorem segment_laid {kind : String} {keys : List String}
    (hkind : kind ≠ "IndexMembers" ∧ kind ≠ "PropertyMembers") (hkeys : keys.Nodup)
    (hkept : (access? kind).all (·.kept == keys) = true)
    (hv : (Form.stem kind (treeFields keys)).Has Q v) (h : v.Laid P a b) :
    AllLaid P ((segments v).map .node) a b ∧ ∀ s ∈ segments v, KeepsFields s := by
  obtain ⟨n, rfl, rfl, hn⟩ := hv
  simp only [segments, beq_iff_eq, hkind.1, hkind.2, if_false, List.forall_mem_singleton,
    List.map_cons, List.map_nil]
  exact ⟨allLaid_singleton.2 h, keepsFields_of_form hkeys hkept rfl hn⟩

/-- Several members that come as one. -/
theorem group_laid {kind : String} {keys : List String} (hkeys : keys.Nodup)
    (hkept : (access? kind).all (·.kept == keys) = true)
    (hvs : ∀ v ∈ vs, (Form.stem kind (treeFields keys)).Has Q v) (h : AllLaid P vs a b) :
    AllLaid P ((vs.filterMap asNode?).map .node) a b ∧
      ∀ s ∈ vs.filterMap asNode?, KeepsFields s := by
  refine ⟨h.sublist (nodes_sublist vs), fun s hs => ?_⟩
  obtain ⟨v, hv, hs⟩ := List.mem_filterMap.1 hs
  obtain ⟨n, rfl, hname, hn⟩ := hvs v hv
  obtain rfl := Option.some.inj hs
  exact keepsFields_of_form hkeys hkept hname hn

theorem segments_laid (hv : memberForm.Has Q v) (h : v.Laid P a b) :
    AllLaid P ((segments v).map .node) a b ∧ ∀ s ∈ segments v, KeepsFields s := by
  obtain ⟨f, hf, hmember⟩ := Form.has_anyOf.1 hv
  simp only [memberForms, List.map_cons, List.map_nil, List.mem_cons, List.not_mem_nil,
    or_false] at hf
  obtain rfl | rfl | rfl | rfl | rfl | rfl | rfl | rfl | rfl | rfl | rfl | rfl := hf
  case inl =>
    obtain ⟨⟨name, ⟨es⟩, bounds, extent⟩, rfl, rfl, _, _, hes, ⟨indices, rfl, hindices⟩,
      rfl⟩ := hmember
    obtain rfl : es = _ := hes
    obtain ⟨start, stop, hstart, hstop, -, c, hlaid, hle⟩ := h
    exact group_laid (by decide) rfl hindices (hlaid.mono hstart (hle.trans hstop))
  case inr.inl =>
    obtain ⟨⟨name, ⟨es⟩, bounds, extent⟩, rfl, rfl, _, _, hes, ⟨properties, rfl, hproperties⟩,
      rfl⟩ := hmember
    obtain rfl : es = _ := hes
    obtain ⟨start, stop, hstart, hstop, -, c, hlaid, hle⟩ := h
    exact group_laid (by decide) rfl hproperties (hlaid.mono hstart (hle.trans hstop))
  all_goals exact segment_laid (by decide) (by decide) rfl hmember h

theorem members_laid (hvs : ∀ v ∈ vs, memberForm.Has Q v) (h : AllLaid P vs a b) :
    AllLaid P ((vs.flatMap segments).map .node) a b ∧
      ∀ s ∈ vs.flatMap segments, KeepsFields s := by
  induction vs generalizing a with
  | nil => exact ⟨h, by simp⟩
  | cons v vs ih =>
    obtain ⟨hv, hvs⟩ := List.forall_mem_cons.1 hvs
    obtain ⟨c, hlaid, h⟩ := h
    obtain ⟨hsegments, hkept⟩ := segments_laid hv hlaid
    obtain ⟨hrest, hkept'⟩ := ih hvs h
    rw [List.flatMap_cons, List.map_append, allLaid_append]
    exact ⟨⟨c, hsegments, hrest⟩, List.forall_mem_append.2 ⟨hkept, hkept'⟩⟩

end Captured

section Processors

variable {source : Text} {ctx : Context} (hctx : Grounded source ctx) {Q : Node → Prop}
  {tag : String} {u w : Value} (hdraft : ctx.Drafts source u)

include hctx hdraft

theorem foldBinary_drafts (hu : (Fold.binary.input tag).Has Q u) (h : foldBinary u ctx = .ok w) :
    ctx.Drafts source w := by
  obtain ⟨⟨name, ⟨es⟩, bounds, extent⟩, rfl, -, left, _, hes, ⟨-, n, rfl⟩, _, _, rfl,
    ⟨steps, rfl, hsteps⟩, rfl⟩ := hu
  obtain rfl : es = _ := hes
  obtain ⟨steps, rfl, hnodes⟩ := captured_all fun v hv => step_captured (hsteps v hv)
  obtain ⟨c, hleft, d, hright, hle⟩ := hdraft.entries
  obtain ⟨start, stop, hstart, hstop, hleft⟩ := hleft.stands
  obtain ⟨v, hv, hnested⟩ := foldBinary_nests ctx name bounds extent (.node n) steps
  obtain rfl : v = w := Except.ok.inj (hv.symm.trans h)
  obtain ⟨last, hlast, hstands⟩ := LeftNested.stands hctx hnodes hnested hleft
    ((Nat.le_add_left _ _).trans hstart) ((inTurn_laid hright).mono hstop hle)
  exact .inl (hstands.laid hstart hlast)

omit hdraft in
/-- A chain that is nested to the right, up to the end of its last part. -/
theorem rightNested_drafts {make : Value → Value → Value → Node}
    (hmake : ∀ first between next, (make first between next).fields.entries.map (·.2) =
      [first, between, next]) {n : Node} {steps : List (Value × Value)} {c : Nat}
    (hnodes : ∀ step ∈ steps, ∃ n, step.2 = .node n)
    (hnested : RightNested ctx make (stopOf (lastOf (.node n) steps)) (.node n) steps w)
    (hfirst : (Value.node n).Laid (Spans source ctx.options) ctx.absoluteSpan.start c)
    (hsteps : AllLaid (Spans source ctx.options) (inTurn steps) c ctx.absoluteSpan.stop) :
    ctx.Drafts source w := by
  obtain ⟨start, stop, hstart, hstop, hfirst⟩ := hfirst.stands
  obtain ⟨start', last, hlast, hstands, hsteps⟩ := lastOf_stands hnodes hfirst
    (hsteps.mono hstop (Nat.le_refl _))
  have hboundary : source.Boundary last := by
    obtain ⟨_, -, hplace, -⟩ := id hstands
    exact hplace.last
  exact .inl ((RightNested.laid hctx hnodes hmake hnested (Grounded.startOf_stands hctx hstands).2
    hboundary hfirst ((Nat.le_add_left _ _).trans hstart) hsteps).mono hstart hlast)

theorem foldBinaryRight_drafts (hu : (Fold.binaryRight.input tag).Has Q u)
    (h : foldBinaryRight u ctx = .ok w) : ctx.Drafts source w := by
  obtain ⟨⟨name, ⟨es⟩, bounds, extent⟩, rfl, -, left, _, hes, ⟨-, n, rfl⟩, _, _, rfl,
    ⟨steps, rfl, hsteps⟩, rfl⟩ := hu
  obtain rfl : es = _ := hes
  obtain ⟨steps, rfl, hnodes⟩ := captured_all fun v hv => step_captured (hsteps v hv)
  obtain ⟨c, hleft, d, hright, hle⟩ := hdraft.entries
  obtain ⟨v, hv, hnested⟩ := foldBinaryRight_nests ctx name bounds extent (.node n) steps
  obtain rfl : v = w := Except.ok.inj (hv.symm.trans h)
  exact rightNested_drafts hctx (fun _ _ _ => rfl) hnodes hnested hleft
    ((inTurn_laid hright).mono (Nat.le_refl _) hle)

theorem foldTernary_drafts (hu : (Fold.ternary.input tag).Has Q u)
    (h : foldTernary u ctx = .ok w) : ctx.Drafts source w := by
  obtain ⟨⟨name, ⟨es⟩, bounds, extent⟩, rfl, -, condition, _, hes, ⟨-, n, rfl⟩, _, _, rfl,
    ⟨operands, rfl, hoperands⟩, rfl⟩ := hu
  obtain rfl : es = _ := hes
  obtain ⟨branches, rfl, hnodes⟩ := captured_all fun v hv => operand_captured (hoperands v hv)
  obtain ⟨c, hcondition, d, hbranches, hle⟩ := hdraft.entries
  obtain ⟨v, hv, hnested⟩ := foldTernary_nests ctx name bounds extent (.node n) branches
  obtain rfl : v = w := Except.ok.inj (hv.symm.trans h)
  exact rightNested_drafts hctx (fun _ _ _ => rfl) (List.forall_mem_map.2 hnodes) hnested
    hcondition ((parts_laid hbranches).mono (Nat.le_refl _) hle)

theorem foldMembers_drafts (hu : (Fold.members.input tag).Has Q u)
    (h : foldMembers u ctx = .ok w) : ctx.Drafts source w := by
  obtain ⟨⟨name, ⟨es⟩, bounds, extent⟩, rfl, -, root, _, hes, ⟨-, n, rfl⟩, _, _, rfl,
    ⟨members, rfl, hmembers⟩, rfl⟩ := hu
  obtain rfl : es = _ := hes
  obtain ⟨c, hroot, d, hlaid, hle⟩ := hdraft.entries
  obtain ⟨start, stop, hstart, hstop, hroot⟩ := hroot.stands
  obtain ⟨hsegments, hkept⟩ := members_laid hmembers hlaid
  have hfolded : nestMembers ctx (startOf (.node n)) (.node n) (members.flatMap segments) = w :=
    Except.ok.inj h
  rw [(Grounded.startOf_stands hctx hroot).1] at hfolded
  rw [← hfolded]
  exact .inl ((nestMembers_laid hctx hroot ((Nat.le_add_left _ _).trans hstart)
    (hsegments.mono hstop (Nat.le_refl _)) hkept).mono hstart hle)

omit hdraft in
theorem elseIfs_laid {alternate v : Value} {clauses : List ElseIf} {a b c : Nat}
    (halternate : alternate = .null ∨ ∃ n, alternate = .node n)
    (hnested : ElseIfNested ctx (stopOfIf clauses alternate) alternate clauses v)
    (hbase : ctx.input.base ≤ a)
    (hclauses : AllLaid (Spans source ctx.options) (clauses.map fun c => .node c.node) a b)
    (hlaid : alternate.Laid (Spans source ctx.options) b c) :
    v.Laid (Spans source ctx.options) a c := by
  obtain rfl | ⟨n, rfl⟩ := halternate
  · obtain rfl | ⟨init, clause, rfl⟩ := clauses.eq_nil_or_concat'
    · cases hnested
      exact hclauses.le.trans hlaid.le
    · rw [List.map_append] at hclauses
      obtain ⟨start, last, hlast, hstands, hclauses⟩ := hclauses.last
      have hedge : stopOfIf (init ++ [clause]) .null = some last := by
        simpa [stopOfIf, stopOf, Value.byteRange?] using (Grounded.startOf_stands hctx hstands).2
      obtain ⟨_, -, hplace, -⟩ := hstands
      have hclauses : AllLaid (Spans source ctx.options)
          ((init ++ [clause]).map fun c => .node c.node) a last := by
        rw [List.map_append]
        exact hclauses
      exact (ElseIfNested.laid hctx hnested hedge hplace.last hbase hclauses
        (Nat.le_refl last)).mono (Nat.le_refl _) (hlast.trans hlaid.le)
  · obtain ⟨start, last, hstart, hlast, hstands⟩ := hlaid.stands
    have hedge : stopOfIf clauses (.node n) = some last := by
      rw [stopOfIf, (Grounded.startOf_stands hctx hstands).2, Option.some_or]
    have hboundary : source.Boundary last := by
      obtain ⟨_, -, hplace, -⟩ := id hstands
      exact hplace.last
    exact (ElseIfNested.laid hctx hnested hedge hboundary hbase hclauses
      (hstands.laid hstart (Nat.le_refl _))).mono (Nat.le_refl _) hlast

omit hdraft in
theorem captureIf_drafts {bounds : Option Bounds} {extent : Option Extent}
    {condition consequent : Value} {clauses : List ElseIf} (alternate : Option Value)
    (halternate : alternate.getD .null = .null ∨ ∃ n, alternate.getD .null = .node n)
    (hdraft : ctx.Drafts source
      (.node ⟨tag, captureIf condition consequent clauses alternate, bounds, extent⟩))
    (h : foldIf (.node ⟨tag, captureIf condition consequent clauses alternate, bounds, extent⟩)
      ctx = .ok w) : ctx.Drafts source w := by
  obtain ⟨v, hv, hnested⟩ :=
    foldIf_nests ctx tag bounds extent condition consequent clauses alternate
  obtain rfl := Except.ok.inj (hv.symm.trans h)
  refine hdraft.refit rfl rfl fun start stop hstart hentries => ?_
  obtain ⟨c, hcondition, d, hconsequent, e, hclauses, hrest⟩ := hentries
  have hlaid : (alternate.getD .null).Laid (Spans source ctx.options) e stop := by
    cases alternate with
    | none => exact hrest
    | some v =>
      obtain ⟨f, hv, hle⟩ := hrest
      exact hv.mono (Nat.le_refl _) hle
  have hbase : ctx.input.base ≤ d :=
    (Nat.le_add_left _ _).trans (hstart.trans (hcondition.le.trans hconsequent.le))
  exact ⟨c, hcondition, d, hconsequent, stop,
    elseIfs_laid hctx halternate hnested hbase hclauses hlaid, Nat.le_refl _⟩

theorem foldIf_drafts (hu : (Fold.branches.input tag).Has Q u) (h : foldIf u ctx = .ok w) :
    ctx.Drafts source w := by
  obtain ⟨⟨name, ⟨es⟩, bounds, extent⟩, rfl, rfl, condition, _, hes, -, consequent, _, rfl, -, _, _,
    rfl, ⟨clauses, rfl, hclauses⟩, rfl⟩ | ⟨⟨name, ⟨es⟩, bounds, extent⟩, rfl, rfl, condition, _,
    hes, -, consequent, _, rfl, -, _, _, rfl, ⟨clauses, rfl, hclauses⟩, alternate, _, rfl,
    ⟨-, n, rfl⟩, rfl⟩ := hu
  all_goals
    obtain rfl : es = _ := hes
    obtain ⟨clauses, rfl, -⟩ := captured_all fun v hv => clause_captured (hclauses v hv)
  · exact captureIf_drafts hctx none (.inl rfl) hdraft h
  · exact captureIf_drafts hctx (some (.node n)) (.inr ⟨n, rfl⟩) hdraft h

theorem nonEmptyParts_drafts (hu : (Fold.parts.input tag).Has Q u)
    (h : nonEmptyParts u ctx = .ok w) : ctx.Drafts source w := by
  obtain ⟨parts, rfl, -⟩ := hu
  cases parts with
  | nil =>
    obtain rfl := Except.ok.inj h
    have hplaced : ctx.covering (stringLiteral "") none none =
        placed ctx (stringLiteral "") (some ctx.absoluteSpan.start) (some ctx.absoluteSpan.stop) := by
      rw [covering_eq_placed rfl rfl]
      rfl
    rw [hplaced]
    have hboundaries := hctx.boundaries
    refine .inl (allLaid_singleton.2 ((Grounded.placed_stands hctx (Nat.le_add_left _ _)
      hboundaries.1 hboundaries.2 ?_).laid (Nat.le_refl _) (Nat.le_refl _)))
    exact ⟨_, hdraft.le, Nat.le_refl _⟩
  | cons part parts =>
    obtain rfl := Except.ok.inj h
    exact hdraft

omit hctx in
theorem checkHaltCompiler_drafts (hu : (Fold.halt.input tag).Has Q u)
    (h : checkHaltCompiler u ctx = .ok w) : ctx.Drafts source w := by
  obtain ⟨⟨name, ⟨es⟩, bounds, extent⟩, rfl, rfl, call, _, hes, hcall, data, _, rfl, hdata,
    rfl⟩ := hu
  obtain rfl : es = _ := hes
  simp only [checkHaltCompiler] at h
  split at h
  · obtain rfl := Except.ok.inj h
    refine hdraft.refit rfl rfl fun _ _ _ hentries => ?_
    obtain ⟨c, hcall, hdata⟩ := hentries
    exact hdata.mono hcall.le (Nat.le_refl _)
  · cases h

omit hctx in
theorem checkTry_drafts (hu : (Fold.handler.input tag).Has Q u) (h : checkTry u ctx = .ok w) :
    ctx.Drafts source w := by
  obtain ⟨n, rfl, -⟩ := hu
  obtain ⟨rfl, -⟩ := checkTry_handled h
  exact hdraft

omit hctx hdraft in
theorem stringOfParts_drafts (h : ctx.Lays source v) :
    ctx.Drafts source (.node (stringOfParts v.toList)) := by
  have hparts : EntriesLaid (Spans source ctx.options) [("parts", .list v.toList)]
      ctx.absoluteSpan.start ctx.absoluteSpan.stop :=
    ⟨_, h.toList, Nat.le_refl _⟩
  unfold stringOfParts
  split
  · split
    · exact .inr ⟨_, rfl, rfl, _, h.le, Nat.le_refl _⟩
    · exact .inr ⟨_, rfl, rfl, hparts⟩
  · exact .inr ⟨_, rfl, rfl, hparts⟩

omit hctx hdraft in
/-- A string in double quotes is laid out, if the parts that are found in it are. -/
theorem interpolateDoubleQuoted_drafts {n : Node} (hdraft : ctx.Drafts source (.node n))
    (hparts : ∀ v, ctx.reparse "StringParts" ((n.text? "string").getD "") (ctx.span.start + 1) =
      .ok (some v) → ctx.Lays source v)
    (h : interpolateDoubleQuoted (.node n) ctx = .ok w) : ctx.Drafts source w := by
  obtain ⟨found, hfound, h⟩ := bind_ok h
  cases found with
  | none =>
    obtain rfl := Except.ok.inj h
    exact hdraft
  | some v =>
    obtain rfl := Except.ok.inj h
    exact stringOfParts_drafts (hparts v hfound)

omit hctx hdraft in
theorem interpolateHeredoc_drafts {n : Node} (hdraft : ctx.Drafts source (.node n))
    (hparts : ∀ v, ctx.reparse "HeredocParts" ((n.text? "body").getD "")
      (ctx.span.start + headerLength ctx.text) = .ok (some v) → ctx.Lays source v)
    (h : interpolateHeredoc (.node n) ctx = .ok w) : ctx.Drafts source w := by
  obtain ⟨found, hfound, h⟩ := bind_ok h
  cases found with
  | none =>
    obtain rfl := Except.ok.inj h
    exact hdraft
  | some v =>
    obtain rfl := Except.ok.inj h
    exact .inr ⟨_, rfl, rfl, _, hparts v hfound, Nat.le_refl _⟩

/-- What becomes of captures that are laid out over a match, where nothing is parsed again. -/
theorem Fold.drafts {f : Fold} (hf : f ∉ [.program, .doubleQuoted, .heredoc])
    (hu : (f.input tag).Has Q u) (h : f.processor u ctx = .ok w) : ctx.Drafts source w := by
  cases f with
  | binary => exact foldBinary_drafts hctx hdraft hu h
  | binaryRight => exact foldBinaryRight_drafts hctx hdraft hu h
  | ternary => exact foldTernary_drafts hctx hdraft hu h
  | branches => exact foldIf_drafts hctx hdraft hu h
  | members => exact foldMembers_drafts hctx hdraft hu h
  | parts => exact nonEmptyParts_drafts hctx hdraft hu h
  | halt => exact checkHaltCompiler_drafts hdraft hu h
  | nestedHalt => cases h
  | handler => exact checkTry_drafts hdraft hu h
  | program | doubleQuoted | heredoc => simp at hf

end Processors

end PhpSyntax.Php
