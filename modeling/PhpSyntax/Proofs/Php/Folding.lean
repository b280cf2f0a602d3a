import PhpSyntax.Php.Fold

namespace PhpSyntax.Php

open Peg

section Trees

/-- A node over offsets of the source, with the places that the options ask for. An edge that is
missing is that of the match; no edge lies in front of the input, and none in front of the start. -/
def placed (ctx : Context) (n : Node) (start stop : Option Nat) : Node :=
  let first := max (start.getD ctx.absoluteSpan.start) ctx.input.base
  let last := max (stop.getD ctx.absoluteSpan.stop) first
  { n with
    bounds := if ctx.options.captureBounds then some (ctx.lines.bounds ⟨first, last⟩) else none
    extent := if ctx.options.captureOffsets then some (ctx.lines.extent ⟨first, last⟩) else none }

/-- A binary expression for each step of an operator and an operand, nested to the left. -/
inductive LeftNested (ctx : Context) (left : Value) : List (Value × Value) → Value → Prop where
  | operand : LeftNested ctx left [] left
  | step {steps : List (Value × Value)} {v : Value} (operator operand : Value) :
      LeftNested ctx left steps v →
      LeftNested ctx left (steps ++ [(operator, operand)])
        (.node (placed ctx (binaryExpression v operator operand) (startOf left) (stopOf operand)))

/-- A node for each part that has others behind it, nested to the right: what `make` makes of the
part, of what stands between it and the next, and of the nodes behind it. -/
inductive RightNested (ctx : Context) (make : Value → Value → Value → Node) (stop : Option Nat) :
    Value → List (Value × Value) → Value → Prop where
  | last (v : Value) : RightNested ctx make stop v [] v
  | step {next v : Value} {rest : List (Value × Value)} (first between : Value) :
      RightNested ctx make stop next rest v →
      RightNested ctx make stop first ((between, next) :: rest)
        (.node (placed ctx (make first between v) (startOf first) stop))

def ternary (condition consequent alternate : Value) : Node :=
  .ofEntries "Ternary" [("condition", condition), ("consequent", consequent),
    ("alternate", alternate)]

def ifElse (condition consequent alternate : Value) : Node :=
  .ofEntries "If" [("condition", condition), ("consequent", consequent), ("alternate", alternate)]

/-- What follows the condition of a ternary: a consequent, unless it is left out, and an alternate,
with the place of both. -/
structure Branch where
  consequent : Option Value
  alternate : Value
  bounds : Option Bounds
  extent : Option Extent

/-- A branch as it is captured. -/
def Branch.operand (b : Branch) : Value :=
  match b.consequent with
  | some consequent => .node ⟨"FullOperand",
      ⟨[("consequent", consequent), ("alternate", b.alternate)]⟩, b.bounds, b.extent⟩
  | none => .node ⟨"ShorthandOperand", ⟨[("shorthand", b.alternate)]⟩, b.bounds, b.extent⟩

/-- The consequent, null if it is left out, and the alternate. -/
def Branch.parts (b : Branch) : Value × Value :=
  (b.consequent.getD .null, b.alternate)

/-- An elseif clause. -/
structure ElseIf where
  tag : String
  condition : Value
  consequent : Value
  bounds : Option Bounds
  extent : Option Extent

def ElseIf.node (c : ElseIf) : Node :=
  ⟨c.tag, ⟨[("condition", c.condition), ("consequent", c.consequent)]⟩, c.bounds, c.extent⟩

/-- An if for each clause, each in the alternate of the one before. -/
inductive ElseIfNested (ctx : Context) (stop : Option Nat) (alternate : Value) :
    List ElseIf → Value → Prop where
  | alternate : ElseIfNested ctx stop alternate [] alternate
  | clause {v : Value} {rest : List ElseIf} (c : ElseIf) :
      ElseIfNested ctx stop alternate rest v →
      ElseIfNested ctx stop alternate (c :: rest)
        (.node (placed ctx (ifElse c.condition c.consequent v) (startOf (.node c.node)) stop))

end Trees

section Captures

/-- An operator and an operand as they are captured. -/
def captureStep (step : Value × Value) : Value :=
  .record ⟨[("operator", step.1), ("operand", step.2)]⟩

def captureChain (left : Value) (steps : List (Value × Value)) : Captures :=
  ⟨[("left", left), ("right", .list (steps.map captureStep))]⟩

def captureTernary (condition : Value) (branches : List Branch) : Captures :=
  ⟨[("condition", condition), ("operands", .list (branches.map Branch.operand))]⟩

/-- The captures of an if; there need be no alternate. -/
def captureIf (condition consequent : Value) (clauses : List ElseIf) (alternate : Option Value) :
    Captures :=
  ⟨[("condition", condition), ("consequent", consequent),
    ("elseifs", .list (clauses.map fun c => .node c.node))] ++
    alternate.toList.map fun v => ("alternate", v)⟩

def lastOf (left : Value) (steps : List (Value × Value)) : Value :=
  (steps.getLast?.map (·.2)).getD left

end Captures

section Readings

/-- Operands and operators from left to right, of a tree of so many operators nested to the left. -/
def readLeft : Nat → Value → List Value
  | 0, v => [v]
  | n + 1, v => readLeft n (fieldOf v "left") ++ [fieldOf v "operator", fieldOf v "right"]

/-- Two fields of each of so many nodes that are nested in a third, and what the last holds there. -/
def readRight (first between nested : String) : Nat → Value → List Value
  | 0, v => [v]
  | n + 1, v => fieldOf v first :: fieldOf v between ::
      readRight first between nested n (fieldOf v nested)

def inTurn (steps : List (Value × Value)) : List Value :=
  steps.flatMap fun step => [step.1, step.2]

end Readings

variable {ctx : Context}

theorem covering_eq_placed {n : Node} (hbounds : n.bounds = none) (hextent : n.extent = none)
    (start stop : Option Nat) : ctx.covering n start stop = placed ctx n start stop := by
  have hfirst : ∀ a : Nat, a - ctx.input.base + ctx.input.base = max a ctx.input.base := by omega
  have hlast : ∀ a b : Nat, max (b - ctx.input.base) (a - ctx.input.base) + ctx.input.base =
      max b (max a ctx.input.base) := by omega
  obtain ⟨name, fields, bounds, extent⟩ := n
  obtain rfl : bounds = none := hbounds
  obtain rfl : extent = none := hextent
  by_cases hon : ctx.options.instruments
  · simp only [Context.covering, hon, if_true, Input.instrument, Span.shift, hfirst, hlast, placed]
  · have hboth : ctx.options.captureBounds = false ∧ ctx.options.captureOffsets = false := by
      simpa [Options.instruments] using hon
    simp [Context.covering, hon, placed, hboth]

/-- Where the edges lie in the source, the start in front of the end, a node reaches from one to the
other. -/
theorem placed_byteRange (n : Node) {start stop : Option Nat} {first last : Nat}
    (hon : ctx.options.instruments = true) (hfirst : start.getD ctx.absoluteSpan.start = first)
    (hlast : stop.getD ctx.absoluteSpan.stop = last) (hbase : ctx.input.base ≤ first)
    (horder : first ≤ last) (hsize : last ≤ ctx.lines.source.size) :
    (placed ctx n start stop).byteRange? = some (first, last) := by
  have hlow : max first ctx.input.base = first := by omega
  have hhigh : max last first = last := by omega
  simp only [placed, hfirst, hlast, hlow, hhigh, NodeOf.byteRange?]
  by_cases hbounds : ctx.options.captureBounds
  · simp only [hbounds, if_true, Lines.bounds, Lines.position]
    congr 2 <;> omega
  · have hoffsets : ctx.options.captureOffsets = true := by
      simpa [Options.instruments, hbounds] using hon
    simp only [hbounds, if_false, hoffsets, if_true, Option.map_some, Lines.extent, Lines.position,
      Extent.stop, Span.length, Bool.false_eq_true]
    congr 2 <;> omega

section Nesting

/-- Steps behind some that are nested already. -/
theorem nestLeft_nested {left v : Value} {done : List (Value × Value)}
    (h : LeftNested ctx left done v) (steps : List (Value × Value)) :
    LeftNested ctx left (done ++ steps)
      (nestLeft ctx (startOf left) v (steps.map captureStep)) := by
  induction steps generalizing done v with
  | nil =>
    rw [List.append_nil]
    exact h
  | cons step steps ih =>
    obtain ⟨operator, operand⟩ := step
    have hstep := LeftNested.step operator operand h
    rw [← covering_eq_placed rfl rfl] at hstep
    rw [List.append_cons]
    exact ih hstep

theorem nestRight_nested (stop : Option Nat) (left : Value) (steps : List (Value × Value)) :
    RightNested ctx binaryExpression stop left steps
      (nestRight ctx stop left (steps.map captureStep)) := by
  induction steps generalizing left with
  | nil => exact .last left
  | cons step steps ih =>
    obtain ⟨operator, operand⟩ := step
    have hstep := RightNested.step left operator (ih operand)
    rw [← covering_eq_placed rfl rfl] at hstep
    exact hstep

theorem nestTernary_nested (stop : Option Nat) (condition : Value)
    (branches : List (Value × Value)) :
    RightNested ctx ternary stop condition branches
      (nestTernary ctx stop condition branches) := by
  induction branches generalizing condition with
  | nil => exact .last condition
  | cons branch branches ih =>
    obtain ⟨consequent, next⟩ := branch
    have hstep := RightNested.step condition consequent (ih next)
    rw [← covering_eq_placed rfl rfl] at hstep
    exact hstep

theorem nestElseIfs_nested (stop : Option Nat) (alternate : Value) (clauses : List ElseIf) :
    ElseIfNested ctx stop alternate clauses
      (nestElseIfs ctx stop alternate (clauses.map ElseIf.node)) := by
  induction clauses with
  | nil => exact .alternate
  | cons c clauses ih =>
    have hclause := ElseIfNested.clause c ih
    rw [← covering_eq_placed rfl rfl] at hclause
    exact hclause

theorem LeftNested.read {left v : Value} {steps : List (Value × Value)}
    (h : LeftNested ctx left steps v) : readLeft steps.length v = left :: inTurn steps := by
  induction h with
  | operand => rfl
  | @step steps v operator operand _ ih =>
    rw [List.length_append]
    show readLeft steps.length v ++ [operator, operand] = _
    rw [ih, inTurn, inTurn, List.flatMap_append]
    rfl

/-- Trees nested to the right are read back, if nodes are read as they are made. -/
theorem RightNested.read {make : Value → Value → Value → Node} {first between nested : String}
    {stop : Option Nat}
    (hmake : ∀ a b c n, n.fields = (make a b c).fields → fieldOf (.node n) first = a ∧
      fieldOf (.node n) between = b ∧ fieldOf (.node n) nested = c)
    {v head : Value} {steps : List (Value × Value)} (h : RightNested ctx make stop head steps v) :
    readRight first between nested steps.length v = head :: inTurn steps := by
  induction h with
  | last v => rfl
  | @step next v rest head middle _ ih =>
    obtain ⟨hfirst, hbetween, hnested⟩ := hmake head middle v
      (placed ctx (make head middle v) (startOf head) stop) rfl
    simp only [List.length_cons, readRight, hfirst, hbetween, hnested, ih]
    rfl

theorem ElseIfNested.read {stop : Option Nat} {alternate v : Value} {clauses : List ElseIf}
    (h : ElseIfNested ctx stop alternate clauses v) :
    readRight "condition" "consequent" "alternate" clauses.length v =
      clauses.flatMap (fun c => [c.condition, c.consequent]) ++ [alternate] := by
  induction h with
  | alternate => rfl
  | @clause v rest c _ ih =>
    show c.condition :: c.consequent ::
      readRight "condition" "consequent" "alternate" rest.length v = _
    rw [ih]
    rfl

end Nesting

section Processors

/-- Where a chain ends, as it is looked up in the captures. -/
theorem getLast?_captured (left : Value) (steps : List (Value × Value)) :
    (match (steps.map captureStep).getLast? with
      | some step => fieldOf step "operand"
      | none => left) = lastOf left steps := by
  rw [List.getLast?_map, lastOf]
  cases steps.getLast? <;> rfl

theorem branch?_operand (b : Branch) : branch? b.operand = some b.parts := by
  obtain ⟨consequent, alternate, bounds, extent⟩ := b
  cases consequent <;> rfl

theorem branches_captured (branches : List Branch) :
    (branches.map Branch.operand).filterMap branch? = branches.map Branch.parts := by
  induction branches with
  | nil => rfl
  | cons b branches ih => rw [List.map_cons, List.filterMap_cons, branch?_operand, ih, List.map_cons]

theorem clauses_captured (clauses : List ElseIf) :
    (clauses.map fun c => Value.node c.node).filterMap Value.asNode? =
      clauses.map ElseIf.node := by
  induction clauses with
  | nil => rfl
  | cons c clauses ih =>
    rw [List.map_cons, List.filterMap_cons, ih]
    rfl

variable (ctx) (tag : String) (bounds : Option Bounds) (extent : Option Extent)

theorem foldBinary_nests (left : Value) (steps : List (Value × Value)) :
    ∃ v, foldBinary (.node ⟨tag, captureChain left steps, bounds, extent⟩) ctx = .ok v ∧
      LeftNested ctx left steps v :=
  ⟨_, rfl, nestLeft_nested .operand steps⟩

theorem foldBinaryRight_nests (left : Value) (steps : List (Value × Value)) :
    ∃ v, foldBinaryRight (.node ⟨tag, captureChain left steps, bounds, extent⟩) ctx = .ok v ∧
      RightNested ctx binaryExpression (stopOf (lastOf left steps)) left steps v := by
  refine ⟨_, rfl, ?_⟩
  have hnested : RightNested ctx binaryExpression (stopOf (lastOf left steps)) left steps _ :=
    nestRight_nested (stopOf (lastOf left steps)) left steps
  rw [← getLast?_captured] at hnested ⊢
  exact hnested

theorem foldTernary_nests (condition : Value) (branches : List Branch) :
    ∃ v, foldTernary (.node ⟨tag, captureTernary condition branches, bounds, extent⟩) ctx = .ok v ∧
      RightNested ctx ternary (stopOf (lastOf condition (branches.map Branch.parts))) condition
        (branches.map Branch.parts) v := by
  have hcondition : fieldOf (.node ⟨tag, captureTernary condition branches, bounds, extent⟩)
      "condition" = condition := rfl
  have hparts : (fieldOf (.node ⟨tag, captureTernary condition branches, bounds, extent⟩)
      "operands").toList.filterMap branch? = branches.map Branch.parts :=
    branches_captured branches
  have hfolded : foldTernary (.node ⟨tag, captureTernary condition branches, bounds, extent⟩) ctx =
      .ok (nestTernary ctx (stopOf (lastOf condition (branches.map Branch.parts))) condition
        (branches.map Branch.parts)) := by
    simp only [foldTernary, hparts, hcondition, lastOf]
    cases (branches.map Branch.parts).getLast? <;> rfl
  exact ⟨_, hfolded, nestTernary_nested _ condition (branches.map Branch.parts)⟩

/-- The end of an if with clauses: that of its alternate, or else that of its last clause. -/
def stopOfIf (clauses : List ElseIf) (alternate : Value) : Option Nat :=
  (stopOf alternate).or (clauses.getLast?.bind fun c => stopOf (.node c.node))

theorem foldIf_nests (condition consequent : Value) (clauses : List ElseIf)
    (alternate : Option Value) :
    ∃ v, foldIf (.node ⟨tag, captureIf condition consequent clauses alternate, bounds, extent⟩)
        ctx = .ok (.node { ifElse condition consequent v with
          name := tag, bounds := bounds, extent := extent }) ∧
      ElseIfNested ctx (stopOfIf clauses (alternate.getD .null)) (alternate.getD .null) clauses
        v := by
  have hnested : ElseIfNested ctx (stopOfIf clauses (alternate.getD .null))
      (alternate.getD .null) clauses _ :=
    nestElseIfs_nested (stopOfIf clauses (alternate.getD .null)) (alternate.getD .null) clauses
  have hstop : (stopOf (alternate.getD .null)).or
      ((clauses.map fun c => Value.node c.node).getLast?.bind stopOf) =
        stopOfIf clauses (alternate.getD .null) := by
    rw [List.getLast?_map, stopOfIf]
    cases clauses.getLast? <;> rfl
  refine ⟨_, ?_, hnested⟩
  rw [← hstop, ← clauses_captured]
  cases alternate <;> rfl

end Processors

/-- The processors that nest flat captures only rearrange them, however many parts there are. Chains
of operators nest to the left or to the right, ternaries and elseif clauses each in the alternate of
the one before; the parts are read back in their order. Each new node is placed from its first part
to its last, and reaches from the start of the one to the end of the other where these lie in the
source in that order; where one knows no place, the edge of the match stands for it. -/
theorem folds_rearrange (ctx : Context) (tag : String) (bounds : Option Bounds)
    (extent : Option Extent) :
    (∀ left steps, ∃ v,
      foldBinary (.node ⟨tag, captureChain left steps, bounds, extent⟩) ctx = .ok v ∧
      LeftNested ctx left steps v ∧ readLeft steps.length v = left :: inTurn steps) ∧
    (∀ left steps, ∃ v,
      foldBinaryRight (.node ⟨tag, captureChain left steps, bounds, extent⟩) ctx = .ok v ∧
      RightNested ctx binaryExpression (stopOf (lastOf left steps)) left steps v ∧
      readRight "left" "operator" "right" steps.length v = left :: inTurn steps) ∧
    (∀ condition branches, ∃ v,
      foldTernary (.node ⟨tag, captureTernary condition branches, bounds, extent⟩) ctx = .ok v ∧
      RightNested ctx ternary (stopOf (lastOf condition (branches.map Branch.parts))) condition
        (branches.map Branch.parts) v ∧
      readRight "condition" "consequent" "alternate" branches.length v =
        condition :: inTurn (branches.map Branch.parts)) ∧
    (∀ condition consequent clauses alternate, ∃ v,
      foldIf (.node ⟨tag, captureIf condition consequent clauses alternate, bounds, extent⟩) ctx =
        .ok (.node { ifElse condition consequent v with
          name := tag, bounds := bounds, extent := extent }) ∧
      ElseIfNested ctx (stopOfIf clauses (alternate.getD .null)) (alternate.getD .null) clauses v ∧
      readRight "condition" "consequent" "alternate" clauses.length v =
        clauses.flatMap (fun c => [c.condition, c.consequent]) ++ [alternate.getD .null]) ∧
    ∀ n start stop first last, ctx.options.instruments = true →
      start.getD ctx.absoluteSpan.start = first → stop.getD ctx.absoluteSpan.stop = last →
      ctx.input.base ≤ first → first ≤ last → last ≤ ctx.lines.source.size →
      (placed ctx n start stop).byteRange? = some (first, last) := by
  refine ⟨fun left steps => ?_, fun left steps => ?_, fun condition branches => ?_,
    fun condition consequent clauses alternate => ?_, ?_⟩
  · obtain ⟨v, hv, hnested⟩ := foldBinary_nests ctx tag bounds extent left steps
    exact ⟨v, hv, hnested, hnested.read⟩
  · obtain ⟨v, hv, hnested⟩ := foldBinaryRight_nests ctx tag bounds extent left steps
    refine ⟨v, hv, hnested, hnested.read fun a b c n hn => ?_⟩
    simp only [fieldOf, fieldsOf, hn]
    exact ⟨rfl, rfl, rfl⟩
  · obtain ⟨v, hv, hnested⟩ := foldTernary_nests ctx tag bounds extent condition branches
    refine ⟨v, hv, hnested, ?_⟩
    rw [← List.length_map Branch.parts]
    refine hnested.read fun a b c n hn => ?_
    simp only [fieldOf, fieldsOf, hn]
    exact ⟨rfl, rfl, rfl⟩
  · obtain ⟨v, hv, hnested⟩ :=
      foldIf_nests ctx tag bounds extent condition consequent clauses alternate
    exact ⟨v, hv, hnested, hnested.read⟩
  · intro n start stop first last hon hfirst hlast hbase horder hsize
    exact placed_byteRange n hon hfirst hlast hbase horder hsize

/-- A sum whose right operand knows no place reaches to the end of the match. -/
theorem folds_rearrange_sum :
    let source := Text.ofString "$a + f"
    let ctx : Context := ⟨⟨0, 6⟩, ⟨source, 0⟩, .ofText source, ⟨true, true⟩, fun _ _ _ => .ok none⟩
    let left : Value := .node ⟨"Variable", .empty, some ((Lines.ofText source).bounds ⟨0, 2⟩), none⟩
    let sum := binaryExpression left (.text "+") (.text "f")
    ctx.options.instruments = true ∧ (startOf left).getD 6 = 0 ∧ (stopOf (.text "f")).getD 6 = 6 ∧
    (placed ctx sum (startOf left) (stopOf (.text "f"))).byteRange? = some (0, 6) := by
  intro source ctx left sum
  have hstart : (startOf left).getD 6 = 0 := rfl
  have hsize : 6 ≤ ctx.lines.source.size := by decide
  obtain ⟨-, -, -, -, hplaced⟩ := folds_rearrange ctx "AdditiveLevel" none none
  exact ⟨rfl, hstart, rfl, hplaced sum (startOf left) (stopOf (.text "f")) 0 6 rfl rfl rfl
    (Nat.zero_le 0) (Nat.zero_le 6) hsize⟩

end PhpSyntax.Php
