import PhpSyntax.Proofs.Peg.Form
import PhpSyntax.Proofs.Php.Locating

namespace PhpSyntax.Php

open Peg

section Table

def treeFields (keys : List String) : List (String × Form) :=
  keys.map (·, .tree)

def indexForm : Form :=
  .stem "IndexSegment" (treeFields ["index"])

def propertyForm : Form :=
  .stem "PropertySegment" (treeFields ["property"])

/-- The members that stand behind a root, by the rules that capture them. -/
def memberForms : List (String × Form) :=
  [("IndexMembers", .stem "IndexMembers" [("indices", .list indexForm)]),
    ("PropertyMembers", .stem "PropertyMembers" [("properties", .list propertyForm)]),
    ("MethodMember", .stem "MethodMember" (treeFields ["method", "args"])),
    ("StaticMethodMember", .stem "StaticMethodMember" (treeFields ["method", "args"])),
    ("StaticPropertyMember", .stem "StaticPropertyMember" (treeFields ["property"])),
    ("ClassConstantMember", .stem "ClassConstantMember" (treeFields ["constant"])),
    ("CallMember", .stem "CallMember" (treeFields ["args"])),
    ("IndexSegment", indexForm), ("PropertySegment", propertyForm), ("BracedIndex", indexForm),
    ("InterpolatedIndex", indexForm), ("InterpolatedProperty", propertyForm)]

def memberForm : Form :=
  .anyOf (memberForms.map (·.2))

def shorthandForm : Form :=
  .stem "ShorthandOperand" [("shorthand", .branch)]

def fullForm : Form :=
  .stem "FullOperand" [("consequent", .tree), ("alternate", .branch)]

def elseIfForm : Form :=
  .stem "ElseIf" (treeFields ["condition", "consequent"])

def haltForm : Form :=
  .stem "HaltCompiler" (treeFields ["data"])

def topForm : Form :=
  .either .tree haltForm

def programForm : Form :=
  .stem "Program" [("statements", .list topForm)]

/-- The rules that yield a finished tree which need be no node. -/
def nodeless : List (String × Form) :=
  ["Terminator", "AssignmentOperator", "ReservedWord", "Identifier", "Name", "Modifier", "UseAlias",
    "Extends"].map (·, .leaf) ++
  treeFields ["ParameterList", "Implements", "InterfaceExtends", "TraitRules", "MemberName",
    "ArgumentList", "ClosureUse", "ExitStatus", "StringParts", "HeredocParts"]

/-- The rules that yield something other than a finished tree. -/
def unfinished : List (String × Form) :=
  memberForms ++ [("Member", memberForm), ("ShorthandOperand", shorthandForm),
    ("FullOperand", fullForm), ("TernaryOperand", .either shorthandForm fullForm),
    ("ElseIf", elseIfForm), ("ColonElseIf", elseIfForm), ("HaltCompiler", haltForm),
    ("TopStatement", topForm), ("Program", programForm)]

def ruleForm (name : String) : Form :=
  ((unfinished ++ nodeless).lookup name).getD .branch

theorem ruleForm_parts : ∀ name ∈ ["StringParts", "HeredocParts"], ruleForm name = .tree := by
  simp only [List.forall_mem_cons]
  exact ⟨rfl, rfl, by simp⟩

/-- The tags of nodes that no finished tree has. -/
def descriptors : List String :=
  ["FullOperand", "ShorthandOperand", "IndexMembers", "IndexSegment", "PropertyMembers",
    "PropertySegment", "MethodMember", "StaticMethodMember", "StaticPropertyMember",
    "ClassConstantMember", "CallMember", "ElseIf"]

/-- The tags of nodes of which more is known than what fields they have. -/
def distinguished : List String :=
  ["HaltCompiler", "Program", "Try", "Variable"]

def fixedKeys : List (String × List String) :=
  [("BinaryExpression", ["left", "operator", "right"]),
    ("Ternary", ["condition", "consequent", "alternate"])]

/-- The tags of nodes that have a field called as the tag is in a written tree. -/
def named : List String :=
  ["Namespace", "UseClause"]

/-- Whether a node of a finished tree may have a tag and fields of some names. -/
def lawful (tag : String) (keys : List String) : Bool :=
  !(descriptors ++ distinguished).contains tag && (fixedKeys.lookup tag).all (· == keys) &&
    decide keys.Nodup && !keys.contains "bounds" && !keys.contains "offset" &&
    (!keys.contains "name" || named.contains tag)

/-- What the processors of the language do. -/
inductive Fold where
  | binary | binaryRight | ternary | branches | members | parts | program | halt | nestedHalt
  | handler | doubleQuoted | heredoc
  deriving DecidableEq

namespace Fold

def processor : Fold → Processor
  | binary => foldBinary
  | binaryRight => foldBinaryRight
  | ternary => foldTernary
  | branches => foldIf
  | members => foldMembers
  | parts => nonEmptyParts
  | program => assembleProgram
  | halt => checkHaltCompiler
  | nestedHalt => rejectNestedHaltCompiler
  | handler => checkTry
  | doubleQuoted => interpolateDoubleQuoted
  | heredoc => interpolateHeredoc

def stepForm : Form :=
  .record [("operator", .leaf), ("operand", .branch)]

/-- What a processor works on, in a rule whose nodes have a tag. -/
def input (tag : String) : Fold → Form
  | binary | binaryRight => .stem tag [("left", .branch), ("right", .list stepForm)]
  | ternary =>
    .stem tag [("condition", .branch), ("operands", .list (.either shorthandForm fullForm))]
  | branches =>
    .either (.stem "If" (treeFields ["condition", "consequent"] ++ [("elseifs", .list elseIfForm)]))
      (.stem "If" (treeFields ["condition", "consequent"] ++
        [("elseifs", .list elseIfForm), ("alternate", .branch)]))
  | members => .stem tag [("root", .branch), ("members", .list memberForm)]
  | parts => .list .tree
  | program => .stem "Program" [("leading", .tree), ("statements", .list topForm)]
  | halt => .stem "HaltCompiler" [("call", .leaf), ("data", .tree)]
  | nestedHalt => .leaf
  | handler => .stem "Try" [("body", .tree), ("catches", .list .tree), ("finally", .tree)]
  | doubleQuoted => .stem "StringLiteral" [("string", .leaf)]
  | heredoc => .stem "Heredoc" [("body", .leaf)]

/-- What a processor yields. -/
def output : Fold → Form
  | program => programForm
  | halt => haltForm
  | nestedHalt => .nothing
  | parts => .tree
  | _ => .branch

end Fold

/-- The rules that have a processor, and which it is. -/
def foldRules : List (RuleDef × Fold) :=
  [(program, .program), (haltCompiler, .halt), (nestedHaltCompiler, .nestedHalt),
    (braceIf, .branches), (colonIf, .branches), (tryStatement, .handler),
    (logicalOrLevel, .binary), (logicalXorLevel, .binary), (logicalAndLevel, .binary),
    (assignableTarget, .members), (ternaryLevel, .ternary), (coalesceLevel, .binaryRight),
    (booleanOrLevel, .binary), (booleanAndLevel, .binary), (bitwiseOrLevel, .binary),
    (bitwiseXorLevel, .binary), (bitwiseAndLevel, .binary), (equalityLevel, .binary),
    (relationalLevel, .binary), (shiftLevel, .binary), (additiveLevel, .binary),
    (multiplicativeLevel, .binary), (powerLevel, .binary), (postfixLevel, .members),
    (classVariable, .members), (doubleQuotedString, .doubleQuoted), (heredoc, .heredoc),
    (stringParts, .parts), (heredocParts, .parts), (bracedVariableIndex, .members),
    (simpleInterpolation, .members)]

set_option maxRecDepth 20000 in
theorem rules_folds : (rules.filterMap fun d => d.processor.map (d, ·)) =
    foldRules.map fun r => (r.1, r.2.processor) :=
  rfl

def variableRules : List String :=
  ["Variable", "BracedVariableName", "BracedName"]

theorem ruleForm_variable : ∀ name ∈ variableRules, ruleForm name = .branch := by
  simp only [variableRules, List.forall_mem_cons]
  exact ⟨rfl, rfl, rfl, by simp⟩

/-- A variable, of which more is known than its form. -/
def variableForm : Form :=
  .stem "Variable" [("variable", .leaf)]

-- Evaluated in turn.
mutual

/-- What rules set aside, and what they yield without a processor, has the form that it should. -/
theorem rules_formed :
    (rules.all fun d => (RuleDef.aside ruleForm d).fits lawful (ruleForm d.name) &&
      if variableRules.contains d.name then d.processor.isNone &&
        (RuleDef.aside ruleForm d).fits lawful .nothing &&
        (RuleDef.before ruleForm d).fits lawful variableForm
      else d.processor.isSome ||
        (RuleDef.before ruleForm d).fits lawful (ruleForm d.name)) = true := by
  decide +kernel

/-- What processors are given and what they yield has the forms that it should. -/
theorem folds_formed :
    (foldRules.all fun r => (RuleDef.before ruleForm r.1).fits lawful (r.2.input r.1.tag) &&
      r.2.output.fits lawful (ruleForm r.1.name)) = true := by
  decide +kernel

end

end Table

section Fields

variable {P : Node → Prop}

theorem hasEntries_trees {keys : List String} {vs : List (String × Value)}
    (h : Form.HasEntries P (treeFields keys) vs) : ∀ e ∈ vs, e.2.Finished P := by
  induction keys generalizing vs with
  | nil =>
    obtain rfl : vs = [] := h
    simp
  | cons key keys ih =>
    obtain ⟨v, rest, rfl, hv, hrest⟩ := h
    exact List.forall_mem_cons.2 ⟨hv, ih hrest⟩

theorem fieldOf_finished {v : Value} (h : ∀ e ∈ (fieldsOf v).entries, e.2.Finished P)
    (key : String) : (fieldOf v key).Finished P := by
  rw [fieldOf, Fields.get?]
  cases hkey : (fieldsOf v).entries.lookup key with
  | none => trivial
  | some w =>
    obtain ⟨front, rest, hsplit, -⟩ := List.lookup_eq_some_iff.1 hkey
    exact h (key, w) (hsplit ▸ List.mem_append_right front (List.mem_cons_self ..))

theorem stepForm_fields {v : Value} (h : Fold.stepForm.Has P v) :
    (fieldOf v "operator").Finished P ∧ Form.branch.Has P (fieldOf v "operand") := by
  obtain ⟨⟨es⟩, rfl, operator, _, hes, hoperator, operand, _, rfl, hoperand, rfl⟩ := h
  obtain rfl : es = _ := hes
  exact ⟨hoperator.finished, hoperand⟩

end Fields

section Folds

variable {P : Node → Prop} (hlawful : Form.Allows P lawful)

include hlawful

theorem covering_finished {n : Node} (hkeys : lawful n.name n.fields.keys = true)
    (hfields : ∀ e ∈ n.fields.entries, e.2.Finished P) (ctx : Context) (start stop : Option Nat) :
    (Value.node (ctx.covering n start stop)).Finished P := by
  have hname : (ctx.covering n start stop).name = n.name := by
    simp only [Context.covering]
    split <;> rfl
  have hsame : (ctx.covering n start stop).fields = n.fields := by
    simp only [Context.covering]
    split <;> rfl
  rw [← hname, ← hsame] at hkeys
  rw [← hsame] at hfields
  exact Value.finished_node.2 ⟨hlawful _ hkeys hfields, hfields⟩

theorem nestLeft_branch (ctx : Context) (start : Option Nat) {left : Value}
    (hleft : Form.branch.Has P left) {steps : List Value}
    (hsteps : ∀ step ∈ steps, Fold.stepForm.Has P step) :
    Form.branch.Has P (nestLeft ctx start left steps) := by
  induction steps generalizing left with
  | nil => exact hleft
  | cons step steps ih =>
    obtain ⟨hstep, hsteps⟩ := List.forall_mem_cons.1 hsteps
    obtain ⟨hoperator, hoperand⟩ := stepForm_fields hstep
    refine ih ⟨covering_finished hlawful rfl ?_ ctx _ _, _, rfl⟩ hsteps
    simp only [binaryExpression, NodeOf.ofEntries, NodeOf.ofFields, List.forall_mem_cons]
    exact ⟨hleft.1, hoperator, hoperand.1, by simp⟩

theorem nestRight_branch (ctx : Context) (stop : Option Nat) {left : Value}
    (hleft : Form.branch.Has P left) {steps : List Value}
    (hsteps : ∀ step ∈ steps, Fold.stepForm.Has P step) :
    Form.branch.Has P (nestRight ctx stop left steps) := by
  induction steps generalizing left with
  | nil => exact hleft
  | cons step steps ih =>
    obtain ⟨hstep, hsteps⟩ := List.forall_mem_cons.1 hsteps
    obtain ⟨hoperator, hoperand⟩ := stepForm_fields hstep
    refine ⟨covering_finished hlawful rfl ?_ ctx _ _, _, rfl⟩
    simp only [binaryExpression, NodeOf.ofEntries, NodeOf.ofFields, List.forall_mem_cons]
    exact ⟨hleft.1, hoperator, (ih hoperand hsteps).1, by simp⟩

theorem nestTernary_branch (ctx : Context) (stop : Option Nat) {condition : Value}
    (hcondition : Form.branch.Has P condition) {branches : List (Value × Value)}
    (hbranches : ∀ b ∈ branches, b.1.Finished P ∧ Form.branch.Has P b.2) :
    Form.branch.Has P (nestTernary ctx stop condition branches) := by
  induction branches generalizing condition with
  | nil => exact hcondition
  | cons branch branches ih =>
    obtain ⟨hbranch, hbranches⟩ := List.forall_mem_cons.1 hbranches
    refine ⟨covering_finished hlawful rfl ?_ ctx _ _, _, rfl⟩
    simp only [NodeOf.ofEntries, NodeOf.ofFields, List.forall_mem_cons]
    exact ⟨hcondition.1, hbranch.1, (ih hbranch.2 hbranches).1, by simp⟩

theorem nestElseIfs_finished (ctx : Context) (stop : Option Nat) {alternate : Value}
    (halternate : alternate.Finished P) {clauses : List Node}
    (hclauses : ∀ c ∈ clauses, ∀ e ∈ c.fields.entries, e.2.Finished P) :
    (nestElseIfs ctx stop alternate clauses).Finished P := by
  induction clauses with
  | nil => exact halternate
  | cons clause clauses ih =>
    obtain ⟨hclause, hclauses⟩ := List.forall_mem_cons.1 hclauses
    refine covering_finished hlawful rfl ?_ ctx _ _
    simp only [NodeOf.ofEntries, NodeOf.ofFields, List.forall_mem_cons]
    exact ⟨fieldOf_finished (v := .node clause) hclause _,
      fieldOf_finished (v := .node clause) hclause _, ih hclauses, by simp⟩

omit hlawful in
theorem access?_lawful {tag : String} {a : Access} (h : access? tag = some a) :
    lawful a.kind (a.target :: a.kept) = true := by
  unfold access? at h
  split at h
  case h_8 => cases h
  all_goals
    obtain rfl := Option.some.inj h
    rfl

theorem nestMembers_branch (ctx : Context) (start : Option Nat) {target : Value}
    (htarget : Form.branch.Has P target) {segments : List Node}
    (hsegments : ∀ s ∈ segments, ∀ e ∈ s.fields.entries, e.2.Finished P) :
    Form.branch.Has P (nestMembers ctx start target segments) := by
  induction segments generalizing target with
  | nil => exact htarget
  | cons segment segments ih =>
    obtain ⟨hsegment, hsegments⟩ := List.forall_mem_cons.1 hsegments
    simp only [nestMembers]
    cases ha : access? segment.name with
    | none => exact ih htarget hsegments
    | some a =>
      refine ih ⟨covering_finished hlawful ?_ ?_ ctx _ _, _, rfl⟩ hsegments
      · rw [← access?_lawful ha]
        simp [accessNode, NodeOf.ofEntries, NodeOf.ofFields, Fields.keys, Function.comp_def]
      · simp only [accessNode, NodeOf.ofEntries, NodeOf.ofFields, List.forall_mem_cons,
          List.forall_mem_map]
        exact ⟨htarget.1, fun key _ => fieldOf_finished (v := .node segment) hsegment key⟩

end Folds

/-- Something catches what is thrown, or finishes the statement. -/
def Handled (n : Node) : Prop :=
  (∃ c cs, n.get? "catches" = some (.list (c :: cs))) ∨ ∃ v, n.get? "finally" = some v ∧ v ≠ .null

theorem checkTry_handled {n : Node} {ctx : Context} {w : Value}
    (h : checkTry (.node n) ctx = .ok w) : w = .node n ∧ Handled n := by
  simp only [checkTry] at h
  split at h
  case isFalse => cases h
  rename_i hhandled
  refine ⟨(Except.ok.inj h).symm, ?_⟩
  rw [Bool.or_eq_true] at hhandled
  refine hhandled.imp (fun hcatches => ?_) fun hfinishes => ?_
  · simp only [NodeOf.list?] at hcatches
    cases hget : n.get? "catches" with
    | none => simp [hget] at hcatches
    | some v =>
      cases v with
      | list vs =>
        cases vs with
        | nil => simp [hget, Value.asList?] at hcatches
        | cons c cs => exact ⟨c, cs, rfl⟩
      | _ => simp [hget, Value.asList?] at hcatches
  · cases hget : n.get? "finally" with
    | none => simp [hget, Value.isNull] at hfinishes
    | some v =>
      refine ⟨v, rfl, ?_⟩
      rintro rfl
      simp [hget, Value.isNull] at hfinishes

/-- A property of nodes that those have which the rules of the language make, variables apart. -/
structure Lawful (P : Node → Prop) : Prop where
  allows : Form.Allows P lawful
  handled : ∀ n : Node, n.name = "Try" → n.fields.keys = ["body", "catches", "finally"] →
    Handled n → (∀ e ∈ n.fields.entries, e.2.Finished P) → P n
  placed : ∀ n : Node, P n → n.isInstrumented = false → ∀ bounds extent,
    P { n with bounds := bounds, extent := extent }

theorem rules_plain {d : RuleDef} (hd : d ∈ rules) : ∀ sc ∈ d.pattern.scanners, sc.Plain := by
  intro sc hsc
  have hmem : sc ∈ rules.flatMap (·.pattern.scanners) := List.mem_flatMap.2 ⟨d, hd, hsc⟩
  have hdoc : ∀ name kind, Scanner.Plain ⟨name, scanDoc kind⟩ := by
    intro name kind cs n v h
    obtain ⟨_, _, _, _, _, _, _, rfl, _⟩ := scanDoc_some h
    trivial
  have hrun : ∀ name set, Scanner.Plain ⟨name, scanLiteralRun set⟩ := by
    intro name set cs n v h
    simp only [scanLiteralRun] at h
    split at h
    · cases h
    · obtain rfl := (Prod.mk.inj (Option.some.inj h)).2
      trivial
  have hmarkup : markupScanner.Plain := by
    rintro cs n v ⟨⟩
    trivial
  have hrest : restScanner.Plain := by
    rintro cs n v ⟨⟩
    trivial
  have hall : ∀ sc ∈ [markupScanner, restScanner, markupScanner, heredocScanner, nowdocScanner,
      doubleQuotedTextScanner, heredocTextScanner], sc.Plain := by
    simp only [List.forall_mem_cons]
    exact ⟨hmarkup, hrest, hmarkup, hdoc _ _, hdoc _ _, hrun _ _, hrun _ _, by simp⟩
  rw [rules_scanners] at hmem
  exact hall sc hmem

/-- What the pattern of a rule yields, if what rules yield has the forms it should. -/
theorem pattern_has {d : RuleDef} (hd : d ∈ rules) {skipped : Option Lexeme} {text : Text}
    {calls : Calls} {P : Node → Prop} (hcalls : ∀ r trivia offset m, calls r trivia offset m →
      (ruleForm r).Has P m.value) {trivia : Bool} {offset : Nat} {m : Matched}
    (hm : Matches skipped text calls d.pattern trivia offset m) :
    (PatternDef.form ruleForm d.pattern).Has P m.value :=
  Matches.form hcalls d.pattern (rules_plain hd) hm

section Processors

variable {P : Node → Prop} (hP : Lawful P) {tag : String} {ctx : Context} {u w : Value}

include hP

theorem foldBinary_branch (hu : (Fold.binary.input tag).Has P u)
    (h : foldBinary u ctx = .ok w) : Form.branch.Has P w := by
  obtain ⟨⟨name, ⟨es⟩, bounds, extent⟩, rfl, -, left, _, hes, hleft, _, _, rfl, ⟨steps, rfl, hsteps⟩,
    rfl⟩ := hu
  obtain rfl : es = _ := hes
  obtain rfl := Except.ok.inj h
  exact nestLeft_branch hP.allows ctx _ hleft hsteps

theorem foldBinaryRight_branch (hu : (Fold.binaryRight.input tag).Has P u)
    (h : foldBinaryRight u ctx = .ok w) : Form.branch.Has P w := by
  obtain ⟨⟨name, ⟨es⟩, bounds, extent⟩, rfl, -, left, _, hes, hleft, _, _, rfl, ⟨steps, rfl, hsteps⟩,
    rfl⟩ := hu
  obtain rfl : es = _ := hes
  obtain rfl := Except.ok.inj h
  exact nestRight_branch hP.allows ctx _ hleft hsteps

omit hP in
theorem branch?_finished {v : Value} (hv : (Form.either shorthandForm fullForm).Has P v)
    {branch : Value × Value} (h : branch? v = some branch) :
    branch.1.Finished P ∧ Form.branch.Has P branch.2 := by
  obtain ⟨⟨name, ⟨es⟩, bounds, extent⟩, rfl, rfl, shorthand, _, hes, hshorthand, rfl⟩ |
    ⟨⟨name, ⟨es⟩, bounds, extent⟩, rfl, rfl, consequent, _, hes, hconsequent, alternate, _, rfl,
      halternate, rfl⟩ := hv
  · obtain rfl : es = _ := hes
    obtain rfl := Option.some.inj h
    exact ⟨trivial, hshorthand⟩
  · obtain rfl : es = _ := hes
    obtain rfl := Option.some.inj h
    exact ⟨hconsequent, halternate⟩

theorem foldTernary_branch (hu : (Fold.ternary.input tag).Has P u)
    (h : foldTernary u ctx = .ok w) : Form.branch.Has P w := by
  obtain ⟨⟨name, ⟨es⟩, bounds, extent⟩, rfl, -, condition, _, hes, hcondition, _, _, rfl,
    ⟨operands, rfl, hoperands⟩, rfl⟩ := hu
  obtain rfl : es = _ := hes
  obtain rfl := Except.ok.inj h
  refine nestTernary_branch hP.allows ctx _ hcondition fun branch hbranch => ?_
  obtain ⟨v, hv, hbranch⟩ := List.mem_filterMap.1 hbranch
  exact branch?_finished (hoperands v hv) hbranch

omit hP in
/-- A single member. -/
theorem segment_finished {v : Value} {kind : String} {keys : List String}
    (hkind : kind ≠ "IndexMembers" ∧ kind ≠ "PropertyMembers")
    (hv : (Form.stem kind (treeFields keys)).Has P v) :
    ∀ s ∈ segments v, ∀ e ∈ s.fields.entries, e.2.Finished P := by
  obtain ⟨n, rfl, rfl, hn⟩ := hv
  simp only [segments, beq_iff_eq, hkind.1, hkind.2, if_false, List.forall_mem_singleton]
  exact hasEntries_trees hn

omit hP in
theorem group_finished {vs : List Value} {kind : String} {keys : List String}
    (hvs : ∀ v ∈ vs, (Form.stem kind (treeFields keys)).Has P v) :
    ∀ s ∈ vs.filterMap Value.asNode?, ∀ e ∈ s.fields.entries, e.2.Finished P := by
  intro s hs
  obtain ⟨v, hv, hs⟩ := List.mem_filterMap.1 hs
  obtain ⟨n, rfl, -, hn⟩ := hvs v hv
  obtain rfl := Option.some.inj hs
  exact hasEntries_trees hn

omit hP in
theorem segments_finished {v : Value} (hv : memberForm.Has P v) :
    ∀ s ∈ segments v, ∀ e ∈ s.fields.entries, e.2.Finished P := by
  obtain ⟨f, hf, hmember⟩ := Form.has_anyOf.1 hv
  simp only [memberForms, List.map_cons, List.map_nil, List.mem_cons, List.not_mem_nil,
    or_false] at hf
  obtain rfl | rfl | rfl | rfl | rfl | rfl | rfl | rfl | rfl | rfl | rfl | rfl := hf
  case inl =>
    obtain ⟨⟨name, ⟨es⟩, bounds, extent⟩, rfl, rfl, _, _, hes, ⟨indices, rfl, hindices⟩,
      rfl⟩ := hmember
    obtain rfl : es = _ := hes
    exact group_finished hindices
  case inr.inl =>
    obtain ⟨⟨name, ⟨es⟩, bounds, extent⟩, rfl, rfl, _, _, hes, ⟨properties, rfl, hproperties⟩,
      rfl⟩ := hmember
    obtain rfl : es = _ := hes
    exact group_finished hproperties
  all_goals exact segment_finished (by decide) hmember

theorem foldMembers_branch (hu : (Fold.members.input tag).Has P u)
    (h : foldMembers u ctx = .ok w) : Form.branch.Has P w := by
  obtain ⟨⟨name, ⟨es⟩, bounds, extent⟩, rfl, -, root, _, hes, hroot, _, _, rfl,
    ⟨members, rfl, hmembers⟩, rfl⟩ := hu
  obtain rfl : es = _ := hes
  obtain rfl := Except.ok.inj h
  refine nestMembers_branch hP.allows ctx _ hroot fun s hs => ?_
  obtain ⟨v, hv, hs⟩ := List.mem_flatMap.1 hs
  exact segments_finished (hmembers v hv) s hs

theorem foldIf_branch (hu : (Fold.branches.input tag).Has P u)
    (h : foldIf u ctx = .ok w) : Form.branch.Has P w := by
  have hchain : ∀ {bounds extent} {condition consequent alternate : Value} {clauses : List Value}
      (stop : Option Nat), condition.Finished P → consequent.Finished P → alternate.Finished P →
      (∀ v ∈ clauses, elseIfForm.Has P v) →
      (Value.node ⟨"If", ⟨[("condition", condition), ("consequent", consequent), ("alternate",
        nestElseIfs ctx stop alternate (clauses.filterMap Value.asNode?))]⟩, bounds,
        extent⟩).Finished P := by
    intro bounds extent condition consequent alternate clauses stop hcondition hconsequent
      halternate hclauses
    have hentries := nestElseIfs_finished hP.allows ctx stop halternate (group_finished hclauses)
    have hentries : ∀ e ∈ [("condition", condition), ("consequent", consequent), ("alternate",
        nestElseIfs ctx stop alternate (clauses.filterMap Value.asNode?))], e.2.Finished P := by
      simp only [List.forall_mem_cons]
      exact ⟨hcondition, hconsequent, hentries, by simp⟩
    exact Value.finished_node.2 ⟨hP.allows _ rfl hentries, hentries⟩
  obtain ⟨⟨name, ⟨es⟩, bounds, extent⟩, rfl, rfl, condition, _, hes, hcondition, consequent, _, rfl,
    hconsequent, _, _, rfl, ⟨clauses, rfl, hclauses⟩, hrest⟩ | ⟨⟨name, ⟨es⟩, bounds, extent⟩, rfl,
    rfl, condition, _, hes, hcondition, consequent, _, rfl, hconsequent, _, _, rfl,
    ⟨clauses, rfl, hclauses⟩, alternate, _, rfl, halternate, hrest⟩ := hu
  all_goals
    obtain rfl := hrest
    obtain rfl : es = _ := hes
    obtain rfl := Except.ok.inj h
  · exact ⟨hchain _ hcondition hconsequent trivial hclauses, _, rfl⟩
  · exact ⟨hchain _ hcondition hconsequent halternate.1 hclauses, _, rfl⟩

theorem nonEmptyParts_finished (hu : (Fold.parts.input tag).Has P u)
    (h : nonEmptyParts u ctx = .ok w) : w.Finished P := by
  obtain ⟨parts, rfl, hparts⟩ := hu
  cases parts with
  | nil =>
    obtain rfl := Except.ok.inj h
    refine Value.finished_list.2 fun v hv => ?_
    obtain rfl := List.mem_singleton.1 hv
    exact covering_finished hP.allows rfl (by simp [stringLiteral, NodeOf.ofEntries,
      NodeOf.ofFields, Value.Finished]) ctx _ _
  | cons part parts =>
    obtain rfl := Except.ok.inj h
    exact Value.finished_list.2 hparts

omit hP in
theorem assembleProgram_has (hu : (Fold.program.input tag).Has P u)
    (h : assembleProgram u ctx = .ok w) : programForm.Has P w := by
  obtain ⟨⟨name, ⟨es⟩, bounds, extent⟩, rfl, rfl, leading, _, hes, hleading, _, _, rfl,
    ⟨statements, rfl, hstatements⟩, rfl⟩ := hu
  obtain rfl : es = _ := hes
  obtain rfl := Except.ok.inj h
  refine ⟨_, rfl, rfl, _, [], rfl, ⟨_, rfl, fun v hv => ?_⟩, rfl⟩
  obtain rfl | hv := List.mem_cons.1 (List.mem_of_mem_filter hv)
  · exact .inl hleading
  · exact hstatements v hv

omit hP in
theorem checkHaltCompiler_has (hu : (Fold.halt.input tag).Has P u)
    (h : checkHaltCompiler u ctx = .ok w) : haltForm.Has P w := by
  obtain ⟨⟨name, ⟨es⟩, bounds, extent⟩, rfl, rfl, call, _, hes, hcall, data, _, rfl, hdata,
    rfl⟩ := hu
  obtain rfl : es = _ := hes
  simp only [checkHaltCompiler] at h
  split at h
  · obtain rfl := Except.ok.inj h
    exact ⟨_, rfl, rfl, data, [], rfl, hdata, rfl⟩
  · cases h

theorem checkTry_branch (hu : (Fold.handler.input tag).Has P u)
    (h : checkTry u ctx = .ok w) : Form.branch.Has P w := by
  obtain ⟨n, rfl, hname, hn⟩ := hu
  obtain ⟨rfl, hhandled⟩ := checkTry_handled h
  have hkeys := (Form.NamedRel.keys ((Form.hasEntries_iff P).1 hn)).symm
  have hentries : ∀ e ∈ n.fields.entries, e.2.Finished P := by
    obtain ⟨body, _, hes, hbody, _, _, rfl, ⟨catches, rfl, hcatches⟩, finishes, _, rfl, hfinishes,
      rfl⟩ := hn
    rw [hes]
    simp only [List.forall_mem_cons]
    exact ⟨hbody, Value.finished_list.2 hcatches, hfinishes, by simp⟩
  exact ⟨Value.finished_node.2 ⟨hP.handled n hname hkeys hhandled hentries, hentries⟩, n, rfl⟩

/-- The nested parses of a match find finished trees. -/
def Asks (P : Node → Prop) (ctx : Context) : Prop :=
  ∀ name ∈ ["StringParts", "HeredocParts"], ∀ text offset v,
    ctx.reparse name text offset = .ok (some v) → v.Finished P

omit hP in
/-- Only texts that stand where they are parsed matter. -/
theorem Asks.of_located {input : Input}
    {reparse : String → String → Nat → Except Failure (Option Value)}
    (hctx : ctx.reparse = input.located reparse)
    (h : ∀ name ∈ ["StringParts", "HeredocParts"], ∀ text offset v,
      input.text.Holds offset (.ofString text) → reparse name text offset = .ok (some v) →
        v.Finished P) : Asks P ctx := by
  intro name hname text offset v hv
  rw [hctx] at hv
  by_cases hholds : input.text.Holds offset (.ofString text)
  · rw [Input.located_of_holds hholds] at hv
    exact h name hname text offset v hholds hv
  · rw [Input.located_of_not hholds] at hv
    cases hv

theorem stringOfParts_finished {parts : List Value} (hparts : ∀ v ∈ parts, v.Finished P) :
    (Value.node (stringOfParts parts)).Finished P := by
  have hlist : (Value.list parts).Finished P := Value.finished_list.2 hparts
  have hexpression : (Value.node (.ofEntries "StringExpression" [("parts", .list parts)])).Finished
      P := by
    have hentries : ∀ e ∈ [("parts", Value.list parts)], e.2.Finished P := by simpa using hlist
    exact Value.finished_node.2 ⟨hP.allows _ rfl hentries, hentries⟩
  unfold stringOfParts
  split
  · split
    · have hentries : ∀ s, ∀ e ∈ [("string", Value.text s)], e.2.Finished P := by
        simp [Value.Finished]
      exact Value.finished_node.2 ⟨hP.allows _ rfl (hentries _), hentries _⟩
    · exact hexpression
  · exact hexpression

theorem interpolateDoubleQuoted_branch (hasks : Asks P ctx)
    (hu : (Fold.doubleQuoted.input tag).Has P u) (h : interpolateDoubleQuoted u ctx = .ok w) :
    Form.branch.Has P w := by
  have hbranch : Form.branch.Has P u :=
    Form.Has.fits (f := .stem "StringLiteral" [("string", .leaf)]) hP.allows (by decide) hu
  obtain ⟨n, rfl⟩ := hbranch.2
  obtain ⟨found, hfound, h⟩ := bind_ok h
  cases found with
  | none =>
    obtain rfl := Except.ok.inj h
    exact hbranch
  | some parts =>
    obtain rfl := Except.ok.inj h
    have hparts := Value.Finished.toList (hasks _ (by simp) _ _ _ hfound)
    exact ⟨stringOfParts_finished hP hparts, _, rfl⟩

theorem interpolateHeredoc_branch (hasks : Asks P ctx)
    (hu : (Fold.heredoc.input tag).Has P u) (h : interpolateHeredoc u ctx = .ok w) :
    Form.branch.Has P w := by
  have hbranch : Form.branch.Has P u :=
    Form.Has.fits (f := .stem "Heredoc" [("body", .leaf)]) hP.allows (by decide) hu
  obtain ⟨n, rfl⟩ := hbranch.2
  obtain ⟨found, hfound, h⟩ := bind_ok h
  cases found with
  | none =>
    obtain rfl := Except.ok.inj h
    exact hbranch
  | some parts =>
    obtain rfl := Except.ok.inj h
    have hentries : ∀ e ∈ [("parts", parts)], e.2.Finished P := by
      simpa using hasks _ (by simp) _ _ _ hfound
    exact ⟨Value.finished_node.2 ⟨hP.allows _ rfl hentries, hentries⟩, _, rfl⟩

/-- What a processor makes of what it should work on is what it should be. -/
theorem Fold.yields {f : Fold} (hasks : Asks P ctx) (hu : (f.input tag).Has P u)
    (h : f.processor u ctx = .ok w) : f.output.Has P w := by
  cases f with
  | binary => exact foldBinary_branch hP hu h
  | binaryRight => exact foldBinaryRight_branch hP hu h
  | ternary => exact foldTernary_branch hP hu h
  | branches => exact foldIf_branch hP hu h
  | members => exact foldMembers_branch hP hu h
  | parts => exact nonEmptyParts_finished hP hu h
  | program => exact assembleProgram_has hu h
  | halt => exact checkHaltCompiler_has hu h
  | nestedHalt => cases h
  | handler => exact checkTry_branch hP hu h
  | doubleQuoted => exact interpolateDoubleQuoted_branch hP hasks hu h
  | heredoc => exact interpolateHeredoc_branch hP hasks hu h

omit hP in
theorem mem_foldRules {d : RuleDef} (hd : d ∈ rules) {p : Processor} (hp : d.processor = some p) :
    ∃ f, (d, f) ∈ foldRules ∧ p = f.processor := by
  have hmem : (d, p) ∈ rules.filterMap fun d => d.processor.map (d, ·) :=
    List.mem_filterMap.2 ⟨d, hd, by rw [hp]; rfl⟩
  rw [rules_folds] at hmem
  obtain ⟨⟨d', f⟩, hf, heq⟩ := List.mem_map.1 hmem
  obtain ⟨rfl, rfl⟩ := Prod.mk.inj heq
  exact ⟨f, hf, rfl⟩

theorem place_finished {n : Node} (h : (Value.node n).Finished P) :
    (LinkedRule.place ctx (.node n)).Finished P ∧ ∃ n', LinkedRule.place ctx (.node n) = .node n' := by
  simp only [LinkedRule.place]
  split
  · rename_i hplace
    rw [Bool.and_eq_true, Bool.not_eq_true'] at hplace
    obtain ⟨hn, hentries⟩ := Value.finished_node.1 h
    exact ⟨Value.finished_node.2 ⟨hP.placed n hn hplace.2 _ _, hentries⟩, _, rfl⟩
  · exact ⟨h, n, rfl⟩

theorem place_has : (f : Form) → f.Has P w → f.Has P (LinkedRule.place ctx w)
  | .either f g, h => h.imp (place_has f) (place_has g)
  | .nothing, h => h.elim
  | .null, h => by
    obtain rfl := h
    rfl
  | .leaf, h => by
    cases w with
    | list _ | record _ | node _ => exact h.elim
    | null | bool _ | text _ => exact h
  | .tree, h => by
    cases w with
    | node n => exact (place_finished hP h).1
    | _ => exact h
  | .branch, h => by
    obtain ⟨h, n, rfl⟩ := h
    exact place_finished hP h
  | .list f, h => by
    obtain ⟨vs, rfl, hvs⟩ := h
    exact ⟨vs, rfl, hvs⟩
  | .record es, h => by
    obtain ⟨fs, rfl, hfs⟩ := h
    exact ⟨fs, rfl, hfs⟩
  | .stem tag es, h => by
    obtain ⟨n, rfl, hn⟩ := h
    simp only [LinkedRule.place]
    split
    · exact ⟨_, rfl, hn⟩
    · exact ⟨n, rfl, hn⟩

/-- What a rule of the language makes of a value of its pattern's form has the form it should. -/
theorem rule_yields {d : RuleDef} (hd : d ∈ rules) (hvariable : d.name ∉ variableRules)
    (hasks : Asks P ctx) (hu : (PatternDef.form ruleForm d.pattern).Has P u)
    (h : RuleDef.shape d ctx u = .ok w) : (ruleForm d.name).Has P w := by
  obtain ⟨haside, hbefore⟩ := Bool.and_eq_true_iff.1 (List.all_eq_true.1 rules_formed d hd)
  obtain hw | ⟨u', w', hu', hprocess, rfl⟩ := RuleDef.shape_form hu h
  · exact Form.Has.fits hP.allows haside hw
  refine place_has hP _ ?_
  cases hp : d.processor with
  | none =>
    simp only [LinkedRule.process, RuleDef.bare, hp] at hprocess
    obtain rfl := Except.ok.inj hprocess
    simp only [hp, Option.isSome_none, Bool.false_or, List.contains_eq_mem, decide_eq_true_eq,
      hvariable, if_false] at hbefore
    exact Form.Has.fits hP.allows hbefore hu'
  | some p =>
    obtain ⟨f, hf, rfl⟩ := mem_foldRules hd hp
    simp only [LinkedRule.process, RuleDef.bare, hp] at hprocess
    obtain ⟨hinput, houtput⟩ := Bool.and_eq_true_iff.1 (List.all_eq_true.1 folds_formed _ hf)
    exact Form.Has.fits hP.allows houtput
      (Fold.yields hP hasks (Form.Has.fits hP.allows hinput hu') hprocess)

/-- A rule for variables yields a variable, with the place of its match. -/
theorem variable_yields {d : RuleDef} (hd : d ∈ rules) (hvariable : d.name ∈ variableRules)
    (hu : (PatternDef.form ruleForm d.pattern).Has P u) (h : RuleDef.shape d ctx u = .ok w) :
    ∃ v, variableForm.Has P v ∧ w = LinkedRule.place ctx v := by
  obtain ⟨-, hbefore⟩ := Bool.and_eq_true_iff.1 (List.all_eq_true.1 rules_formed d hd)
  simp only [List.contains_eq_mem, hvariable, decide_true, if_true, Bool.and_eq_true,
    Option.isNone_iff_eq_none] at hbefore
  obtain ⟨⟨hprocessor, haside⟩, hbefore⟩ := hbefore
  obtain hw | ⟨v, w', hv, hprocess, rfl⟩ := RuleDef.shape_form hu h
  · exact (Form.Has.fits hP.allows haside hw).elim
  · simp only [LinkedRule.process, RuleDef.bare, hprocessor] at hprocess
    obtain rfl := Except.ok.inj hprocess
    exact ⟨v, Form.Has.fits hP.allows hbefore hv, rfl⟩

end Processors

end PhpSyntax.Php
