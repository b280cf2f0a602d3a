import PhpSyntax.Proofs.Peg.Foresight
import PhpSyntax.Proofs.Peg.Handing
import PhpSyntax.Proofs.Php.Forms

namespace PhpSyntax.Php

open Peg Regex

def Unquoted (v : Value) : Prop :=
  ∀ n, v = .node n → n.name ≠ "StringLiteral"

/-- Rules that make nodes of their own, none of them a string literal. -/
def makers : List String :=
  ["PrintExpression", "ListAssignment", "AssignmentExpression", "NotExpression", "Cast",
    "Suppress", "PrefixUpdate", "SignedExpression", "CloneExpression", "Variable",
    "VariableExpression", "ArrayLiteral", "Closure", "ArrowFunction", "New", "Isset", "Empty",
    "Exit", "Eval", "Include", "Float", "Integer", "Nowdoc", "Heredoc", "Boolean", "Null",
    "MagicConstant", "SpecialClass", "SelfReference", "StaticReference", "ParentReference",
    "Constant", "BareName", "BracedName", "BracedVariableName", "BracedVariableExpression"]

/-- Rules that hand on the match of a rule or of their first operand. -/
def handers : List String :=
  ["Expression", "LogicalOrLevel", "LogicalXorLevel", "LogicalAndLevel", "PrintLevel",
    "AssignmentLevel", "TernaryLevel", "CoalesceLevel", "BooleanOrLevel", "BooleanAndLevel",
    "BitwiseOrLevel", "BitwiseXorLevel", "BitwiseAndLevel", "EqualityLevel", "RelationalLevel",
    "ShiftLevel", "AdditiveLevel", "MultiplicativeLevel", "LogicalNotLevel", "InstanceOfLevel",
    "UnaryLevel", "PowerLevel", "PostfixUpdateLevel", "PostfixLevel", "Term",
    "SimpleInterpolation"]

def quoters : List String :=
  ["Parenthesized", "SingleQuotedString", "DoubleQuotedString"]

section Folds

variable {ctx : Context} {n : Node} {v w : Value}

theorem Unquoted.of_name {n : Node} (h : n.name ≠ "StringLiteral") : Unquoted (.node n) := by
  rintro _ ⟨⟩
  exact h

theorem unquoted_of_ne (h : ∀ n, v ≠ .node n) : Unquoted v :=
  fun n hn => absurd hn (h n)

theorem Unquoted.covering (h : n.name ≠ "StringLiteral") (start stop : Option Nat) :
    Unquoted (.node (ctx.covering n start stop)) := by
  refine .of_name ?_
  simp only [Context.covering]
  split <;> exact h

theorem Unquoted.place (h : Unquoted v) : Unquoted (LinkedRule.place ctx v) := by
  cases v with
  | node n =>
    simp only [LinkedRule.place]
    split
    · exact .of_name (h n rfl)
    · exact h
  | _ => exact h

theorem Unquoted.nestLeft {start : Option Nat} (steps : List Value) (h : Unquoted v) :
    Unquoted (nestLeft ctx start v steps) := by
  induction steps generalizing v with
  | nil => exact h
  | cons step steps ih =>
    exact ih (.covering (by decide : "BinaryExpression" ≠ "StringLiteral") _ _)

theorem Unquoted.nestRight {stop : Option Nat} (steps : List Value) (h : Unquoted v) :
    Unquoted (nestRight ctx stop v steps) := by
  cases steps with
  | nil => exact h
  | cons step steps => exact .covering (by decide : "BinaryExpression" ≠ "StringLiteral") _ _

theorem Unquoted.nestTernary {stop : Option Nat} (branches : List (Value × Value))
    (h : Unquoted v) : Unquoted (nestTernary ctx stop v branches) := by
  cases branches with
  | nil => exact h
  | cons branch branches => exact .covering (by decide : "Ternary" ≠ "StringLiteral") _ _

theorem access?_kind {name : String} {a : Access} (h : access? name = some a) :
    a.kind ≠ "StringLiteral" := by
  unfold access? at h
  split at h <;> cases h <;> decide

theorem Unquoted.nestMembers {start : Option Nat} (segments : List Node) (h : Unquoted v) :
    Unquoted (nestMembers ctx start v segments) := by
  induction segments generalizing v with
  | nil => exact h
  | cons segment segments ih =>
    simp only [Php.nestMembers]
    split
    · rename_i a ha
      exact ih (.covering (access?_kind ha) _ _)
    · exact ih h

/-- The field that a fold yields as it is where there is nothing to nest. -/
def Fold.first? : Fold → Option String
  | binary | binaryRight => some "left"
  | ternary => some "condition"
  | members => some "root"
  | _ => none

theorem Fold.unquoted {f : Fold} {key : String} (hkey : f.first? = some key) (hv : Unquoted v)
    (hfirst : Unquoted (fieldOf v key)) (h : f.processor v ctx = .ok w) : Unquoted w := by
  cases v with
  | node n =>
    cases f <;> cases hkey <;> obtain rfl := Except.ok.inj h
    · exact hfirst.nestLeft _
    · exact hfirst.nestRight _
    · exact hfirst.nestTernary _
    · exact hfirst.nestMembers _
  | _ =>
    cases f <;> cases hkey <;> obtain rfl := Except.ok.inj h
    all_goals exact hv

/-- Strings that are taken apart are nodes of heredocs where they are heredocs. -/
theorem interpolateHeredoc_unquoted (hv : Unquoted v) (h : interpolateHeredoc v ctx = .ok w) :
    Unquoted w := by
  cases v with
  | node n =>
    obtain ⟨o, -, h⟩ := bind_ok h
    cases o with
    | some parts =>
      obtain rfl := Except.ok.inj h
      exact .of_name (by decide : "Heredoc" ≠ "StringLiteral")
    | none =>
      obtain rfl := Except.ok.inj h
      exact hv
  | _ =>
    obtain rfl := Except.ok.inj h
    exact hv

end Folds

section Rules

def makes (d : RuleDef) : Bool :=
  d.pick.isNone && d.ifNoMatch.isNone && d.tag != "StringLiteral" && PatternDef.handsOn makers d.pattern

/-- Whether what a rule hands on is the match of a rule, or that of its first component. -/
def hands (d : RuleDef) : Bool :=
  d.pick.isNone && d.tag != "StringLiteral" &&
    match d.ifNoMatch, d.pattern with
    | none, p => PatternDef.handsOn (makers ++ handers ++ quoters) p
    | some i, .sequence (⟨some key, .value, p⟩ :: rest) =>
      i.capture == key && PatternDef.handsOn (makers ++ handers ++ quoters) p &&
        PatternDef.componentsSpare key rest
    | some _, _ => false

/-- Whether a terminal begins with a character other than a dollar sign. -/
def shunsDollar (t : Terminal) : Bool :=
  t.program?.any fun p => p.startsText &&
    match p.head p.steps.size p.start with
    | s :: _ => !s.has '$'
    | [] => false

/-- Whether what a rule matches begins with a terminal that does not begin with a dollar sign. -/
def quotes? (d : RuleDef) : Bool :=
  match d.pattern with
  | .sequence (⟨_, _, .terminal t⟩ :: _) => shunsDollar t
  | _ => false

-- Evaluated in turn.
mutual

theorem rules_unquoted :
    (rules.all fun d =>
      (!makers.contains d.name || makes d) && (!handers.contains d.name || hands d) &&
        (!quoters.contains d.name || quotes? d)) = true := by
  decide +kernel

theorem folds_unquoted :
    (foldRules.all fun r =>
      (!makers.contains r.1.name || r.2 == .heredoc) &&
        (!handers.contains r.1.name ||
          r.1.ifNoMatch.any fun i => r.2.first? == some i.capture)) = true := by
  decide +kernel

theorem dollar_foreseen : foreLead trivia false true ['$'] = some ['$'] := by
  decide +kernel

end

variable {text : Text} {calls : Calls} {skip : Bool} {offset start : Nat} {m : Matched}
  {cs : List Char} {ctx : Context} {v w : Value} {d : RuleDef}

theorem leadsTo_dollar (hcs : text.Has offset ('$' :: cs))
    (h : LeadsTo grammar.trivia text skip offset start) : start = offset := by
  cases skip with
  | false => exact h.of_raw
  | true =>
    have hs : Grammar.link rules (some trivia) =
        .ok (Setting.mk grammar (.ofText text) .off 0).grammar := grammar_linked
    have htail : false = true → cs = [] := by simp
    have hlead := leads_of_foreLead hs rfl htail dollar_foreseen
    have hstart := hlead text offset hcs false
    have hsame := h.unique (leading_leadsTo grammar.trivia ⟨true, false⟩ offset).1
    rw [hsame] at hstart
    exact Nat.add_right_cancel (hstart.size.symm.trans hcs.size)

/-- What is known of what a rule yields: it is no literal, or it was not tried in front of a dollar
sign. -/
def Unquotes (text : Text) (rule : String) (offset : Nat) (v : Value) : Prop :=
  (rule ∈ makers ∨ rule ∈ handers ++ quoters ∧ ∃ cs, text.Has offset ('$' :: cs)) → Unquoted v

/-- A rule whose match begins with a quote or parenthesis does not match in front of a dollar
sign. -/
theorem not_quotes (hquotes : quotes? d = true) (hb : text.Boundary offset)
    (hcs : text.Has offset ('$' :: cs)) :
    ¬Matches grammar.trivia text calls d.pattern skip offset m := by
  intro hm
  unfold quotes? at hquotes
  split at hquotes
  · rename_i field capture t rest hpattern
    rw [hpattern] at hm
    obtain ⟨ps, ⟨first, hfirst, -⟩, -⟩ := hm
    simp only [shunsDollar, Option.any_eq_true, Bool.and_eq_true] at hquotes
    obtain ⟨program, hprogram, hstarts, hhead⟩ := hquotes
    obtain ⟨begun, more, behind, hlead, hhas, hspell, -⟩ :=
      matches_begins hb hfirst ⟨program, hprogram, hstarts, rfl⟩
    rw [leadsTo_dollar hcs hlead] at hhas
    generalize program.head program.steps.size program.start = sets at hhead hspell
    cases hspell with
    | nil => cases hhead
    | @cons set c _ _ hc _ =>
      obtain ⟨rfl, -⟩ := List.cons.inj (hcs.unique hhas)
      simp only [hc] at hhead
      cases hhead
  · cases hquotes

theorem makeNode_unquoted (htag : d.tag ≠ "StringLiteral") (hv : Unquoted v) :
    Unquoted (d.makeNode v) := by
  unfold RuleDef.makeNode
  split
  · exact .of_name htag
  · exact hv
  · split
    · exact .of_name htag
    · exact hv

theorem makeNode_field {key : String} (hv : Unquoted (fieldOf v key)) :
    Unquoted (fieldOf (d.makeNode v) key) := by
  unfold RuleDef.makeNode
  split
  · exact hv
  · exact hv
  · split
    · exact unquoted_of_ne nofun
    · exact hv

/-- What a rule without a fold, or with one of operands, makes of what is no literal is none. -/
theorem shape_unquoted (hd : d ∈ rules) (hpick : d.pick = none) (htag : d.tag ≠ "StringLiteral")
    (hfolds : ∀ f, d.processor = some f.processor → (d, f) ∈ foldRules →
      f = .heredoc ∨ ∃ i, d.ifNoMatch = some i ∧ f.first? = some i.capture)
    (hv : Unquoted v) (hfirst : ∀ i, d.ifNoMatch = some i → Unquoted (fieldOf v i.capture))
    (h : RuleDef.shape d ctx v = .ok w) : Unquoted w := by
  rw [RuleDef.shape, LinkedRule.shape] at h
  split at h
  · rename_i u hfallback
    obtain rfl := Except.ok.inj h
    simp only [LinkedRule.fallback?] at hfallback
    split at hfallback
    · rename_i fields
      cases hi : d.ifNoMatch with
      | none =>
        rw [hi] at hfallback
        cases hfallback
      | some i =>
        simp only [hi, Option.ite_none_right_eq_some] at hfallback
        obtain rfl := Option.some.inj hfallback.2
        exact hfirst i hi
    · cases hfallback
  · obtain ⟨u, hu, h⟩ := bind_ok h
    obtain rfl := Except.ok.inj h
    have htagged : d.bare.tagged v = d.makeNode v := by
      simp only [RuleDef.tagged_eq, RuleDef.pickFrom, hpick]
    have hnode : Unquoted (d.makeNode v) := makeNode_unquoted htag hv
    refine Unquoted.place ?_
    cases hp : d.processor with
    | none =>
      simp only [LinkedRule.process, hp] at hu
      obtain rfl := Except.ok.inj hu
      exact htagged ▸ hnode
    | some p =>
      obtain ⟨f, hf, rfl⟩ := mem_foldRules hd hp
      simp only [LinkedRule.process, hp] at hu
      replace hu : f.processor (d.makeNode v) ctx = .ok u := htagged ▸ hu
      obtain rfl | ⟨i, hi, hkey⟩ := hfolds f hp hf
      · exact interpolateHeredoc_unquoted hnode hu
      · exact Fold.unquoted hkey hnode (makeNode_field (hfirst i hi)) hu

/-- What a rule without a fold makes of a field that is no literal is none. -/
theorem shape_picked {key : String} {fs : Captures} (hpick : d.pick = some key)
    (hnone : d.ifNoMatch = none) (hprocessor : d.processor = none) (htag : d.tag ≠ "StringLiteral")
    (hv : Unquoted (fs.take key).1) (h : RuleDef.shape d ctx (.record fs) = .ok w) : Unquoted w := by
  have hshape : RuleDef.shape d ctx (.record fs) =
      .ok (LinkedRule.place ctx (d.makeNode (fs.take key).1)) := by
    simp only [RuleDef.shape, LinkedRule.shape, LinkedRule.fallback?, LinkedRule.process, hnone,
      hprocessor, LinkedRule.tagged, hpick]
    rfl
  obtain rfl := Except.ok.inj (hshape.symm.trans h)
  exact (makeNode_unquoted htag hv).place

/-- A rule that hands on the match of another one, or that of its first component, yields no literal
if no rule that it calls does. -/
theorem hands_unquoted (hd : d ∈ rules) (hhands : hands d = true)
    (hfolds : ∀ f, (d, f) ∈ foldRules → ∃ i, d.ifNoMatch = some i ∧ f.first? = some i.capture)
    (hcall : ∀ r ∈ makers ++ handers ++ quoters, ∀ skip m, calls r skip offset m →
      Unquoted m.value)
    (hm : Matches grammar.trivia text calls d.pattern skip offset m)
    (h : RuleDef.shape d ctx m.value = .ok w) : Unquoted w := by
  have hplain := rules_plain hd
  simp only [hands, Bool.and_eq_true, Option.isNone_iff_eq_none, bne_iff_ne] at hhands
  obtain ⟨⟨hpick, htag⟩, hhands⟩ := hhands
  have hfold : ∀ f, d.processor = some f.processor → (d, f) ∈ foldRules → f = .heredoc ∨
      ∃ i, d.ifNoMatch = some i ∧ f.first? = some i.capture := fun f _ hf => .inr (hfolds f hf)
  split at hhands
  · rename_i hnone
    refine shape_unquoted hd hpick htag hfold ?_ (by simp [hnone]) h
    exact Matches.handed (fun v => unquoted_of_ne) hcall d.pattern hplain hhands hm
  · rename_i i key p rest hi hpattern
    simp only [Bool.and_eq_true, beq_iff_eq] at hhands
    obtain ⟨⟨rfl, hp⟩, hspares⟩ := hhands
    rw [hpattern] at hm hplain
    obtain ⟨hplain, hplain'⟩ := List.forall_mem_append.1 hplain
    obtain ⟨first, hfirst, hfield⟩ := matches_first hplain' hspares hm
    have hunquoted : Unquoted first.value :=
      Matches.handed (fun v => unquoted_of_ne) hcall p hplain hp hfirst
    have hnode : ∀ n, m.value ≠ .node n := by
      obtain ⟨ps, -, rfl⟩ := hm
      exact Parts.finish_value ps
    refine shape_unquoted hd hpick htag hfold (unquoted_of_ne hnode) ?_ h
    intro i' hi'
    obtain rfl := Option.some.inj (hi.symm.trans hi')
    cases hv : m.value with
    | record fs =>
      simp only [fieldOf, fieldsOf, hfield fs hv, Option.getD_some]
      exact hunquoted
    | node n => exact absurd hv (hnode n)
    | _ =>
      refine unquoted_of_ne fun n hn => ?_
      cases hn
  · cases hhands

/-- What a rule yields in front of a dollar sign is no literal, if that holds of the rules it
calls. -/
theorem rule_unquotes (hd : d ∈ rules) (hb : text.Boundary offset)
    (hcalls : ∀ r skip offset m, calls r skip offset m → Unquotes text r offset m.value)
    (hm : Matches grammar.trivia text calls d.pattern skip offset m)
    (h : RuleDef.shape d ctx m.value = .ok w) : Unquotes text d.name offset w := by
  have hrules := List.all_eq_true.1 rules_unquoted d hd
  have hfolds := folds_unquoted
  simp only [Bool.and_eq_true, Bool.or_eq_true, Bool.not_eq_true', List.contains_eq_mem,
    decide_eq_false_iff_not, List.all_eq_true, beq_iff_eq, Option.any_eq_true] at hrules hfolds
  obtain ⟨⟨hmakes, hhands⟩, hquotes⟩ := hrules
  rintro (hmaker | ⟨hother, cs, hcs⟩)
  · have hmakes := hmakes.resolve_left (not_not_intro hmaker)
    simp only [makes, Bool.and_eq_true, Option.isNone_iff_eq_none, bne_iff_ne] at hmakes
    obtain ⟨⟨⟨hpick, hnone⟩, htag⟩, hpattern⟩ := hmakes
    refine shape_unquoted hd hpick htag (fun f _ hf => .inl ?_) ?_ (by simp [hnone]) h
    · exact (hfolds (d, f) hf).1.resolve_left (not_not_intro hmaker)
    · refine Matches.handed (fun v => unquoted_of_ne) ?_ d.pattern (rules_plain hd) hpattern hm
      exact fun r hr skip m hm => hcalls r skip offset m hm (.inl hr)
  obtain hhander | hquoter := List.mem_append.1 hother
  · refine hands_unquoted hd (hhands.resolve_left (not_not_intro hhander)) (fun f hf => ?_) ?_ hm h
    · exact (hfolds (d, f) hf).2.resolve_left (not_not_intro hhander)
    · intro r hr skip m hm
      rw [List.append_assoc] at hr
      exact hcalls r skip offset m hm ((List.mem_append.1 hr).imp_right fun hr => ⟨hr, cs, hcs⟩)
  · exact absurd hm (not_quotes (hquotes.resolve_left (not_not_intro hquoter)) hb hcs)

end Rules

end PhpSyntax.Php
