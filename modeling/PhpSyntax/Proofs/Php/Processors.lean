import PhpSyntax.Proofs.Peg.Plan
import PhpSyntax.Proofs.Php.Table

namespace PhpSyntax.Php

open Peg

section Beside

/-- Contexts of the same match, which may differ in the nested parses. -/
structure Beside (ctx ctx' : Context) : Prop where
  span : ctx.span = ctx'.span
  input : ctx.input = ctx'.input
  lines : ctx.lines = ctx'.lines
  options : ctx.options = ctx'.options

variable {ctx ctx' : Context} (h : Beside ctx ctx')

include h

theorem Beside.covering (n : Node) (start stop : Option Nat) :
    ctx.covering n start stop = ctx'.covering n start stop := by
  simp only [Context.covering, Context.absoluteSpan, h.span, h.input, h.lines, h.options]

theorem Beside.nestLeft (start : Option Nat) (left : Value) (steps : List Value) :
    nestLeft ctx start left steps = nestLeft ctx' start left steps := by
  induction steps generalizing left with
  | nil => rfl
  | cons step steps ih => simp only [Php.nestLeft, h.covering, ih]

theorem Beside.nestRight (stop : Option Nat) (left : Value) (steps : List Value) :
    nestRight ctx stop left steps = nestRight ctx' stop left steps := by
  induction steps generalizing left with
  | nil => rfl
  | cons step steps ih => simp only [Php.nestRight, h.covering, ih]

theorem Beside.nestTernary (stop : Option Nat) (condition : Value)
    (branches : List (Value × Value)) :
    nestTernary ctx stop condition branches = nestTernary ctx' stop condition branches := by
  induction branches generalizing condition with
  | nil => rfl
  | cons branch branches ih =>
    obtain ⟨consequent, next⟩ := branch
    simp only [Php.nestTernary, h.covering, ih]

theorem Beside.nestElseIfs (stop : Option Nat) (alternate : Value) (clauses : List Node) :
    nestElseIfs ctx stop alternate clauses = nestElseIfs ctx' stop alternate clauses := by
  induction clauses with
  | nil => rfl
  | cons clause clauses ih => simp only [Php.nestElseIfs, h.covering, ih]

theorem Beside.nestMembers (start : Option Nat) (target : Value) (segments : List Node) :
    nestMembers ctx start target segments = nestMembers ctx' start target segments := by
  induction segments generalizing target with
  | nil => rfl
  | cons segment segments ih => simp only [Php.nestMembers, h.covering, ih]

end Beside

/-- A processor that does not depend on nested parses. -/
def Alone (p : Processor) : Prop :=
  ∀ v ctx ctx', Beside ctx ctx' → p v ctx = p v ctx'

theorem Alone.planned {p : Processor} (h : Alone p) : p.Planned := fun v span input lines options =>
  ⟨.done (p v ⟨span, input, lines, options, fun _ _ _ => .ok none⟩), fun _ =>
    h v _ _ ⟨rfl, rfl, rfl, rfl⟩⟩

theorem foldBinary_alone : Alone foldBinary := by
  intro v ctx ctx' h
  cases v with
  | node n => simp only [foldBinary, h.nestLeft]
  | _ => rfl

theorem foldBinaryRight_alone : Alone foldBinaryRight := by
  intro v ctx ctx' h
  cases v with
  | node n => simp only [foldBinaryRight, h.nestRight]
  | _ => rfl

theorem foldTernary_alone : Alone foldTernary := by
  intro v ctx ctx' h
  cases v with
  | node n => simp only [foldTernary, h.nestTernary]
  | _ => rfl

theorem foldIf_alone : Alone foldIf := by
  intro v ctx ctx' h
  cases v with
  | node n => simp only [foldIf, h.nestElseIfs]
  | _ => rfl

theorem foldMembers_alone : Alone foldMembers := by
  intro v ctx ctx' h
  cases v with
  | node n => simp only [foldMembers, h.nestMembers]
  | _ => rfl

theorem nonEmptyParts_alone : Alone nonEmptyParts := by
  intro v ctx ctx' h
  simp only [nonEmptyParts, h.covering]

theorem assembleProgram_alone : Alone assembleProgram :=
  fun v _ _ _ => by cases v <;> rfl

theorem checkHaltCompiler_alone : Alone checkHaltCompiler := by
  intro v ctx ctx' h
  cases v with
  | node n =>
    simp only [checkHaltCompiler, Context.fatal, Context.absoluteSpan, h.span, h.input]
  | _ => rfl

theorem rejectNestedHaltCompiler_alone : Alone rejectNestedHaltCompiler := by
  intro v ctx ctx' h
  simp only [rejectNestedHaltCompiler, Context.fatal, Context.absoluteSpan, h.span, h.input]

theorem checkTry_alone : Alone checkTry := by
  intro v ctx ctx' h
  cases v with
  | node n => simp only [checkTry, Context.fatal, Context.absoluteSpan, h.span, h.input]
  | _ => rfl

/-- A plan that asks once, and yields a value for what was found and for nothing found. -/
def askOnce (rule text : String) (offset : Nat) (next : Option Value → Value) : Plan :=
  .ask rule text offset fun o => .done (o.map next)

theorem askOnce_run (rule text : String) (offset : Nat) (next : Option Value → Value)
    (reparse : String → String → Nat → Except Failure (Option Value)) :
    (askOnce rule text offset next).run reparse = (reparse rule text offset).map next := by
  simp only [askOnce, Plan.run]
  cases reparse rule text offset with
  | ok found => rfl
  | error e => simp only [Except.map, ite_self]

theorem interpolateDoubleQuoted_planned : Processor.Planned interpolateDoubleQuoted := by
  intro v span input lines options
  cases v with
  | node n =>
    refine ⟨askOnce "StringParts" ((n.text? "string").getD "") (span.start + 1) fun found =>
      found.elim (.node n) fun parts => .node (stringOfParts parts.toList), fun reparse => ?_⟩
    rw [askOnce_run]
    simp only [interpolateDoubleQuoted]
    cases reparse _ _ _ with
    | error e => rfl
    | ok found => cases found <;> rfl
  | _ => exact ⟨.done (.ok _), fun _ => rfl⟩

theorem interpolateHeredoc_planned : Processor.Planned interpolateHeredoc := by
  intro v span input lines options
  cases v with
  | node n =>
    refine ⟨askOnce "HeredocParts" ((n.text? "body").getD "")
      (span.start + headerLength (input.text.slice span.start span.stop)) fun found =>
        found.elim (.node n) fun parts => .node (.ofEntries "Heredoc" [("parts", parts)]),
      fun reparse => ?_⟩
    rw [askOnce_run]
    simp only [interpolateHeredoc, Context.text]
    cases reparse _ _ _ with
    | error e => rfl
    | ok found => cases found <;> rfl
  | _ => exact ⟨.done (.ok _), fun _ => rfl⟩

theorem processors_planned : ∀ p ∈ processors, Processor.Planned p := by
  simp only [processors, List.forall_mem_cons]
  exact ⟨foldBinary_alone.planned, foldBinaryRight_alone.planned, foldTernary_alone.planned,
    foldIf_alone.planned, foldMembers_alone.planned, nonEmptyParts_alone.planned,
    assembleProgram_alone.planned, checkHaltCompiler_alone.planned,
    rejectNestedHaltCompiler_alone.planned, checkTry_alone.planned,
    interpolateDoubleQuoted_planned, interpolateHeredoc_planned, by simp⟩

theorem grammar_planned : grammar.Planned :=
  fun _ hr p hp => processors_planned p (grammar_processors hr hp)

end PhpSyntax.Php
