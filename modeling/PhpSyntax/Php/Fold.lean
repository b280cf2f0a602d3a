import PhpSyntax.Peg.Rule

namespace PhpSyntax.Php

open Peg

def startOf (v : Value) : Option Nat :=
  v.byteRange?.map (·.1)

def stopOf (v : Value) : Option Nat :=
  v.byteRange?.map (·.2)

def fieldsOf : Value → Captures
  | .record fields => fields
  | .node n => n.fields
  | _ => .empty

def fieldOf (v : Value) (key : String) : Value :=
  ((fieldsOf v).get? key).getD .null

def binaryExpression (left operator right : Value) : Node :=
  .ofEntries "BinaryExpression" [("left", left), ("operator", operator), ("right", right)]

/-- `left` and steps of an operator and an operand each, nested to the left. -/
def nestLeft (ctx : Context) (start : Option Nat) (left : Value) : List Value → Value
  | [] => left
  | step :: steps =>
    let operand := fieldOf step "operand"
    let folded := binaryExpression left (fieldOf step "operator") operand
    nestLeft ctx start (.node (ctx.covering folded start (stopOf operand))) steps

/-- `left` and steps of an operator and an operand each, nested to the right. -/
def nestRight (ctx : Context) (stop : Option Nat) (left : Value) : List Value → Value
  | [] => left
  | step :: steps =>
    let right := nestRight ctx stop (fieldOf step "operand") steps
    .node (ctx.covering (binaryExpression left (fieldOf step "operator") right) (startOf left) stop)

def foldBinary : Processor
  | .node n, ctx =>
    let left := fieldOf (.node n) "left"
    .ok (nestLeft ctx (startOf left) left (fieldOf (.node n) "right").toList)
  | v, _ => .ok v

def foldBinaryRight : Processor
  | .node n, ctx =>
    let left := fieldOf (.node n) "left"
    let steps := (fieldOf (.node n) "right").toList
    let last := match steps.getLast? with
      | some step => fieldOf step "operand"
      | none => left
    .ok (nestRight ctx (stopOf last) left steps)
  | v, _ => .ok v

/-- The consequent of a ternary operand, null if it has none, and its alternate. -/
def branch? : Value → Option (Value × Value)
  | .node n =>
    if n.name == "ShorthandOperand" then some (.null, fieldOf (.node n) "shorthand")
    else some (fieldOf (.node n) "consequent", fieldOf (.node n) "alternate")
  | _ => none

/-- Each alternate is the condition of the ternary behind it. -/
def nestTernary (ctx : Context) (stop : Option Nat) (condition : Value) :
    List (Value × Value) → Value
  | [] => condition
  | (consequent, next) :: rest =>
    let ternary := .ofEntries "Ternary" [("condition", condition), ("consequent", consequent),
      ("alternate", nestTernary ctx stop next rest)]
    .node (ctx.covering ternary (startOf condition) stop)

def foldTernary : Processor
  | .node n, ctx =>
    let condition := fieldOf (.node n) "condition"
    let branches := (fieldOf (.node n) "operands").toList.filterMap branch?
    let last := match branches.getLast? with
      | some (_, alternate) => alternate
      | none => condition
    .ok (nestTernary ctx (stopOf last) condition branches)
  | v, _ => .ok v

/-- The elseif clauses as nested ifs, each in the alternate of the one before. -/
def nestElseIfs (ctx : Context) (stop : Option Nat) (alternate : Value) : List Node → Value
  | [] => alternate
  | clause :: rest =>
    let nested := .ofEntries "If" [("condition", fieldOf (.node clause) "condition"),
      ("consequent", fieldOf (.node clause) "consequent"),
      ("alternate", nestElseIfs ctx stop alternate rest)]
    .node (ctx.covering nested (clause.byteRange?.map (·.1)) stop)

def foldIf : Processor
  | .node n, ctx =>
    let (alternate, n) := n.take "alternate"
    let (clauses, n) := n.take "elseifs"
    let clauses := clauses.toList
    let stop := (stopOf alternate).or (clauses.getLast?.bind stopOf)
    .ok (.node (n.set "alternate"
      (nestElseIfs ctx stop alternate (clauses.filterMap Value.asNode?))))
  | v, _ => .ok v

end PhpSyntax.Php
