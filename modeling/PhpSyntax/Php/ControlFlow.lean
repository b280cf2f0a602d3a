import PhpSyntax.Php.Operator

namespace PhpSyntax.Php

open Peg

/-- A condition in parentheses, kept in the statement around it. -/
def condition : ComponentDef :=
  seq [lit "(", field "condition" "Expression", lit ")"]

/-- The body of a statement: one statement, or statements from a colon to the given word. -/
def body (endWord : String) : ComponentDef :=
  oneOf [seq [lit ":", field "body" "ColonBody", kw endWord, "Terminator"],
    seq [field "body" "Statement"]]

/-- Refuses a try that neither catches nor finishes anything. -/
def checkTry : Processor
  | .node n, ctx =>
    let catches := !((n.list? "catches").getD []).isEmpty
    let finishes := !((n.get? "finally").getD .null).isNull
    if catches || finishes then .ok (.node n) else .error (ctx.fatal Message.tryWithoutHandler)
  | v, _ => .ok v

def ifStatement : RuleDef :=
  define "IfStatement" (oneOf ["BraceIf", "ColonIf"])

def braceIf : RuleDef :=
  (defineAs "BraceIf" "If" (seq [kw "if", condition, field "consequent" "Statement",
    listField "elseifs" (many "ElseIf"),
    opt (seq [kw "else", field "alternate" "Statement"])])).processedBy foldIf

def elseIf : RuleDef :=
  define "ElseIf" (seq [kw "elseif", condition, field "consequent" "Statement"])

def colonIf : RuleDef :=
  (defineAs "ColonIf" "If" (seq [kw "if", condition, lit ":", field "consequent" "ColonBody",
    listField "elseifs" (many "ColonElseIf"),
    opt (seq [kw "else", lit ":", field "alternate" "ColonBody"]),
    kw "endif", "Terminator"])).processedBy foldIf

def colonElseIf : RuleDef :=
  defineAs "ColonElseIf" "ElseIf"
    (seq [kw "elseif", condition, lit ":", field "consequent" "ColonBody"])

def whileLoop : RuleDef :=
  define "While" (seq [kw "while", condition, body "endwhile"])

def doWhile : RuleDef :=
  define "DoWhile"
    (seq [kw "do", field "body" "Statement", kw "while", condition, "Terminator"])

def forLoop : RuleDef :=
  define "For" (seq [kw "for", lit "(",
    listField "initializers" (list "Expression" (lit ",")), lit ";",
    listField "conditions" (list "Expression" (lit ",")), lit ";",
    listField "updates" (list "Expression" (lit ",")), lit ")", body "endfor"])

def foreach : RuleDef :=
  define "Foreach" (seq [kw "foreach", lit "(", field "expression" "Expression", kw "as",
    field "key" (opt "ForeachKey"), flag "by_reference" (opt (lit "&")),
    field "value" (oneOf ["ArrayDestructure", "AssignableTarget"]), lit ")", body "endforeach"])

def foreachKey : RuleDef :=
  (define "ForeachKey" (seq [field "key" "Expression", lit "=>"])).picking "key"

def cases : ComponentDef :=
  listField "cases" (many "SwitchCase")

def switch : RuleDef :=
  define "Switch" (seq [kw "switch", condition, oneOf [
    seq [lit "\x7b", opt (lit ";"), cases, lit "\x7d"],
    seq [lit ":", opt (lit ";"), cases, kw "endswitch", "Terminator"]]])

def switchCase : RuleDef :=
  define "SwitchCase" (oneOf ["Case", "DefaultCase"])

def caseClause : RuleDef :=
  define "Case" (seq [kw "case", field "test" "Expression", re "[:;]",
    listField "statements" (many "Statement")])

def defaultCase : RuleDef :=
  define "DefaultCase" (seq [kw "default", re "[:;]", listField "statements" (many "Statement")])

def breakStatement : RuleDef :=
  define "Break" (seq [kw "break", field "level" (opt "Expression"), "Terminator"])

def continueStatement : RuleDef :=
  define "Continue" (seq [kw "continue", field "level" (opt "Expression"), "Terminator"])

def returnStatement : RuleDef :=
  define "ReturnStatement"
    (seq [kw "return", field "expression" (opt "Expression"), "Terminator"])

def tryStatement : RuleDef :=
  (define "Try" (seq [kw "try", field "body" "Block", listField "catches" (many "Catch"),
    field "finally" (opt "Finally")])).processedBy checkTry

def catchClause : RuleDef :=
  define "Catch" (seq [kw "catch", lit "(",
    listField "types" (list1 "Name" (operator (lit "|") "[|]")), field "variable" variableName,
    lit ")", field "body" "Block"])

def finallyClause : RuleDef :=
  (define "Finally" (seq [kw "finally", field "body" "Block"])).picking "body"

def declareStatement : RuleDef :=
  define "Declare" (seq [kw "declare", lit "(",
    listField "directives" (list1 "DeclareDirective" (lit ",")), lit ")", body "enddeclare"])

def declareDirective : RuleDef :=
  define "DeclareDirective"
    (seq [field "directive" memberName, equalsSign, field "value" "Expression"])

end PhpSyntax.Php
