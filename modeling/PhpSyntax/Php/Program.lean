import PhpSyntax.Php.Markup

namespace PhpSyntax.Php

open Peg

def isEmptyMarkup : Value → Bool
  | .null => true
  | .node n => n.name == "InlineHtml" && ((n.text? "html").getD "").isEmpty
  | _ => false

/-- Markup in front of the code becomes the first statement; empty markup is left out. -/
def assembleProgram : Processor
  | .node n, _ =>
    let (leading, n) := n.take "leading"
    let (statements, n) := n.take "statements"
    let kept := (leading :: statements.toList).filter fun v => !isEmptyMarkup v
    .ok (.node (n.set "statements" (.list kept)))
  | v, _ => .ok v

/-- Refuses a halt that is not called; what follows the call is kept as it is. -/
def checkHaltCompiler : Processor
  | .node n, ctx =>
    let (called, n) := n.take "call"
    if called.asBool? = some true then .ok (.node n)
    else .error (ctx.fatal Message.malformedHaltCompiler)
  | v, _ => .ok v

def rejectNestedHaltCompiler : Processor := fun _ ctx =>
  .error (ctx.fatal Message.nestedHaltCompiler)

def program : RuleDef :=
  (define "Program" (seq [field "leading" "LeadingHtml",
    listField "statements" (many "TopStatement"), atEnd])).processedBy assembleProgram

def topStatement : RuleDef :=
  define "TopStatement" (oneOf ["HaltCompiler", "NamespaceStatement", "Statement"])

def haltCompiler : RuleDef :=
  (define "HaltCompiler" (seq [kw "__halt_compiler",
    flag "call" (opt (seq [lit "(", lit ")", "Terminator"])),
    raw (field "data" (scan restScanner))])).processedBy checkHaltCompiler

def nestedHaltCompiler : RuleDef :=
  (define "NestedHaltCompiler" (kw "__halt_compiler")).processedBy rejectNestedHaltCompiler

def namespaceStatement : RuleDef :=
  defineAs "NamespaceStatement" "Namespace" (seq [kw "namespace", field "name" (opt "Name"),
    oneOf [seq [lit "\x7b", listField "statements" (many "Statement"), lit "\x7d"],
      "Terminator"]])

def terminator : RuleDef :=
  define "Terminator" (oneOf [lit ";", ahead (lit "?>")])

end PhpSyntax.Php
