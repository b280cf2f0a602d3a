import PhpSyntax.Php.Operator

namespace PhpSyntax.Php

open Peg

def statement : RuleDef :=
  define "Statement" (oneOf ["Block", "InlineHtml", "EchoTag", "FunctionDeclaration",
    "ClassDeclaration", "InterfaceDeclaration", "TraitDeclaration", "IfStatement", "While",
    "DoWhile", "For", "Foreach", "Switch", "Break", "Continue", "ReturnStatement", "EchoStatement",
    "Global", "StaticStatement", "Unset", "Throw", "Try", "ConstStatement", "Use", "Declare",
    "Goto", "Label", "NestedHaltCompiler", "EmptyStatement", "ExpressionStatement"])

def block : RuleDef :=
  defineAs "Block" "CompoundStatement"
    (seq [lit "\x7b", listField "statements" (many "Statement"), lit "\x7d"])

def colonBody : RuleDef :=
  defineAs "ColonBody" "CompoundStatement" (seq [listField "statements" (many "Statement")])

def throwStatement : RuleDef :=
  define "Throw" (seq [kw "throw", field "expression" "Expression", "Terminator"])

def goto : RuleDef :=
  define "Goto" (seq [kw "goto", field "label" "Identifier", "Terminator"])

def label : RuleDef :=
  define "Label" (seq [field "label" "Identifier", operator (lit ":") ":"])

def echoStatement : RuleDef :=
  define "EchoStatement"
    (seq [kw "echo", listField "expressions" (list1 "Expression" (lit ",")), "Terminator"])

def global : RuleDef :=
  define "Global" (seq [kw "global",
    listField "variables" (list1 (oneOf ["Variable", "VariableExpression"]) (lit ",")),
    "Terminator"])

def staticStatement : RuleDef :=
  define "StaticStatement"
    (seq [kw "static", listField "variables" (list1 "StaticVariable" (lit ",")), "Terminator"])

def staticVariable : RuleDef :=
  define "StaticVariable"
    (seq [field "variable" variableName, field "default" (opt "DefaultValue")])

def unset : RuleDef :=
  define "Unset" (seq [kw "unset", lit "(",
    listField "variables" (trailing (list1 "Expression" (lit ","))), lit ")", "Terminator"])

def constStatement : RuleDef :=
  define "ConstStatement"
    (seq [kw "const", listField "constants" (list1 "ConstantDefinition" (lit ",")), "Terminator"])

def constantDefinition : RuleDef :=
  define "ConstantDefinition"
    (seq [field "constant" memberName, equalsSign, field "value" "Expression"])

def useStatement : RuleDef :=
  define "Use" (seq [kw "use",
    field "type" (opt ((reIgnoringCase "(?:function|const)\\b").withTransform .lowercase)),
    listField "uses" (list1 "UseClause" (lit ",")), "Terminator"])

def useClause : RuleDef :=
  define "UseClause" (seq [field "name" "Name", field "alias" (opt "UseAlias")])

def useAlias : RuleDef :=
  (define "UseAlias" (seq [kw "as", field "alias" "Identifier"])).picking "alias"

def emptyStatement : RuleDef :=
  (define "EmptyStatement" (silent (lit ";"))).asEmptyNode

def expressionStatement : RuleDef :=
  define "ExpressionStatement" (seq [field "expression" "Expression", "Terminator"])

end PhpSyntax.Php
