import PhpSyntax.Php.Name

namespace PhpSyntax.Php

open Peg

def term : RuleDef :=
  define "Term" (oneOf ["Parenthesized", "Variable", "VariableExpression", "ArrayLiteral",
    "Closure", "ArrowFunction", "New", "Isset", "Empty", "Exit", "Eval", "Include", "Float",
    "Integer", "SingleQuotedString", "DoubleQuotedString", "Nowdoc", "Heredoc", "Boolean", "Null",
    "MagicConstant", "SpecialClass", "Constant", "BareName"])

def inParentheses : PatternDef :=
  seq [lit "(", field "expression" "Expression", lit ")"]

def parenthesized : RuleDef :=
  (define "Parenthesized" inParentheses).picking "expression"

def variableExpression : RuleDef :=
  define "VariableExpression" (seq [lit "$",
    field "expression" (oneOf ["Variable", "VariableExpression", "BracedExpression"])])

def arrayElements : ComponentDef :=
  listField "elements" (trailing (list "ArrayElement" (lit ",")))

def arrayLiteral : RuleDef :=
  defineAs "ArrayLiteral" "Array" (oneOf [
    seq [kw "array", lit "(", arrayElements, lit ")"],
    seq [lit "[", arrayElements, lit "]"]])

def arrayElement : RuleDef :=
  define "ArrayElement" (oneOf ["KeyValuePair", "Reference", "Spread", "Expression"])

def keyValuePair : RuleDef :=
  define "KeyValuePair" (seq [field "key" "Expression", lit "=>",
    field "value" (oneOf ["Reference", "Expression"])])

def reference : RuleDef :=
  define "Reference" (seq [lit "&", field "operand" "AssignableTarget"])

def closure : RuleDef :=
  define "Closure" (seq [flag "static" (opt (kw "static")), kw "function",
    flag "by_reference" (opt (lit "&")), field "args" "ParameterList",
    listField "bind" (opt "ClosureUse"), field "return_type" (opt "ReturnType"),
    field "body" "Block"])

def closureUse : RuleDef :=
  (define "ClosureUse" (seq [kw "use", lit "(",
    listField "bindings" (trailing (list1 "ClosureBinding" (lit ","))), lit ")"])).picking
      "bindings"

def closureBinding : RuleDef :=
  define "ClosureBinding"
    (seq [flag "by_reference" (opt (lit "&")), field "variable" variableName])

def arrowFunction : RuleDef :=
  define "ArrowFunction" (seq [flag "static" (opt (kw "static")), kw "fn",
    flag "by_reference" (opt (lit "&")), field "args" "ParameterList",
    field "return_type" (opt "ReturnType"), lit "=>", field "expression" "Expression"])

def new : RuleDef :=
  define "New" (seq [kw "new", field "class" "ClassReference",
    listField "args" (opt "ArgumentList")])

def isset : RuleDef :=
  define "Isset" (seq [kw "isset", lit "(",
    listField "variables" (trailing (list1 "Expression" (lit ","))), lit ")"])

def empty : RuleDef :=
  define "Empty" (seq [kw "empty", inParentheses])

def exit : RuleDef :=
  define "Exit" (seq [reIgnoringCase "(?:exit|die)\\b", field "status" (opt "ExitStatus")])

def exitStatus : RuleDef :=
  (define "ExitStatus"
    (seq [lit "(", field "status" (opt "Expression"), lit ")"])).picking "status"

def eval : RuleDef :=
  define "Eval" (seq [kw "eval", field "code" "Parenthesized"])

def inclusion : RuleDef :=
  define "Include" (seq [
    field "type" ((reIgnoringCase "(?:include|require)(?:_once)?\\b").withTransform .lowercase),
    field "path" "Expression"])

def specialClass : RuleDef :=
  define "SpecialClass" (oneOf ["SelfReference", "StaticReference", "ParentReference"])

/-- A word that stands for a class where a member of it follows. -/
def classWord (name word : String) : RuleDef :=
  (define name (seq [kw word, ahead (lit "::")])).asEmptyNode

def selfReference : RuleDef :=
  classWord "SelfReference" "self"

def staticReference : RuleDef :=
  classWord "StaticReference" "static"

def parentReference : RuleDef :=
  classWord "ParentReference" "parent"

/-- A name that is not called and of which no member is asked for. -/
def constant : RuleDef :=
  define "Constant"
    (seq [field "constant" "Name", notAhead (oneOf [lit "(", lit "::"])])

end PhpSyntax.Php
