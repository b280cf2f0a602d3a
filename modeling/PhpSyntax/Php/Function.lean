import PhpSyntax.Php.Operator

namespace PhpSyntax.Php

open Peg

def functionDeclaration : RuleDef :=
  define "FunctionDeclaration" (seq [kw "function", flag "by_reference" (opt (lit "&")),
    field "func" "Identifier", field "args" "ParameterList",
    field "return_type" (opt "ReturnType"), field "body" "Block"])

def parameterList : RuleDef :=
  (define "ParameterList" (seq [lit "(",
    listField "params" (trailing (list "Parameter" (lit ","))), lit ")"])).picking "params"

def parameter : RuleDef :=
  define "Parameter" (seq [field "type" (opt "TypeHint"), flag "by_reference" (opt (lit "&")),
    flag "variadic" (opt (lit "...")), field "variable" variableName,
    field "default" (opt "DefaultValue")])

def defaultValue : RuleDef :=
  (define "DefaultValue" (seq [equalsSign, field "value" "Expression"])).picking "value"

def typeHint : RuleDef :=
  defineAs "TypeHint" "Type" (seq [flag "nullable" (opt (lit "?")), field "type" (oneOf [
    (reIgnoringCase "(?:array|callable)\\b").withTransform .lowercase, "Name"])])

def returnType : RuleDef :=
  (define "ReturnType" (seq [lit ":", field "type" "TypeHint"])).picking "type"

end PhpSyntax.Php
