import PhpSyntax.Php.Access
import PhpSyntax.Php.Name

namespace PhpSyntax.Php

open Peg

def postfixLevel : RuleDef :=
  ((define "PostfixLevel" (seq [field "root" "Term",
    listField "members" (many "Member")])).ifNothing "members" "root").processedBy foldMembers

def member : RuleDef :=
  define "Member" (oneOf ["IndexMembers", "PropertyMembers", "MethodMember", "StaticMethodMember",
    "StaticPropertyMember", "ClassConstantMember", "CallMember"])

def indexMembers : RuleDef :=
  define "IndexMembers" (seq [listField "indices" (many1 "IndexSegment")])

def indexSegment : RuleDef :=
  define "IndexSegment" (seq [lit "[", field "index" (opt "Expression"), lit "]"])

def propertyMembers : RuleDef :=
  define "PropertyMembers" (seq [listField "properties" (many1 "PropertySegment")])

/-- With a parenthesis behind its name it is a method. -/
def propertySegment : RuleDef :=
  define "PropertySegment"
    (seq [lit "->", field "property" "MemberName", notAhead (lit "(")])

def methodMember : RuleDef :=
  define "MethodMember"
    (seq [lit "->", field "method" "MemberName", field "args" "ArgumentList"])

def staticMethodMember : RuleDef :=
  define "StaticMethodMember"
    (seq [lit "::", field "method" "MemberName", field "args" "ArgumentList"])

def staticPropertyMember : RuleDef :=
  define "StaticPropertyMember" (seq [lit "::", field "property" variableName])

def classConstantMember : RuleDef :=
  define "ClassConstantMember" (seq [lit "::", field "constant" memberName])

def callMember : RuleDef :=
  define "CallMember" (seq [field "args" "ArgumentList"])

def memberNameRule : RuleDef :=
  define "MemberName" (oneOf [memberName, "Variable", "BracedExpression"])

def bracedExpression : RuleDef :=
  (define "BracedExpression"
    (seq [lit "\x7b", field "expression" "Expression", lit "\x7d"])).picking "expression"

def argumentList : RuleDef :=
  (define "ArgumentList" (seq [lit "(",
    listField "args" (trailing (list "Argument" (lit ","))), lit ")"])).picking "args"

def argument : RuleDef :=
  define "Argument" (oneOf ["Spread", "Expression"])

def spread : RuleDef :=
  define "Spread" (seq [lit "...", field "operand" "Expression"])

/-- What names a class behind `new` and `instanceof`. -/
def classReference : RuleDef :=
  define "ClassReference" (oneOf ["ClassVariable", "BareName"])

def classVariable : RuleDef :=
  ((define "ClassVariable" (seq [field "root" (oneOf ["Variable", "VariableExpression"]),
    listField "members" (many (oneOf ["IndexMembers", "PropertyMembers",
      "StaticPropertyMember"]))])).ifNothing "members" "root").processedBy foldMembers

end PhpSyntax.Php
