import PhpSyntax.Php.Class
import PhpSyntax.Php.ControlFlow
import PhpSyntax.Php.Function
import PhpSyntax.Php.Interpolation
import PhpSyntax.Php.Literal
import PhpSyntax.Php.Member
import PhpSyntax.Php.Program
import PhpSyntax.Php.Statement
import PhpSyntax.Php.Term
import PhpSyntax.Php.Trivia

namespace PhpSyntax.Php

open Peg

def statementRules : List RuleDef :=
  [program, leadingHtml, topStatement, haltCompiler, nestedHaltCompiler, namespaceStatement,
    terminator, statement, block, colonBody, inlineHtml, echoTag, functionDeclaration,
    parameterList, parameter, defaultValue, typeHint, returnType, ifStatement, braceIf, elseIf,
    colonIf, colonElseIf, whileLoop, doWhile, forLoop, foreach, foreachKey, switch, switchCase,
    caseClause, defaultCase, breakStatement, continueStatement, returnStatement, tryStatement,
    catchClause, finallyClause, throwStatement, goto, label, echoStatement, global,
    staticStatement, staticVariable, unset, constStatement, constantDefinition, useStatement,
    useClause, useAlias, declareStatement, declareDirective, emptyStatement, expressionStatement]

def classRules : List RuleDef :=
  [classDeclaration, extendsClause, implementsClause, interfaceDeclaration, interfaceExtends,
    traitDeclaration, classMember, traitUse, traitRules, traitAdaptation, traitMethodReference,
    traitPrecedence, traitAlias, classConstantDeclaration, method, propertyDeclaration,
    propertyDefinition]

def operatorRules : List RuleDef :=
  [expression, logicalOrLevel, logicalXorLevel, logicalAndLevel, printLevel, printExpression,
    assignmentLevel, assignmentExpression, assignmentOperator, listAssignment, arrayDestructure,
    destructureElement, destructureKeyValue, assignableTarget, ternaryLevel, ternaryOperand,
    shorthandOperand, fullOperand, coalesceLevel, booleanOrLevel, booleanAndLevel, bitwiseOrLevel,
    bitwiseXorLevel, bitwiseAndLevel, equalityLevel, relationalLevel, shiftLevel, additiveLevel,
    multiplicativeLevel, logicalNotLevel, notExpression, instanceOfLevel, unaryLevel, unaryOperand,
    cast, suppress, prefixUpdate, signedExpression, cloneExpression, powerLevel,
    postfixUpdateLevel]

def memberRules : List RuleDef :=
  [postfixLevel, member, indexMembers, indexSegment, propertyMembers, propertySegment,
    methodMember, staticMethodMember, staticPropertyMember, classConstantMember, callMember,
    memberNameRule, bracedExpression, argumentList, argument, spread, classReference,
    classVariable]

def termRules : List RuleDef :=
  [term, parenthesized, variableExpression, arrayLiteral, arrayElement, keyValuePair, reference,
    closure, closureUse, closureBinding, arrowFunction, new, isset, empty, exit, exitStatus, eval,
    inclusion, specialClass, selfReference, staticReference, parentReference, constant]

def stringRules : List RuleDef :=
  [singleQuotedString, doubleQuotedString, heredoc, nowdoc, stringParts, heredocParts, stringPart,
    heredocPart, doubleQuotedText, heredocText, interpolation, complexInterpolation,
    bracedVariableName, bracedVariableIndex, bracedName, bracedIndex, bracedVariableExpression,
    simpleInterpolation, interpolatedIndex, interpolatedKey, interpolatedProperty]

def lexicalRules : List RuleDef :=
  [reservedWord, identifier, qualifiedName, bareName, variableRule, float, integer, boolean, null,
    magicConstant, modifier]

def rules : List RuleDef :=
  statementRules ++ classRules ++ operatorRules ++ memberRules ++ termRules ++ stringRules
    ++ lexicalRules

def startRule : String := "Program"

/-- The rules that a parse may start from: a file, and the bodies of strings and heredocs. -/
def roots : List String := [startRule, "StringParts", "HeredocParts"]

def linked : Except LinkError Grammar :=
  Grammar.link rules (some trivia)

def grammar : Grammar :=
  match linked with
  | .ok g => g
  | .error _ => ⟨#[], ∅, none⟩

end PhpSyntax.Php
