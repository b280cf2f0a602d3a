import PhpSyntax.Php.Access
import PhpSyntax.Php.Heredoc

namespace PhpSyntax.Php

open Peg

/-- Whether a character and the one behind it begin an interpolation. -/
def interpolates (c : Char) (next : Option Char) : Bool :=
  match c, next with
  | '$', some d => d == '\x7b' || isIdentStart d
  | '\x7b', some d => d == '$'
  | _, _ => false

/-- The text up to the next interpolation. A backslash keeps the character behind it literal. -/
def literalRun : List Char → List Char
  | [] => []
  | '\\' :: c :: cs => '\\' :: c :: literalRun cs
  | c :: cs => if interpolates c cs.head? then [] else c :: literalRun cs

def scanLiteralRun (set : Literal.EscapeSet) (cs : List Char) : Option (Nat × Value) :=
  match literalRun cs with
  | [] => none
  | run => some (byteLength run, .text (set.apply (String.ofList run)))

def doubleQuotedTextScanner : Scanner :=
  ⟨"double-quoted text", scanLiteralRun .doubleQuoted⟩

def heredocTextScanner : Scanner :=
  ⟨"heredoc text", scanLiteralRun .heredoc⟩

def stringLiteral (s : String) : Node :=
  .ofEntries "StringLiteral" [("string", .text s)]

def nonEmptyParts : Processor := fun v ctx =>
  match v.toList with
  | [] => .ok (.list [.node (ctx.covering (stringLiteral "") none none)])
  | parts => .ok (.list parts)

/-- Parts that are one literal run are a literal; others make a string expression. -/
def stringOfParts (parts : List Value) : Node :=
  match parts with
  | [.node part] =>
    if part.name == "StringLiteral" then stringLiteral ((part.text? "string").getD "")
    else .ofEntries "StringExpression" [("parts", .list parts)]
  | _ => .ofEntries "StringExpression" [("parts", .list parts)]

/-- A body that cannot be split stays one literal. -/
def interpolateDoubleQuoted : Processor
  | .node n, ctx => do
    let body := (n.text? "string").getD ""
    match ← ctx.reparse "StringParts" body (ctx.span.start + 1) with
    | some parts => return .node (stringOfParts parts.toList)
    | none => return .node n
  | v, _ => .ok v

/-- The number of bytes in front of a document's body. -/
def headerLength (cs : List Char) : Nat :=
  match docHeader? cs with
  | some header => byteLength cs - byteLength header.body
  | none => 0

def interpolateHeredoc : Processor
  | .node n, ctx => do
    let body := (n.text? "body").getD ""
    match ← ctx.reparse "HeredocParts" body (ctx.span.start + headerLength ctx.text) with
    | some parts => return .node (.ofEntries "Heredoc" [("parts", parts)])
    | none => return .node n
  | v, _ => .ok v

def singleQuotedString : RuleDef :=
  defineAs "SingleQuotedString" "StringLiteral" (seq [field "string"
    (((re "'((?:[^'\\\\]|\\\\[\\s\\S])*)'").withGroup 1).withTransform (.escapes .singleQuoted))])

def doubleQuotedString : RuleDef :=
  (defineAs "DoubleQuotedString" "StringLiteral" (seq [field "string"
    ((re "\"((?:[^\"\\\\]|\\\\[\\s\\S])*)\"").withGroup 1)])).processedBy interpolateDoubleQuoted

def heredoc : RuleDef :=
  (define "Heredoc" (seq [field "body" (scan heredocScanner)])).processedBy interpolateHeredoc

def nowdoc : RuleDef :=
  define "Nowdoc" (seq [field "string" (scan nowdocScanner)])

def stringParts : RuleDef :=
  ((define "StringParts" (seq [listField "parts" (many "StringPart"), atEnd])).picking
    "parts").processedBy nonEmptyParts

def heredocParts : RuleDef :=
  ((define "HeredocParts" (seq [listField "parts" (many "HeredocPart"), atEnd])).picking
    "parts").processedBy nonEmptyParts

def stringPart : RuleDef :=
  define "StringPart" (oneOf ["Interpolation", "DoubleQuotedText"])

def heredocPart : RuleDef :=
  define "HeredocPart" (oneOf ["Interpolation", "HeredocText"])

def doubleQuotedText : RuleDef :=
  defineAs "DoubleQuotedText" "StringLiteral"
    (seq [field "string" (scan doubleQuotedTextScanner)])

def heredocText : RuleDef :=
  defineAs "HeredocText" "StringLiteral" (seq [field "string" (scan heredocTextScanner)])

def interpolation : RuleDef :=
  define "Interpolation" (oneOf ["ComplexInterpolation", "BracedVariableName",
    "BracedVariableIndex", "BracedVariableExpression", "SimpleInterpolation"])

/-- A full expression in braces; blanks are allowed inside. -/
def complexInterpolation : RuleDef :=
  (define "ComplexInterpolation" (seq [lit "\x7b", ahead (lit "$"),
    cooked (field "expression" "Expression"), cooked (lit "\x7d")])).picking "expression"

def bracedVariableName : RuleDef :=
  defineAs "BracedVariableName" "Variable"
    (seq [lit "$\x7b", field "variable" (re ident), lit "\x7d"])

/-- An index in the braces belongs to the variable that they name. -/
def bracedVariableIndex : RuleDef :=
  ((define "BracedVariableIndex" (seq [lit "$\x7b", field "root" "BracedName",
    listField "members" "BracedIndex", cooked (lit "\x7d")])).ifNothing "members"
      "root").processedBy foldMembers

def bracedName : RuleDef :=
  defineAs "BracedName" "Variable" (seq [field "variable" (re ident)])

def bracedIndex : RuleDef :=
  defineAs "BracedIndex" "IndexSegment"
    (seq [lit "[", cooked (field "index" "Expression"), cooked (lit "]")])

def bracedVariableExpression : RuleDef :=
  defineAs "BracedVariableExpression" "VariableExpression"
    (seq [lit "$\x7b", cooked (field "expression" "Expression"), cooked (lit "\x7d")])

/-- A variable with at most one index or property behind it. -/
def simpleInterpolation : RuleDef :=
  ((define "SimpleInterpolation" (seq [field "root" "Variable",
    listField "members" (opt (oneOf ["InterpolatedIndex", "InterpolatedProperty"]))])).ifNothing
    "members" "root").processedBy foldMembers

def interpolatedIndex : RuleDef :=
  defineAs "InterpolatedIndex" "IndexSegment"
    (seq [lit "[", field "index" (oneOf ["Integer", "Variable", "InterpolatedKey"]), lit "]"])

def interpolatedKey : RuleDef :=
  defineAs "InterpolatedKey" "String" (seq [field "string" (re ident)])

def interpolatedProperty : RuleDef :=
  defineAs "InterpolatedProperty" "PropertySegment"
    (seq [lit "->", field "property" (re ident)])

end PhpSyntax.Php
