import PhpSyntax.Php.Fold
import PhpSyntax.Php.Access
import PhpSyntax.Php.Name

namespace PhpSyntax.Php

open Peg

/-- A level of binary operators that nest to the left. -/
def binaryLevel (name operand : String) (op : PatternDef) : RuleDef :=
  ((defineAs name "BinaryExpression" (seq [field "left" operand,
    listField "right" (many (seq [field "operator" op, field "operand" operand]))])).ifNothing
      "right" "left").processedBy foldBinary

def expression : RuleDef :=
  define "Expression" "LogicalOrLevel"

def logicalOrLevel : RuleDef :=
  binaryLevel "LogicalOrLevel" "LogicalXorLevel" (kw "or")

def logicalXorLevel : RuleDef :=
  binaryLevel "LogicalXorLevel" "LogicalAndLevel" (kw "xor")

def logicalAndLevel : RuleDef :=
  binaryLevel "LogicalAndLevel" "PrintLevel" (kw "and")

def printLevel : RuleDef :=
  define "PrintLevel" (oneOf ["PrintExpression", "AssignmentLevel"])

def printExpression : RuleDef :=
  defineAs "PrintExpression" "Print" (seq [kw "print", field "expression" "PrintLevel"])

def assignmentLevel : RuleDef :=
  define "AssignmentLevel" (oneOf ["ListAssignment", "AssignmentExpression", "TernaryLevel"])

def assignmentExpression : RuleDef :=
  defineAs "AssignmentExpression" "Assignment" (seq [field "target" "AssignableTarget",
    field "operator" "AssignmentOperator", flag "by_reference" (opt (lit "&")),
    field "value" "AssignmentLevel"])

/-- The equals sign of an assignment, which begins no longer operator. -/
def equalsSign : PatternDef :=
  operator (lit "=") "[=>]"

def assignmentOperator : RuleDef :=
  define "AssignmentOperator"
    (oneOf [re "\\*\\*=|\\?\\?=|<<=|>>=|[-+*/.%&|^]=", equalsSign])

def listAssignment : RuleDef :=
  define "ListAssignment"
    (seq [field "target" "ArrayDestructure", equalsSign, field "value" "AssignmentLevel"])

def destructureElements : ComponentDef :=
  listField "elements" (list (opt "DestructureElement") (lit ","))

def arrayDestructure : RuleDef :=
  defineAs "ArrayDestructure" "List" (oneOf [
    seq [kw "list", lit "(", destructureElements, lit ")"],
    seq [lit "[", destructureElements, lit "]"]])

def destructureElement : RuleDef :=
  define "DestructureElement"
    (oneOf ["DestructureKeyValue", "ArrayDestructure", "AssignableTarget"])

def destructureKeyValue : RuleDef :=
  defineAs "DestructureKeyValue" "KeyValuePair" (seq [field "key" "Expression", lit "=>",
    field "value" (oneOf ["ArrayDestructure", "AssignableTarget"])])

/-- Variables and what is accessed behind them: a sum cannot be assigned to. -/
def assignableTarget : RuleDef :=
  ((define "AssignableTarget" (oneOf [
    seq [field "root" (oneOf ["Variable", "VariableExpression"]),
      listField "members" (many "Member")],
    seq [field "root" (oneOf ["SpecialClass", "BareName"]),
      listField "members" (many1 "Member")]])).ifNothing "members" "root").processedBy foldMembers

def ternaryLevel : RuleDef :=
  ((defineAs "TernaryLevel" "Ternary" (seq [field "condition" "CoalesceLevel",
    listField "operands" (many "TernaryOperand")])).ifNothing "operands" "condition").processedBy
      foldTernary

def ternaryOperand : RuleDef :=
  define "TernaryOperand" (oneOf ["ShorthandOperand", "FullOperand"])

def shorthandOperand : RuleDef :=
  define "ShorthandOperand" (seq [lit "?", lit ":", field "shorthand" "CoalesceLevel"])

def fullOperand : RuleDef :=
  define "FullOperand" (seq [lit "?", field "consequent" "AssignmentLevel", lit ":",
    field "alternate" "CoalesceLevel"])

def coalesceLevel : RuleDef :=
  ((defineAs "CoalesceLevel" "BinaryExpression" (seq [field "left" "BooleanOrLevel",
    listField "right" (many (seq [field "operator" (lit "??"),
      field "operand" "BooleanOrLevel"]))])).ifNothing "right" "left").processedBy foldBinaryRight

def booleanOrLevel : RuleDef :=
  binaryLevel "BooleanOrLevel" "BooleanAndLevel" (lit "||")

def booleanAndLevel : RuleDef :=
  binaryLevel "BooleanAndLevel" "BitwiseOrLevel" (lit "&&")

def bitwiseOrLevel : RuleDef :=
  binaryLevel "BitwiseOrLevel" "BitwiseXorLevel" (operator (lit "|") "[|=]")

def bitwiseXorLevel : RuleDef :=
  binaryLevel "BitwiseXorLevel" "BitwiseAndLevel" (operator (lit "^") "=")

def bitwiseAndLevel : RuleDef :=
  binaryLevel "BitwiseAndLevel" "EqualityLevel" (operator (lit "&") "[&=]")

def equalityLevel : RuleDef :=
  binaryLevel "EqualityLevel" "RelationalLevel" (re "===|!==|==|!=|<>|<=>")

def relationalLevel : RuleDef :=
  binaryLevel "RelationalLevel" "ShiftLevel" (operator (re "<=|>=|<|>") "[<>=]")

def shiftLevel : RuleDef :=
  binaryLevel "ShiftLevel" "AdditiveLevel" (operator (re "<<|>>") "[=<]")

def additiveLevel : RuleDef :=
  binaryLevel "AdditiveLevel" "MultiplicativeLevel" (operator (re "[-+.]") "[=.]")

def multiplicativeLevel : RuleDef :=
  binaryLevel "MultiplicativeLevel" "LogicalNotLevel" (operator (re "[*/%]") "[=*]")

def logicalNotLevel : RuleDef :=
  define "LogicalNotLevel" (oneOf ["NotExpression", "InstanceOfLevel"])

def notExpression : RuleDef :=
  defineAs "NotExpression" "UnaryExpression" (seq [field "operator" (lit "!"),
    field "expression" (oneOf ["AssignmentExpression", "LogicalNotLevel"])])

def instanceOfLevel : RuleDef :=
  (defineAs "InstanceOfLevel" "InstanceOf" (seq [field "object" "UnaryLevel",
    opt (seq [kw "instanceof", field "class" "ClassReference"])])).ifNothing "class" "object"

def unaryLevel : RuleDef :=
  define "UnaryLevel" (oneOf ["Cast", "Suppress", "PrefixUpdate", "SignedExpression",
    "CloneExpression", "PowerLevel"])

/-- What a unary operator applies to; an assignment there goes first. -/
def unaryOperand : RuleDef :=
  define "UnaryOperand" (oneOf ["AssignmentExpression", "NotExpression", "UnaryLevel"])

def castType : Terminal :=
  ((reIgnoringCase ("\\(\\s*(int|integer|bool|boolean|float|double|real|string|array|object"
    ++ "|unset|binary)\\s*\\)")).withGroup 1).withTransform .lowercase

def cast : RuleDef :=
  define "Cast" (seq [field "type" castType, field "expression" "UnaryOperand"])

def suppress : RuleDef :=
  define "Suppress" (seq [lit "@", field "expression" "UnaryOperand"])

def prefixUpdate : RuleDef :=
  define "PrefixUpdate"
    (seq [field "operator" (re "\\+\\+|--"), field "operand" "AssignableTarget"])

def signedExpression : RuleDef :=
  defineAs "SignedExpression" "UnaryExpression"
    (seq [field "operator" (re "[-+~]"), field "expression" "UnaryOperand"])

def cloneExpression : RuleDef :=
  defineAs "CloneExpression" "Clone" (seq [kw "clone", field "expression" "UnaryOperand"])

/-- The right operand is a unary level again, so powers nest to the right. -/
def powerLevel : RuleDef :=
  ((defineAs "PowerLevel" "BinaryExpression" (seq [field "left" "PostfixUpdateLevel",
    listField "right" (opt (seq [field "operator" (operator (lit "**") "="),
      field "operand" "UnaryOperand"]))])).ifNothing "right" "left").processedBy foldBinary

def postfixUpdateLevel : RuleDef :=
  (defineAs "PostfixUpdateLevel" "PostfixUpdate" (seq [field "operand" "PostfixLevel",
    field "operator" (opt (re "\\+\\+|--"))])).ifNothing "operator" "operand"

end PhpSyntax.Php
