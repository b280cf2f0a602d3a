import PhpSyntax.Proofs.Php.Variable
import PhpSyntax.Php.Fold

namespace PhpSyntax.Php

/-- The binary operators of each level, loosest first. Assignments are at level 3, ternaries at
level 4 and variables at level 17. -/
def signs : Nat → List String
  | 0 => ["or"]
  | 1 => ["xor"]
  | 2 => ["and"]
  | 5 => ["??"]
  | 6 => ["||"]
  | 7 => ["&&"]
  | 8 => ["|"]
  | 9 => ["^"]
  | 10 => ["&"]
  | 11 => ["===", "!==", "==", "!=", "<>", "<=>"]
  | 12 => ["<=", ">=", "<", ">"]
  | 13 => ["<<", ">>"]
  | 14 => ["+", "-", "."]
  | 15 => ["*", "/", "%"]
  | 16 => ["**"]
  | _ => []

/-- A binary operator. -/
structure Infix where
  level : Nat
  sign : String
  listed : sign ∈ signs level

namespace Infix

/-- The loosest level that the left operand may have without parentheses. -/
def leftSlot (op : Infix) : Nat :=
  if op.level = 5 then 6 else if op.level = 16 then 17 else op.level

/-- The loosest level that the right operand may have without parentheses. -/
def rightSlot (op : Infix) : Nat :=
  if op.level = 5 then 5 else if op.level = 16 then 16 else op.level + 1

end Infix

def spaced (token : String) : List Char :=
  ' ' :: (token.toList ++ [' '])

inductive Expr where
  | var (x : Ident)
  | binary (op : Infix) (left right : Expr)
  | ternary (condition consequent alternate : Expr)
  /-- A ternary without a consequent. -/
  | shorthand (condition alternate : Expr)
  | assignment (target : Ident) (value : Expr)

/-- How tokens are set that may touch: whether there is a blank inside parentheses, and whether the
question mark and the colon of a ternary without a consequent are one token. -/
structure Style where
  padded : Bool
  joined : Bool

namespace Style

def padding (st : Style) : List Char :=
  if st.padded then [' '] else []

def parenthesize (st : Style) (cs : List Char) : List Char :=
  '(' :: (st.padding ++ (cs ++ (st.padding ++ [')'])))

def elvis (st : Style) : List Char :=
  if st.joined then spaced "?:" else spaced "? :"

end Style

namespace Expr

def level : Expr → Nat
  | var _ => 17
  | binary op _ _ => op.level
  | ternary .. => 4
  | shorthand .. => 4
  | assignment .. => 3

/-- The text of an expression where expressions from the level `least` on stand bare. -/
def inSlot (st : Style) (least : Nat) (e : Expr) (text : List Char) : List Char :=
  if least ≤ e.level then text else st.parenthesize text

/-- An expression with one blank between tokens, and parentheses where an operand is looser than its
place allows. -/
def print (st : Style) : Expr → List Char
  | var x => '$' :: x.chars
  | binary op left right =>
    left.inSlot st op.leftSlot (left.print st) ++ (spaced op.sign ++
      right.inSlot st op.rightSlot (right.print st))
  | ternary condition consequent alternate =>
    condition.inSlot st 5 (condition.print st) ++ (spaced "?" ++
      (consequent.inSlot st 3 (consequent.print st) ++ (spaced ":" ++
        alternate.inSlot st 4 (alternate.print st))))
  | shorthand condition alternate =>
    condition.inSlot st 5 (condition.print st) ++ (st.elvis ++
      alternate.inSlot st 4 (alternate.print st))
  | assignment target value =>
    '$' :: target.chars ++ (spaced "=" ++ value.inSlot st 3 (value.print st))

/-- An operand, as it stands in a place for expressions from the level `least` on. -/
def operand (st : Style) (least : Nat) (e : Expr) : List Char :=
  e.inSlot st least (e.print st)

def variableNode (x : Ident) : Value :=
  .node (.ofEntries "Variable" [("variable", .text (String.ofList x.chars))])

/-- The tree that stands for an expression. -/
def value : Expr → Value
  | var x => variableNode x
  | binary op left right => .node (.ofEntries "BinaryExpression"
    [("left", left.value), ("operator", .text op.sign), ("right", right.value)])
  | ternary condition consequent alternate => .node (.ofEntries "Ternary"
    [("condition", condition.value), ("consequent", consequent.value),
      ("alternate", alternate.value)])
  | shorthand condition alternate => .node (.ofEntries "Ternary"
    [("condition", condition.value), ("consequent", .null), ("alternate", alternate.value)])
  | assignment target value => .node (.ofEntries "Assignment"
    [("target", variableNode target), ("operator", .text "="), ("by_reference", .bool false),
      ("value", value.value)])

/-- A program of one statement, which is the printed expression. -/
def source (st : Style) (e : Expr) : String :=
  "<?php " ++ String.ofList (e.print st) ++ ";"

def program (e : Expr) : Node :=
  .ofEntries "Program" [("statements",
    .list [.node (.ofEntries "ExpressionStatement" [("expression", e.value)])])]

end Expr

end PhpSyntax.Php
