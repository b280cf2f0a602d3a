import PhpSyntax.Peg.Build

namespace PhpSyntax.Php

open Peg

def float : RuleDef :=
  define "Float" (seq [field "number" (re ("[0-9]*\\.[0-9]+(?:[eE][+-]?[0-9]+)?"
    ++ "|[0-9]+\\.[0-9]*(?:[eE][+-]?[0-9]+)?" ++ "|[0-9]+[eE][+-]?[0-9]+"))])

def integer : RuleDef :=
  define "Integer" (seq [field "number"
    ((re "0[xX][0-9a-fA-F]+|0[bB][01]+|[0-9]+").withTransform .integer)])

def boolean : RuleDef :=
  define "Boolean" (seq [field "bool"
    ((reIgnoringCase "(?:true|false)\\b").withTransform .lowercase)])

def null : RuleDef :=
  (define "Null" (reIgnoringCase "null\\b")).asEmptyNode

def magicConstant : RuleDef :=
  define "MagicConstant" (seq [field "constant" ((reIgnoringCase
    "__(?:LINE|FILE|DIR|FUNCTION|CLASS|TRAIT|METHOD|NAMESPACE)__\\b").withTransform .uppercase)])

end PhpSyntax.Php
