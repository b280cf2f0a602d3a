import PhpSyntax.Peg.Build

namespace PhpSyntax.Php

open Peg

def isIdentStart (c : Char) : Bool :=
  c.isAlpha || c == '_' || 128 ≤ c.toNat

def isIdentChar (c : Char) : Bool :=
  c.isAlphanum || c == '_' || 128 ≤ c.toNat

def ident : String :=
  "[a-zA-Z_\\x\x7b80\x7d-\\x\x7b10FFFF\x7d][a-zA-Z0-9_\\x\x7b80\x7d-\\x\x7b10FFFF\x7d]*"

/-- The words that cannot name functions, constants or classes. `self`, `static` and `parent` can
stand where a class is named. -/
def reservedWords : List String :=
  ["__halt_compiler", "abstract", "and", "array", "as", "break", "callable", "case", "catch",
    "class", "clone", "const", "continue", "declare", "default", "die", "do", "echo", "else",
    "elseif", "empty", "enddeclare", "endfor", "endforeach", "endif", "endswitch", "endwhile",
    "eval", "exit", "extends", "final", "finally", "fn", "for", "foreach", "function", "global",
    "goto", "if", "implements", "include", "include_once", "instanceof", "insteadof",
    "interface", "isset", "list", "namespace", "new", "or", "print", "private", "protected",
    "public", "require", "require_once", "return", "switch", "throw", "trait", "try", "unset",
    "use", "var", "while", "xor"]

/-- The name of a variable, without its dollar sign. -/
def variableName : Terminal :=
  (re ("\\$(" ++ ident ++ ")")).withGroup 1

/-- A name where reserved words are names too: behind an arrow or a double colon, and in the
declarations of members. -/
def memberName : Terminal :=
  re ident

/-- An operator that none of the characters `next` follows, so that it is not the start of a
longer one. -/
def operator (p : PatternDef) (next : String) : PatternDef :=
  seq [p, notAhead (raw (re next))]

def reservedWord : RuleDef :=
  define "ReservedWord" (reIgnoringCase ("(?:" ++ "|".intercalate reservedWords ++ ")\\b"))

def identifier : RuleDef :=
  (define "Identifier" (seq [notAhead "ReservedWord", field "identifier" (re ident)])).picking
    "identifier"

def qualifiedName : RuleDef :=
  (define "Name" (seq [notAhead "ReservedWord",
    field "name" (re ("\\\\?" ++ ident ++ "(?:\\\\" ++ ident ++ ")*"))])).picking "name"

def bareName : RuleDef :=
  defineAs "BareName" "String" (seq [field "string" "Name"])

def variableRule : RuleDef :=
  define "Variable" (seq [field "variable" variableName])

end PhpSyntax.Php
