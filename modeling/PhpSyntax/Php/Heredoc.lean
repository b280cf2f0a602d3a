import PhpSyntax.Php.Markup
import PhpSyntax.Php.Name

namespace PhpSyntax.Php

open Peg

inductive DocKind where
  | heredoc
  | nowdoc
  deriving DecidableEq

/-- The header of a document: its kind, its label and what follows on the next line. -/
structure DocHeader where
  kind : DocKind
  label : List Char
  body : List Char

/-- What follows a line terminator at the start of a text. -/
def afterNewline? : List Char → Option (List Char)
  | '\r' :: '\n' :: cs => some cs
  | '\n' :: cs => some cs
  | '\r' :: cs => some cs
  | _ => none

/-- An identifier at the start of a text, and what follows it. -/
def identAt? : List Char → Option (List Char × List Char)
  | [] => none
  | c :: cs =>
    if isIdentStart c then
      let (more, rest) := cs.span isIdentChar
      some (c :: more, rest)
    else none

/-- A label in the given quotes and the end of its line. -/
def quotedLabel? (kind : DocKind) (quote : Char) (cs : List Char) : Option DocHeader :=
  match identAt? cs with
  | some (label, c :: rest) =>
    if c = quote then (afterNewline? rest).map fun body => ⟨kind, label, body⟩ else none
  | _ => none

/-- Three less-than signs, blanks, and a label: bare or in double quotes for a heredoc, in single
quotes for a nowdoc. -/
def docHeader? : List Char → Option DocHeader
  | '<' :: '<' :: '<' :: cs =>
    match cs.dropWhile fun c => c == ' ' || c == '\t' with
    | '\x22' :: cs => quotedLabel? .heredoc '\x22' cs
    | '\x27' :: cs => quotedLabel? .nowdoc '\x27' cs
    | cs =>
      match identAt? cs with
      | some (label, rest) => (afterNewline? rest).map fun body => ⟨.heredoc, label, body⟩
      | none => none
  | _ => none

/-- Whether a line begins with the label and no identifier goes on behind it. -/
def closes (label line : List Char) : Bool :=
  match afterText? label line with
  | some rest => !rest.head?.any isIdentChar
  | none => false

/-- The text in front of the first closing line; `fresh` tells that a line begins here. -/
def beforeClosing? (label : List Char) : Bool → List Char → Option (List Char)
  | fresh, [] => if fresh && closes label [] then some [] else none
  | fresh, '\r' :: '\n' :: cs =>
    if fresh && closes label ('\r' :: '\n' :: cs) then some []
    else (beforeClosing? label true cs).map ('\r' :: '\n' :: ·)
  | fresh, c :: cs =>
    if fresh && closes label (c :: cs) then some []
    else (beforeClosing? label (c == '\n' || c == '\r') cs).map (c :: ·)

/-- A text without the line terminator at its end. -/
def dropNewline (cs : List Char) : List Char :=
  match cs.reverse with
  | '\n' :: '\r' :: rest => rest.reverse
  | _ :: rest => rest.reverse
  | [] => []

/-- A document of the given kind at the start of a text: the bytes up to the end of its closing
label, and its body without the terminator in front of the closing line. -/
def scanDoc (kind : DocKind) (cs : List Char) : Option (Nat × Value) := do
  let header ← docHeader? cs
  guard (header.kind = kind)
  let body ← beforeClosing? header.label true header.body
  return (byteLength cs - byteLength header.body + byteLength body + byteLength header.label,
    .text (String.ofList (dropNewline body)))

def heredocScanner : Scanner :=
  ⟨"heredoc", scanDoc .heredoc⟩

def nowdocScanner : Scanner :=
  ⟨"nowdoc", scanDoc .nowdoc⟩

end PhpSyntax.Php
