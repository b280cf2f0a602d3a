import PhpSyntax.Peg.Build

namespace PhpSyntax.Php

open Peg

def isTagSpace (c : Char) : Bool :=
  c ∈ [' ', '\t', '\n', '\r', '\x0c']

/-- Whether the text behind a less-than sign and a question mark makes them an opening tag. -/
def opensCode : List Char → Bool
  | '=' :: _ => true
  | p :: h :: q :: rest =>
    p.toLower == 'p' && h.toLower == 'h' && q.toLower == 'p' && rest.head?.all isTagSpace
  | _ => false

def markup : List Char → List Char
  | [] => []
  | '<' :: '?' :: rest => if opensCode rest then [] else '<' :: '?' :: markup rest
  | c :: cs => c :: markup cs

def yieldText (taken : List Char) : Nat × Value :=
  (byteLength taken, .text (String.ofList taken))

def markupScanner : Scanner :=
  ⟨"markup", fun cs => some (yieldText (markup cs))⟩

def restScanner : Scanner :=
  ⟨"rest of input", fun cs => some (yieldText cs)⟩

def openTag : Terminal :=
  reIgnoringCase "<\\?php(?:\\s|\\z)"

def leadingHtml : RuleDef :=
  defineAs "LeadingHtml" "InlineHtml"
    (raw (seq [field "html" (scan markupScanner), opt openTag]))

/-- One newline right behind a closing tag belongs to the tag. -/
def inlineHtml : RuleDef :=
  define "InlineHtml" (seq [lit "?>",
    raw (seq [opt (re "\\r\\n|\\n"), field "html" (scan markupScanner), opt openTag])])

def echoTag : RuleDef :=
  defineAs "EchoTag" "EchoStatement" (seq [lit "<?=",
    listField "expressions" (list1 "Expression" (lit ",")), "Terminator"])

end PhpSyntax.Php
