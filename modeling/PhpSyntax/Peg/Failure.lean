import PhpSyntax.Message.Key
import PhpSyntax.Source.Position

namespace PhpSyntax.Peg

inductive Failure where
  /-- Nothing matched; `furthest` is the last offset at which something was missing. -/
  | mismatch (furthest : Nat) (atEnd : Bool) (unexpected : Option Char)
  /-- A construct that was recognised and is not allowed. -/
  | fatal (key : String) (span : Span) (placeholders : List (String × String))
  deriving DecidableEq

namespace Failure

def isFatal : Failure → Bool
  | .mismatch .. => false
  | .fatal .. => true

def start : Failure → Nat
  | .mismatch furthest _ _ => furthest
  | .fatal _ span _ => span.start

def furthest : Failure → Nat
  | .mismatch furthest _ _ => furthest
  | .fatal _ span _ => span.stop

def message (f : Failure) : String :=
  "parse failed at offset " ++ toString f.furthest

/-- Rules are nested deeper than `limit` allows. -/
def tooDeep (limit offset : Nat) : Failure :=
  .fatal Message.nestingTooDeep ⟨offset, offset⟩ [("depth", toString limit)]

end Failure

end PhpSyntax.Peg
