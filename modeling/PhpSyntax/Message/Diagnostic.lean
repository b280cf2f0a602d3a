import PhpSyntax.Message.Catalog
import PhpSyntax.Peg.Failure

namespace PhpSyntax

inductive Severity where
  /-- The source is not well formed. -/
  | parse
  /-- The source uses a construct where it is not allowed. -/
  | fatal
  deriving DecidableEq

structure Diagnostic where
  severity : Severity
  message : String
  path : String
  line : Nat
  offset : Nat
  length : Nat
  deriving DecidableEq

namespace Diagnostic

def defaultPath : String := "(program)"

/-- The whole message, as it is shown. -/
def display (d : Diagnostic) : String :=
  let title := match d.severity with
    | .parse => "PHP Parse error: "
    | .fatal => "PHP Fatal error: "
  title ++ d.message ++ " in " ++ d.path ++ " on line " ++ toString d.line

def code (d : Diagnostic) : String :=
  match d.severity with
  | .parse => "php::parse"
  | .fatal => "php::fatal"

/-- Fatal errors are reported at the first line of their construct, others at the furthest place
that the parse reached. -/
def ofFailure (catalog : Message.Catalog) (path : String) (source : Text) :
    Peg.Failure → Diagnostic
  | .fatal key span placeholders =>
    ⟨.fatal, catalog.message key placeholders, path, (Lines.ofText source).line span.start,
      span.start, span.length⟩
  | .mismatch furthest atEnd unexpected =>
    let offset := min furthest source.size
    let line := (Lines.ofText source).line offset
    match atEnd, unexpected with
    | false, some c =>
      ⟨.parse, catalog.message Message.unexpectedCharacter [("what", c.toString)], path, line,
        offset, c.utf8Size⟩
    | _, _ => ⟨.parse, catalog.message Message.unexpectedEnd [], path, line, offset, 0⟩

end Diagnostic

end PhpSyntax
