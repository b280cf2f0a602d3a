import PhpSyntax.Message.Diagnostic
import PhpSyntax.Peg.Session
import PhpSyntax.Php.Table

namespace PhpSyntax

/-- The settings of a parse. -/
structure Parser where
  /-- The path that errors report. -/
  path : Option String
  catalog : Message.Catalog
  options : Options

namespace Parser

def standard : Parser :=
  ⟨none, .standard, .off⟩

def withOptions (options : Options) : Parser :=
  ⟨none, .standard, options⟩

def setPath (p : Parser) (path : String) : Parser :=
  { p with path := some path }

def session (options : Options) (source : Text) : Peg.Session :=
  .start ⟨Php.grammar, .ofText source, options, Peg.defaultLimit⟩ ⟨source, 0⟩

/-- The program node of a source. -/
def run (options : Options) (source : Text) : Except Peg.Failure Node :=
  match (session options source).run Php.startRule true with
  | (.ok (.node n), _) => .ok n
  | (.ok _, s) => .error (.mismatch s.furthest true none)
  | (.error e, _) => .error e

def parse (p : Parser) (source : String) : Except Diagnostic Node :=
  let text := Text.ofString source
  match run p.options text with
  | .ok n => .ok n
  | .error e => .error (.ofFailure p.catalog (p.path.getD Diagnostic.defaultPath) text e)

end Parser

end PhpSyntax
