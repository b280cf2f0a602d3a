import PhpSyntax.Check.Report
import PhpSyntax.Cli.Arguments
import PhpSyntax.Cli.FileTree
import PhpSyntax.Parser
import PhpSyntax.Render.Json
import PhpSyntax.Render.Yaml
import PhpSyntax.Source.OptionsReader

namespace PhpSyntax.Cli

/-- What a program leaves behind. -/
structure Outcome where
  code : Nat
  output : String
  /-- The lines written to the error stream. -/
  errors : List String

namespace Outcome

def success (output : String) : Outcome := ⟨0, output, []⟩

/-- The command could not be carried out after it had written `output`. -/
def failure (output message : String) : Outcome :=
  ⟨2, output, ("Error: " ++ message).splitOn "\n"⟩

end Outcome

def render (format : Format) (n : Node) : String :=
  match format with
  | .json => Json.pretty 0 (.ofNode n)
  | .yaml => Yaml.render (.ofNode n)

def trimEnd (s : String) : String :=
  String.ofList (s.toList.reverse.dropWhile Unicode.isSpace).reverse

def printed (format : Format) (n : Node) : String :=
  trimEnd (render format n) ++ "\n"

def readText (files : Files) (path : String) : Except FileError String :=
  (files path).bind FileTree.read

def readOptions (files : Files) : Option String → Except String Options
  | none => .ok .off
  | some path =>
    match readText files path with
    | .error e => .error e.message
    | .ok text =>
      match Options.ofJson? text with
      | some options => .ok options
      | none => .error (path ++ " holds no parse options")

def ast (files : Files) (r : AstRequest) : Outcome :=
  match readOptions files r.optionsFile with
  | .error message => .failure "" message
  | .ok given =>
    match readText files r.file with
    | .error e => .failure "" e.message
    | .ok source =>
      let options := ⟨given.captureBounds || r.bounds, given.captureOffsets || r.offsets⟩
      match ((Parser.withOptions options).setPath (r.pathName.getD r.file)).parse source with
      | .ok program => .success (printed r.format program)
      | .error d => ⟨1, "", [d.display]⟩

/-- The line of a file that was checked, and another if it cannot be parsed. -/
def statusLines (path : String) : Option Diagnostic → String
  | none => "  ok " ++ path ++ "\n"
  | some d => "FAIL " ++ path ++ "\n     " ++ d.display ++ "\n"

def failureOf? (path source : String) : Option Diagnostic :=
  match (Parser.standard.setPath path).parse source with
  | .ok _ => none
  | .error d => some d

/-- Checks files one after the other, up to one that cannot be read. -/
def checkFrom (output : String) (checked failed : Nat) : List (String × FileTree) → Outcome
  | [] =>
    ⟨if failed = 0 then 0 else 1,
      output ++ toString checked ++ " checked, " ++ toString failed ++ " failed\n", []⟩
  | (path, t) :: rest =>
    match t.read with
    | .error e => .failure output e.message
    | .ok source =>
      let failure := failureOf? path source
      checkFrom (output ++ statusLines path failure) (checked + 1)
        (if failure.isSome then failed + 1 else failed) rest

def check (files : Files) (path : String) : Outcome :=
  match files path with
  | .ok t => checkFrom "" 0 0 (t.toCheck path)
  | .error _ => .failure "" (path ++ " does not exist")

/-- The report on the rule table, under a heading. -/
def reportTable (heading : String) : Outcome :=
  let report := Check.reportGrammar Php.grammar Php.roots
  ⟨if report.isValid then 0 else 1, heading ++ "\n" ++ report.render, []⟩

def ruleCount : String :=
  toString Php.grammar.rules.size ++ " rules"

def usage : String :=
  "Usage: phpast [--verbose] <COMMAND>\n\n" ++
  "  ast FILE [--bounds] [--offsets] [--options FILE] [--path-name NAME] [--format json|yaml]\n" ++
  "  check PATH\n" ++
  "  grammar\n"

def perform (files : Files) : Command → Outcome
  | .ast request => ast files request
  | .check path => check files path
  | .grammar => reportTable ruleCount
  | .version => .success "phpast 0.1.0\n"
  | .help => .success usage

inductive Program where
  | parsing
  | tableReport

/-- Runs a program on its arguments. -/
def run (files : Files) (args : List String) : Program → Outcome
  | .parsing =>
    match command? args with
    | some command => perform files command
    | none => ⟨2, "", [usage]⟩
  | .tableReport => reportTable ("Validating PHP grammar (" ++ ruleCount ++ ")")

end PhpSyntax.Cli
