import PhpSyntax.Cli.Run

namespace PhpSyntax.Cli

def fileError : IO.Error → FileError
  | .noFileOrDirectory .. => .notFound
  | .inappropriateType _ 20 _ => .notDirectory
  | .inappropriateType _ 21 _ => .isDirectory
  | .invalidArgument _ 36 _ => .nameTooLong
  | .permissionDenied .. => .other "Permission denied (os error 13)"
  | e => .other (toString e)

/-- Reads what is at a path: a directory with all that it holds, links aside. -/
partial def load (path : String) : IO FileTree := do
  let place := (← IO.currentDir) / path
  match (← place.metadata).type with
  | .dir =>
    let entries ← (← place.readDir).toList.filterM fun e =>
      return (← e.path.symlinkMetadata).type != .symlink
    return .directory (← entries.mapM fun e => do
      try return (e.fileName, ← load (FileTree.join path e.fileName))
      catch error => return (e.fileName, .unreadable (fileError error)))
  | _ =>
    try return .file (← IO.FS.readBinFile place)
    catch error => return .unreadable (fileError error)

/-- The files that a command reads. -/
def loadFiles (paths : List String) : IO Files := do
  let loaded ← paths.mapM fun path => do
    try return (path, Except.ok (← load path))
    catch e => return (path, Except.error (fileError e))
  return fun path => (loaded.lookup path).getD (.error .notFound)

/-- A program named for validation reports on the rule table. -/
def programOf (name : Option String) : Program :=
  if (name.getD "").startsWith "validate" then .tableReport else .parsing

def main (args : List String) : IO UInt32 := do
  let files ← loadFiles (((command? args).map (·.paths)).getD [])
  let outcome := run files args (programOf (← IO.appPath).fileStem)
  IO.print outcome.output
  for line in outcome.errors do
    IO.eprintln line
  return outcome.code.toUInt32

end PhpSyntax.Cli

def main (args : List String) : IO UInt32 :=
  PhpSyntax.Cli.main args
