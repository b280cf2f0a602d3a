import PhpSyntax.Source.Text

namespace PhpSyntax.Cli

inductive FileError where
  | notFound
  | notDirectory
  | isDirectory
  | nameTooLong
  | notUtf8
  | other (message : String)
  deriving DecidableEq

def FileError.message : FileError → String
  | notFound => "No such file or directory (os error 2)"
  | notDirectory => "Not a directory (os error 20)"
  | isDirectory => "Is a directory (os error 21)"
  | nameTooLong => "File name too long (os error 36)"
  | notUtf8 => "stream did not contain valid UTF-8"
  | other message => message

/-- A file or a directory; entries have different names. -/
inductive FileTree where
  | file (contents : ByteArray)
  | unreadable (e : FileError)
  | directory (entries : List (String × FileTree))

/-- The longest name that an entry of a directory can have, in bytes. -/
def nameLimit : Nat := 255

/-- Whether a path has more bytes than can be followed. -/
def isOverlong (path : String) : Bool :=
  4095 < path.utf8ByteSize

/-- What is found at a path. -/
abbrev Files := String → Except FileError FileTree

namespace FileTree

def empty : FileTree := .directory []

/-- The text of a file. -/
def read : FileTree → Except FileError String
  | .file contents =>
    match String.fromUTF8? contents with
    | some text => .ok text
    | none => .error .notUtf8
  | .unreadable e => .error e
  | .directory _ => .error .isDirectory

/-- Follows names from a place; `above` holds the directories over it, the nearest first. The
directories over the topmost are not known to hold anything. -/
def follow (above : List FileTree) (here : FileTree) : List String → Except FileError FileTree
  | [] => .ok here
  | name :: names =>
    match here with
    | .directory entries =>
      if name = "" ∨ name = "." then follow above here names
      else if name = ".." then follow above.tail (above.head?.getD empty) names
      else if nameLimit < name.utf8ByteSize then .error .nameTooLong
      else
        match entries.lookup name with
        | some t => follow (here :: above) t names
        | none => .error .notFound
    | _ => .error .notDirectory

/-- The files at paths that start from a directory. -/
def files (root : FileTree) : Files := fun path =>
  if isOverlong path then .error .nameTooLong
  else follow [] (if path.startsWith "/" then empty else root) (path.splitOn "/")

/-- Puts a file at a path of names, with the directories on the way. -/
def insert (contents : ByteArray) : List String → FileTree → FileTree
  | [], _ => .file contents
  | name :: names, t =>
    let entries := match t with
      | .directory entries => entries
      | _ => []
    let old := (entries.lookup name).getD empty
    .directory ((name, insert contents names old) :: entries.filter (·.1 != name))

def join (path name : String) : String :=
  if path.endsWith "/" then path ++ name else path ++ "/" ++ name

/-- Whether a file is a source file by its name. -/
def isSourceName (name : String) : Bool :=
  name.endsWith ".php" && name != ".php"

/-- A source file, if it is one by its name, as it is found at its path. -/
def source (path name : String) (t : FileTree) : List (String × FileTree) :=
  if !isSourceName name then []
  else [(path, if isOverlong path then .unreadable .nameTooLong else t)]

mutual

/-- The source files at or below a place with their paths, directory by directory in the order of
their names. A directory that cannot be opened is passed over. -/
def sources (path name : String) : FileTree → List (String × FileTree)
  | .directory entries =>
    if isOverlong path then []
    else ((entrySources path entries).mergeSort fun a b => a.1 ≤ b.1).flatMap (·.2)
  | .file contents => source path name (.file contents)
  | .unreadable e => source path name (.unreadable e)

/-- The source files of each entry of a directory. -/
def entrySources (path : String) :
    List (String × FileTree) → List (String × List (String × FileTree))
  | [] => []
  | (name, t) :: es => (name, sources (join path name) name t) :: entrySources path es

end

/-- A file itself, or the source files of a directory. -/
def toCheck (path : String) : FileTree → List (String × FileTree)
  | .directory entries => sources path "" (.directory entries)
  | t => [(path, t)]

end FileTree

end PhpSyntax.Cli
