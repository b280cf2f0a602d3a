namespace PhpSyntax.Cli

/-- How a tree is written. -/
inductive Format where
  | json
  | yaml
  deriving DecidableEq

structure AstRequest where
  file : String
  bounds : Bool
  offsets : Bool
  /-- A file with further options. -/
  optionsFile : Option String
  /-- The path that errors report, if it is not the file's. -/
  pathName : Option String
  format : Format

inductive Command where
  /-- Print the tree of a file. -/
  | ast (request : AstRequest)
  /-- Parse a file or all source files of a directory. -/
  | check (path : String)
  /-- Check the rule table. -/
  | grammar
  | version
  | help

/-- The files that a command reads. -/
def Command.paths : Command → List String
  | .ast request => request.optionsFile.toList ++ [request.file]
  | .check path => [path]
  | .grammar => []
  | .version => []
  | .help => []

/-- The arguments that a command takes. -/
structure Usage where
  flags : List String
  /-- The names that a value follows. -/
  options : List String
  takesPath : Bool

/-- Why the reading of arguments ends early. -/
inductive Stop where
  | wrongUsage
  /-- An argument asks for a text about the program. -/
  | asked (command : Command)

/-- One argument as it is written. -/
inductive Argument where
  /-- All that follow are words. -/
  | onlyWords
  | letters (cs : List Char)
  | long (name : String) (value : Option String)
  | word (text : String)

/-- The flag of a letter. -/
def letterFlag? : Char → Option String
  | 'v' => some "verbose"
  | 'h' => some "help"
  | 'V' => some "version"
  | _ => none

def splitValue (cs : List Char) : String × Option String :=
  match cs.span (· != '=') with
  | (name, _ :: value) => (String.ofList name, some (String.ofList value))
  | (name, []) => (String.ofList name, none)

def Argument.ofString (text : String) : Argument :=
  match text.toList with
  | ['-', '-'] => .onlyWords
  | '-' :: '-' :: cs =>
    let (name, value) := splitValue cs
    .long name value
  | '-' :: c :: cs => .letters (c :: cs)
  | _ => .word text

/-- Whether a text can be the value of an option that stands in front of it. -/
def isValue (text : String) : Bool :=
  match text.toList with
  | '-' :: _ :: _ => false
  | _ => true

def Format.ofName? : String → Option Format
  | "json" => some .json
  | "yaml" => some .yaml
  | _ => none

/-- The arguments read so far. -/
structure Given where
  flags : List String
  optionsFile : Option String
  pathName : Option String
  format : Option Format
  path : Option String

namespace Given

def nothing : Given := ⟨[], none, none, none, none⟩

/-- Adds a flag. No flag comes twice. -/
def addFlag (usage : Usage) (g : Given) (name : String) : Except Stop Given :=
  if !usage.flags.contains name || g.flags.contains name then .error .wrongUsage
  else if name = "help" then .error (.asked .help)
  else if name = "version" then .error (.asked .version)
  else .ok { g with flags := name :: g.flags }

/-- Adds the flags of letters, one after the other. -/
def addLetters (usage : Usage) : Given → List Char → Except Stop Given
  | g, [] => .ok g
  | g, c :: cs =>
    match letterFlag? c with
    | some name => do addLetters usage (← g.addFlag usage name) cs
    | none => .error .wrongUsage

/-- Adds the value of an option. No option comes twice. -/
def addOption? (g : Given) (name value : String) : Option Given :=
  match name with
  | "options" => do
    guard (g.optionsFile.isNone && !value.isEmpty)
    return { g with optionsFile := some value }
  | "path-name" => do
    guard g.pathName.isNone
    return { g with pathName := some value }
  | "format" => do
    guard g.format.isNone
    return { g with format := some (← Format.ofName? value) }
  | _ => none

def addOption (g : Given) (name value : String) : Except Stop Given :=
  match g.addOption? name value with
  | some g => .ok g
  | none => .error .wrongUsage

/-- Adds a word, which is the path that a command works on. -/
def addWord (usage : Usage) (g : Given) (word : String) : Except Stop Given :=
  if !usage.takesPath || g.path.isSome || word.isEmpty then .error .wrongUsage
  else .ok { g with path := some word }

/-- Adds the arguments of a command in their order. -/
def addAll (usage : Usage) : Given → List String → Except Stop Given
  | g, [] => .ok g
  | g, text :: rest =>
    match Argument.ofString text with
    | .onlyWords => rest.foldlM (addWord usage) g
    | .word word => do addAll usage (← g.addWord usage word) rest
    | .letters cs => do addAll usage (← addLetters usage g cs) rest
    | .long name (some value) => do
      if usage.options.contains name then addAll usage (← g.addOption name value) rest
      else .error .wrongUsage
    | .long name none =>
      if usage.options.contains name then
        match rest with
        | value :: rest => do
          if isValue value then addAll usage (← g.addOption name value) rest
          else .error .wrongUsage
        | [] => .error .wrongUsage
      else do addAll usage (← g.addFlag usage name) rest

def astRequest? (g : Given) : Option AstRequest :=
  g.path.map fun file =>
    ⟨file, g.flags.contains "bounds", g.flags.contains "offsets", g.optionsFile, g.pathName,
      g.format.getD .json⟩

end Given

namespace Command

/-- Reads the arguments behind the name of a command. -/
def ofArguments (usage : Usage) (command? : Given → Option Command) (args : List String) :
    Except Stop Command := do
  match command? (← Given.nothing.addAll usage args) with
  | some command => .ok command
  | none => .error .wrongUsage

def names : List String := ["ast", "check", "grammar", "help"]

/-- Reads what stands behind the name of a command. Help is given on one command at most. -/
def ofName (name : String) (args : List String) : Except Stop Command :=
  match name with
  | "ast" =>
    ofArguments ⟨["verbose", "help", "bounds", "offsets"], ["options", "path-name", "format"], true⟩
      (fun g => g.astRequest?.map .ast) args
  | "check" => ofArguments ⟨["verbose", "help"], [], true⟩ (fun g => g.path.map .check) args
  | "grammar" => ofArguments ⟨["verbose", "help"], [], false⟩ (fun _ => some .grammar) args
  | "help" =>
    if args.length ≤ 1 && args.all names.contains then .ok .help else .error .wrongUsage
  | _ => .error .wrongUsage

/-- The arguments in front of the name of a command. -/
def leadingUsage : Usage := ⟨["verbose", "help", "version"], [], false⟩

/-- Reads the arguments in front of the name of a command, and then the command. -/
def readFrom : Given → List String → Except Stop Command
  | _, [] => .error .wrongUsage
  | g, text :: rest =>
    match Argument.ofString text with
    | .word name => ofName name rest
    | .letters cs => do readFrom (← Given.addLetters leadingUsage g cs) rest
    | .long name none => do readFrom (← g.addFlag leadingUsage name) rest
    | .long _ (some _) => .error .wrongUsage
    | .onlyWords => .error .wrongUsage

end Command

/-- The command that the arguments ask for, if they ask for one. -/
def command? (args : List String) : Option Command :=
  match Command.readFrom .nothing args with
  | .ok command => some command
  | .error (.asked command) => some command
  | .error .wrongUsage => none

end PhpSyntax.Cli
