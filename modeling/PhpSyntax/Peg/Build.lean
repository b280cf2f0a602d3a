import PhpSyntax.Peg.Grammar

namespace PhpSyntax.Peg

/-- A pattern as it is written. -/
abbrev PatternDef := Pattern Terminal String

/-- A component as it is written. -/
abbrev ComponentDef := Component PatternDef

instance : Coe String PatternDef := ⟨.rule⟩

instance : Coe Terminal PatternDef := ⟨.terminal⟩

instance : Coe PatternDef ComponentDef := ⟨fun p => ⟨none, .value, p⟩⟩

instance : Coe String ComponentDef := ⟨fun name => ⟨none, .value, .rule name⟩⟩

instance : Coe Terminal ComponentDef := ⟨fun t => ⟨none, .value, .terminal t⟩⟩

/-- A named component alone is a sequence of one. -/
instance : Coe ComponentDef PatternDef := ⟨fun c => .sequence [c]⟩

def seq (components : List ComponentDef) : PatternDef :=
  .sequence components

def oneOf (alternatives : List PatternDef) : PatternDef :=
  .choice alternatives

def opt (p : PatternDef) : PatternDef :=
  .optional p

def many (item : PatternDef) : PatternDef :=
  .repetition item none 0 false

def many1 (item : PatternDef) : PatternDef :=
  .repetition item none 1 false

def list (item separator : PatternDef) : PatternDef :=
  .repetition item (some separator) 0 false

def list1 (item separator : PatternDef) : PatternDef :=
  .repetition item (some separator) 1 false

def trailing : PatternDef → PatternDef
  | .repetition item separator least _ => .repetition item separator least true
  | p => p

def ahead (p : PatternDef) : PatternDef :=
  .ahead false p

def notAhead (p : PatternDef) : PatternDef :=
  .ahead true p

def raw (p : PatternDef) : PatternDef :=
  .trivia false p

def cooked (p : PatternDef) : PatternDef :=
  .trivia true p

def silent (p : PatternDef) : PatternDef :=
  .silent p

def scan (s : Scanner) : PatternDef :=
  .scan s

def atEnd : PatternDef :=
  .endOfInput

def lit (s : String) : Terminal :=
  .literal s

def kw (word : String) : Terminal :=
  .keyword word

def re (source : String) : Terminal :=
  .ofSource source

def reIgnoringCase (source : String) : Terminal :=
  (re source).ignoringCase

def field (name : String) (p : PatternDef) : ComponentDef :=
  ⟨some name, .value, p⟩

def flag (name : String) (p : PatternDef) : ComponentDef :=
  ⟨some name, .flag, p⟩

def listField (name : String) (p : PatternDef) : ComponentDef :=
  ⟨some name, .list, p⟩

/-- A rule that yields nodes tagged with its name. -/
def define (name : String) (p : PatternDef) : RuleDef :=
  .ofPattern name p

/-- A rule that yields nodes tagged with another name. -/
def defineAs (name tag : String) (p : PatternDef) : RuleDef :=
  { define name p with captureAs := some tag }

namespace RuleDef

def processedBy (r : RuleDef) (p : Processor) : RuleDef :=
  { r with processor := some p }

/-- Yields `capture` as it is where `component` captured nothing. -/
def ifNothing (r : RuleDef) (component capture : String) : RuleDef :=
  { r with ifNoMatch := some ⟨component, capture⟩ }

def picking (r : RuleDef) (field : String) : RuleDef :=
  { r with pick := some field }

def asEmptyNode (r : RuleDef) : RuleDef :=
  { r with asNode := true }

end RuleDef

end PhpSyntax.Peg
