import PhpSyntax.Peg.Failure
import PhpSyntax.Peg.Pattern
import PhpSyntax.Source.Options

namespace PhpSyntax.Peg

/-- A text to parse, which begins `base` bytes into the whole source. -/
structure Input where
  text : Text
  base : Nat

/-- What a processor knows about the match it works on. -/
structure Context where
  /-- The match within the input. -/
  span : Span
  input : Input
  lines : Lines
  options : Options
  /-- Runs a rule, trivia not skipped, over a text that starts at an offset of the input. -/
  reparse : String → String → Nat → Except Failure (Option Value)

/-- Gives a node its place in the source, as far as the options ask for it. -/
def Input.instrument (input : Input) (lines : Lines) (options : Options) (n : Node) (s : Span) :
    Node :=
  let s := s.shift input.base
  { n with
    bounds := if options.captureBounds then some (lines.bounds s) else n.bounds
    extent := if options.captureOffsets then some (lines.extent s) else n.extent }

namespace Context

def absoluteSpan (ctx : Context) : Span :=
  ctx.span.shift ctx.input.base

def text (ctx : Context) : List Char :=
  ctx.input.text.slice ctx.span.start ctx.span.stop

/-- Places a node over offsets of the whole source; an edge that is missing is that of the match. -/
def covering (ctx : Context) (n : Node) (start stop : Option Nat) : Node :=
  if ctx.options.instruments then
    let start := start.getD ctx.absoluteSpan.start - ctx.input.base
    let stop := stop.getD ctx.absoluteSpan.stop - ctx.input.base
    ctx.input.instrument ctx.lines ctx.options n ⟨start, max stop start⟩
  else n

/-- Places a node from the start of one of its fields to the end of another. -/
def spanning (ctx : Context) (n : Node) (first last : String) : Node :=
  ctx.covering n (((n.get? first).bind Value.byteRange?).map (·.1))
    (((n.get? last).bind Value.byteRange?).map (·.2))

/-- The failure that a construct which was matched is not allowed. -/
def fatal (ctx : Context) (key : String) : Failure :=
  .fatal key ctx.absoluteSpan []

end Context

/-- Reshapes the value of a match. -/
abbrev Processor :=
  Value → Context → Except Failure Value

/-- Where `component` captured nothing, the rule yields `capture` as it is. -/
structure IfNoMatch where
  component : String
  capture : String
  deriving DecidableEq

structure Rule (τ ρ : Type) where
  name : String
  pattern : Pattern τ ρ
  /-- The tag of the rule's nodes, if it is not the name. -/
  captureAs : Option String
  processor : Option Processor
  ifNoMatch : Option IfNoMatch
  /-- The captured field to yield in place of a node. -/
  pick : Option String
  /-- Whether to yield a node without fields where nothing was captured. -/
  asNode : Bool

namespace Rule

variable {τ ρ : Type}

def ofPattern (name : String) (pattern : Pattern τ ρ) : Rule τ ρ :=
  ⟨name, pattern, none, none, none, none, false⟩

def tag (r : Rule τ ρ) : String :=
  r.captureAs.getD r.name

end Rule

end PhpSyntax.Peg
