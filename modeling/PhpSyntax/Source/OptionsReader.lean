import PhpSyntax.Source.JsonScan
import PhpSyntax.Source.Options

namespace PhpSyntax.Options

open JsonScan

/-- The options given so far. -/
structure Given where
  bounds : Option Bool
  offsets : Option Bool

namespace Given

def nothing : Given := ⟨none, none⟩

def toOptions (g : Given) : Options :=
  ⟨g.bounds.getD false, g.offsets.getD false⟩

/-- Adds the member whose value comes next. No option is given twice. -/
def member? (g : Given) (key : List Char) (cs : List Char) : Option (Given × List Char) :=
  match String.ofList key with
  | "captureAllBounds" => do
    guard g.bounds.isNone
    let (b, cs) ← bool? cs
    return ({ g with bounds := some b }, cs)
  | "captureAllOffsets" => do
    guard g.offsets.isNone
    let (b, cs) ← bool? cs
    return ({ g with offsets := some b }, cs)
  | _ => (afterValue? (fuelFor cs) cs).map (g, ·)

end Given

/-- The members of an object up to its closing brace, and what follows that. -/
def members? : Nat → Given → List Char → Option (Given × List Char)
  | 0, _, _ => none
  | fuel + 1, g, cs => do
    let (units, cs) ← nextString? cs
    let (g, cs) ← g.member? (← text? units) (← afterColon? cs)
    match skipBlanks cs with
    | ',' :: cs => members? fuel g cs
    | '\x7d' :: cs => some (g, cs)
    | _ => none

/-- An array of at most two values behind its opening bracket, and what follows it. -/
def items? (cs : List Char) : Option (Given × List Char) :=
  match skipBlanks cs with
  | ']' :: cs => some (.nothing, cs)
  | cs => do
    let (bounds, cs) ← bool? cs
    match skipBlanks cs with
    | ']' :: cs => some (⟨some bounds, none⟩, cs)
    | ',' :: cs =>
      let (offsets, cs) ← bool? cs
      return (⟨some bounds, some offsets⟩, ← afterText? [']'] (skipBlanks cs))
    | _ => none

def given? (cs : List Char) : Option (Given × List Char) :=
  match skipBlanks cs with
  | '[' :: cs => items? cs
  | '\x7b' :: cs =>
    match skipBlanks cs with
    | '\x7d' :: cs => some (.nothing, cs)
    | cs => members? (cs.length + 1) .nothing cs
  | _ => none

def ofJson? (text : String) : Option Options :=
  match given? text.toList with
  | some (g, rest) => if (skipBlanks rest).isEmpty then some g.toOptions else none
  | none => none

end PhpSyntax.Options
