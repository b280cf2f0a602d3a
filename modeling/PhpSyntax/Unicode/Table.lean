import PhpSyntax.Unicode.Range

namespace PhpSyntax.Unicode

structure Run where
  start : Nat
  tags : List String

/-- Splits a word into what is in front of its first capital letter and the parts that begin with
one. -/
def splitCapitals : List Char → List Char × List String
  | [] => ([], [])
  | c :: cs =>
    let (front, tags) := splitCapitals cs
    if c.isUpper then ([], String.ofList (c :: front) :: tags) else (c :: front, tags)

def hexDigit (c : Char) : Nat :=
  if c.isDigit then c.toNat - '0'.toNat else c.toNat - 'a'.toNat + 10

def Run.ofString (word : String) : Run :=
  let (digits, tags) := splitCapitals word.toList
  ⟨digits.foldl (fun n c => n * 16 + hexDigit c) 0, tags⟩

def stretches : List Run → List (Range × List String)
  | [] => []
  | [r] => [((r.start, 0x10FFFF), r.tags)]
  | r :: q :: rest => ((r.start, q.start - 1), r.tags) :: stretches (q :: rest)

/-- The code points of a table, with their tags. -/
def readTable (table : List String) : List (Range × List String) :=
  stretches (table.flatMap fun line => (line.splitOn " ").map Run.ofString)

/-- A name in lower case, without blanks, dashes, underscores and characters beyond ASCII. -/
def plainName (name : List Char) : String :=
  String.ofList
    ((name.filter fun c => c.toNat < 128 && !(c ∈ [' ', '-', '_'])).map Char.toLower)

/-- A name as it is compared with others, without the word in front that asks whether something
`is`. -/
def looseName (name : String) : String :=
  match name.toList with
  | i :: s :: cs =>
    if i.toLower = 'i' ∧ s.toLower = 's' then
      if plainName cs = "c" then "isc" else plainName cs
    else plainName (i :: s :: cs)
  | cs => plainName cs

end PhpSyntax.Unicode
