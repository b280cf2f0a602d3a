import PhpSyntax.Render.Document

namespace PhpSyntax.Json

def hexDigit (n : Nat) : Char :=
  if n < 10 then Char.ofNat ('0'.toNat + n) else Char.ofNat ('a'.toNat + (n - 10))

/-- How a character is written in a string. Only quotes, backslashes and control characters are
escaped. -/
def escapeChar (c : Char) : List Char :=
  if c = '\x22' then ['\\', '\x22']
  else if c = '\\' then ['\\', '\\']
  else if c = '\x08' then ['\\', 'b']
  else if c = '\x0c' then ['\\', 'f']
  else if c = '\n' then ['\\', 'n']
  else if c = '\r' then ['\\', 'r']
  else if c = '\t' then ['\\', 't']
  else if c.toNat < 32 then
    ['\\', 'u', '0', '0', hexDigit (c.toNat / 16), hexDigit (c.toNat % 16)]
  else [c]

def quote (s : String) : String :=
  String.ofList ('\x22' :: s.toList.flatMap escapeChar ++ ['\x22'])

mutual

/-- On one line, without blanks. -/
def compact : Document → String
  | .null => "null"
  | .bool b => if b then "true" else "false"
  | .number n => toString n
  | .text s => quote s
  | .list items => "[" ++ compactItems items ++ "]"
  | .object members => "\x7b" ++ compactMembers members ++ "\x7d"

def compactItems : List Document → String
  | [] => ""
  | [d] => compact d
  | d :: ds => compact d ++ "," ++ compactItems ds

def compactMembers : List (String × Document) → String
  | [] => ""
  | [(k, d)] => quote k ++ ":" ++ compact d
  | (k, d) :: rest => quote k ++ ":" ++ compact d ++ "," ++ compactMembers rest

end

def indent (depth : Nat) : String :=
  String.ofList (List.replicate (2 * depth) ' ')

mutual

/-- With a line for every item and member; `depth` is that of the line the document begins on. -/
def pretty (depth : Nat) : Document → String
  | .null => "null"
  | .bool b => if b then "true" else "false"
  | .number n => toString n
  | .text s => quote s
  | .list [] => "[]"
  | .list (d :: ds) => "[\n" ++ prettyItems (depth + 1) (d :: ds) ++ "\n" ++ indent depth ++ "]"
  | .object [] => "\x7b\x7d"
  | .object (m :: ms) =>
    "\x7b\n" ++ prettyMembers (depth + 1) (m :: ms) ++ "\n" ++ indent depth ++ "\x7d"

def prettyItems (depth : Nat) : List Document → String
  | [] => ""
  | [d] => indent depth ++ pretty depth d
  | d :: ds => indent depth ++ pretty depth d ++ ",\n" ++ prettyItems depth ds

def prettyMembers (depth : Nat) : List (String × Document) → String
  | [] => ""
  | [(k, d)] => indent depth ++ quote k ++ ": " ++ pretty depth d
  | (k, d) :: rest =>
    indent depth ++ quote k ++ ": " ++ pretty depth d ++ ",\n" ++ prettyMembers depth rest

end

end PhpSyntax.Json
