import PhpSyntax.Regex.CharSet
import PhpSyntax.Unicode.Property
import PhpSyntax.Unicode.Script

namespace PhpSyntax.CharSet

def category? : String → Option CharSet
  | "any" => some all
  | "ascii" => some ascii
  | "assigned" => some (ofRanges (Unicode.categoryRanges (· != "Cn")))
  | name => (Unicode.categories? name).map fun wanted => ofRanges (Unicode.categoryRanges wanted)

def script? (name : String) : Option CharSet :=
  (Unicode.script? name).map fun tag => ofRanges (Unicode.scriptRanges tag)

def scriptExtension? (name : String) : Option CharSet :=
  (Unicode.script? name).map fun tag =>
    ((ofRanges (Unicode.scriptRanges tag)).diff (ofRanges Unicode.extendedRanges)).union
      (ofRanges (Unicode.extensionRanges tag))

/-- The characters with a property, or of a category or script. -/
def property? (name : String) : Option CharSet :=
  match Unicode.looseName name with
  | "alphabetic" | "alpha" => some (ofRanges Unicode.alphabeticRanges)
  | "uppercase" | "upper" => some (ofRanges Unicode.uppercaseRanges)
  | "lowercase" | "lower" => some (ofRanges Unicode.lowercaseRanges)
  | "whitespace" | "wspace" | "space" => some space
  | "defaultignorablecodepoint" | "di" => some ⟨Unicode.ignorableRanges⟩
  | "noncharactercodepoint" | "nchar" => some ⟨Unicode.noncharacterRanges⟩
  | "emoji" => some ⟨Unicode.emojiRanges⟩
  | name => (category? name).or (script? name)

/-- The characters whose property has the given value. -/
def value? (property value : String) : Option CharSet :=
  match Unicode.looseName property with
  | "generalcategory" | "gc" => category? (Unicode.looseName value)
  | "script" | "sc" => script? (Unicode.looseName value)
  | "scriptextensions" | "scx" => scriptExtension? (Unicode.looseName value)
  | _ => Option.none

end PhpSyntax.CharSet
