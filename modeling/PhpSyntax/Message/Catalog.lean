import PhpSyntax.Message.Key
import PhpSyntax.Unicode.Word

namespace PhpSyntax.Message

/-- The values of placeholders by name. -/
abbrev Placeholders := List (String × String)

/-- The name in a placeholder whose dollar sign stands in front of this text. -/
def placeholderAt? : List Char → Option (List Char)
  | '\x7b' :: cs =>
    let name := cs.takeWhile Unicode.isWord
    if !name.isEmpty && cs[name.length]? == some '\x7d' then some name else none
  | _ => none

/-- Replaces placeholders from left to right, behind `skip` characters that one has used up. One
without a value stays as it is; values are not searched again. -/
def fillFrom (values : Placeholders) : Nat → List Char → List Char
  | _, [] => []
  | skip + 1, _ :: cs => fillFrom values skip cs
  | 0, c :: cs =>
    if c = '$' then
      match placeholderAt? cs with
      | some name =>
        let taken := name.length + 2
        let text := match values.lookup (String.ofList name) with
          | some value => value.toList
          | none => '$' :: cs.take taken
        text ++ fillFrom values taken cs
      | none => '$' :: fillFrom values 0 cs
    else c :: fillFrom values 0 cs

def fill (values : Placeholders) (template : String) : String :=
  String.ofList (fillFrom values 0 template.toList)

def defaultLocale : String := "en"

/-- A message template for a key in a locale. -/
structure Entry where
  locale : String
  key : String
  template : String

def builtIn (key template : String) : Entry :=
  ⟨defaultLocale, key, template⟩

/-- The templates, the last added first, and the locale in use. -/
structure Catalog where
  locale : String
  entries : List Entry

namespace Catalog

def standard : Catalog :=
  ⟨defaultLocale, [
    builtIn unexpectedEnd "syntax error, unexpected end of file",
    builtIn unexpectedCharacter "syntax error, unexpected '$\x7bwhat\x7d'",
    builtIn malformedHaltCompiler "__halt_compiler must be followed by '();'",
    builtIn nestedHaltCompiler "__HALT_COMPILER() can only be used from the outermost scope",
    builtIn tryWithoutHandler "Cannot use try without catch or finally",
    builtIn nestingTooDeep "Maximum nesting depth of $\x7bdepth\x7d rule invocations exceeded"]⟩

def add (c : Catalog) (locale key template : String) : Catalog :=
  { c with entries := ⟨locale, key, template⟩ :: c.entries }

def addAll (c : Catalog) (locale : String) (templates : List (String × String)) : Catalog :=
  templates.foldl (fun c (key, template) => c.add locale key template) c

def setLocale (c : Catalog) (locale : String) : Catalog :=
  { c with locale := locale }

def templateIn? (c : Catalog) (locale key : String) : Option String :=
  (c.entries.find? fun e => e.locale == locale && e.key == key).map (·.template)

/-- The template in the locale in use, or else in the default one. -/
def template? (c : Catalog) (key : String) : Option String :=
  (c.templateIn? c.locale key).or (c.templateIn? defaultLocale key)

/-- The message of a key; one without a template is its own message. -/
def message (c : Catalog) (key : String) (values : Placeholders) : String :=
  match c.template? key with
  | some template => fill values template
  | none => key

end Catalog

end PhpSyntax.Message
