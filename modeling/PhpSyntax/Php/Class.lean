import PhpSyntax.Php.Name

namespace PhpSyntax.Php

open Peg

/-- The members in braces, kept in the declaration around them. -/
def classBody : ComponentDef :=
  seq [lit "\x7b", listField "members" (many "ClassMember"), lit "\x7d"]

def classDeclaration : RuleDef :=
  defineAs "ClassDeclaration" "Class" (seq [
    listField "modifiers"
      (many ((reIgnoringCase "(?:abstract|final)\\b").withTransform .lowercase)),
    kw "class", field "class_name" "Identifier", field "extends" (opt "Extends"),
    listField "implements" (opt "Implements"), classBody])

def extendsClause : RuleDef :=
  (define "Extends" (seq [kw "extends", field "name" "Name"])).picking "name"

def implementsClause : RuleDef :=
  (define "Implements"
    (seq [kw "implements", listField "names" (list1 "Name" (lit ","))])).picking "names"

def interfaceDeclaration : RuleDef :=
  defineAs "InterfaceDeclaration" "Interface" (seq [kw "interface",
    field "interface_name" "Identifier", listField "extends" (opt "InterfaceExtends"), classBody])

def interfaceExtends : RuleDef :=
  (define "InterfaceExtends"
    (seq [kw "extends", listField "names" (list1 "Name" (lit ","))])).picking "names"

def traitDeclaration : RuleDef :=
  defineAs "TraitDeclaration" "Trait"
    (seq [kw "trait", field "trait_name" "Identifier", classBody])

def classMember : RuleDef :=
  define "ClassMember" (oneOf ["TraitUse", "ClassConstantDeclaration", "Method",
    "PropertyDeclaration"])

def traitUse : RuleDef :=
  define "TraitUse" (seq [kw "use", listField "traits" (list1 "Name" (lit ",")),
    listField "adaptations" (oneOf ["TraitRules", silent (lit ";")])])

def traitRules : RuleDef :=
  (define "TraitRules" (seq [lit "\x7b", listField "rules" (many "TraitAdaptation"),
    lit "\x7d"])).picking "rules"

def traitAdaptation : RuleDef :=
  define "TraitAdaptation" (oneOf ["TraitPrecedence", "TraitAlias"])

def traitMethodReference : RuleDef :=
  define "TraitMethodReference"
    (seq [field "trait" "Name", lit "::", field "method" memberName])

def traitPrecedence : RuleDef :=
  define "TraitPrecedence" (seq [field "method" "TraitMethodReference", kw "insteadof",
    listField "instead_of" (list1 "Name" (lit ",")), lit ";"])

def traitAlias : RuleDef :=
  define "TraitAlias" (seq [field "method" (oneOf ["TraitMethodReference", memberName]), kw "as",
    field "modifier" (opt "Modifier"), field "alias" (opt memberName), lit ";"])

def classConstantDeclaration : RuleDef :=
  define "ClassConstantDeclaration" (seq [listField "modifiers" (many "Modifier"), kw "const",
    listField "constants" (list1 "ConstantDefinition" (lit ",")), lit ";"])

def method : RuleDef :=
  define "Method" (seq [listField "modifiers" (many "Modifier"), kw "function",
    flag "by_reference" (opt (lit "&")), field "method" memberName, field "args" "ParameterList",
    field "return_type" (opt "ReturnType"), field "body" (oneOf ["Block", silent (lit ";")])])

def propertyDeclaration : RuleDef :=
  define "PropertyDeclaration" (seq [listField "modifiers" (many1 "Modifier"),
    field "type" (opt "TypeHint"), listField "properties" (list1 "PropertyDefinition" (lit ",")),
    lit ";"])

def propertyDefinition : RuleDef :=
  define "PropertyDefinition"
    (seq [field "variable" variableName, field "default" (opt "DefaultValue")])

def modifier : RuleDef :=
  define "Modifier" ((reIgnoringCase
    "(?:public|protected|private|static|abstract|final|var)\\b").withTransform .lowercase)

end PhpSyntax.Php
