import PhpSyntax.Php.Fold

namespace PhpSyntax.Php

open Peg

/-- How a captured member becomes a node: its tag, the field of what it is a member of, and the
fields it keeps. -/
structure Access where
  kind : String
  target : String
  kept : List String

def access? : String → Option Access
  | "IndexSegment" => some ⟨"ArrayIndex", "array", ["index"]⟩
  | "PropertySegment" => some ⟨"ObjectProperty", "object", ["property"]⟩
  | "MethodMember" => some ⟨"MethodCall", "object", ["method", "args"]⟩
  | "StaticMethodMember" => some ⟨"StaticMethodCall", "class", ["method", "args"]⟩
  | "StaticPropertyMember" => some ⟨"StaticProperty", "class", ["property"]⟩
  | "ClassConstantMember" => some ⟨"ClassConstant", "class", ["constant"]⟩
  | "CallMember" => some ⟨"FunctionCall", "func", ["args"]⟩
  | _ => none

/-- The single members of a captured member: several indices or properties come as one. -/
def segments : Value → List Node
  | .node n =>
    if n.name == "IndexMembers" then (fieldOf (.node n) "indices").toList.filterMap Value.asNode?
    else if n.name == "PropertyMembers" then
      (fieldOf (.node n) "properties").toList.filterMap Value.asNode?
    else [n]
  | _ => []

def accessNode (a : Access) (target : Value) (segment : Node) : Node :=
  .ofEntries a.kind ((a.target, target) ::
    a.kept.map fun key => (key, fieldOf (.node segment) key))

def nestMembers (ctx : Context) (start : Option Nat) (target : Value) : List Node → Value
  | [] => target
  | segment :: rest =>
    match access? segment.name with
    | some a =>
      let node := ctx.covering (accessNode a target segment) start
        (segment.byteRange?.map (·.2))
      nestMembers ctx start (.node node) rest
    | none => nestMembers ctx start target rest

def foldMembers : Processor
  | .node n, ctx =>
    let root := fieldOf (.node n) "root"
    .ok (nestMembers ctx (startOf root) root
      ((fieldOf (.node n) "members").toList.flatMap segments))
  | v, _ => .ok v

end PhpSyntax.Php
