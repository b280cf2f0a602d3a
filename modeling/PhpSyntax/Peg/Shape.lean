import PhpSyntax.Peg.Matching

namespace PhpSyntax.Peg

namespace LinkedRule

/-- The field that stands for the whole match where the rule's component captured nothing. -/
def fallback? (r : LinkedRule) : Value → Option Value
  | .record fields =>
    match r.ifNoMatch with
    | some ⟨component, capture⟩ =>
      if (fields.get? component).all Value.isEmpty then some (fields.take capture).1 else none
    | none => none
  | _ => none

/-- The picked field, or a node of the captured fields. -/
def tagged (r : LinkedRule) (v : Value) : Value :=
  let v := match r.pick, v with
    | some field, .record fields => (fields.take field).1
    | _, v => v
  match v with
  | .record fields => .node (NodeOf.ofFields r.tag fields)
  | .node n => .node n
  | v => if r.asNode then .node (NodeOf.ofFields r.tag .empty) else v

def process (r : LinkedRule) (ctx : Context) (v : Value) : Except Failure Value :=
  match r.processor with
  | some p => p v ctx
  | none => .ok v

/-- Gives a node that has no place yet the place of the match. -/
def place (ctx : Context) : Value → Value
  | .node n =>
    if ctx.options.instruments && !n.isInstrumented then
      .node (ctx.input.instrument ctx.lines ctx.options n ctx.span)
    else .node n
  | v => v

def shape (r : LinkedRule) (ctx : Context) (v : Value) : Except Failure Value :=
  match r.fallback? v with
  | some v => .ok v
  | none => do return place ctx (← r.process ctx (r.tagged v))

end LinkedRule

end PhpSyntax.Peg
