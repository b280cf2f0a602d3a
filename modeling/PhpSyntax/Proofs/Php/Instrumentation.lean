import PhpSyntax.Proofs.Peg.Instrumentation
import PhpSyntax.Proofs.Peg.Run
import PhpSyntax.Proofs.Php.Table

namespace PhpSyntax.Php

open Peg

@[simp]
theorem fieldOf_strip (v : Value) (key : String) :
    fieldOf v.strip key = (fieldOf v key).strip := by
  have hfields : fieldsOf v.strip = (fieldsOf v).strip := by
    cases v <;> rfl
  simp only [fieldOf, hfields, Fields.get?_strip]
  cases (fieldsOf v).get? key <;> rfl

@[simp]
theorem fieldOf_node_strip (n : Node) (key : String) :
    fieldOf (.node n.strip) key = (fieldOf (.node n) key).strip :=
  fieldOf_strip (.node n) key

theorem strip_entries (name : String) (entries : List (String × Value)) :
    (NodeOf.ofEntries name entries).strip =
      .ofEntries name (entries.map fun e => (e.1, e.2.strip)) := by
  rw [NodeOf.strip_ofEntries, Value.stripEntries_eq]

@[simp]
theorem binaryExpression_strip (left operator right : Value) :
    (binaryExpression left operator right).strip =
      binaryExpression left.strip operator.strip right.strip :=
  rfl

theorem filterMap_asNode?_strip (vs : List Value) :
    (vs.map Value.strip).filterMap Value.asNode? =
      (vs.filterMap Value.asNode?).map NodeOf.strip := by
  rw [List.filterMap_map, List.map_filterMap]
  exact List.filterMap_congr fun v _ => v.asNode?_strip

section Fold

variable {ctx ctx' : Context} (h : ctx.Strips ctx')

include h

theorem nestLeft_strip (start start' : Option Nat) (left : Value) (steps : List Value) :
    (nestLeft ctx start left steps).strip =
      nestLeft ctx' start' left.strip (steps.map Value.strip) := by
  induction steps generalizing left with
  | nil => rfl
  | cons step steps ih =>
    simp only [nestLeft, List.map_cons, ih, Value.strip_node, Context.covering_strip,
      Context.covering_off h.off, binaryExpression_strip, fieldOf_strip]

theorem nestRight_strip (stop stop' : Option Nat) (left : Value) (steps : List Value) :
    (nestRight ctx stop left steps).strip =
      nestRight ctx' stop' left.strip (steps.map Value.strip) := by
  induction steps generalizing left with
  | nil => rfl
  | cons step steps ih =>
    simp only [nestRight, List.map_cons, ih, Value.strip_node, Context.covering_strip,
      Context.covering_off h.off, binaryExpression_strip, fieldOf_strip]

theorem nestTernary_strip (stop stop' : Option Nat) (condition : Value)
    (branches : List (Value × Value)) :
    (nestTernary ctx stop condition branches).strip = nestTernary ctx' stop' condition.strip
      (branches.map fun b => (b.1.strip, b.2.strip)) := by
  induction branches generalizing condition with
  | nil => rfl
  | cons branch branches ih =>
    obtain ⟨consequent, next⟩ := branch
    simp only [nestTernary, List.map_cons, List.map_nil, Value.strip_node,
      Context.covering_strip, Context.covering_off h.off, strip_entries, ih]

theorem nestElseIfs_strip (stop stop' : Option Nat) (alternate : Value) (clauses : List Node) :
    (nestElseIfs ctx stop alternate clauses).strip =
      nestElseIfs ctx' stop' alternate.strip (clauses.map NodeOf.strip) := by
  induction clauses with
  | nil => rfl
  | cons clause clauses ih =>
    simp only [nestElseIfs, List.map_cons, List.map_nil, Value.strip_node, Context.covering_strip,
      Context.covering_off h.off, strip_entries, ih, fieldOf_node_strip]

theorem nestMembers_strip (start start' : Option Nat) (target : Value) (members : List Node) :
    (nestMembers ctx start target members).strip =
      nestMembers ctx' start' target.strip (members.map NodeOf.strip) := by
  induction members generalizing target with
  | nil => rfl
  | cons segment members ih =>
    simp only [nestMembers, List.map_cons, NodeOf.strip_name]
    cases access? segment.name with
    | none => exact ih target
    | some a =>
      have haccess : (accessNode a target segment).strip =
          accessNode a target.strip segment.strip := by
        simp only [accessNode, strip_entries, List.map_cons, List.map_map, Function.comp_def,
          fieldOf_node_strip]
      simp only [ih, Value.strip_node, Context.covering_strip, Context.covering_off h.off, haccess]

end Fold

theorem foldBinary_blind : Processor.Blind foldBinary := by
  intro v ctx ctx' h
  cases v with
  | node n =>
    simp only [Value.strip_node, foldBinary, Except.map, fieldOf_node_strip, Value.toList_strip]
    exact congrArg Except.ok (nestLeft_strip h _ _ _ _)
  | _ => rfl

theorem foldBinaryRight_blind : Processor.Blind foldBinaryRight := by
  intro v ctx ctx' h
  cases v with
  | node n =>
    simp only [Value.strip_node, foldBinaryRight, Except.map, fieldOf_node_strip,
      Value.toList_strip]
    exact congrArg Except.ok (nestRight_strip h _ _ _ _)
  | _ => rfl

theorem branch?_strip (v : Value) :
    branch? v.strip = (branch? v).map fun b => (b.1.strip, b.2.strip) := by
  cases v with
  | node n =>
    simp only [Value.strip_node, branch?, NodeOf.strip_name, fieldOf_node_strip]
    split <;> rfl
  | _ => rfl

theorem foldTernary_blind : Processor.Blind foldTernary := by
  intro v ctx ctx' h
  cases v with
  | node n =>
    have hbranches : ∀ vs : List Value, (vs.map Value.strip).filterMap branch? =
        (vs.filterMap branch?).map fun b => (b.1.strip, b.2.strip) := by
      intro vs
      rw [List.filterMap_map, List.map_filterMap]
      exact List.filterMap_congr fun v _ => branch?_strip v
    simp only [Value.strip_node, foldTernary, Except.map, fieldOf_node_strip, Value.toList_strip,
      hbranches]
    exact congrArg Except.ok (nestTernary_strip h _ _ _ _)
  | _ => rfl

theorem foldIf_blind : Processor.Blind foldIf := by
  intro v ctx ctx' h
  cases v with
  | node n =>
    simp only [Value.strip_node, foldIf, Except.map, NodeOf.take_strip, Value.toList_strip,
      filterMap_asNode?_strip]
    rw [← nestElseIfs_strip h, NodeOf.set_strip]
  | _ => rfl

theorem segments_strip (v : Value) : segments v.strip = (segments v).map NodeOf.strip := by
  cases v with
  | node n =>
    simp only [Value.strip_node, segments, NodeOf.strip_name, fieldOf_node_strip,
      Value.toList_strip, filterMap_asNode?_strip]
    split
    · rfl
    · split <;> rfl
  | _ => rfl

theorem foldMembers_blind : Processor.Blind foldMembers := by
  intro v ctx ctx' h
  cases v with
  | node n =>
    have hsegments : ∀ vs : List Value, (vs.map Value.strip).flatMap segments =
        (vs.flatMap segments).map NodeOf.strip := by
      intro vs
      simp only [List.flatMap_map, List.map_flatMap, segments_strip]
    simp only [Value.strip_node, foldMembers, Except.map, fieldOf_node_strip, Value.toList_strip,
      hsegments]
    exact congrArg Except.ok (nestMembers_strip h _ _ _ _)
  | _ => rfl

theorem isEmptyMarkup_strip (v : Value) : isEmptyMarkup v.strip = isEmptyMarkup v := by
  cases v with
  | node n => simp only [Value.strip_node, isEmptyMarkup, NodeOf.strip_name, NodeOf.text?_strip]
  | _ => rfl

theorem assembleProgram_blind : Processor.Blind assembleProgram := by
  intro v ctx ctx' h
  cases v with
  | node n =>
    have hkept : ∀ vs : List Value, (vs.map Value.strip).filter (fun v => !isEmptyMarkup v) =
        (vs.filter fun v => !isEmptyMarkup v).map Value.strip := by
      intro vs
      simp only [List.filter_map, Function.comp_def, isEmptyMarkup_strip]
    simp only [Value.strip_node, assembleProgram, Except.map, NodeOf.take_strip,
      Value.toList_strip, ← List.map_cons, hkept, ← Value.strip_list, NodeOf.set_strip]
  | _ => rfl

theorem checkHaltCompiler_blind : Processor.Blind checkHaltCompiler := by
  intro v ctx ctx' h
  cases v with
  | node n =>
    simp only [Value.strip_node, checkHaltCompiler, NodeOf.take_strip, Value.asBool?_strip,
      h.fatal]
    split <;> rfl
  | _ => rfl

theorem rejectNestedHaltCompiler_blind : Processor.Blind rejectNestedHaltCompiler := by
  intro v ctx ctx' h
  simp only [rejectNestedHaltCompiler, h.fatal]
  rfl

theorem checkTry_blind : Processor.Blind checkTry := by
  intro v ctx ctx' h
  cases v with
  | node n =>
    have hcatches : ((n.strip.list? "catches").getD []).isEmpty =
        ((n.list? "catches").getD []).isEmpty := by
      rw [NodeOf.list?_strip]
      cases n.list? "catches" with
      | none => rfl
      | some vs => exact List.isEmpty_map
    have hfinally : ((n.strip.get? "finally").getD .null).isNull =
        ((n.get? "finally").getD .null).isNull := by
      rw [NodeOf.get?_strip]
      cases n.get? "finally" with
      | none => rfl
      | some v => exact v.isNull_strip
    simp only [Value.strip_node, checkTry, hcatches, hfinally, h.fatal]
    split <;> rfl
  | _ => rfl

theorem nonEmptyParts_blind : Processor.Blind nonEmptyParts := by
  intro v ctx ctx' h
  simp only [nonEmptyParts, Value.toList_strip]
  cases v.toList with
  | nil =>
    have hpart : (ctx.covering (stringLiteral "") none none).strip = stringLiteral "" := by
      rw [Context.covering_strip]
      rfl
    simp only [List.map_nil, Context.covering_off h.off, Except.map, Value.strip_list,
      List.map_cons, Value.strip_node, hpart]
  | cons part parts => simp only [List.map_cons, Except.map, Value.strip_list]

theorem stringOfParts_strip (parts : List Value) :
    stringOfParts (parts.map Value.strip) = (stringOfParts parts).strip := by
  have hexpression :
      NodeOf.ofEntries "StringExpression" [("parts", .list (parts.map Value.strip))] =
        (NodeOf.ofEntries "StringExpression" [("parts", .list parts)]).strip := by
    rw [strip_entries, List.map_cons, List.map_nil, Value.strip_list]
  cases parts with
  | nil => exact hexpression
  | cons part rest =>
    cases rest with
    | cons next rest => cases part <;> exact hexpression
    | nil =>
      cases part with
      | node part =>
        simp only [List.map_cons, List.map_nil, Value.strip_node, stringOfParts, NodeOf.strip_name,
          NodeOf.text?_strip]
        split
        · rfl
        · exact hexpression
      | _ => exact hexpression

theorem interpolateDoubleQuoted_blind : Processor.Blind interpolateDoubleQuoted := by
  intro v ctx ctx' h
  cases v with
  | node n =>
    simp only [Value.strip_node, interpolateDoubleQuoted, NodeOf.text?_strip, ← h.reparse, h.span]
    cases ctx.reparse _ _ _ with
    | error e => rfl
    | ok found =>
      cases found with
      | none => rfl
      | some parts =>
        simp only [Except.map, bind, Except.bind, pure, Except.pure, Option.map_some,
          Value.toList_strip, stringOfParts_strip, Value.strip_node]
  | _ => rfl

theorem interpolateHeredoc_blind : Processor.Blind interpolateHeredoc := by
  intro v ctx ctx' h
  cases v with
  | node n =>
    simp only [Value.strip_node, interpolateHeredoc, NodeOf.text?_strip, ← h.reparse, h.span,
      h.text]
    cases ctx.reparse _ _ _ with
    | error e => rfl
    | ok found =>
      cases found with
      | none => rfl
      | some parts => rfl
  | _ => rfl

theorem grammar_blind : grammar.Blind := by
  have hall : ∀ p ∈ processors, Processor.Blind p := by
    simp only [processors, List.forall_mem_cons]
    exact ⟨foldBinary_blind, foldBinaryRight_blind, foldTernary_blind, foldIf_blind,
      foldMembers_blind, nonEmptyParts_blind, assembleProgram_blind, checkHaltCompiler_blind,
      rejectNestedHaltCompiler_blind, checkTry_blind, interpolateDoubleQuoted_blind,
      interpolateHeredoc_blind, by simp⟩
  exact fun r hr p hp => hall p (grammar_processors hr hp)

theorem scanDoc_text {kind : DocKind} {cs : List Char} {n : Nat} {v : Value}
    (h : scanDoc kind cs = some (n, v)) : ∃ s, v = .text s := by
  simp only [scanDoc, Option.bind_eq_bind, Option.bind_eq_some_iff, pure, Option.some.injEq,
    Prod.mk.injEq] at h
  obtain ⟨_, _, _, _, _, _, _, rfl⟩ := h
  exact ⟨_, rfl⟩

theorem scanLiteralRun_text {set : Literal.EscapeSet} {cs : List Char} {n : Nat} {v : Value}
    (h : scanLiteralRun set cs = some (n, v)) : ∃ s, v = .text s := by
  simp only [scanLiteralRun] at h
  split at h
  · cases h
  · cases h
    exact ⟨_, rfl⟩

theorem grammar_scansPlain : grammar.ScansPlain := by
  intro r hr s hs
  have hmem : s ∈ rules.flatMap (·.pattern.scanners) := by
    refine List.mem_flatMap.2 ⟨r.written, grammar_written hr, ?_⟩
    rwa [LinkedRule.written, Pattern.scanners_map]
  rw [rules_scanners] at hmem
  have htext : ∀ cs n v, s.scan cs = some (n, v) → ∃ t, v = .text t := by
    intro cs n v h
    simp only [List.mem_cons, List.not_mem_nil, or_false] at hmem
    obtain rfl | rfl | rfl | rfl | rfl | rfl | rfl := hmem
    · cases h
      exact ⟨_, rfl⟩
    · cases h
      exact ⟨_, rfl⟩
    · cases h
      exact ⟨_, rfl⟩
    · exact scanDoc_text h
    · exact scanDoc_text h
    · exact scanLiteralRun_text h
    · exact scanLiteralRun_text h
  intro cs n v h
  obtain ⟨t, rfl⟩ := htext cs n v h
  rfl

end PhpSyntax.Php

namespace PhpSyntax

open Peg

theorem run_strip (options : Options) (source : Text) :
    (Parser.run options source).map NodeOf.strip = Parser.run .off source := by
  unfold Parser.run
  cases hid : Php.grammar.ruleId? Php.startRule with
  | none =>
    rw [Session.run_eq (runWith_unknown hid _ _ _ _), Session.run_eq (runWith_unknown hid _ _ _ _)]
    rfl
  | some id =>
    obtain ⟨o, p, m, n, hx, hy, ho, hmn⟩ :=
      invoke_strip (s := (Parser.session options source).setting) Php.grammar_blind
        Php.grammar_scansPlain defaultLimit ⟨source, 0⟩ ⟨id, 0, true, false⟩ .empty .empty
        samePlaces_empty
    rw [Session.run_eq (runWith_eq hid hx), Session.run_eq (runWith_eq hid hy)]
    cases ho with
    | error e => rfl
    | ok h =>
      cases h with
      | none =>
        simp only [conclusion, mismatch, hmn.furthest]
        rfl
      | @some a b h =>
        obtain ⟨_, _, v⟩ := a
        obtain ⟨_, _, w⟩ := b
        obtain ⟨-, -, rfl⟩ := h
        cases v with
        | node n => rfl
        | _ =>
          simp only [conclusion, Session.furthest, hmn.furthest]
          rfl

/-- Instrumentation does not influence the parse: whatever places are recorded, the tree without
them is the one that a parse without them yields, and the error is the same. -/
theorem parse_instrumented (p : Parser) (source : String) :
    (p.parse source).map NodeOf.strip = ({ p with options := .off } : Parser).parse source := by
  simp only [Parser.parse, ← run_strip p.options]
  cases Parser.run p.options (Text.ofString source) <;> rfl

end PhpSyntax
