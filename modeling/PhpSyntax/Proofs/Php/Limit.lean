import PhpSyntax.Proofs.Peg.Limit
import PhpSyntax.Proofs.Php.StringLiteral

namespace PhpSyntax.Php

open Peg

/-- All that a limit on nested calls ever does is to add failures: of a grammar over processors that
pass on the failure to nest deeper, as those of the language do, no run that does not end with it
changes with a higher limit, and neither does how far the text was understood. -/
theorem limit_only_fails :
    (∀ p ∈ processors, p.PassesOn) ∧
    ∀ s : Setting, s.grammar.PassesOn → ∀ limit, s.limit ≤ limit →
      ∀ (input : Input) (runs : List (String × Bool)),
        (Session.start s input).Shallow Session.run runs →
        (Session.start (s.limited limit) input).results runs =
          (Session.start s input).results runs :=
  ⟨fun p hp => (processors_planned p hp).passesOn,
    fun _ hg _ hle input runs h => limit_raised hg hle input runs h⟩

/-- The parse of a literal whose body is parsed on its own. -/
def literalSetting (limit : Nat) : Setting :=
  ⟨grammar, .ofText (Text.ofString (Quoting.double.source "a")), .off, limit⟩

def literalInput : Input :=
  ⟨Text.ofString (Quoting.double.source "a"), 0⟩

theorem run_literal {limit : Nat} (h : 266 ≤ limit) :
    ((Session.start (literalSetting limit) literalInput).run "Program" true).1 =
      .ok (.node (returnOf "a")) := by
  have hs : Plain (literalSetting limit) nesting := ⟨grammar_linked, rfl, le_rfl⟩
  have hmem : program ∈ rules := by simp [rules, statementRules]
  obtain ⟨id, -, hid, -⟩ := Grammar.rule_of_link hs.linked hmem
  have hread := (hs.more 64).reads_program (by simp) rfl
    (hs.reads_return (hs.reads_literal .double "a".toList))
  have hsource : literalInput.text.Has 0
      ("<?php ".toList ++ ("return ".toList ++ (Quoting.double.print "a".toList ++ [';']))) :=
    Text.has_start _
  refine Session.run_of_reads_within grammar_planned hid hread hsource ?_
  norm_cast

theorem limit_only_fails_literal :
    (Session.start (literalSetting 8000) literalInput).results [("Program", true)] =
      (Session.start (literalSetting 300) literalInput).results [("Program", true)] := by
  have hshallow : (Session.start (literalSetting 300) literalInput).Shallow Session.run
      [("Program", true)] := by
    refine ⟨?_, trivial⟩
    rw [run_literal (by decide)]
    exact not_false
  exact limit_only_fails.2 (literalSetting 300) grammar_planned.passesOn 8000 (by decide)
    literalInput _ hshallow

/-- A processor that takes no notice of depth yields another value with a higher limit, though no run
nests too deep with the lower one. Where a run does, a later one gets less far. -/
theorem limit_shows :
    let heedless limit := Session.start (cramped (some lenient) limit) ⟨Text.ofString "", 0⟩
    let plain limit := Session.start (cramped none limit) xy
    (∀ p, Grammar.link (shortcutTable p) none = .ok (shortcut p)) ∧
    (heedless 2).Shallow Session.run [("T", false)] ∧
    (heedless 2).results [("T", false)] = [(.ok (.bool false), 0)] ∧
    (heedless 3).results [("T", false)] = [(.ok (.bool true), 0)] ∧
    (plain 1).results [("S", false), ("T", false)] =
      [(.error (.tooDeep 1 0), 0), (.error (.mismatch 0 false (some 'x')), 0)] ∧
    (plain 2).results [("S", false), ("T", false)] =
      [(.error (.mismatch 2 true none), 2), (.error (.mismatch 2 true none), 2)] := by
  intro heedless plain
  have hnew : ∀ c : Call, Memory.empty.memo[c]? = none := fun c => by simp [Memory.empty]
  have hlow : (heedless 2).run "T" false = _ := Session.run_eq
    (runWith_eq (shortcut_T _) (invoke_miss (hnew _) (evaluate_T 2 (invoke_S_deep _ 2))))
  refine ⟨shortcut_linked, ?_, ?_, ?_, ?_, ?_⟩
  · simp only [Session.Shallow, hlow]
    exact ⟨not_false, trivial⟩
  · simp only [Session.results, hlow]
    rfl
  · obtain ⟨memo, -, hS⟩ := invoke_S (some lenient) 3
    have hhigh : (heedless 3).run "T" false = _ := Session.run_eq
      (runWith_eq (shortcut_T _) (invoke_miss (hnew _) (evaluate_T 3 hS)))
    simp only [Session.results, hhigh]
    rfl
  · have hS : (plain 1).run "S" false = _ := Session.run_eq
      (runWith_eq (shortcut_S none) (invoke_S_deep none 1))
    have hbody : evaluate (cramped none 1) (invoke (cramped none 1) 0) xy ⟨3, 0, false, false⟩
        .empty = ending (.ok none) .empty := rfl
    have hT : (plain 1).run "T" false = _ := Session.run_eq
      (runWith_eq (shortcut_T none) (invoke_miss (hnew _) hbody))
    exact Session.results_two hS hT
  · obtain ⟨memo, hmemo, h⟩ := invoke_S none 2
    have hS : (plain 2).run "S" false = _ := Session.run_eq (runWith_eq (shortcut_S none) h)
    have hbody : evaluate (cramped none 2) (invoke (cramped none 2) 1) xy ⟨3, 0, false, false⟩
        ⟨memo, 2⟩ = ending (.ok none) ⟨memo, 2⟩ := rfl
    have hT : (Session.mk (cramped none 2) xy ⟨memo, 2⟩).run "T" false = _ := Session.run_eq
      (runWith_eq (shortcut_T none) (invoke_miss hmemo hbody))
    exact Session.results_two hS hT

end PhpSyntax.Php
