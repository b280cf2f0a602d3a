import PhpSyntax.Proofs.Check.Promptness
import PhpSyntax.Proofs.Php.Ranges

namespace PhpSyntax.Php

open Peg Check

/-- A regex that takes a character does not match the empty text. -/
theorem matchesEmpty_of_takesSome {t : Terminal} (h : t.regex?.all (·.takesSome) = true) :
    matchesEmpty t = false := by
  rw [← Bool.not_eq_true]
  intro hempty
  obtain ⟨l, hl, hmatch⟩ := (Option.any_eq_true ..).1 hempty
  obtain ⟨n, hn⟩ := Option.isSome_iff_exists.1 hmatch
  rw [Terminal.lexeme?, Terminal.program?_eq, Option.map_map] at hl
  obtain ⟨r, hr, rfl⟩ := Option.map_eq_some_iff.1 hl
  rw [hr, Option.all_some, Regex.takesSome, Option.any_eq_true] at h
  obtain ⟨k, hk, hpos⟩ := h
  obtain ⟨f, hf, -⟩ := Option.map_eq_some_iff.1 hn
  obtain ⟨front, rest, hcs, hstop⟩ := Regex.Program.find?_stop hf
  obtain ⟨rfl, -⟩ := List.append_eq_nil_iff.1 hcs.symm
  have hshort := (of_decide_eq_true hpos).trans_le (Regex.Program.find?_shortest hk hf)
  exact absurd hstop hshort.ne'

theorem terminals_matchNothing {d : RuleDef} (hd : d ∈ rules) :
    ∀ t ∈ d.pattern.terminals, matchesEmpty t = false := by
  intro t ht
  have hconsuming := rules_consuming
  simp only [consuming, List.all_eq_true, Option.any_eq_true] at hconsuming
  obtain ⟨r, hr, htakes⟩ := hconsuming d hd t ht
  refine matchesEmpty_of_takesSome ?_
  rw [hr]
  exact htakes

/-- Where an item of a list may be left out, a bracket or a keyword stands in front of the list. -/
theorem rules_vacantly :
    (rules.all fun d => isPrompt (Pattern.vacant vacantRules) d.pattern) = true := by
  decide +kernel

theorem rules_prompt : ∀ d ∈ rules, PatternDef.Evenly d.pattern ∧
    isPrompt (isNullable vacantRules) d.pattern = true := by
  intro d hd
  obtain ⟨hterminals, hscanners⟩ := rules_grasp hd
  refine ⟨⟨fun t ht l hl cs yielded hmatch => ?_, fun sc hsc => (hscanners sc hsc).1.2⟩, ?_⟩
  · exact absurd (hterminals t ht l hl cs 0 yielded hmatch) (Nat.lt_irrefl 0)
  · rw [isPrompt_vacant d.pattern (terminals_matchNothing hd)]
    exact List.all_eq_true.1 rules_vacantly d hd

theorem rules_nullable : ∀ d ∈ rules, isNullable vacantRules d.pattern = true →
    d.name ∈ vacantRules := by
  intro d hd hnullable
  rw [isNullable_eq_vacant d.pattern (terminals_matchNothing hd)] at hnullable
  have hd := List.all_eq_true.1 rules_arranged d hd
  simp only [Bool.and_eq_true, Bool.or_eq_true, Bool.not_eq_true', hnullable, Bool.true_eq_false,
    false_or] at hd
  exact List.contains_iff_mem.1 hd.1.2

/-- Whatever is run on a source, and however parses nest in it: the match of a rule lies behind
where it was tried, has its leaves within it one behind the other, and begins with the first one. -/
theorem rule_covered (options : Options) (source : String) :
    let session := Parser.session options (.ofString source)
    ∀ input ref skip offset σ m σ',
      Occurs session.setting session.input input (.pattern (.rule ref) skip offset) σ →
      Exec session.setting (· ≤ session.setting.limit) input (.pattern (.rule ref) skip offset) σ
        (.ok (some m)) σ' →
      Covered rules grammar.trivia input.text (.rule ref.name) skip offset m := by
  intro session input ref skip offset σ m σ' h hexec
  exact covered_of_occurs grammar_lists rules_honest rules_nullable rules_prompt
    ⟨_, Text.has_start _⟩ h hexec rfl

end PhpSyntax.Php
