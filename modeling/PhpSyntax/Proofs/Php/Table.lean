import PhpSyntax.Parser
import PhpSyntax.Proofs.Peg.Linking
import PhpSyntax.Proofs.Regex.Folding

namespace PhpSyntax.Regex

def ofChars? (cs : List Char) (caseless : Bool) : Option Regex :=
  match readFrom (cs.length + 1) nestLimit (Mode.start caseless) .start .none cs with
  | some (r, _, []) => if r.depth ≤ nestLimit then some r.value else none
  | _ => none

theorem ofString?_eq (s : String) (caseless : Bool) : ofString? s caseless = ofChars? s.toList caseless :=
  rfl

end PhpSyntax.Regex

namespace PhpSyntax.Peg.Terminal

/-- The regex that a terminal's program is made of. -/
def regex? (t : Terminal) : Option Regex :=
  (Regex.ofString? ("\\A(?:" ++ t.source ++ ")") t.caseless).filter (·.fits)

theorem program?_eq (t : Terminal) : t.program? = t.regex?.map .ofRegex :=
  rfl

end PhpSyntax.Peg.Terminal

namespace PhpSyntax.Php

open Peg

set_option maxRecDepth 20000 in
theorem rules_scanners : rules.flatMap (·.pattern.scanners) = [markupScanner, restScanner,
    markupScanner, heredocScanner, nowdocScanner, doubleQuotedTextScanner, heredocTextScanner] :=
  rfl

set_option maxRecDepth 20000 in
theorem rules_processors : rules.filterMap (·.processor) = [assembleProgram, checkHaltCompiler,
    rejectNestedHaltCompiler, foldIf, foldIf, checkTry, foldBinary, foldBinary, foldBinary,
    foldMembers, foldTernary, foldBinaryRight, foldBinary, foldBinary, foldBinary, foldBinary,
    foldBinary, foldBinary, foldBinary, foldBinary, foldBinary, foldBinary, foldBinary,
    foldMembers, foldMembers, interpolateDoubleQuoted, interpolateHeredoc, nonEmptyParts,
    nonEmptyParts, foldMembers, foldMembers] :=
  rfl

/-- Whether every terminal of some rules can be read, and takes something wherever it matches. -/
def consuming (table : List RuleDef) : Bool :=
  table.all fun d => d.pattern.terminals.all (·.regex?.any (·.takesSome))

def reservedTerminal : Terminal :=
  reIgnoringCase ("(?:" ++ "|".intercalate reservedWords ++ ")\\b")

def reservedChoice : Regex :=
  Regex.altOf (reservedWords.map fun w => .spelled w.toList)

def reservedRegex : Regex :=
  .seq reservedChoice (.anchor (.word false .boundary))

-- Proofs by evaluation wait for all that stands above them, those of a mutual block in turn: long
-- tables are told in such blocks, so that few proofs wait at a time.
mutual

/-- The reserved words are read one by one: it is slow to take a long text apart. -/
theorem reserved_read :
    (Regex.ofChars? ("\\A(?:(?:".toList ++ ['|'].intercalate (reservedWords.map String.toList) ++
      ")\\b)".toList) true).filter (·.fits) = some (.seq (.anchor .textStart) reservedRegex) := by
  decide +kernel

theorem reservedRegex_takesSome :
    (Regex.seq (.anchor .textStart) reservedRegex).takesSome = true := by
  decide +kernel

end

theorem reservedTerminal_regex :
    reservedTerminal.regex? = some (.seq (.anchor .textStart) reservedRegex) := by
  have hsource : ("\\A(?:" ++ reservedTerminal.source ++ ")").toList =
      "\\A(?:(?:".toList ++ ['|'].intercalate (reservedWords.map String.toList) ++
        ")\\b)".toList := by
    simp [reservedTerminal, reIgnoringCase, re, Terminal.ofSource, Terminal.ignoringCase,
      String.toList_append, String.toList_intercalate]
  rw [Terminal.regex?, Regex.ofString?_eq, hsource]
  exact reserved_read

theorem reservedWord_terminals : reservedWord.pattern.terminals = [reservedTerminal] :=
  rfl

theorem reservedWord_consuming : consuming [reservedWord] = true := by
  simp only [consuming, List.all_cons, List.all_nil, Bool.and_true, reservedWord_terminals]
  rw [reservedTerminal_regex, Option.any_some]
  exact reservedRegex_takesSome

theorem rules_consuming : consuming rules = true := by
  have hstatements : consuming (statementRules ++ classRules) = true := by decide +kernel
  have hoperators : consuming (operatorRules ++ memberRules) = true := by decide +kernel
  have hterms : consuming (termRules ++ stringRules ++ lexicalRules.tail) = true := by
    decide +kernel
  have hwords := reservedWord_consuming
  simp only [consuming, List.all_append, Bool.and_eq_true] at hstatements hoperators hterms hwords
  have hsplit : lexicalRules = [reservedWord] ++ lexicalRules.tail := rfl
  rw [rules, consuming, hsplit]
  simp only [List.all_append, Bool.and_eq_true]
  exact ⟨⟨⟨⟨⟨hstatements, hoperators.1⟩, hoperators.2⟩, hterms.1.1⟩, hterms.1.2⟩, hwords, hterms.2⟩

theorem rules_readable {d : RuleDef} (hd : d ∈ rules) {t : Terminal}
    (ht : t ∈ d.pattern.terminals) : t.program?.isSome = true := by
  have hconsuming := rules_consuming
  simp only [consuming, List.all_eq_true, Option.any_eq_true] at hconsuming
  obtain ⟨r, hr, -⟩ := hconsuming d hd t ht
  rw [Terminal.program?_eq, hr]
  rfl

theorem linked_ok : ∃ g, linked = .ok g := by
  obtain ⟨hnames, htrivia, hreferences⟩ : (rules.map (·.name)).Nodup ∧
      trivia.program?.isSome = true ∧
      (rules.all fun d => d.pattern.references.all (rules.map (·.name)).contains) = true := by
    decide +kernel
  refine Grammar.exists_link ?_
  simp only [List.all_eq_true] at hreferences
  simp only [Grammar.links, Bool.and_eq_true, decide_eq_true_eq, List.all_eq_true]
  exact ⟨⟨hnames, htrivia⟩, fun d hd => ⟨hreferences d hd, fun t ht => rules_readable hd ht⟩⟩

theorem grammar_linked : Grammar.link rules (some trivia) = .ok grammar := by
  obtain ⟨g, hg⟩ := linked_ok
  have hgrammar : grammar = g := by
    simp only [grammar, hg]
  rw [hgrammar]
  exact hg

theorem grammar_written {r : LinkedRule} (hr : r ∈ grammar.rules) : r.written ∈ rules := by
  rw [← (Grammar.link_rules grammar_linked).1]
  exact List.mem_map_of_mem hr.val

def processors : List Processor :=
  [foldBinary, foldBinaryRight, foldTernary, foldIf, foldMembers, nonEmptyParts, assembleProgram,
    checkHaltCompiler, rejectNestedHaltCompiler, checkTry, interpolateDoubleQuoted,
    interpolateHeredoc]

theorem mem_processors {d : RuleDef} (hd : d ∈ rules) {p : Processor}
    (hp : d.processor = some p) : p ∈ processors := by
  have hmem : p ∈ rules.filterMap (·.processor) := List.mem_filterMap.2 ⟨d, hd, hp⟩
  have hsub : rules.filterMap (·.processor) ⊆ processors := by
    rw [rules_processors]
    simp only [processors, List.cons_subset, List.mem_cons, true_or, or_true, and_true,
      List.nil_subset]
  exact hsub hmem

theorem grammar_processors {r : LinkedRule} (hr : r ∈ grammar.rules) {p : Processor}
    (hp : r.processor = some p) : p ∈ processors :=
  mem_processors (grammar_written hr) hp

end PhpSyntax.Php
