import PhpSyntax.Proofs.Peg.Exploring
import PhpSyntax.Proofs.Php.Processors
import PhpSyntax.Proofs.Php.Variable
import PhpSyntax.Proofs.Regex.Folding

namespace PhpSyntax.Php

open Peg Regex
open Regex.Program (Match)

theorem reservedTerminal_program :
    reservedTerminal.program? = some (.ofRegex (.seq (.anchor .textStart) reservedRegex)) := by
  rw [Terminal.program?_eq, reservedTerminal_regex]
  rfl

-- Evaluated in turn.
mutual

theorem reservedRegex_productive : reservedRegex.productive = true := by
  decide +kernel

theorem reservedChoice_anchorless : reservedChoice.anchorless = true := by
  decide +kernel

end

/-- A reserved word, in any case, that no word character follows stands at the start. -/
def BeginsReserved (cs : List Char) : Prop :=
  ∃ w ∈ reservedWords, ∃ front rest, cs = front ++ rest ∧ FoldsTo w.toList front ∧
    rest.head?.any Unicode.isWord = false

theorem reservedWords_end {w : String} (hw : w ∈ reservedWords) {cs : List Char}
    (h : FoldsTo w.toList cs) : cs.getLast?.any Unicode.isWord = true := by
  have hends : (reservedWords.all fun w =>
      w.toList.getLast?.any fun c => (Unicode.caseOrbit c).all Unicode.isWord) = true := by
    decide +kernel
  have hend := List.all_eq_true.1 hends w hw
  rw [FoldsTo, ← List.forall₂_reverse_iff] at h
  rw [List.getLast?_eq_head?_reverse] at hend ⊢
  generalize w.toList.reverse = word at h hend
  generalize cs.reverse = behind at h ⊢
  cases h with
  | nil => cases hend
  | cons hd _ => exact List.all_eq_true.1 hend _ hd

theorem past_before (p : Place) (front : List Char) :
    (p.past front).before = front.getLast?.or p.before := by
  induction front generalizing p with
  | nil => rfl
  | cons c front ih =>
    rw [Place.past, ih, List.getLast?_cons]
    cases front.getLast? <;> rfl

/-- Behind a reserved word its end is the edge of a word if no word character follows. -/
theorem meets_boundary {w : String} (hw : w ∈ reservedWords) {cs front : List Char}
    (hfolds : FoldsTo w.toList front) {m : Match} (hon : Onward (.starting cs) front m) :
    m.stop.meets (.word false .boundary) = true ↔
      m.stop.rest.head?.any Unicode.isWord = false := by
  have hplain : ∀ c : Option Char, wordAt false c = c.any Unicode.isWord := by
    intro c
    cases c <;> simp [wordAt]
  have hbefore : wordAt false m.stop.before = true := by
    have hend := reservedWords_end hw hfolds
    rw [hon.stop, past_before, hplain]
    cases hlast : front.getLast? with
    | none => rw [hlast] at hend; cases hend
    | some c => rwa [hlast] at hend
  simp only [Place.meets, WordEdge.holds, hbefore, hplain]
  cases m.stop.rest.head?.any Unicode.isWord <;> decide

/-- The regex goes on behind each reserved word that stands there, if no word character follows. -/
theorem explore_reserved (cs : List Char) :
    (∃ m, m ∈ reservedRegex.explore (.starting cs)) ↔ BeginsReserved cs := by
  have hwords : ∀ front, front ∈ reservedChoice.language ↔
      ∃ w ∈ reservedWords, FoldsTo w.toList front := by
    intro front
    rw [reservedChoice, mem_language_altOf]
    simp only [List.mem_map, exists_exists_and_eq_and, mem_language_spelled]
  refine ⟨?_, ?_⟩
  · rintro ⟨m', hm'⟩
    obtain ⟨m, hm, hm'⟩ := List.mem_flatMap.1 hm'
    obtain ⟨front, hfront, hon⟩ := takenFrom_explore reservedChoice _ m hm
    obtain ⟨w, hw, hfolds⟩ := (hwords front).1 hfront
    simp only [explore] at hm'
    split at hm'
    · rename_i hmeets
      exact ⟨w, hw, front, m.stop.rest, hon.text, hfolds, (meets_boundary hw hfolds hon).1 hmeets⟩
    · cases hm'
  · rintro ⟨w, hw, front, rest, rfl, hfolds, hrest⟩
    obtain ⟨m, hm, hon⟩ := goesOn_explore reservedChoice reservedChoice_anchorless
      (.starting (front ++ rest)) front ((hwords front).2 ⟨w, hw, hfolds⟩) rest rfl
    have hleft : m.stop.rest = rest := (List.append_cancel_left hon.text).symm
    refine ⟨m, List.mem_flatMap.2 ⟨m, hm, ?_⟩⟩
    have hmeets := (meets_boundary hw hfolds hon).2 (by rwa [hleft])
    simp only [explore, hmeets, if_true, List.mem_singleton]

section Identifiers

def identRegex : Regex :=
  .seq (.set identStarts) (.rounds 0 none true (.set identChars))

theorem ident_program :
    (re ident).program? = some (.ofRegex (.seq (.anchor .textStart) identRegex)) := by
  have hread : (re ident).regex? = some (.seq (.anchor .textStart) identRegex) := by
    decide +kernel
  rw [Terminal.program?_eq, hread]
  rfl

theorem ident_takes (x : Ident) {rest : List Char} (hrest : rest.head?.any isIdentChar = false) :
    (re ident).Takes (x.chars ++ rest) (some (byteLength x.chars, String.ofList x.chars)) := by
  have hmore : Prefers (many (explore (.set identChars)) true) x.more rest := by
    refine prefers_many_taking (fun c hc => (identChars_has c).trans (x.goesOn c hc)) ?_
    rwa [funext identChars_has]
  have hfirst : Prefers (taking identStarts) [x.first] (x.more ++ rest) :=
    prefers_taking ((identStarts_has x.first).trans x.starts) _
  rw [← explore_rounds true (.set identChars)] at hmore
  exact Terminal.takes_of_prefers ident_program rfl rfl (hfirst.bind hmore)

variable {s : Setting} (hg : Grammar.link rules (some trivia) = .ok s.grammar)
  (hoff : s.options = .off) {depth : ℕ∞}

include hg hoff

/-- The rule for reserved words matches where a text begins with one. -/
theorem reads_reservedWord (cs : List Char) : ∃ o : Option (List Char × Value),
    Reads s (depth + 1) (.rule "ReservedWord") false cs o ∧ (o.isSome = true ↔ BeginsReserved cs) := by
  have hmem : reservedWord ∈ rules := by simp [rules, lexicalRules]
  have hexplore := explore_reserved cs
  cases hfound : reservedRegex.explore (.starting cs) with
  | nil =>
    rw [hfound] at hexplore
    have hnone := Terminal.takes_none reservedTerminal_program reservedRegex_productive hfound
    have hread : Reads s depth (.terminal reservedTerminal) false cs none :=
      reads_terminal_none (leads_raw s cs) hnone
    refine ⟨none, reads_rule_none hg hmem hread, ?_⟩
    simpa using hexplore
  | cons m ms =>
    rw [hfound] at hexplore
    obtain ⟨front, -, hon⟩ := takenFrom_explore reservedRegex (.starting cs) m (by simp [hfound])
    obtain rfl : cs = front ++ m.stop.rest := hon.text
    have htakes := Terminal.takes_of_head? reservedTerminal_program reservedRegex_productive rfl
      (congrArg List.head? hfound) hon
    have hread : Reads s depth (.terminal reservedTerminal) false (front ++ m.stop.rest)
        (some (m.stop.rest, .text (String.ofList front))) :=
      reads_terminal (leads_raw s _) htakes
    refine ⟨_, reads_rule hg hmem hoff (RuleDef.makes_tagged rfl rfl) hread, ?_⟩
    simpa using hexplore

theorem reads_identifier_none {cs : List Char} (h : BeginsReserved cs) :
    Reads s (depth + 2) (.rule "Identifier") false cs none := by
  have hmem : identifier ∈ rules := by simp [rules, lexicalRules]
  obtain ⟨o, hword, ho⟩ := reads_reservedWord hg hoff cs
  have hahead : Reads s (depth + 1) (notAhead "ReservedWord") false cs
      (if o.isSome != true then some (cs, .null) else none) := reads_ahead hword
  rw [ho.2 h] at hahead
  have hread := reads_rule_none hg hmem (reads_sequence_none (readsParts_none hahead))
  rwa [add_assoc, one_add_one_eq_two] at hread

theorem reads_identifier {x : Ident} {rest : List Char} (h : ¬BeginsReserved (x.chars ++ rest))
    (hrest : rest.head?.any isIdentChar = false) : Reads s (depth + 2) (.rule "Identifier") false
      (x.chars ++ rest) (some (rest, .text (String.ofList x.chars))) := by
  have hmem : identifier ∈ rules := by simp [rules, lexicalRules]
  obtain ⟨o, hword, ho⟩ := reads_reservedWord hg hoff (x.chars ++ rest)
  have hnone : o.isSome = false := Bool.eq_false_iff.2 fun hsome => h (ho.1 hsome)
  have hahead : Reads s (depth + 1) (notAhead "ReservedWord") false (x.chars ++ rest)
      (if o.isSome != true then some (x.chars ++ rest, .null) else none) := reads_ahead hword
  rw [hnone] at hahead
  have hname : Reads s (depth + 1) (.terminal (re ident)) false (x.chars ++ rest)
      (some (rest, .text (String.ofList x.chars))) :=
    reads_terminal (leads_raw s _) (ident_takes x hrest)
  have hparts : Reads s (depth + 1) identifier.pattern false (x.chars ++ rest)
      (some (rest, .record ⟨[("identifier", .text (String.ofList x.chars))]⟩)) :=
    reads_sequence (readsParts_plain hahead rfl (readsParts_field hname readsParts_nil))
  have hread := reads_rule hg hmem hoff (RuleDef.makes_tagged rfl rfl) hparts
  rwa [add_assoc, one_add_one_eq_two] at hread

end Identifiers

section Names

variable (x : Ident)

/-- The result of the rule for identifiers on the characters of a name. -/
def identified : Except Failure Value :=
  ((Parser.session .off (Text.ofString (String.ofList x.chars))).run "Identifier" false).1

/-- A name is an identifier if and only if no reserved word, in any case, stands at its start with no
word character behind it. -/
theorem identified_iff :
    identified x = .ok (.text (String.ofList x.chars)) ↔ ¬BeginsReserved x.chars := by
  let s : Setting := (Parser.session .off (Text.ofString (String.ofList x.chars))).setting
  have hmem : identifier ∈ rules := by simp [rules, lexicalRules]
  obtain ⟨id, -, hid, -⟩ := Grammar.rule_of_link grammar_linked hmem
  have hid : s.grammar.ruleId? "Identifier" = some id := hid
  have hstart : (Input.mk (.ofString (String.ofList x.chars)) 0).text.Has 0 (x.chars ++ []) := by
    rw [List.append_nil, Text.ofString, String.toList_ofList]
    exact Text.has_start x.chars
  have hdepth : (0 + 2 : ℕ∞) ≤ defaultLimit := by norm_cast
  refine ⟨fun h hreserved => ?_, fun h => ?_⟩
  · rw [← List.append_nil x.chars] at hreserved
    have hread : Reads s (0 + 2) (.rule "Identifier") false (x.chars ++ []) none :=
      reads_identifier_none grammar_linked rfl hreserved
    obtain ⟨m, hrun⟩ := Session.run_of_reads_none grammar_planned hid hstart hread hdepth
    cases hrun.symm.trans h
  · rw [← List.append_nil x.chars] at h
    have hread : Reads s (0 + 2) (.rule "Identifier") false (x.chars ++ [])
        (some ([], .text (String.ofList x.chars))) :=
      reads_identifier grammar_linked rfl h rfl
    exact Session.run_of_reads_within grammar_planned hid hread hstart hdepth

variable {x}

theorem Ident.identChars (x : Ident) : ∀ c ∈ x.chars, isIdentChar c = true := by
  refine List.forall_mem_cons.2 ⟨?_, x.goesOn⟩
  have hstart := x.starts
  simp only [isIdentStart, isIdentChar, Char.isAlphanum, Bool.or_eq_true] at hstart ⊢
  tauto

/-- Of names of word characters all are identifiers but the reserved words, in any case. -/
theorem identified_words (h : ∀ c ∈ x.chars, Unicode.isWord c = true) :
    identified x = .ok (.text (String.ofList x.chars)) ↔
      ∀ w ∈ reservedWords, ¬FoldsTo w.toList x.chars := by
  rw [identified_iff]
  refine ⟨fun hbegins w hw hfolds => ?_, ?_⟩
  · exact hbegins ⟨w, hw, x.chars, [], (List.append_nil _).symm, hfolds, rfl⟩
  · rintro hnone ⟨w, hw, front, rest, hchars, hfolds, hrest⟩
    cases rest with
    | nil => exact hnone w hw (by rwa [hchars, List.append_nil])
    | cons c rest =>
      have hword := h c (by simp [hchars])
      cases hword.symm.trans hrest

/-- Of names of ASCII all are identifiers but those that are a reserved word in lower case. -/
theorem identified_ascii (h : ∀ c ∈ x.chars, c.toNat < 128) :
    identified x = .ok (.text (String.ofList x.chars)) ↔
      String.ofList (x.chars.map Char.toLower) ∉ reservedWords := by
  have hlower : (reservedWords.all fun w =>
      w.toList.all fun c => c.toNat < 128 && !c.isUpper) = true := by
    decide +kernel
  have hwords : ∀ c ∈ x.chars, Unicode.isWord c = true := by
    intro c hc
    have hchar := x.identChars c hc
    have hsmall := h c hc
    rw [isIdentChar, Bool.or_eq_true, decide_eq_true_eq] at hchar
    rw [Unicode.isWord, if_pos hsmall]
    exact hchar.resolve_right (by omega)
  have hfolds : ∀ w ∈ reservedWords, FoldsTo w.toList x.chars ↔
      String.ofList (x.chars.map Char.toLower) = w := by
    intro w hw
    have hw := List.all_eq_true.1 hlower w hw
    simp only [List.all_eq_true, Bool.and_eq_true, decide_eq_true_eq, Bool.not_eq_true'] at hw
    rw [foldsTo_ascii hw h, ← String.toList_inj, String.toList_ofList]
  rw [identified_words hwords]
  refine ⟨fun hnone hmem => ?_, fun hmem w hw hfold => ?_⟩
  · exact hnone _ hmem ((hfolds _ hmem).2 rfl)
  · exact hmem ((hfolds w hw).1 hfold ▸ hw)

end Names

end PhpSyntax.Php
