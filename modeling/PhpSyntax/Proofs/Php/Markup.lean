import PhpSyntax.Proofs.Php.Operands

namespace PhpSyntax.Php

open Peg Regex

section Tags

def asciiSpaces : List Char :=
  [' ', '\t', '\n', '\r', '\x0c']

/-- An opening tag at the start of a text: one that echoes, or one in any case with a space or the
end of the text behind it. -/
def BeginsTag (cs : List Char) : Prop :=
  ['<', '?', '='] <+: cs ∨
    (cs.take 5).map Char.toLower = ['<', '?', 'p', 'h', 'p'] ∧ cs[5]?.all (· ∈ asciiSpaces) = true

def HasTag (cs : List Char) : Prop :=
  ∃ back, back <:+ cs ∧ BeginsTag back

instance (cs : List Char) : Decidable (BeginsTag cs) :=
  inferInstanceAs (Decidable (_ ∨ _))

instance (cs : List Char) : Decidable (HasTag cs) :=
  decidable_of_iff (∃ back ∈ cs.tails, BeginsTag back) (by simp [HasTag, List.mem_tails])

theorem HasTag.of_suffix {cs cs' : List Char} (h : HasTag cs) (hsuffix : cs <:+ cs') :
    HasTag cs' := by
  obtain ⟨back, hback, htag⟩ := h
  exact ⟨back, hback.trans hsuffix, htag⟩

/-- What the scanner tests behind a less-than sign and a question mark. -/
theorem opensCode_iff (cs : List Char) : opensCode cs = true ↔
    ['='] <+: cs ∨
      (cs.take 3).map Char.toLower = ['p', 'h', 'p'] ∧ cs[3]?.all (· ∈ asciiSpaces) = true := by
  have hequals : '='.toLower ≠ 'p' := by decide
  unfold opensCode
  split
  · simp
  · rename_i p h q rest hne
    have hp : '=' ≠ p := fun heq => hne heq.symm
    cases rest <;> simp [isTagSpace, asciiSpaces, hp, and_assoc]
  · rename_i hne hshort
    rcases cs with _ | ⟨a, _ | ⟨b, _ | ⟨c, rest⟩⟩⟩
    · simp
    · have ha : a ≠ '=' := fun heq => hne [] (by rw [heq])
      simp [ha.symm]
    · have ha : a ≠ '=' := fun heq => hne [b] (by rw [heq])
      simp [ha.symm]
    · exact (hshort a b c rest rfl).elim

theorem beginsTag_iff (rest : List Char) :
    BeginsTag ('<' :: '?' :: rest) ↔ opensCode rest = true := by
  have hless : '<'.toLower = '<' := by decide
  have hmark : '?'.toLower = '?' := by decide
  rw [opensCode_iff]
  simp [BeginsTag, hless, hmark]

/-- What may stand behind markup: the end of the input, or a tag, which is taken with it. -/
inductive Behind : List Char → List Char → Prop where
  | ends : Behind [] []
  | tag (rest : List Char) : Behind ("<?php ".toList ++ rest) rest

/-- What stands behind a text does not complete a tag that the text begins. -/
theorem opensCode_behind {tail rest : List Char} (h : Behind tail rest) {cs : List Char}
    (hopens : opensCode (cs ++ tail) = true) : opensCode cs = true := by
  have hless : '<'.toLower = '<' := by decide
  rw [opensCode_iff] at hopens ⊢
  cases h with
  | ends => rwa [List.append_nil] at hopens
  | tag rest =>
    -- Where a tag would need more of the text, a less-than sign comes instead.
    rcases cs with _ | ⟨a, _ | ⟨b, _ | ⟨c, _ | ⟨d, cs⟩⟩⟩⟩
    · simp [hless] at hopens
    · simpa [hless] using hopens
    · simpa [hless] using hopens
    · refine .inl ?_
      simpa [asciiSpaces] using hopens
    · simpa using hopens

/-- Text without an opening tag is markup, whatever stands behind it. -/
theorem markup_behind {tail rest : List Char} (h : Behind tail rest) {cs : List Char}
    (hcs : ¬HasTag cs) : markup (cs ++ tail) = cs := by
  induction cs using markup.induct with
  | case1 =>
    cases h with
    | ends => rfl
    | tag rest => rfl
  | case2 back hopens => exact absurd ⟨_, List.suffix_refl _, (beginsTag_iff back).2 hopens⟩ hcs
  | case3 back hopens ih =>
    have hsuffix : back <:+ '<' :: '?' :: back := (List.suffix_cons _ _).trans (List.suffix_cons _ _)
    rw [List.cons_append, List.cons_append, markup, if_neg fun h' => hopens (opensCode_behind h h'),
      ih fun htag => hcs (htag.of_suffix hsuffix)]
  | case4 c cs hplain ih =>
    have hmore : ∀ back, c = '<' → cs ++ tail = '?' :: back → False := by
      intro back hc hback
      cases cs with
      | nil => cases h <;> cases hback
      | cons d cs =>
        rw [List.cons_append, List.cons.injEq] at hback
        exact hplain cs hc (by rw [hback.1])
    rw [List.cons_append, markup, ih fun htag => hcs (htag.of_suffix (List.suffix_cons c cs))]
    exact hmore

end Tags

section Reads

def markupNode (cs : List Char) : Value :=
  .node (.ofFields "InlineHtml" ⟨[("html", .text (String.ofList cs))]⟩)

def programOfAll (statements : List Value) : Node :=
  .ofEntries "Program" [("statements", .list statements)]

-- Evaluated in turn.
mutual

theorem openTag_foreseen : openTag.foresee? false "<?php ".toList = some (some (6, "<?php ")) := by
  decide +kernel

theorem openTag_missing : openTag.foresee? true [] = some none := by
  decide +kernel

/-- No statement stands at the end. -/
theorem topStatement_fails :
    foretell rules trivia true nesting true (.rule "TopStatement") [] = .fails := by
  decide +kernel

theorem end_led : foreLead trivia true true [] = some [] := by
  decide +kernel

end

namespace Plain

variable {s : Setting} {depth : ℕ∞} {cs tail rest : List Char}

/-- Markup and the tag behind it, as rules take them. -/
theorem readsParts_markup (hcs : ¬HasTag cs) (h : Behind tail rest) (fields : Captures)
    (kept : Bool) :
    ReadsParts s depth [field "html" (scan markupScanner), opt openTag] false (cs ++ tail) fields
      kept (some (rest, fields.insert "html" (.text (String.ofList cs)), true)) := by
  have hscan : Reads s depth (scan markupScanner) false (cs ++ tail)
      (some (tail, .text (String.ofList cs))) := by
    refine reads_scan (leads_raw s _) ?_
    show some (yieldText (markup (cs ++ tail))) = _
    rw [markup_behind h hcs]
    rfl
  refine readsParts_field hscan ?_
  cases h with
  | ends =>
    have hend : Reads s depth (.terminal openTag) false [] none :=
      reads_terminal_none (leads_raw s []) (Terminal.takes_of_foresee openTag_missing fun _ => rfl)
    exact readsParts_plain (reads_optional_none hend) rfl readsParts_nil
  | tag rest =>
    have hopen : Reads s depth (.terminal openTag) false ("<?php ".toList ++ rest)
        (some (rest, .text "<?php ")) :=
      reads_terminal (leads_raw s _) (Terminal.takes_of_foresee openTag_foreseen (by simp))
    exact readsParts_plain (reads_optional_some hopen) rfl readsParts_nil

variable (hs : Plain s depth)

include hs

theorem reads_leadingHtml (hcs : ¬HasTag cs) (h : Behind tail rest) :
    Reads s (depth + 1) (.rule "LeadingHtml") true (cs ++ tail) (some (rest, markupNode cs)) := by
  have hmem : leadingHtml ∈ rules := by simp [rules, statementRules]
  exact hs.reads hmem (RuleDef.makes_tagged rfl rfl)
    (reads_trivia (reads_sequence (readsParts_markup hcs h _ _)) true)

theorem reads_statements {leading : Value} {statements : List Value}
    (hleading : Reads s (depth + 1) (.rule "LeadingHtml") true cs (some (rest, leading)))
    (h : ReadsAll s (depth + 1) (.rule "TopStatement") true rest [] statements) :
    Reads s (depth + 2) (.rule "Program") true cs (some ([], .node (programOfAll
      ((leading :: statements).filter fun v => !isEmptyMarkup v)))) := by
  have hmem : program ∈ rules := by simp [rules, statementRules]
  have hdone : Reads s (depth + 1) atEnd true [] (some ([], .null)) :=
    reads_endOfInput (leads_of_foreLead hs.linked rfl (fun _ => rfl) end_led)
  have hparts : Reads s (depth + 1) program.pattern true cs
      (some ([], .record ⟨[("leading", leading), ("statements", .list statements)]⟩)) :=
    reads_sequence (readsParts_field hleading (readsParts_field
      (reads_repetition h (Nat.zero_le _)) (readsParts_plain hdone rfl readsParts_nil)))
  have hread := (hs.more 1).reads hmem (RuleDef.makes_processed rfl rfl fun ctx _ => rfl) hparts
  rwa [add_assoc, one_add_one_eq_two] at hread

theorem reads_topStatement_none : Reads s depth (.rule "TopStatement") true [] none :=
  (reads_of_fails hs.linked rfl (fun _ => rfl) topStatement_fails).mono hs.room

end Plain

end Reads

end PhpSyntax.Php
