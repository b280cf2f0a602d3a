import PhpSyntax.Proofs.Peg.Taking
import PhpSyntax.Proofs.Php.RoundTrip
import PhpSyntax.Proofs.Php.Table

namespace PhpSyntax

namespace Php

open Peg Regex

section Newline

/-- A text without the newline that it begins with, if it does. -/
def withoutNewline : List Char → List Char
  | '\r' :: '\n' :: cs => cs
  | '\n' :: cs => cs
  | cs => cs

theorem withoutNewline_suffix (cs : List Char) : withoutNewline cs <:+ cs := by
  unfold withoutNewline
  split
  · exact (List.suffix_cons _ _).trans (List.suffix_cons _ _)
  · exact List.suffix_cons _ _
  · exact List.suffix_refl _

/-- The terminal of the newline that belongs to a closing tag. -/
def newline : Terminal :=
  re "\\r\\n|\\n"

def newlineRegex : Regex :=
  .seq (.anchor .textStart) (.alt (.text ['\r', '\n']) (.text ['\n']))

theorem newline_read : newline.regex? = some newlineRegex := by
  decide +kernel

-- Evaluated in turn.
mutual

theorem crlf_foreseen : newline.foresee? false ['\r', '\n'] = some (some (2, "\r\n")) := by
  decide +kernel

theorem linefeed_foreseen : newline.foresee? false ['\n'] = some (some (1, "\n")) := by
  decide +kernel

theorem closing_foretold :
    (Token.mk (lit "?>") none).foretell trivia false ['?', '>'] = some ([], "?>") := by
  decide +kernel

/-- No statement that is tried before markup begins with a closing tag. -/
theorem closing_never : ∀ name ∈ ["HaltCompiler", "NamespaceStatement", "Block"],
    neverReads (.rule name) ['?', '>'] = true := by
  decide +kernel

end

theorem newline_described : newline.Describes newlineRegex := by
  refine ⟨rfl, rfl, ?_⟩
  rw [Terminal.program?_eq, newline_read]
  rfl

theorem newlineRegex_language {cs : List Char} (h : cs ∈ newlineRegex.language) :
    cs = ['\r', '\n'] ∨ cs = ['\n'] := by
  rw [newlineRegex, language, language, one_mul] at h
  exact h

/-- A newline in front of markup is taken, and nothing else. -/
theorem reads_newline (s : Setting) (depth : ℕ∞) (cs : List Char) {tail rest : List Char}
    (h : Behind tail rest) :
    ∃ v, Value.isRecord v = false ∧ Reads s depth (opt newline) false (cs ++ tail)
      (some (withoutNewline cs ++ tail, v)) := by
  unfold withoutNewline
  split
  · rename_i cs
    have htakes : newline.Takes (['\r', '\n'] ++ (cs ++ tail)) (some (2, "\r\n")) :=
      Terminal.takes_of_foresee crlf_foreseen (by simp)
    exact ⟨_, rfl, reads_optional_some (reads_terminal (leads_raw s _) htakes)⟩
  · rename_i cs
    have htakes : newline.Takes (['\n'] ++ (cs ++ tail)) (some (1, "\n")) :=
      Terminal.takes_of_foresee linefeed_foreseen (by simp)
    exact ⟨_, rfl, reads_optional_some (reads_terminal (leads_raw s _) htakes)⟩
  · rename_i hreturn hfeed
    have hnone : newline.Takes (cs ++ tail) none := by
      refine newline_described.takes_none fun front more hsplit hfront => ?_
      obtain rfl | rfl := newlineRegex_language hfront
      · rcases cs with _ | ⟨c, _ | ⟨d, cs⟩⟩
        · cases h <;> cases hsplit
        · cases h <;> simp at hsplit
        · simp only [List.cons_append, List.nil_append, List.cons.injEq] at hsplit
          exact hreturn cs (by rw [hsplit.1, hsplit.2.1])
      · rcases cs with _ | ⟨c, cs⟩
        · cases h <;> cases hsplit
        · simp only [List.cons_append, List.nil_append, List.cons.injEq] at hsplit
          exact hfeed cs (by rw [hsplit.1])
    exact ⟨.null, rfl, reads_optional_none (reads_terminal_none (leads_raw s _) hnone)⟩

end Newline

section Pieces

variable {s : Setting} {depth : ℕ∞} (hs : Plain s depth) {cs tail rest : List Char}

include hs

theorem Plain.reads_inlineHtml (hcs : ¬HasTag cs) (h : Behind tail rest) :
    Reads s (depth + 1) (.rule "InlineHtml") true ("?>".toList ++ (cs ++ tail))
      (some (rest, markupNode (withoutNewline cs))) := by
  have hmem : inlineHtml ∈ rules := by simp [rules, statementRules]
  have hclose : Reads s depth (.terminal (lit "?>")) true ("?>".toList ++ (cs ++ tail))
      (some (cs ++ tail, .text "?>")) :=
    hs.tokenReads closing_foretold (cs ++ tail)
  have hbare : ¬HasTag (withoutNewline cs) := fun htag =>
    hcs (htag.of_suffix (withoutNewline_suffix cs))
  obtain ⟨v, hv, hnewline⟩ := reads_newline s depth cs h
  have hmarkup : Reads s depth (raw (seq [opt newline, field "html" (scan markupScanner),
      opt openTag])) true (cs ++ tail)
      (some (rest, .record ⟨[("html", .text (String.ofList (withoutNewline cs)))]⟩)) :=
    reads_trivia (reads_sequence (readsParts_plain hnewline hv
      (Plain.readsParts_markup hbare h _ _))) true
  exact hs.reads hmem (RuleDef.makes_tagged rfl rfl)
    (reads_sequence (readsParts_plain hclose rfl (readsParts_record hmarkup readsParts_nil)))

/-- A closing tag and the markup behind it are a statement. -/
theorem Plain.reads_markupStatement (hcs : ¬HasTag cs) (h : Behind tail rest) :
    Reads s (depth + 3) (.rule "TopStatement") true ("?>".toList ++ (cs ++ tail))
      (some (rest, markupNode (withoutNewline cs))) := by
  have hmem : topStatement ∈ rules ∧ statement ∈ rules := by simp [rules, statementRules]
  have hnever : ∀ more : ℕ∞, ∀ name ∈ ["HaltCompiler", "NamespaceStatement", "Block"],
      Reads s (depth + more) (.rule name) true ("?>".toList ++ (cs ++ tail)) none :=
    fun more name hname => (hs.more more).never (closing_never name hname) _
  have hstatement : Reads s (depth + 1 + 1) (.rule "Statement") true ("?>".toList ++ (cs ++ tail))
      (some (rest, markupNode (withoutNewline cs))) :=
    (hs.more 1).reads hmem.2 (RuleDef.makes_same rfl rfl rfl rfl)
      (reads_choice_next (hnever 1 "Block" (by simp))
        (reads_choice_here (hs.reads_inlineHtml hcs h)))
  rw [add_assoc, one_add_one_eq_two] at hstatement
  have hread := (hs.more 2).reads hmem.1 (RuleDef.makes_same rfl rfl rfl rfl)
    (reads_choice_next (hnever 2 "HaltCompiler" (by simp))
      (reads_choice_next (hnever 2 "NamespaceStatement" (by simp)) (reads_choice_here hstatement)))
  rwa [add_assoc, two_add_one_eq_three] at hread

/-- Pieces of markup, each behind a tag without code. -/
def pieces (texts : List (List Char)) : List Char :=
  texts.flatMap ("<?php ?>".toList ++ ·)

omit hs in
theorem Behind.le (h : Behind tail rest) : byteLength rest ≤ byteLength tail := by
  cases h with
  | ends => exact Nat.le_refl _
  | tag rest =>
    rw [byteLength_append]
    exact Nat.le_add_left _ _

/-- All pieces of markup are read as statements, one after the other. -/
theorem Plain.reads_pieces {texts : List (List Char)} (htexts : ∀ cs ∈ texts, ¬HasTag cs) :
    ∃ rest, Behind (pieces texts) rest ∧ ReadsAll s (depth + 3) (.rule "TopStatement") true rest []
      (texts.map fun cs => markupNode (withoutNewline cs)) := by
  induction texts with
  | nil => exact ⟨[], .ends, .nil (hs.more 3).reads_topStatement_none⟩
  | cons cs texts ih =>
    rw [List.forall_mem_cons] at htexts
    obtain ⟨rest, hbehind, hrest⟩ := ih htexts.2
    have hsplit : pieces (cs :: texts) =
        "<?php ".toList ++ ("?>".toList ++ (cs ++ pieces texts)) := by
      rw [pieces, List.flatMap_cons, List.append_assoc]
      rfl
    have hshorter : byteLength rest < byteLength ("?>".toList ++ (cs ++ pieces texts)) := by
      have hle := hbehind.le
      have hpos := byteLength_cons_pos '?' ['>']
      rw [byteLength_append, byteLength_append]
      show byteLength rest < byteLength ['?', '>'] + _
      omega
    refine ⟨"?>".toList ++ (cs ++ pieces texts), hsplit ▸ .tag _, ?_⟩
    exact .cons (hs.reads_markupStatement htexts.1 hbehind) hshorter hrest

end Pieces

section Page

/-- A page: a first text, and others behind a tag each. -/
def page (first : String) (others : List String) : String :=
  first ++ String.join (others.map ("<?php ?>" ++ ·))

/-- The markup that is kept of a page: all that is not empty, without the newlines of the tags. -/
def keptMarkup (first : String) (others : List String) : List (List Char) :=
  (first.toList :: others.map fun m => withoutNewline m.toList).filter (· ≠ [])

def pageTree (first : String) (others : List String) : Node :=
  programOfAll ((keptMarkup first others).map markupNode)

theorem page_chars (first : String) (others : List String) :
    (page first others).toList = first.toList ++ pieces (others.map String.toList) := by
  simp only [page, pieces, String.toList_append, String.toList_join, List.flatMap_map]

theorem isEmptyMarkup_markupNode (cs : List Char) : isEmptyMarkup (markupNode cs) = cs.isEmpty := by
  have htext : isEmptyMarkup (markupNode cs) = (String.ofList cs).isEmpty := rfl
  rw [htext]
  cases cs <;> simp

theorem keptMarkup_nodes (first : String) (others : List String) :
    (markupNode first.toList :: (others.map String.toList).map fun cs =>
      markupNode (withoutNewline cs)).filter (fun v => !isEmptyMarkup v) =
      (keptMarkup first others).map markupNode := by
  have hnodes : (markupNode first.toList :: (others.map String.toList).map fun cs =>
      markupNode (withoutNewline cs)) =
      (first.toList :: others.map fun m => withoutNewline m.toList).map markupNode := by
    simp only [List.map_cons, List.map_map, Function.comp_def]
  rw [hnodes, List.filter_map, keptMarkup]
  refine congrArg (List.map markupNode) (List.filter_congr fun cs _ => ?_)
  rw [Function.comp_apply, isEmptyMarkup_markupNode]
  cases cs <;> rfl

end Page

end Php

theorem run_page {first : String} {others : List String}
    (h : ∀ m ∈ first :: others, ¬Php.HasTag m.toList) :
    Parser.run .off (Text.ofString (Php.page first others)) = .ok (Php.pageTree first others) := by
  rw [List.forall_mem_cons] at h
  have hs : Php.Plain (Parser.session .off (Text.ofString (Php.page first others))).setting
    Php.nesting := Php.plain_session _ le_rfl
  have hothers : ∀ cs ∈ others.map String.toList, ¬Php.HasTag cs := by simpa using h.2
  obtain ⟨rest, hbehind, hstatements⟩ := hs.reads_pieces hothers
  rw [← two_add_one_eq_three, ← add_assoc] at hstatements
  have hread := (hs.more 2).reads_statements ((hs.more 2).reads_leadingHtml h.1 hbehind) hstatements
  rw [Php.keptMarkup_nodes, ← Php.page_chars] at hread
  exact Parser.run_of_reads_within hread (by norm_cast)

/-- Markup is preserved: a page of texts without opening tags, with tags between them that hold no
code, parses to the markup of these texts, in their order. A newline right behind a tag belongs to
the tag, and empty texts are left out. -/
theorem parse_page (p : Parser) (first : String) (others : List String)
    (h : ∀ m ∈ first :: others, ¬Php.HasTag m.toList) :
    ∃ n, p.parse (Php.page first others) = .ok n ∧ n.strip = Php.pageTree first others ∧
      (p.options = .off → n = Php.pageTree first others) :=
  Parser.parse_of_run (run_page h) p

/-- Texts that end with what begins a tag, right in front of one. -/
theorem parse_page_cut : Parser.standard.parse "a<?<?php ?>\n<?p<?php ?><<?php ?>" =
    .ok (Php.programOfAll ([['a', '<', '?'], ['<', '?', 'p'], ['<']].map Php.markupNode)) := by
  have htags : ∀ m ∈ "a<?" :: ["\n<?p", "<", ""], ¬Php.HasTag m.toList := by decide +kernel
  have hpage : Php.page "a<?" ["\n<?p", "<", ""] = "a<?<?php ?>\n<?p<?php ?><<?php ?>" := by
    decide +kernel
  have hkept : Php.keptMarkup "a<?" ["\n<?p", "<", ""] =
      [['a', '<', '?'], ['<', '?', 'p'], ['<']] := by
    decide +kernel
  obtain ⟨n, hn, -, hoff⟩ := parse_page .standard "a<?" ["\n<?p", "<", ""] htags
  rw [hpage, hoff rfl, Php.pageTree, hkept] at hn
  exact hn

end PhpSyntax
