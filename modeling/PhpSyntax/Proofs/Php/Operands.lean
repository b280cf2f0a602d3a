import PhpSyntax.Proofs.Php.Levels

namespace PhpSyntax.Php

open Peg

/-- What does not match at the start of an expression, by its first character. -/
def misfits : List (PatternDef × Char) :=
  [(.rule "Parenthesized", '$'), (.rule "AssignmentExpression", '('), (.terminal (lit "&"), '$'),
    (.terminal (lit "&"), '(')]

-- Evaluated in turn.
mutual

theorem misfit_never : ∀ misfit ∈ misfits, ∀ gap ∈ gaps,
    neverReads misfit.1 (gap ++ [misfit.2]) = true := by
  decide +kernel

theorem shorthand_never : ∀ start ∈ starts,
    neverReads (.rule "ShorthandOperand") (spaced "?" ++ start) = true := by
  decide +kernel

/-- What is tried behind the target of an assignment before the equals sign. -/
theorem equals_never :
    ∀ p ∈ [.rule "Member", .terminal (re "\\*\\*=|\\?\\?=|<<=|>>=|[-+*/.%&|^]=")],
      neverReads p (spaced "=") = true := by
  decide +kernel

end

/-- Marks between operands, what begins with them and what they leave of it. -/
def marks : List (String × List Char × List Char) :=
  [("(", ['('], []), ("(", [' ', '('], []), (")", [')'], []), (")", [' ', ')'], []),
    ("?", spaced "?", [' ']), ("?", spaced "? :", spaced ":"), ("?", spaced "?:", [':', ' ']),
    (":", spaced ":", [' ']), (":", [':', ' '], [' ']), (";", [';'], [])]

theorem marks_foretold :
    (∀ gap ∈ gaps, foreLead trivia false true (gap ++ ['$']) = some ['$']) ∧
    (∀ mark ∈ marks, (Token.mk (lit mark.1) none).foretell trivia false mark.2.1 =
      some (mark.2.2, mark.1)) ∧
    (Token.mk (lit "=") (some (re "[=>]"))).foretell trivia false (spaced "=") =
      some ([' '], "=") := by
  decide +kernel

theorem gaps_variable : ∀ gap ∈ gaps, foreLead trivia false true (gap ++ ['$']) = some ['$'] :=
  marks_foretold.1

theorem mark_reads : ∀ mark ∈ marks,
    (Token.mk (lit mark.1) none).foretell trivia false mark.2.1 = some (mark.2.2, mark.1) :=
  marks_foretold.2.1

theorem Starts.head {cs : List Char} (h : Starts cs) :
    ∃ c ∈ ['$', '('], ∃ more, cs = c :: more := by
  obtain ⟨start, hstart, tail, rfl⟩ := h
  have hall : ∀ start ∈ starts, ∃ c ∈ ['$', '('], start = c :: start.tail := by
    simp [starts]
  obtain ⟨c, hc, hstart⟩ := hall start hstart
  exact ⟨c, hc, start.tail ++ tail, by rw [hstart]; rfl⟩

theorem starts_variable (x : Ident) (cs : List Char) : Starts ('$' :: x.chars ++ cs) :=
  ⟨['$'], by simp [starts], x.chars ++ cs, rfl⟩

theorem starts_parenthesize (st : Style) {cs : List Char} (hcs : Starts cs) (tail : List Char) :
    Starts (st.parenthesize cs ++ tail) := by
  obtain ⟨c, hc, more, rfl⟩ := hcs.head
  obtain ⟨padded, joined⟩ := st
  have hall : ∀ c ∈ ['$', '('], ['(', c] ∈ starts ∧ ['(', ' ', c] ∈ starts := by
    simp [starts]
  obtain ⟨hbare, hpadded⟩ := hall c hc
  cases padded with
  | false =>
    exact ⟨['(', c], hbare, more ++ [')'] ++ tail, by simp [Style.parenthesize, Style.padding]⟩
  | true =>
    exact ⟨['(', ' ', c], hpadded, more ++ [' ', ')'] ++ tail,
      by simp [Style.parenthesize, Style.padding]⟩

theorem Style.padding_mem (st : Style) : st.padding ∈ gaps := by
  obtain ⟨padded, joined⟩ := st
  cases padded <;> simp [Style.padding, gaps]

section Makes

variable {v w : Value}

theorem parenthesized_makes (hv : Value.isRecord v = false) :
    parenthesized.Makes (.record ⟨[("expression", v)]⟩) v := by
  cases v with
  | record fields => cases hv
  | _ => exact RuleDef.makes_tagged rfl rfl

/-- The node for what stands behind the condition of a ternary. -/
def fullNode (v w : Value) : Value :=
  .node (.ofFields "FullOperand" ⟨[("consequent", v), ("alternate", w)]⟩)

def shorthandNode (v : Value) : Value :=
  .node (.ofFields "ShorthandOperand" ⟨[("shorthand", v)]⟩)

theorem fullOperand_makes :
    fullOperand.Makes (.record ⟨[("consequent", v), ("alternate", w)]⟩) (fullNode v w) :=
  RuleDef.makes_tagged rfl rfl

theorem shorthandOperand_makes :
    shorthandOperand.Makes (.record ⟨[("shorthand", v)]⟩) (shorthandNode v) :=
  RuleDef.makes_tagged rfl rfl

def assignmentNode (x : Ident) (v : Value) : Value :=
  .node (.ofFields "Assignment" ⟨[("target", Expr.variableNode x), ("operator", .text "="),
    ("by_reference", .bool false), ("value", v)]⟩)

theorem assignmentExpression_makes (x : Ident) :
    assignmentExpression.Makes (.record ⟨[("target", Expr.variableNode x),
      ("operator", .text "="), ("by_reference", .bool false), ("value", v)]⟩)
      (assignmentNode x v) :=
  RuleDef.makes_tagged rfl rfl

end Makes

namespace Plain

section Nested

variable {s : Setting} {depth : ℕ∞} (hs : Plain s depth) {cs mid rest gap : List Char} {v w : Value}

include hs

theorem tokenReads {t : Token} {str : String} (h : t.foretell trivia false cs = some (mid, str))
    (tail : List Char) :
    Reads s depth t.pattern true (cs ++ tail) (some (mid ++ tail, .text str)) := by
  have htail : false = true → tail = [] := by simp
  exact Token.reads_of_foretell hs.linked rfl htail h

theorem markReads {mark : String × List Char × List Char} (h : mark ∈ marks)
    (tail : List Char) : Reads s depth (.terminal (lit mark.1)) true (mark.2.1 ++ tail)
      (some (mark.2.2 ++ tail, .text mark.1)) :=
  hs.tokenReads (mark_reads mark h) tail

theorem misfit {p : PatternDef} {c : Char} (hp : (p, c) ∈ misfits) (hgap : gap ∈ gaps)
    (tail : List Char) : Reads s depth p true (gap ++ c :: tail) none := by
  have hnever := hs.never (misfit_never (p, c) hp gap hgap) tail
  rwa [List.append_assoc] at hnever

theorem reads_variable (x : Ident) (hgap : gap ∈ gaps)
    (hrest : rest.head?.any isIdentChar = false) :
    Reads s (depth + 1) (.rule "Variable") true (gap ++ ('$' :: x.chars ++ rest))
      (some (rest, Expr.variableNode x)) := by
  have hmem : variableRule ∈ rules := by simp [rules, lexicalRules]
  have hlead : Leads s true (gap ++ ('$' :: x.chars ++ rest)) ('$' :: x.chars ++ rest) := by
    have htail : false = true → x.chars ++ rest = [] := by simp
    have h := leads_of_foreLead hs.linked rfl htail (gaps_variable gap hgap)
    rwa [List.append_assoc] at h
  have hname : Reads s depth (.terminal variableName) true _ _ :=
    reads_terminal hlead (variableName_takes x hrest)
  exact hs.reads hmem (RuleDef.makes_tagged rfl rfl)
    (reads_sequence (readsParts_field hname readsParts_nil))

/-- A term that nothing is accessed of and that no update stands behind. -/
theorem reads_tightest (hrest : Follows 17 rest)
    (h : Reads s depth (.rule "Term") true cs (some (rest, v))) :
    Reads s (depth + 2) (.rule "PostfixUpdateLevel") true cs (some (rest, v)) := by
  have hmem : postfixLevel ∈ rules := by simp [rules, memberRules]
  have hmem' : postfixUpdateLevel ∈ rules := operatorRules_subset (by simp [operatorRules])
  have hmember : Reads s depth (.rule "Member") true rest none :=
    hs.suffixFails (by simp [suffixes]) hrest
  have hupdate : Reads s (depth + 1) (.terminal (re "\\+\\+|--")) true rest none :=
    (hs.more 1).suffixFails (by simp [suffixes]) hrest
  have hlevel : Reads s (depth + 1) (.rule "PostfixLevel") true cs (some (rest, v)) :=
    hs.reads hmem (RuleDef.makes_fallback rfl) (reads_sequence (readsParts_field h
      (readsParts_field (reads_repetition (.nil hmember) (Nat.zero_le _)) readsParts_nil)))
  have hread := (hs.more 1).reads hmem' (RuleDef.makes_fallback rfl) (reads_sequence
    (readsParts_field hlevel (readsParts_field (reads_optional_none hupdate) readsParts_nil)))
  rwa [add_assoc, one_add_one_eq_two] at hread

end Nested

section Unbounded

variable {s : Setting} (hs : Plain s ⊤) {cs mid rest gap : List Char} {v w : Value}

include hs

theorem reads_bareVariable (x : Ident) (hgap : gap ∈ gaps) (hrest : Follows 17 rest) :
    Reads s ⊤ (.rule "PostfixUpdateLevel") true (gap ++ ('$' :: x.chars ++ rest))
      (some (rest, Expr.variableNode x)) := by
  have hmem : term ∈ rules := by simp [rules, termRules]
  have hopen : Reads s ⊤ (.rule "Parenthesized") true (gap ++ ('$' :: x.chars ++ rest)) none :=
    hs.misfit (by simp [misfits]) hgap _
  refine hs.reads_tightest hrest (hs.reads hmem (RuleDef.makes_same rfl rfl rfl rfl) ?_)
  exact reads_choice_next hopen (reads_choice_here (hs.reads_variable x hgap hrest.head))

theorem reads_parenthesized (st : Style) (hv : Value.isRecord v = false) (hgap : gap ∈ gaps)
    (hrest : Follows 17 rest)
    (h : Reads s ⊤ (.rule "LogicalOrLevel") true
      (st.padding ++ (cs ++ (st.padding ++ ')' :: rest)))
      (some (st.padding ++ ')' :: rest, v))) :
    Reads s ⊤ (.rule "PostfixUpdateLevel") true (gap ++ (st.parenthesize cs ++ rest))
      (some (rest, v)) := by
  have hmem : expression ∈ rules := operatorRules_subset (by simp [operatorRules])
  have hmems : parenthesized ∈ rules ∧ term ∈ rules := by simp [rules, termRules]
  have hopen : Reads s ⊤ (.terminal (lit "(")) true (gap ++ (st.parenthesize cs ++ rest))
      (some (st.padding ++ (cs ++ (st.padding ++ ')' :: rest)), .text "(")) := by
    have hmark : ("(", gap ++ ['('], []) ∈ marks := by
      simp only [gaps, List.mem_cons, List.not_mem_nil, or_false] at hgap
      obtain rfl | rfl := hgap <;> simp [marks]
    have h := hs.markReads hmark (st.padding ++ (cs ++ (st.padding ++ ')' :: rest)))
    simpa [Style.parenthesize] using h
  have hclose : Reads s ⊤ (.terminal (lit ")")) true (st.padding ++ ')' :: rest)
      (some (rest, .text ")")) := by
    have hmark : (")", st.padding ++ [')'], []) ∈ marks := by
      obtain ⟨padded, joined⟩ := st
      cases padded <;> simp [Style.padding, marks]
    simpa using hs.markReads hmark rest
  have hinside : Reads s ⊤ (.rule "Expression") true
      (st.padding ++ (cs ++ (st.padding ++ ')' :: rest)))
      (some (st.padding ++ ')' :: rest, v)) :=
    hs.reads hmem (RuleDef.makes_same rfl rfl rfl hv) h
  have hparts : Reads s ⊤ parenthesized.pattern true (gap ++ (st.parenthesize cs ++ rest))
      (some (rest, .record ⟨[("expression", v)]⟩)) :=
    reads_sequence (readsParts_plain hopen rfl (readsParts_field hinside
      (readsParts_plain hclose rfl readsParts_nil)))
  have hterm := hs.reads hmems.1 (parenthesized_makes hv) hparts
  exact hs.reads_tightest hrest
    (hs.reads hmems.2 (RuleDef.makes_same rfl rfl rfl hv) (reads_choice_here hterm))

theorem reads_target (x : Ident) (hgap : gap ∈ gaps) (hrest : rest.head?.any isIdentChar = false)
    (hmember : Reads s ⊤ (.rule "Member") true rest none) :
    Reads s ⊤ (.rule "AssignableTarget") true (gap ++ ('$' :: x.chars ++ rest))
      (some (rest, Expr.variableNode x)) := by
  have hmem : assignableTarget ∈ rules := operatorRules_subset (by simp [operatorRules])
  have hroot := hs.reads_variable x hgap hrest
  exact hs.reads hmem (RuleDef.makes_fallback rfl) (reads_choice_here (reads_sequence
    (readsParts_field (reads_choice_here hroot) (readsParts_field
      (reads_repetition (.nil hmember) (Nat.zero_le _)) readsParts_nil))))

theorem variable_unassigned (x : Ident) (hgap : gap ∈ gaps) (hrest : Follows 17 rest) :
    Reads s ⊤ (.rule "AssignmentExpression") true (gap ++ ('$' :: x.chars ++ rest)) none := by
  have hmem : assignmentExpression ∈ rules := operatorRules_subset (by simp [operatorRules])
  have hmember : Reads s ⊤ (.rule "Member") true rest none :=
    hs.suffixFails (by simp [suffixes]) hrest
  have hop : Reads s ⊤ (.rule "AssignmentOperator") true rest none :=
    hs.suffixFails (by simp [suffixes]) hrest
  have htarget := hs.reads_target x hgap hrest.head hmember
  exact reads_rule_none hs.linked hmem
    (reads_sequence_none (readsParts_field htarget (readsParts_none hop)))

theorem reads_assignment (x : Ident) (hgap : gap ∈ gaps) (hcs : Starts cs)
    (h : Reads s ⊤ (.rule "AssignmentLevel") true (' ' :: cs) (some (rest, v))) :
    Reads s ⊤ (.rule "AssignmentLevel") true (gap ++ ('$' :: x.chars ++ (spaced "=" ++ cs)))
      (some (rest, assignmentNode x v)) := by
  have hmem : ∀ d ∈ [assignmentLevel, assignmentExpression, assignmentOperator], d ∈ rules :=
    fun d hd => operatorRules_subset (by simp [operatorRules] at hd ⊢; tauto)
  have hlist : Reads s ⊤ (.rule "ListAssignment") true
      (gap ++ ('$' :: x.chars ++ (spaced "=" ++ cs))) none :=
    hs.prefixFails (by simp [prefixRules]) hgap (starts_variable x _).unprefixed
  have hmember := hs.never (equals_never (.rule "Member") (by simp)) cs
  have hcompound := hs.never
    (equals_never _ (List.mem_cons_of_mem _ (List.mem_singleton_self _))) cs
  have htarget := hs.reads_target x hgap (by rfl) hmember
  have hsign : Reads s ⊤ equalsSign true (spaced "=" ++ cs) (some (' ' :: cs, .text "=")) :=
    hs.tokenReads marks_foretold.2.2 cs
  have hop : Reads s ⊤ (.rule "AssignmentOperator") true (spaced "=" ++ cs)
      (some (' ' :: cs, .text "=")) :=
    hs.reads (hmem assignmentOperator (by simp)) (RuleDef.makes_same rfl rfl rfl rfl)
      (reads_choice_next hcompound (reads_choice_here hsign))
  have hreference : Reads s ⊤ (.terminal (lit "&")) true (' ' :: cs) none := by
    obtain ⟨c, hc, more, rfl⟩ := hcs.head
    have hblank : [' '] ∈ gaps := by simp [gaps]
    have hmisfit : (.terminal (lit "&"), c) ∈ misfits := by
      simp only [List.mem_cons, List.not_mem_nil, or_false] at hc
      obtain rfl | rfl := hc <;> simp [misfits]
    exact hs.misfit hmisfit hblank more
  have hparts : Reads s ⊤ assignmentExpression.pattern true
      (gap ++ ('$' :: x.chars ++ (spaced "=" ++ cs)))
      (some (rest, .record ⟨[("target", Expr.variableNode x), ("operator", .text "="),
        ("by_reference", .bool false), ("value", v)]⟩)) :=
    reads_sequence (readsParts_field htarget (readsParts_field hop (readsParts_field
      (reads_optional_none hreference) (readsParts_field h readsParts_nil))))
  have hassignment := hs.reads (hmem assignmentExpression (by simp))
    (assignmentExpression_makes x) hparts
  exact hs.reads (hmem assignmentLevel (by simp)) (RuleDef.makes_same rfl rfl rfl rfl)
    (reads_choice_next hlist (reads_choice_here hassignment))

theorem reads_full (hcs : Starts cs)
    (hconsequent : Reads s ⊤ (.rule "AssignmentLevel") true (' ' :: cs)
      (some (spaced ":" ++ mid, v)))
    (halternate : Reads s ⊤ (.rule "CoalesceLevel") true (' ' :: mid) (some (rest, w))) :
    Reads s ⊤ (.rule "TernaryOperand") true (spaced "?" ++ cs) (some (rest, fullNode v w)) := by
  have hmem : ternaryOperand ∈ rules ∧ fullOperand ∈ rules :=
    ⟨operatorRules_subset (by simp [operatorRules]), operatorRules_subset (by simp [operatorRules])⟩
  have hshorthand : Reads s ⊤ (.rule "ShorthandOperand") true (spaced "?" ++ cs) none := by
    obtain ⟨start, hstart, tail, rfl⟩ := hcs
    rw [← List.append_assoc]
    exact hs.never (shorthand_never start hstart) tail
  have hmark : Reads s ⊤ (.terminal (lit "?")) true (spaced "?" ++ cs)
      (some (' ' :: cs, .text "?")) :=
    hs.markReads (show ("?", spaced "?", [' ']) ∈ marks by simp [marks]) cs
  have hcolon : Reads s ⊤ (.terminal (lit ":")) true (spaced ":" ++ mid)
      (some (' ' :: mid, .text ":")) :=
    hs.markReads (show (":", spaced ":", [' ']) ∈ marks by simp [marks]) mid
  have hparts : Reads s ⊤ fullOperand.pattern true (spaced "?" ++ cs)
      (some (rest, .record ⟨[("consequent", v), ("alternate", w)]⟩)) :=
    reads_sequence (readsParts_plain hmark rfl (readsParts_field hconsequent
      (readsParts_plain hcolon rfl (readsParts_field halternate readsParts_nil))))
  have hfull := hs.reads hmem.2 fullOperand_makes hparts
  exact hs.reads hmem.1 (RuleDef.makes_same rfl rfl rfl rfl)
    (reads_choice_next hshorthand (reads_choice_here hfull))

theorem reads_shorthand (st : Style)
    (h : Reads s ⊤ (.rule "CoalesceLevel") true (' ' :: cs) (some (rest, v))) :
    Reads s ⊤ (.rule "TernaryOperand") true (st.elvis ++ cs) (some (rest, shorthandNode v)) := by
  have hmem : ternaryOperand ∈ rules ∧ shorthandOperand ∈ rules :=
    ⟨operatorRules_subset (by simp [operatorRules]), operatorRules_subset (by simp [operatorRules])⟩
  have hmarks : ∃ mid, Reads s ⊤ (.terminal (lit "?")) true (st.elvis ++ cs)
      (some (mid, .text "?")) ∧
      Reads s ⊤ (.terminal (lit ":")) true mid (some (' ' :: cs, .text ":")) := by
    obtain ⟨padded, joined⟩ := st
    cases joined with
    | false =>
      exact ⟨' ' :: ':' :: ' ' :: cs,
        hs.markReads (show ("?", spaced "? :", spaced ":") ∈ marks by simp [marks]) cs,
        hs.markReads (show (":", spaced ":", [' ']) ∈ marks by simp [marks]) cs⟩
    | true =>
      exact ⟨':' :: ' ' :: cs,
        hs.markReads (show ("?", spaced "?:", [':', ' ']) ∈ marks by simp [marks]) cs,
        hs.markReads (show (":", [':', ' '], [' ']) ∈ marks by simp [marks]) cs⟩
  obtain ⟨mid, hmark, hcolon⟩ := hmarks
  have hparts : Reads s ⊤ shorthandOperand.pattern true (st.elvis ++ cs)
      (some (rest, .record ⟨[("shorthand", v)]⟩)) :=
    reads_sequence (readsParts_plain hmark rfl (readsParts_plain hcolon rfl
      (readsParts_field h readsParts_nil)))
  have hshorthand := hs.reads hmem.2 shorthandOperand_makes hparts
  exact hs.reads hmem.1 (RuleDef.makes_same rfl rfl rfl rfl) (reads_choice_here hshorthand)

/-- A power, whose right operand is no assignment. -/
theorem reads_power (hgap : gap ∈ gaps) (hcs : Starts cs) (hmid : Starts mid)
    (hlead : Reads s ⊤ (.rule "AssignmentExpression") true (' ' :: mid) none)
    (hw : Value.isRecord w = false)
    (hleft : Reads s ⊤ (.rule "PostfixUpdateLevel") true (gap ++ cs)
      (some (spaced "**" ++ mid, v)))
    (hright : Reads s ⊤ (.rule "UnaryLevel") true (' ' :: mid) (some (rest, w))) :
    Reads s ⊤ (.rule "UnaryLevel") true (gap ++ cs)
      (some (rest, joinStep v (stepValue (.text "**") w))) := by
  have hmem : powerLevel ∈ rules ∧ unaryOperand ∈ rules :=
    ⟨operatorRules_subset (by simp [operatorRules]), operatorRules_subset (by simp [operatorRules])⟩
  have hblank : [' '] ∈ gaps := by simp [gaps]
  have hnot : Reads s ⊤ (.rule "NotExpression") true (' ' :: mid) none :=
    hs.prefixFails (by simp [prefixRules]) hblank hmid.unprefixed
  have hoperand : Reads s ⊤ (.rule "UnaryOperand") true (' ' :: mid) (some (rest, w)) :=
    hs.reads hmem.2 (RuleDef.makes_same rfl rfl rfl hw)
      (reads_choice_next hlead (reads_choice_next hnot (reads_choice_here hright)))
  have hsign : Reads s ⊤ (token 16).pattern true (spaced "**" ++ mid)
      (some (' ' :: mid, .text "**")) :=
    hs.operatorReads (by simp) (by simp [signs]) mid
  have hparts : Reads s ⊤ powerLevel.pattern true (gap ++ cs)
      (some (rest, .record ⟨[("left", v), ("right", .list [stepValue (.text "**") w])]⟩)) :=
    reads_sequence (readsParts_field hleft (readsParts_field
      (reads_optional_some (reads_step hsign hoperand)) readsParts_nil))
  have hpower : Reads s ⊤ (.rule "PowerLevel") true (gap ++ cs)
      (some (rest, joinStep v (stepValue (.text "**") w))) :=
    hs.reads hmem.1 (powerLevel_makes _ _) hparts
  exact hs.reads_unaryLevel hgap hcs.unprefixed rfl hpower

end Unbounded

end Plain

end PhpSyntax.Php
