import PhpSyntax.Proofs.Peg.Instrumentation
import PhpSyntax.Proofs.Php.Precedence

namespace PhpSyntax.Php

open Peg

theorem Follows.mono {level level' : Nat} {cs : List Char} (h : Follows level cs)
    (hle : level ≤ level') : Follows level' cs := by
  obtain ⟨f, hf, hlevel, tail⟩ := h
  exact ⟨f, hf, Nat.le_trans hlevel hle, tail⟩

theorem Follows.head {level : Nat} {cs : List Char} (h : Follows level cs) :
    cs.head?.any isIdentChar = false := by
  obtain ⟨f, hf, -, tail, rfl⟩ := h
  have hall : ∀ f ∈ followers, ∃ c rest, f.1 = c :: rest ∧ isIdentChar c = false := by
    intro f hf
    have hheads : ∀ f ∈ followers, f.1.head?.any (fun c => !isIdentChar c) = true := by
      decide +kernel
    have hhead := hheads f hf
    cases hcs : f.1 with
    | nil => simp [hcs] at hhead
    | cons c rest => exact ⟨c, rest, rfl, by simpa [hcs] using hhead⟩
  obtain ⟨c, rest, hcs, hc⟩ := hall f hf
  rw [hcs]
  exact hc

/-- A parse of the language that records no places, where calls can nest deep enough to tell what
does not match. -/
structure Plain (s : Setting) (depth : ℕ∞) : Prop where
  linked : Grammar.link rules (some trivia) = .ok s.grammar
  off : s.options = .off
  room : nesting ≤ depth

namespace Plain

variable {s : Setting} {depth : ℕ∞} (hs : Plain s depth) {cs rest gap : List Char} {v w : Value}

include hs

theorem more (n : ℕ∞) : Plain s (depth + n) :=
  ⟨hs.linked, hs.off, hs.room.trans le_self_add⟩

theorem never {p : PatternDef} (h : neverReads p cs = true) (tail : List Char) :
    Reads s depth p true (cs ++ tail) none := by
  have htail : false = true → tail = [] := by simp
  simp only [neverReads, decide_eq_true_eq] at h
  exact (reads_of_fails hs.linked rfl htail h).mono hs.room

theorem prefixFails {name : String} (hname : name ∈ prefixRules) (hgap : gap ∈ gaps)
    (hcs : Unprefixed cs) : Reads s depth (.rule name) true (gap ++ cs) none := by
  obtain ⟨start, tail, rfl, hnever⟩ := hcs
  rw [← List.append_assoc]
  exact hs.never (hnever name hname gap hgap) tail

theorem suffixFails {level : Nat} {p : PatternDef} (hp : (level, p) ∈ suffixes)
    (hcs : Follows level cs) : Reads s depth p true cs none := by
  obtain ⟨f, hf, hlevel, tail, rfl⟩ := hcs
  exact hs.never (suffix_never (level, p) hp f hf hlevel) tail

theorem operatorReads {level : Nat} (hlevel : level ∈ List.range 17) {sign : String}
    (hsign : sign ∈ signs level) (tail : List Char) :
    Reads s depth (token level).pattern true (spaced sign ++ tail) (some (' ' :: tail, .text sign)) := by
  have htail : false = true → tail = [] := by simp
  exact Token.reads_of_foretell hs.linked rfl htail (token_reads level hlevel sign hsign)

theorem reads {d : RuleDef} (hd : d ∈ rules) (hm : d.Makes v w) {trivia : Bool}
    (hp : Reads s depth d.pattern trivia cs (some (rest, v))) :
    Reads s (depth + 1) (.rule d.name) trivia cs (some (rest, w)) :=
  reads_rule hs.linked hd hs.off hm hp

end Plain

section Joins

/-- An operator and an operand behind another operand. -/
def joinStep (left step : Value) : Value :=
  .node (binaryExpression left (fieldOf step "operator") (fieldOf step "operand"))

/-- Operators that nest to the right. -/
def joinRight (left : Value) : List Value → Value
  | [] => left
  | step :: steps =>
    .node (binaryExpression left (fieldOf step "operator")
      (joinRight (fieldOf step "operand") steps))

/-- Ternaries, each in the alternate of the one before. -/
def joinTernary (condition : Value) : List (Value × Value) → Value
  | [] => condition
  | (consequent, next) :: rest => .node (.ofEntries "Ternary" [("condition", condition),
    ("consequent", consequent), ("alternate", joinTernary next rest)])

variable {ctx : Context} (h : ctx.options = .off)

include h

theorem nestLeft_off (start : Option Nat) (left : Value) (steps : List Value) :
    nestLeft ctx start left steps = steps.foldl joinStep left := by
  induction steps generalizing left with
  | nil => rfl
  | cons step steps ih =>
    simp only [nestLeft, Context.covering_off h, ih, List.foldl_cons, joinStep]

theorem nestRight_off (stop : Option Nat) (left : Value) (steps : List Value) :
    nestRight ctx stop left steps = joinRight left steps := by
  induction steps generalizing left with
  | nil => rfl
  | cons step steps ih => simp only [nestRight, Context.covering_off h, ih, joinRight]

theorem nestTernary_off (stop : Option Nat) (condition : Value)
    (branches : List (Value × Value)) :
    nestTernary ctx stop condition branches = joinTernary condition branches := by
  induction branches generalizing condition with
  | nil => rfl
  | cons branch branches ih =>
    obtain ⟨consequent, next⟩ := branch
    simp only [nestTernary, Context.covering_off h, ih, joinTernary]

end Joins

section Makes

variable {head : Value} {steps : List Value}

theorem binaryLevel_makes (name operand : String) (op : PatternDef) :
    (binaryLevel name operand op).Makes (.record ⟨[("left", head), ("right", .list steps)]⟩)
      (steps.foldl joinStep head) := by
  cases steps with
  | nil => exact RuleDef.makes_fallback rfl
  | cons step steps =>
    refine RuleDef.makes_processed rfl rfl fun ctx hoff => ?_
    exact congrArg Except.ok (nestLeft_off hoff _ head (step :: steps))

theorem coalesceLevel_makes :
    coalesceLevel.Makes (.record ⟨[("left", head), ("right", .list steps)]⟩)
      (joinRight head steps) := by
  cases steps with
  | nil => exact RuleDef.makes_fallback rfl
  | cons step steps =>
    refine RuleDef.makes_processed rfl rfl fun ctx hoff => ?_
    exact congrArg Except.ok (nestRight_off hoff _ head (step :: steps))

theorem ternaryLevel_makes :
    ternaryLevel.Makes (.record ⟨[("condition", head), ("operands", .list steps)]⟩)
      (joinTernary head (steps.filterMap branch?)) := by
  cases steps with
  | nil => exact RuleDef.makes_fallback rfl
  | cons step steps =>
    refine RuleDef.makes_processed rfl rfl fun ctx hoff => ?_
    exact congrArg Except.ok (nestTernary_off hoff _ head ((step :: steps).filterMap branch?))

def stepValue (o v : Value) : Value :=
  .record ⟨[("operator", o), ("operand", v)]⟩

theorem powerLevel_makes (o v : Value) :
    powerLevel.Makes (.record ⟨[("left", head), ("right", .list [stepValue o v])]⟩)
      (joinStep head (stepValue o v)) := by
  refine RuleDef.makes_processed rfl rfl fun ctx hoff => ?_
  exact congrArg Except.ok (nestLeft_off hoff _ head [stepValue o v])

end Makes

section Chains

variable {s : Setting} {depth : ℕ∞} {cs mid rest : List Char} {op operand : PatternDef} {o v : Value}

def stepPattern (op operand : PatternDef) : PatternDef :=
  seq [field "operator" op, field "operand" operand]

theorem reads_step (ho : Reads s depth op true cs (some (mid, o)))
    (hv : Reads s depth operand true mid (some (rest, v))) :
    Reads s depth (stepPattern op operand) true cs (some (rest, stepValue o v)) :=
  reads_sequence (readsParts_field ho (readsParts_field hv readsParts_nil))

theorem reads_step_none (ho : Reads s depth op true cs none) :
    Reads s depth (stepPattern op operand) true cs none :=
  reads_sequence_none (readsParts_none ho)

end Chains

namespace Plain

variable {s : Setting} {depth : ℕ∞} (hs : Plain s depth) {cs mid rest gap : List Char}
  {v head : Value}
  {steps : List Value}

include hs

theorem reads_leftLevel {level : Nat} (hlevel : level ∈ leftLevels)
    (hhead : Reads s depth (.rule (operandRule level)) true cs (some (mid, head)))
    (hsteps : ReadsAll s depth (stepPattern (token level).pattern (.rule (operandRule level))) true mid
      rest steps) :
    Reads s (depth + 1) (.rule (levelRule level)) true cs
      (some (rest, steps.foldl joinStep head)) := by
  have hparts : Reads s depth (binaryLevel (levelRule level) (operandRule level)
      (token level).pattern).pattern true cs
      (some (rest, .record ⟨[("left", head), ("right", .list steps)]⟩)) :=
    reads_sequence (readsParts_field hhead (readsParts_field
      (reads_repetition hsteps (Nat.zero_le _)) readsParts_nil))
  exact hs.reads (leftLevel_mem hlevel) (binaryLevel_makes _ _ _) hparts

theorem reads_coalesceLevel (hhead : Reads s depth (.rule "BooleanOrLevel") true cs (some (mid, head)))
    (hsteps : ReadsAll s depth (stepPattern (.terminal (lit "??")) (.rule "BooleanOrLevel")) true mid
      rest steps) :
    Reads s (depth + 1) (.rule "CoalesceLevel") true cs (some (rest, joinRight head steps)) := by
  have hmem : coalesceLevel ∈ rules := operatorRules_subset (by simp [operatorRules])
  have hparts : Reads s depth coalesceLevel.pattern true cs
      (some (rest, .record ⟨[("left", head), ("right", .list steps)]⟩)) :=
    reads_sequence (readsParts_field hhead (readsParts_field
      (reads_repetition hsteps (Nat.zero_le _)) readsParts_nil))
  exact hs.reads hmem coalesceLevel_makes hparts

theorem reads_ternaryLevel (hhead : Reads s depth (.rule "CoalesceLevel") true cs (some (mid, head)))
    (hsteps : ReadsAll s depth (.rule "TernaryOperand") true mid rest steps) :
    Reads s (depth + 1) (.rule "TernaryLevel") true cs
      (some (rest, joinTernary head (steps.filterMap branch?))) := by
  have hmem : ternaryLevel ∈ rules := operatorRules_subset (by simp [operatorRules])
  have hparts : Reads s depth ternaryLevel.pattern true cs
      (some (rest, .record ⟨[("condition", head), ("operands", .list steps)]⟩)) :=
    reads_sequence (readsParts_field hhead (readsParts_field
      (reads_repetition hsteps (Nat.zero_le _)) readsParts_nil))
  exact hs.reads hmem ternaryLevel_makes hparts

/-- Where no prefix operator is printed, the operands of a level are of the next one. -/
theorem reads_operandRule {level : Nat} (hgap : gap ∈ gaps) (hcs : Unprefixed cs)
    (hv : Value.isRecord v = false) (hrest : Follows (level + 1) rest)
    (h : Reads s depth (.rule (levelRule (level + 1))) true (gap ++ cs) (some (rest, v))) :
    Reads s (depth + 2) (.rule (operandRule level)) true (gap ++ cs) (some (rest, v)) := by
  have hmem : ∀ d ∈ [printLevel, logicalNotLevel, instanceOfLevel], d ∈ rules :=
    fun d hd => operatorRules_subset (by simp [operatorRules] at hd ⊢; tauto)
  by_cases htwo : level = 2
  · subst htwo
    have hprint : Reads s depth (.rule "PrintExpression") true (gap ++ cs) none :=
      hs.prefixFails (by simp [prefixRules]) hgap hcs
    have hread := hs.reads (hmem printLevel (by simp)) (RuleDef.makes_same rfl rfl rfl hv)
      (reads_choice_next hprint (reads_choice_here h))
    exact hread.mono (add_le_add_right one_le_two depth)
  by_cases hfifteen : level = 15
  · subst hfifteen
    have hnot : Reads s (depth + 1) (.rule "NotExpression") true (gap ++ cs) none :=
      (hs.more 1).prefixFails (by simp [prefixRules]) hgap hcs
    have hinstance : Reads s depth (.terminal (kw "instanceof")) true rest none :=
      hs.suffixFails (by simp [suffixes]) hrest
    have hobject : Reads s depth instanceOfLevel.pattern true (gap ++ cs)
        (some (rest, .record ⟨[("object", v)]⟩)) :=
      reads_sequence (readsParts_field h (readsParts_plain
        (reads_optional_none (reads_sequence_none (readsParts_none hinstance))) rfl
        readsParts_nil))
    have hlevel : Reads s (depth + 1) (.rule "InstanceOfLevel") true (gap ++ cs)
        (some (rest, v)) :=
      hs.reads (hmem instanceOfLevel (by simp)) (RuleDef.makes_fallback rfl) hobject
    have hread := (hs.more 1).reads (hmem logicalNotLevel (by simp))
      (RuleDef.makes_same rfl rfl rfl hv) (reads_choice_next hnot (reads_choice_here hlevel))
    rwa [add_assoc, one_add_one_eq_two] at hread
  · have hrule : operandRule level = levelRule (level + 1) := by
      simp only [operandRule, htwo, hfifteen, if_false]
    rw [hrule]
    exact h.mono le_self_add

theorem reads_unaryLevel (hgap : gap ∈ gaps) (hcs : Unprefixed cs)
    (hv : Value.isRecord v = false)
    (h : Reads s depth (.rule "PowerLevel") true (gap ++ cs) (some (rest, v))) :
    Reads s (depth + 1) (.rule "UnaryLevel") true (gap ++ cs) (some (rest, v)) := by
  have hfront : ∀ name ∈ prefixRules, Reads s depth (.rule name) true (gap ++ cs) none :=
    fun name hname => hs.prefixFails hname hgap hcs
  have hmem : unaryLevel ∈ rules := operatorRules_subset (by simp [operatorRules])
  refine hs.reads hmem (RuleDef.makes_same rfl rfl rfl hv) ?_
  refine reads_choice_next (hfront "Cast" (by simp [prefixRules])) ?_
  refine reads_choice_next (hfront "Suppress" (by simp [prefixRules])) ?_
  refine reads_choice_next (hfront "PrefixUpdate" (by simp [prefixRules])) ?_
  refine reads_choice_next (hfront "SignedExpression" (by simp [prefixRules])) ?_
  refine reads_choice_next (hfront "CloneExpression" (by simp [prefixRules])) ?_
  exact reads_choice_here h

/-- An expression of the next level is one of a level, where no operator of the level follows. -/
theorem reads_looser {level : Nat} (hlevel : level < 17) (hgap : gap ∈ gaps)
    (hcs : Unprefixed cs) (hv : Value.isRecord v = false) (hrest : Follows level rest)
    (hlead : level = 3 → Reads s depth (.rule "AssignmentExpression") true (gap ++ cs) none)
    (h : Reads s depth (.rule (levelRule (level + 1))) true (gap ++ cs) (some (rest, v))) :
    Reads s (depth + 3) (.rule (levelRule level)) true (gap ++ cs) (some (rest, v)) := by
  have hcases : level ∈ leftLevels ∨ level = 3 ∨ level = 4 ∨ level = 5 ∨ level = 16 := by
    have hall : ∀ level ∈ List.range 17, level ∈ leftLevels ∨ level = 3 ∨ level = 4 ∨ level = 5 ∨
        level = 16 := by decide
    exact hall level (List.mem_range.2 hlevel)
  have hfails : ∀ p, (level, p) ∈ suffixes → Reads s depth p true rest none :=
    fun p hp => hs.suffixFails hp hrest
  have hone : depth + 1 ≤ depth + 3 := add_le_add_right (Nat.one_le_cast.2 (by decide)) depth
  obtain hleft | rfl | rfl | rfl | rfl := hcases
  · have hsuffix : (level, (token level).pattern) ∈ suffixes := by
      have hlevels : ∀ level ∈ leftLevels, level ∈ [0, 1, 2, 5, 6, 7, 8, 9, 10, 11, 12, 13, 14, 15,
          16] := by decide
      exact List.mem_append_right _ (List.mem_map_of_mem (hlevels level hleft))
    have hoperand := hs.reads_operandRule hgap hcs hv (hrest.mono (Nat.le_succ level)) h
    have hop := (hs.more 2).suffixFails hsuffix hrest
    have hread := (hs.more 2).reads_leftLevel hleft hoperand (.nil (reads_step_none hop))
    rwa [add_assoc, two_add_one_eq_three] at hread
  · have hlist : Reads s depth (.rule "ListAssignment") true (gap ++ cs) none :=
      hs.prefixFails (by simp [prefixRules]) hgap hcs
    have hmem : assignmentLevel ∈ rules := operatorRules_subset (by simp [operatorRules])
    have hread := hs.reads hmem (RuleDef.makes_same rfl rfl rfl hv)
      (reads_choice_next hlist (reads_choice_next (hlead rfl) (reads_choice_here h)))
    exact hread.mono hone
  · exact (hs.reads_ternaryLevel h (.nil (hfails _ (by simp [suffixes])))).mono hone
  · have hop : Reads s depth (.terminal (lit "??")) true rest none :=
      hfails _ (by simp [suffixes, token, Token.pattern])
    exact (hs.reads_coalesceLevel h (.nil (reads_step_none hop))).mono hone
  · have hmem : powerLevel ∈ rules := operatorRules_subset (by simp [operatorRules])
    have hpower : Reads s depth (token 16).pattern true rest none :=
      hfails _ (by simp [suffixes])
    have hparts : Reads s depth powerLevel.pattern true (gap ++ cs)
        (some (rest, .record ⟨[("left", v), ("right", .list [])]⟩)) :=
      reads_sequence (readsParts_field h (readsParts_field
        (reads_optional_none (reads_step_none hpower)) readsParts_nil))
    have hlevel : Reads s (depth + 1) (.rule "PowerLevel") true (gap ++ cs) (some (rest, v)) :=
      hs.reads hmem (RuleDef.makes_fallback rfl) hparts
    have hread := (hs.more 1).reads_unaryLevel hgap hcs hv hlevel
    rw [add_assoc, one_add_one_eq_two] at hread
    exact hread.mono (add_le_add_right (Nat.cast_le.2 (by decide : 2 ≤ 3)) depth)

end Plain

end PhpSyntax.Php
