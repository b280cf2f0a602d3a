import PhpSyntax.Proofs.Php.Operands

namespace PhpSyntax.Php

open Peg

theorem signs_of_le {level : Nat} (h : 17 ≤ level) : signs level = [] := by
  unfold signs
  split <;> first | omega | rfl

namespace Infix

variable (op : Infix)

theorem level_lt : op.level < 17 := by
  by_contra h
  have hlisted := op.listed
  rw [signs_of_le (by omega)] at hlisted
  simp at hlisted

theorem level_cases : op.level ∈ leftLevels ∨ op.level = 5 ∨ op.level = 16 := by
  have hall : ∀ level ∈ List.range 17, signs level ≠ [] →
      level ∈ leftLevels ∨ level = 5 ∨ level = 16 := by decide
  exact hall _ (List.mem_range.2 op.level_lt) (List.ne_nil_of_mem op.listed)

theorem follows {level : Nat} (h : op.level < level) (tail : List Char) :
    Follows level (spaced op.sign ++ tail) := by
  refine ⟨(spaced op.sign, op.level + 1), ?_, h, tail, rfl⟩
  refine List.mem_append_right _ (List.mem_flatMap.2 ⟨op.level, ?_, ?_⟩)
  · exact List.mem_range.2 op.level_lt
  · exact List.mem_map_of_mem op.listed

end Infix

namespace Expr

variable (st : Style)

theorem value_isRecord (e : Expr) : Value.isRecord e.value = false := by
  cases e <;> rfl

theorem starts_inSlot {e : Expr} {cs : List Char} (h : ∀ tail, Starts (cs ++ tail)) (least : Nat)
    (tail : List Char) : Starts (e.inSlot st least cs ++ tail) := by
  simp only [inSlot]
  split
  · exact h tail
  · have hcs : Starts cs := by simpa using h []
    exact starts_parenthesize st hcs tail

theorem starts_print (e : Expr) (tail : List Char) : Starts (e.print st ++ tail) := by
  induction e generalizing tail with
  | var x => exact starts_variable x tail
  | assignment x e _ =>
    simp only [print, List.append_assoc]
    exact starts_variable x _
  | binary op l r hl _ =>
    simp only [print, List.append_assoc]
    exact starts_inSlot st hl _ _
  | ternary c t a hc _ _ =>
    simp only [print, List.append_assoc]
    exact starts_inSlot st hc _ _
  | shorthand c a hc _ =>
    simp only [print, List.append_assoc]
    exact starts_inSlot st hc _ _

theorem starts_operand (e : Expr) (least : Nat) (tail : List Char) :
    Starts (e.operand st least ++ tail) :=
  starts_inSlot st (e.starts_print st) least tail

end Expr

section Shapes

variable (s : Setting) (depth : ℕ∞) (level : Nat) (text : List Char) (v : Value)

/-- A text that the rule of a level reads, wherever an expression of the level may end. -/
def Stands : Prop :=
  ∀ gap ∈ gaps, ∀ rest, Follows level rest →
    Reads s depth (.rule (levelRule level)) true (gap ++ (text ++ rest)) (some (rest, v))

def Unassigned : Prop :=
  ∀ gap ∈ gaps, ∀ rest, Follows 17 rest →
    Reads s depth (.rule "AssignmentExpression") true (gap ++ (text ++ rest)) none

/-- A text that operators of a level extend to the left operand of what is behind it. -/
def ExtendsLeft : Prop :=
  ∀ gap ∈ gaps, ∀ mid rest steps, Follows (level + 1) mid →
    ReadsAll s ⊤ (stepPattern (token level).pattern (.rule (operandRule level))) true mid rest steps →
    Reads s ⊤ (.rule (levelRule level)) true (gap ++ (text ++ mid))
      (some (rest, steps.foldl joinStep v))

/-- A text that is an operand and steps of an operator and an operand that nest to the right. -/
def ChainsRight : Prop :=
  ∀ gap ∈ gaps, ∀ rest, Follows 5 rest → ∃ mid head steps,
    byteLength mid ≤ byteLength (text ++ rest) ∧
    Reads s ⊤ (.rule "BooleanOrLevel") true (gap ++ (text ++ rest)) (some (mid, head)) ∧
    ReadsAll s ⊤ (stepPattern (.terminal (lit "??")) (.rule "BooleanOrLevel")) true mid rest steps ∧
    joinRight head steps = v

/-- A text that is a condition and what stands behind it. -/
def Branches : Prop :=
  ∀ gap ∈ gaps, ∀ rest, Follows 4 rest → ∃ mid head steps,
    byteLength mid ≤ byteLength (text ++ rest) ∧
    Reads s ⊤ (.rule "CoalesceLevel") true (gap ++ (text ++ rest)) (some (mid, head)) ∧
    ReadsAll s ⊤ (.rule "TernaryOperand") true mid rest steps ∧
    joinTernary head (steps.filterMap branch?) = v

end Shapes

section Levels

variable {s : Setting} {depth : ℕ∞} {level : Nat} {text : List Char} {v : Value}

/-- What stands at a level stands at the looser ones. -/
theorem Stands.loosen (hs : Plain s depth) (htext : ∀ tail, Unprefixed (text ++ tail))
    (hv : Value.isRecord v = false) (n : Nat) (hn : level + n ≤ 17)
    (hlead : 4 ≤ level + n → Unassigned s depth text) (h : Stands s depth (level + n) text v) :
    Stands s (depth + 3 * n) level text v := by
  induction n generalizing depth with
  | zero => simpa using h
  | succ n ih =>
    have hstep : Stands s (depth + 3) (level + n) text v := by
      intro gap hgap rest hrest
      refine hs.reads_looser (by omega) hgap (htext rest) hv hrest ?_
        (h gap hgap rest (hrest.mono (by omega)))
      intro hthree
      exact hlead (by omega) gap hgap rest (hrest.mono (by omega))
    have hread := ih (hs.more 3) (by omega) (fun hle gap hgap rest hrest =>
      (hlead (by omega) gap hgap rest hrest).mono le_self_add) hstep
    rwa [add_assoc, add_comm 3, ← mul_add_one, ← Nat.cast_succ] at hread

variable (hs : Plain s ⊤)

include hs

theorem Stands.extendsLeft (hlevel : level ∈ leftLevels) (hstarts : ∀ tail, Starts (text ++ tail))
    (hv : Value.isRecord v = false) (h : Stands s ⊤ (level + 1) text v) :
    ExtendsLeft s level text v := by
  intro gap hgap mid rest steps hmid hsteps
  have hhead := hs.reads_operandRule hgap (hstarts mid).unprefixed hv hmid (h gap hgap mid hmid)
  exact hs.reads_leftLevel hlevel hhead hsteps

theorem ExtendsLeft.stands (hlevel : level ∈ leftLevels) (h : ExtendsLeft s level text v) :
    Stands s ⊤ level text v := by
  intro gap hgap rest hrest
  have hlevels : ∀ level ∈ leftLevels, level ∈ [0, 1, 2, 5, 6, 7, 8, 9, 10, 11, 12, 13, 14, 15,
      16] := by decide
  have hop : Reads s ⊤ (token level).pattern true rest none :=
    hs.suffixFails (List.mem_append_right _ (List.mem_map_of_mem (hlevels level hlevel))) hrest
  exact h gap hgap rest rest [] (hrest.mono (Nat.le_succ level)) (.nil (reads_step_none hop))

theorem Stands.chainsRight (h : Stands s ⊤ 6 text v) : ChainsRight s text v := by
  intro gap hgap rest hrest
  have hop : Reads s ⊤ (.terminal (lit "??")) true rest none :=
    hs.suffixFails (by simp [suffixes, token, Token.pattern]) hrest
  have hle : byteLength rest ≤ byteLength (text ++ rest) := by
    rw [byteLength_append]
    omega
  exact ⟨rest, v, [], hle, h gap hgap rest (hrest.mono (by omega)), .nil (reads_step_none hop),
    rfl⟩

theorem ChainsRight.stands (h : ChainsRight s text v) : Stands s ⊤ 5 text v := by
  intro gap hgap rest hrest
  obtain ⟨mid, head, steps, -, hhead, hsteps, rfl⟩ := h gap hgap rest hrest
  exact hs.reads_coalesceLevel hhead hsteps

theorem Stands.branches (h : Stands s ⊤ 5 text v) : Branches s text v := by
  intro gap hgap rest hrest
  have hop : Reads s ⊤ (.rule "TernaryOperand") true rest none :=
    hs.suffixFails (by simp [suffixes]) hrest
  have hle : byteLength rest ≤ byteLength (text ++ rest) := by
    rw [byteLength_append]
    omega
  exact ⟨rest, v, [], hle, h gap hgap rest (hrest.mono (by omega)), .nil hop, rfl⟩

theorem Branches.stands (h : Branches s text v) : Stands s ⊤ 4 text v := by
  intro gap hgap rest hrest
  obtain ⟨mid, head, steps, -, hhead, hsteps, rfl⟩ := h gap hgap rest hrest
  exact hs.reads_ternaryLevel hhead hsteps

theorem Stands.parenthesize (st : Style) (hv : Value.isRecord v = false)
    (h : Stands s ⊤ 0 text v) : Stands s ⊤ 17 (st.parenthesize text) v := by
  intro gap hgap rest hrest
  have hclosing : Follows 0 (st.padding ++ ')' :: rest) := by
    obtain ⟨padded, joined⟩ := st
    cases padded with
    | false => exact ⟨([')'], 0), by simp [followers], Nat.le_refl 0, rest, rfl⟩
    | true => exact ⟨([' ', ')'], 0), by simp [followers], Nat.le_refl 0, rest, rfl⟩
  have hinside := h st.padding st.padding_mem (st.padding ++ ')' :: rest) hclosing
  exact hs.reads_parenthesized st hv hgap hrest hinside

theorem unassigned_parenthesize (st : Style) : Unassigned s ⊤ (st.parenthesize text) := by
  intro gap hgap rest hrest
  exact hs.misfit (by simp [misfits]) hgap _

end Levels

theorem follows_question (tail : List Char) : Follows 5 (spaced "?" ++ tail) :=
  ⟨(spaced "?", 5), by simp [followers], Nat.le_refl 5, tail, rfl⟩

theorem follows_elvis (st : Style) (tail : List Char) : Follows 5 (st.elvis ++ tail) := by
  obtain ⟨padded, joined⟩ := st
  cases joined with
  | false => exact follows_question (':' :: ' ' :: tail)
  | true => exact ⟨(spaced "?:", 5), by simp [followers], Nat.le_refl 5, tail, rfl⟩

theorem spaced_shorter (sign : String) (cs : List Char) :
    byteLength cs < byteLength (spaced sign ++ cs) := by
  have hpos : 0 < byteLength (spaced sign) := byteLength_pos (by simp [spaced])
  rw [byteLength_append]
  omega

section Printed

variable {s : Setting} (hs : Plain s ⊤) (st : Style)

/-- What an operand reads as in the places that it can have. -/
structure Printed (s : Setting) (st : Style) (e : Expr) : Prop where
  stands : ∀ level ≤ 17, Stands s ⊤ level (e.operand st level) e.value
  extendsLeft : ∀ level ∈ leftLevels, ExtendsLeft s level (e.operand st level) e.value
  chainsRight : ChainsRight s (e.operand st 5) e.value
  branches : Branches s (e.operand st 4) e.value

include hs

theorem operand_unassigned {e : Expr} (h : 4 ≤ e.level → Unassigned s ⊤ (e.print st)) {least : Nat}
    (hleast : 4 ≤ least) : Unassigned s ⊤ (e.operand st least) := by
  simp only [Expr.operand, Expr.inSlot]
  split
  · exact h (by omega)
  · exact unassigned_parenthesize hs st

theorem print_unassigned (e : Expr) (hlevel : 4 ≤ e.level) : Unassigned s ⊤ (e.print st) := by
  induction e with
  | var x =>
    intro gap hgap rest hrest
    exact hs.variable_unassigned x hgap hrest
  | binary op l r hl _ =>
    intro gap hgap rest hrest
    have hslot : 4 ≤ op.leftSlot := by
      have hop : 4 ≤ op.level := hlevel
      simp only [Infix.leftSlot]
      split_ifs <;> omega
    simp only [Expr.print, List.append_assoc]
    exact operand_unassigned hs st hl hslot gap hgap _ (op.follows op.level_lt _)
  | ternary c t a hc _ _ =>
    intro gap hgap rest hrest
    simp only [Expr.print, List.append_assoc]
    exact operand_unassigned hs st hc (by omega) gap hgap _
      ((follows_question _).mono (by omega))
  | shorthand c a hc _ =>
    intro gap hgap rest hrest
    simp only [Expr.print, List.append_assoc]
    exact operand_unassigned hs st hc (by omega) gap hgap _
      ((follows_elvis st _).mono (by omega))
  | assignment x e _ => simp [Expr.level] at hlevel

theorem operand_stands {e : Expr} (h : Stands s ⊤ e.level (e.print st) e.value)
    (hle : e.level ≤ 17) {level : Nat} (hlevel : level ≤ 17) :
    Stands s ⊤ level (e.operand st level) e.value := by
  have hlead : 4 ≤ e.level → Unassigned s ⊤ (e.print st) := print_unassigned hs st e
  have hloose : ∀ level ≤ e.level, Stands s ⊤ level (e.print st) e.value := by
    intro level hle'
    obtain ⟨n, hn⟩ := Nat.exists_eq_add_of_le hle'
    rw [hn] at h hlead hle
    exact Stands.loosen hs (fun tail => (e.starts_print st tail).unprefixed) e.value_isRecord n hle
      hlead h
  simp only [Expr.operand, Expr.inSlot]
  split
  · rename_i hbare
    exact hloose level hbare
  · have htight := Stands.parenthesize hs st e.value_isRecord (hloose 0 (Nat.zero_le _))
    obtain ⟨n, hn⟩ := Nat.exists_eq_add_of_le hlevel
    rw [hn] at htight
    have hstarts : ∀ tail, Starts (st.parenthesize (e.print st) ++ tail) :=
      starts_parenthesize st (by simpa using e.starts_print st [])
    exact Stands.loosen hs (fun tail => (hstarts tail).unprefixed) e.value_isRecord n (by omega)
      (fun _ => unassigned_parenthesize hs st) htight

/-- Only at its own level does it matter how an expression is read from its parts. -/
theorem printed_of_own {e : Expr} (hle : e.level ≤ 17)
    (hown : Stands s ⊤ e.level (e.print st) e.value)
    (hleft : e.level ∈ leftLevels → ExtendsLeft s e.level (e.print st) e.value)
    (hright : e.level = 5 → ChainsRight s (e.print st) e.value)
    (hbranches : e.level = 4 → Branches s (e.print st) e.value) : Printed s st e := by
  have hbare : e.operand st e.level = e.print st := by
    simp only [Expr.operand, Expr.inSlot, Nat.le_refl, if_true]
  have hnext : ∀ level, e.level ≠ level → e.operand st level = e.operand st (level + 1) := by
    intro level hne
    simp only [Expr.operand, Expr.inSlot]
    split_ifs <;> first | rfl | omega
  have hstands : ∀ level ≤ 17, Stands s ⊤ level (e.operand st level) e.value :=
    fun level hlevel => operand_stands hs st hown hle hlevel
  refine ⟨hstands, fun level hlevel => ?_, ?_, ?_⟩
  · by_cases hself : e.level = level
    · subst hself
      rw [hbare]
      exact hleft hlevel
    · have hlt : ∀ level ∈ leftLevels, level + 1 ≤ 17 := by decide
      rw [hnext level hself]
      exact Stands.extendsLeft hs hlevel (e.starts_operand st _) e.value_isRecord
        (hstands (level + 1) (hlt level hlevel))
  · by_cases hself : e.level = 5
    · rw [← hself, hbare]
      exact hright hself
    · rw [hnext 5 hself]
      exact Stands.chainsRight hs (hstands 6 (by omega))
  · by_cases hself : e.level = 4
    · rw [← hself, hbare]
      exact hbranches hself
    · rw [hnext 4 hself]
      exact Stands.branches hs (hstands 5 (by omega))

theorem printed_var (x : Ident) : Printed s st (.var x) := by
  refine printed_of_own hs st (Nat.le_refl 17) ?_ ?_ ?_ ?_
  · intro gap hgap rest hrest
    exact hs.reads_bareVariable x hgap hrest
  · intro hlevel
    simp [Expr.level, leftLevels] at hlevel
  · intro hlevel
    cases hlevel
  · intro hlevel
    cases hlevel

theorem printed_assignment (x : Ident) {e : Expr} (he : Printed s st e) :
    Printed s st (.assignment x e) := by
  refine printed_of_own hs st (by simp [Expr.level]) ?_ ?_ ?_ ?_
  · intro gap hgap rest hrest
    have hvalue := he.stands 3 (by omega) [' '] (by simp [gaps]) rest hrest
    have hread := hs.reads_assignment x hgap (e.starts_operand st 3 rest) hvalue
    simp only [Expr.print, List.append_assoc]
    exact hread
  · intro hlevel
    simp [Expr.level, leftLevels] at hlevel
  · intro hlevel
    cases hlevel
  · intro hlevel
    cases hlevel

/-- Operators of a level that nests to the left go on behind its left operand. -/
theorem extendsLeft_binary {op : Infix} {l r : Expr} (hlevel : op.level ∈ leftLevels)
    (hl : Printed s st l) (hr : Printed s st r) :
    ExtendsLeft s op.level ((Expr.binary op l r).print st) (Expr.binary op l r).value := by
  intro gap hgap mid rest steps hmid hsteps
  have hslots : op.leftSlot = op.level ∧ op.rightSlot = op.level + 1 := by
    have hall : ∀ level ∈ leftLevels, level ≠ 5 ∧ level ≠ 16 := by decide
    obtain ⟨hfive, hsixteen⟩ := hall op.level hlevel
    simp only [Infix.leftSlot, Infix.rightSlot, hfive, hsixteen, if_false, and_self]
  have hblank : [' '] ∈ gaps := by simp [gaps]
  have hstands := hr.stands (op.level + 1) op.level_lt [' '] hblank mid hmid
  have hoperand := hs.reads_operandRule hblank (r.starts_operand st _ mid).unprefixed
    r.value_isRecord hmid hstands
  have hsign := hs.operatorReads (List.mem_range.2 op.level_lt) op.listed
    (r.operand st (op.level + 1) ++ mid)
  have hshorter : byteLength mid <
      byteLength (spaced op.sign ++ (r.operand st (op.level + 1) ++ mid)) := by
    have hspaced := spaced_shorter op.sign (r.operand st (op.level + 1) ++ mid)
    rw [byteLength_append] at hspaced
    omega
  have hread := hl.extendsLeft op.level hlevel gap hgap _ rest _
    (op.follows (Nat.lt_succ_self _) _) (.cons (reads_step hsign hoperand) hshorter hsteps)
  simp only [Expr.print, hslots, List.append_assoc]
  exact hread

theorem chainsRight_binary {op : Infix} {l r : Expr} (hlevel : op.level = 5)
    (hl : Printed s st l) (hr : Printed s st r) :
    ChainsRight s ((Expr.binary op l r).print st) (Expr.binary op l r).value := by
  intro gap hgap rest hrest
  obtain ⟨mid, head, steps, hle, hhead, hsteps, hvalue⟩ :=
    hr.chainsRight [' '] (by simp [gaps]) rest hrest
  let tail := spaced op.sign ++ (r.operand st 5 ++ rest)
  have hlisted : op.sign ∈ signs 5 := hlevel ▸ op.listed
  have hsign : Reads s ⊤ (token 5).pattern true tail
      (some (' ' :: (r.operand st 5 ++ rest), .text op.sign)) :=
    hs.operatorReads (by simp) hlisted _
  have hleft := hl.stands 6 (by omega) gap hgap tail (op.follows (by omega) _)
  have hslots : op.leftSlot = 6 ∧ op.rightSlot = 5 := by
    simp only [Infix.leftSlot, Infix.rightSlot, hlevel, if_true, and_self]
  have htail : byteLength mid < byteLength tail :=
    Nat.lt_of_le_of_lt hle (spaced_shorter op.sign _)
  refine ⟨tail, l.value, stepValue (.text op.sign) head :: steps, ?_, ?_,
    .cons (reads_step hsign hhead) htail hsteps, ?_⟩
  · simp only [Expr.print, hslots, List.append_assoc, tail]
    rw [byteLength_append (l.inSlot st 6 _)]
    exact Nat.le_add_left _ _
  · simp only [Expr.print, hslots, List.append_assoc]
    exact hleft
  · rw [Expr.value, ← hvalue]
    rfl

theorem stands_power {op : Infix} {l r : Expr} (hlevel : op.level = 16)
    (hl : Printed s st l) (hr : Printed s st r) :
    Stands s ⊤ 16 ((Expr.binary op l r).print st) (Expr.binary op l r).value := by
  intro gap hgap rest hrest
  have hblank : [' '] ∈ gaps := by simp [gaps]
  have hsign : op.sign = "**" := by
    have hlisted : op.sign ∈ signs 16 := hlevel ▸ op.listed
    simpa [signs] using hlisted
  have hlead := operand_unassigned hs st (print_unassigned hs st r) (by omega : 4 ≤ 16) [' '] hblank
    rest (hrest.mono (by omega))
  have hright := hr.stands 16 (by omega) [' '] hblank rest hrest
  have hleft := hl.stands 17 (Nat.le_refl 17) gap hgap (spaced op.sign ++ (r.operand st 16 ++ rest))
    (op.follows (by omega) _)
  have hslots : op.leftSlot = 17 ∧ op.rightSlot = 16 := by
    simp only [Infix.leftSlot, Infix.rightSlot, hlevel]
    decide
  rw [hsign] at hleft
  have hread := hs.reads_power hgap (l.starts_operand st 17 _) (r.starts_operand st 16 rest) hlead
    r.value_isRecord hleft hright
  simp only [Expr.print, hslots, List.append_assoc, hsign, Expr.value]
  exact hread

theorem printed_binary (op : Infix) {l r : Expr} (hl : Printed s st l) (hr : Printed s st r) :
    Printed s st (.binary op l r) := by
  have hlt : op.level ≤ 17 := Nat.le_of_lt op.level_lt
  have hown : Stands s ⊤ op.level ((Expr.binary op l r).print st) (Expr.binary op l r).value := by
    obtain hleft | hfive | hsixteen := op.level_cases
    · exact ExtendsLeft.stands hs hleft (extendsLeft_binary hs st hleft hl hr)
    · rw [hfive]
      exact ChainsRight.stands hs (chainsRight_binary hs st hfive hl hr)
    · rw [hsixteen]
      exact stands_power hs st hsixteen hl hr
  refine printed_of_own hs st hlt hown (fun hleft => extendsLeft_binary hs st hleft hl hr)
    (fun hfive => chainsRight_binary hs st hfive hl hr) ?_
  intro hfour
  have hlisted : op.sign ∈ signs 4 := (show op.level = 4 from hfour) ▸ op.listed
  simp [signs] at hlisted

theorem branches_ternary {c t a : Expr} (hc : Printed s st c) (ht : Printed s st t)
    (ha : Printed s st a) :
    Branches s ((Expr.ternary c t a).print st) (Expr.ternary c t a).value := by
  intro gap hgap rest hrest
  have hblank : [' '] ∈ gaps := by simp [gaps]
  obtain ⟨mid, head, steps, hle, hhead, hsteps, hvalue⟩ := ha.branches [' '] hblank rest hrest
  let final := spaced ":" ++ (a.operand st 4 ++ rest)
  let tail := spaced "?" ++ (t.operand st 3 ++ final)
  have hcolon : Follows 3 final := ⟨(spaced ":", 0), by simp [followers], Nat.zero_le 3, _, rfl⟩
  have hcondition := hc.stands 5 (by omega) gap hgap tail (follows_question _)
  have hconsequent := ht.stands 3 (by omega) [' '] hblank final hcolon
  have hfull := hs.reads_full (t.starts_operand st 3 final) hconsequent hhead
  have htail : byteLength mid < byteLength tail := by
    have hfinal : byteLength mid < byteLength final :=
      Nat.lt_of_le_of_lt hle (spaced_shorter ":" _)
    have hspaced := spaced_shorter "?" (t.operand st 3 ++ final)
    rw [byteLength_append] at hspaced
    show byteLength mid < byteLength (spaced "?" ++ (t.operand st 3 ++ final))
    omega
  refine ⟨tail, c.value, _, ?_, ?_, .cons hfull htail hsteps, ?_⟩
  · simp only [Expr.print, List.append_assoc, tail, final]
    rw [byteLength_append (c.inSlot st 5 _)]
    exact Nat.le_add_left _ _
  · simp only [Expr.print, List.append_assoc]
    exact hcondition
  · rw [Expr.value, ← hvalue]
    rfl

theorem branches_shorthand {c a : Expr} (hc : Printed s st c) (ha : Printed s st a) :
    Branches s ((Expr.shorthand c a).print st) (Expr.shorthand c a).value := by
  intro gap hgap rest hrest
  obtain ⟨mid, head, steps, hle, hhead, hsteps, hvalue⟩ :=
    ha.branches [' '] (by simp [gaps]) rest hrest
  let tail := st.elvis ++ (a.operand st 4 ++ rest)
  have hcondition := hc.stands 5 (by omega) gap hgap tail (follows_elvis st _)
  have hshorthand := hs.reads_shorthand st hhead
  have htail : byteLength mid < byteLength tail := by
    obtain ⟨padded, joined⟩ := st
    cases joined with
    | false => exact Nat.lt_of_le_of_lt hle (spaced_shorter "? :" _)
    | true => exact Nat.lt_of_le_of_lt hle (spaced_shorter "?:" _)
  refine ⟨tail, c.value, _, ?_, ?_, .cons hshorthand htail hsteps, ?_⟩
  · simp only [Expr.print, List.append_assoc, tail]
    rw [byteLength_append (c.inSlot st 5 _)]
    exact Nat.le_add_left _ _
  · simp only [Expr.print, List.append_assoc]
    exact hcondition
  · rw [Expr.value, ← hvalue]
    rfl

theorem printed_of_branches {e : Expr} (hlevel : e.level = 4)
    (h : Branches s (e.print st) e.value) : Printed s st e := by
  have hown : Stands s ⊤ e.level (e.print st) e.value := by
    rw [hlevel]
    exact Branches.stands hs h
  refine printed_of_own hs st (by omega) hown ?_ ?_ (fun _ => h)
  · intro hleft
    simp [hlevel, leftLevels] at hleft
  · intro hfive
    omega

theorem printed (e : Expr) : Printed s st e := by
  induction e with
  | var x => exact printed_var hs st x
  | binary op l r hl hr => exact printed_binary hs st op hl hr
  | ternary c t a hc ht ha =>
    exact printed_of_branches hs st rfl (branches_ternary hs st hc ht ha)
  | shorthand c a hc ha => exact printed_of_branches hs st rfl (branches_shorthand hs st hc ha)
  | assignment x e he => exact printed_assignment hs st x he

end Printed

end PhpSyntax.Php
