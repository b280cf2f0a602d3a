import PhpSyntax.Proofs.Php.Locating

namespace PhpSyntax.Php

open Literal

/-- A text that falls into characters other than backslashes and backslashes with the character
behind them. -/
inductive Paired : List Char → Prop where
  | nil : Paired []
  | plain {c : Char} {cs : List Char} : c ≠ '\\' → Paired cs → Paired (c :: cs)
  | pair {c : Char} {cs : List Char} : Paired cs → Paired ('\\' :: c :: cs)

/-- A text that begins with a dollar sign in front of a name or of a brace, or with a brace in front
of a dollar sign. -/
def Interpolates (cs : List Char) : Prop :=
  (∃ c rest, cs = '$' :: c :: rest ∧ (c = '\x7b' ∨ isIdentStart c = true)) ∨
    ∃ rest, cs = '\x7b' :: '$' :: rest

/-- A text with an interpolation outside of pairs. -/
def Interpolated (cs : List Char) : Prop :=
  ∃ front rest, cs = front ++ rest ∧ Paired front ∧ Interpolates rest

section Run

variable {cs front rest : List Char} {c : Char}

theorem interpolates_cons : Interpolates (c :: cs) ↔ interpolates c cs.head? = true := by
  constructor
  · rintro (⟨d, rest, heq, hd⟩ | ⟨rest, heq⟩)
    · obtain ⟨rfl, rfl⟩ := List.cons.inj heq
      simpa [interpolates] using hd
    · obtain ⟨rfl, rfl⟩ := List.cons.inj heq
      rfl
  · intro h
    unfold interpolates at h
    split at h
    · rename_i d hd
      obtain ⟨rest, rfl⟩ := List.head?_eq_some_iff.1 hd
      exact .inl ⟨d, rest, rfl, by simpa using h⟩
    · rename_i d hd
      obtain ⟨rest, rfl⟩ := List.head?_eq_some_iff.1 hd
      exact .inr ⟨rest, by rw [eq_of_beq h]⟩
    · cases h

theorem not_interpolates_nil : ¬Interpolates [] := by
  rintro (⟨c, rest, heq, -⟩ | ⟨rest, heq⟩) <;> cases heq

theorem Interpolates.head_ne (h : Interpolates (c :: cs)) : c ≠ '\\' := by
  rintro rfl
  obtain ⟨d, rest, heq, -⟩ | ⟨rest, heq⟩ := h <;> cases heq

/-- A literal run reaches to the end of the text or to an interpolation. -/
theorem exists_literalRun (cs : List Char) : ∃ rest, cs = literalRun cs ++ rest ∧
    (rest = [] ∨ Paired (literalRun cs) ∧ Interpolates rest) := by
  fun_induction literalRun cs with
  | case1 => exact ⟨[], rfl, .inl rfl⟩
  | case2 c cs ih =>
    obtain ⟨rest, hsplit, hrest⟩ := ih
    exact ⟨rest, congrArg ('\\' :: c :: ·) hsplit, hrest.imp_right (And.imp_left .pair)⟩
  | case3 c cs _ hc => exact ⟨c :: cs, rfl, .inr ⟨.nil, interpolates_cons.2 hc⟩⟩
  | case4 c cs hlone _ ih =>
    obtain ⟨rest, hsplit, hrest⟩ := ih
    refine ⟨rest, congrArg (c :: ·) hsplit, hrest.imp_right fun h => ⟨?_, h.2⟩⟩
    obtain ⟨hpaired, hbegins⟩ := h
    refine .plain ?_ hpaired
    -- A backslash that nothing follows ends the text.
    rintro rfl
    cases cs with
    | nil =>
      obtain ⟨-, rfl⟩ := List.append_eq_nil_iff.1 hsplit.symm
      exact not_interpolates_nil hbegins
    | cons d cs => exact hlone d cs rfl rfl

theorem Interpolates.literalRun (h : Interpolates cs) : literalRun cs = [] := by
  cases cs with
  | nil => rfl
  | cons c cs =>
    have hc := h.head_ne
    rw [interpolates_cons] at h
    rw [Php.literalRun, if_pos h]
    rintro d rest rfl -
    exact hc rfl

theorem literalRun_behind (h : cs = literalRun cs ++ rest) : literalRun rest = [] := by
  obtain ⟨rest', hsplit, hrest⟩ := exists_literalRun cs
  obtain rfl : rest = rest' := List.append_cancel_left (h.symm.trans hsplit)
  obtain rfl | ⟨-, hrest⟩ := hrest
  · rfl
  · exact hrest.literalRun

/-- A literal run does not reach over an interpolation. -/
theorem literalRun_prefix (hfront : Paired front) (hrest : Interpolates rest) :
    literalRun (front ++ rest) <+: front := by
  induction hfront with
  | nil =>
    rw [List.nil_append, hrest.literalRun]
  | @plain c cs hc _ ih =>
    rw [List.cons_append, literalRun]
    · split
      · exact List.nil_prefix
      · exact (List.prefix_cons_inj c).2 ih
    · rintro d more rfl -
      exact hc rfl
  | @pair c cs _ ih =>
    rw [List.cons_append, List.cons_append, literalRun]
    exact (List.prefix_cons_inj _).2 ((List.prefix_cons_inj _).2 ih)

theorem literalRun_eq_self : literalRun cs = cs ↔ ¬Interpolated cs := by
  constructor
  · rintro hrun ⟨front, rest, rfl, hfront, hrest⟩
    have hprefix := literalRun_prefix hfront hrest
    rw [hrun] at hprefix
    have hlength := hprefix.length_le
    rw [List.length_append] at hlength
    obtain rfl := List.length_eq_zero_iff.1 (by omega : rest.length = 0)
    exact not_interpolates_nil hrest
  · intro h
    obtain ⟨rest, hsplit, rfl | ⟨hpaired, hrest⟩⟩ := exists_literalRun cs
    · rw [← List.append_nil (literalRun cs)]
      exact hsplit.symm
    · exact absurd ⟨_, rest, hsplit, hpaired, hrest⟩ h

end Run

section Escapes

variable {set : EscapeSet} {front rest : List Char} {e : Escape}

theorem takeWhile_stop {p : Char → Bool} (h : ∀ c ∈ rest.head?, p c = false) :
    (front ++ rest).takeWhile p = front.takeWhile p := by
  induction front with
  | nil =>
    cases rest with
    | nil => rfl
    | cons c rest => simp [h c rfl]
  | cons c front ih => simp only [List.cons_append, List.takeWhile_cons, ih]

theorem leading_stop {p : Char → Bool} {most : Nat} (h : ∀ c ∈ rest.head?, p c = false) :
    leading p most (front ++ rest) = leading p most front := by
  rw [leading, leading, List.take_append]
  refine takeWhile_stop fun c hc => h c ?_
  cases rest with
  | nil => simp at hc
  | cons d rest =>
    cases hk : most - front.length with
    | zero => simp [hk] at hc
    | succ k => simpa [hk] using hc

theorem Interpolates.head_dollar (h : Interpolates rest) :
    ∀ c ∈ rest.head?, c = '$' ∨ c = '\x7b' := by
  obtain ⟨d, more, rfl, -⟩ | ⟨more, rfl⟩ := h <;> simp

theorem Interpolates.head_stops (h : Interpolates rest) :
    ∀ c ∈ rest.head?, isOctal c = false ∧ isHex c = false ∧ c ≠ '\x7d' := by
  intro c hc
  obtain rfl | rfl := h.head_dollar c hc <;> decide

/-- The end of a code point in braces is found in front of an interpolation or not at all. -/
theorem closing_stop {more : List Char} (hrest : Interpolates rest) {n : Nat}
    (hn : n ≤ more.length) : (more ++ rest)[n]? = some '\x7d' ↔ more[n]? = some '\x7d' := by
  obtain hlt | rfl := hn.lt_or_eq
  · rw [List.getElem?_append_left hlt]
  · rw [List.getElem?_append_right (Nat.le_refl _), Nat.sub_self, ← List.head?_eq_getElem?,
      List.getElem?_eq_none (Nat.le_refl _)]
    simp only [reduceCtorEq, iff_false]
    exact fun h => (hrest.head_stops _ h).2.2 rfl

/-- An escape that an interpolation follows is the same as at the end of a text. -/
theorem escapeAt?_stop (hfront : front ≠ []) (hrest : Interpolates rest) :
    escapeAt? set (front ++ rest) = escapeAt? set front := by
  obtain ⟨c, more, rfl⟩ := List.exists_cons_of_ne_nil hfront
  have hstops := hrest.head_stops
  have hoctal : leading isOctal 3 (c :: (more ++ rest)) = leading isOctal 3 (c :: more) := by
    rw [← List.cons_append]
    exact leading_stop fun d hd => (hstops d hd).1
  have hhex : leading isHex 2 (more ++ rest) = leading isHex 2 more :=
    leading_stop fun d hd => (hstops d hd).2.1
  by_cases hu : c = 'u'
  · subst hu
    cases more with
    | nil =>
      obtain ⟨d, more, rfl, -⟩ | ⟨more, rfl⟩ := hrest <;> cases set <;> rfl
    | cons d more =>
      by_cases hd : d = '\x7b'
      · subst hd
        have hcode : (more ++ rest).takeWhile isHex = more.takeWhile isHex :=
          takeWhile_stop fun d hd => (hstops d hd).2.1
        have hclosing := closing_stop hrest (List.takeWhile_prefix isHex (l := more)).length_le
        cases set <;>
          simp [escapeAt?, simpleEscape?, leading, isOctal, hcode, hclosing]
      · cases set <;> simp [escapeAt?, hd, simpleEscape?, leading, isOctal]
  · cases set <;> simp [escapeAt?, hu, hoctal, hhex]

/-- What an escape takes behind the first character: further ones, none of them a backslash. -/
def UsesUp (e : Escape) (cs : List Char) : Prop :=
  ∃ taken, e.length = taken.length + 1 ∧ taken <+: cs ∧ ∀ d ∈ taken, d ≠ '\\'

theorem usesUp_leading {p : Char → Bool} (hp : p '\\' = false) {most : Nat} {cs : List Char}
    (hlength : e.length = (leading p most cs).length + 1) : UsesUp e cs := by
  refine ⟨_, hlength, (List.takeWhile_prefix p).trans (List.take_prefix most cs), ?_⟩
  rintro d hd rfl
  rw [List.mem_takeWhile_imp hd] at hp
  cases hp

theorem usesUp_closed {cs : List Char} (h : cs[(cs.takeWhile isHex).length]? = some '\x7d')
    (hlength : e.length = (cs.takeWhile isHex).length + 3) : UsesUp e ('\x7b' :: cs) := by
  obtain ⟨rest, hrest⟩ := List.takeWhile_prefix isHex (l := cs)
  have hclose : rest.head? = some '\x7d' := by
    rw [List.head?_eq_getElem?]
    nth_rewrite 1 [← hrest] at h
    rwa [List.getElem?_append_right (Nat.le_refl _), Nat.sub_self] at h
  obtain ⟨more, rfl⟩ := List.head?_eq_some_iff.1 hclose
  refine ⟨'\x7b' :: (cs.takeWhile isHex ++ ['\x7d']), by simpa using hlength, ⟨more, ?_⟩, ?_⟩
  · simpa using hrest
  · simp only [List.mem_cons, List.mem_append, List.not_mem_nil, or_false]
    rintro d (rfl | hd | rfl)
    · decide
    · rintro rfl
      cases List.mem_takeWhile_imp hd
    · decide

theorem usesUp_octal {c : Char} {cs : List Char}
    (h : (!(leading isOctal 3 (c :: cs)).isEmpty) = true)
    (hlength : e.length = (leading isOctal 3 (c :: cs)).length) : UsesUp e cs := by
  have hcons : leading isOctal 3 (c :: cs) = if isOctal c then c :: leading isOctal 2 cs else [] :=
    List.takeWhile_cons
  rw [hcons] at h hlength
  split at h
  · rename_i hc
    rw [if_pos hc] at hlength
    exact usesUp_leading (by decide) hlength
  · simp at h

theorem escapeAt?_usesUp {c : Char} {cs : List Char} (h : escapeAt? set (c :: cs) = some e) :
    UsesUp e cs := by
  have hone : ∀ {o}, some (Escape.mk 1 o) = some e → UsesUp e cs := by
    rintro o ⟨⟩
    exact ⟨[], rfl, List.nil_prefix, by simp⟩
  cases set with
  | singleQuoted =>
    simp only [escapeAt?, Option.ite_none_right_eq_some] at h
    exact hone h.2
  | doubleQuoted | heredoc =>
    simp only [escapeAt?] at h
    split at h
    · exact hone h
    split at h
    · rename_i hoctal
      obtain rfl := Option.some.inj h
      exact usesUp_octal hoctal rfl
    split at h
    · split at h
      · cases h
      · obtain rfl := Option.some.inj h
        exact usesUp_leading (by decide) rfl
    split at h
    · split at h
      · cases h
      · rename_i hclosed
        rw [not_or, not_not] at hclosed
        obtain rfl := Option.some.inj h
        exact usesUp_closed hclosed.2 rfl
    · cases h

theorem Paired.tail {c : Char} {cs : List Char} (h : Paired (c :: cs)) (hc : c ≠ '\\') :
    Paired cs := by
  cases h with
  | plain _ h => exact h
  | pair _ => exact absurd rfl hc

/-- What is behind characters that are no backslashes is paired if all is. -/
theorem Paired.behind {taken cs : List Char} (htaken : ∀ d ∈ taken, d ≠ '\\')
    (h : Paired (taken ++ cs)) : Paired cs := by
  induction taken with
  | nil => exact h
  | cons d taken ih =>
    obtain ⟨hd, htaken⟩ := List.forall_mem_cons.1 htaken
    exact ih htaken (h.tail hd)

theorem escapeAt?_backslash (cs : List Char) : ∃ e, escapeAt? set ('\\' :: cs) = some e := by
  cases set <;> exact ⟨_, rfl⟩

/-- Resolving the escapes of a text is resolving those in front of an interpolation and those
behind, also where an escape has used up characters at the start. -/
theorem unescapeFrom_append (hrest : Interpolates rest) : ∀ (skip : Nat) (front : List Char),
    skip ≤ front.length → Paired (front.drop skip) →
    unescapeFrom set skip (front ++ rest) =
      unescapeFrom set skip front ++ unescapeFrom set 0 rest
  | 0, [], _, _ => by simp [unescapeFrom]
  | skip + 1, c :: front, hskip, hpaired => by
    simp only [List.cons_append, unescapeFrom]
    exact unescapeFrom_append hrest skip front (Nat.le_of_succ_le_succ hskip) hpaired
  | 0, c :: front, _, hpaired => by
    have hcut := unescapeFrom_append hrest 0 front (Nat.zero_le _)
    simp only [List.cons_append, unescapeFrom]
    cases hpaired with
    | plain hc hpaired =>
      simp only [hc, if_false, hcut hpaired, List.cons_append]
    | @pair d more hpaired =>
      have hescape : escapeAt? set (d :: more ++ rest) = escapeAt? set (d :: more) :=
        escapeAt?_stop (List.cons_ne_nil _ _) hrest
      simp only [if_true]
      rw [hescape]
      cases he : escapeAt? set (d :: more) with
      | none =>
        have hd : d ≠ '\\' := by
          rintro rfl
          obtain ⟨e, he'⟩ : ∃ e, escapeAt? set ('\\' :: more) = some e := escapeAt?_backslash more
          cases he.symm.trans he'
        exact congrArg ('\\' :: ·) (hcut (.plain hd hpaired))
      | some e =>
        obtain ⟨taken, hlength, ⟨behind, rfl⟩, htaken⟩ := escapeAt?_usesUp he
        have hle : e.length ≤ (d :: (taken ++ behind)).length := by
          rw [hlength, List.length_cons, List.length_append]
          omega
        have hbehind : Paired ((d :: (taken ++ behind)).drop e.length) := by
          rw [hlength, List.drop_succ_cons, List.drop_left]
          exact hpaired.behind htaken
        simp only
        rw [unescapeFrom_append hrest e.length _ hle hbehind, List.take_append_of_le_length hle,
          List.append_assoc]
termination_by _ front => front.length

/-- A body may be cut where an interpolation begins: no escape is split. -/
theorem unescape_cut {cs : List Char} (h : cs = literalRun cs ++ rest) :
    unescapeFrom set 0 cs = unescapeFrom set 0 (literalRun cs) ++ unescapeFrom set 0 rest := by
  obtain ⟨rest', hsplit, hrest⟩ := exists_literalRun cs
  obtain rfl : rest = rest' := List.append_cancel_left (h.symm.trans hsplit)
  obtain rfl | ⟨hpaired, hrest⟩ := hrest
  · rw [List.append_nil] at h
    rw [← h, unescapeFrom, List.append_nil]
  · have hcut : unescapeFrom set 0 (literalRun cs ++ rest) =
        unescapeFrom set 0 (literalRun cs) ++ unescapeFrom set 0 rest :=
      unescapeFrom_append hrest 0 (literalRun cs) (Nat.zero_le _) hpaired
    rwa [← h] at hcut

end Escapes

end PhpSyntax.Php
