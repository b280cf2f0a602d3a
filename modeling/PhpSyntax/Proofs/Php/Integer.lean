import PhpSyntax.Php.Literal
import PhpSyntax.Proofs.Literal.Integer
import PhpSyntax.Proofs.Peg.Taking
import PhpSyntax.Proofs.Php.Table

namespace PhpSyntax.Php

open Peg Regex Literal

section Language

/-- The sets of digits of some radices. -/
def digitSet : Nat → CharSet
  | 2 => ⟨[(48, 49)]⟩
  | 10 => ⟨[(48, 57)]⟩
  | 16 => ⟨[(48, 57), (65, 70), (97, 102)]⟩
  | _ => .none

/-- The letters that announce a radix behind a zero. -/
def markSet : Nat → CharSet
  | 2 => ⟨[(66, 66), (98, 98)]⟩
  | 16 => ⟨[(88, 88), (120, 120)]⟩
  | _ => .none

def digitRun (radix : Nat) : Regex :=
  .rounds 1 none true (.set (digitSet radix))

def markedRun (radix : Nat) : Regex :=
  .seq (.text ['0']) (.seq (.set (markSet radix)) (digitRun radix))

/-- The regex of integers, held to the start of the text. -/
def integerRegex : Regex :=
  .seq (.anchor .textStart) (.alt (markedRun 16) (.alt (markedRun 2) (digitRun 10)))

def integerTerminal : Terminal :=
  (re "0[xX][0-9a-fA-F]+|0[bB][01]+|[0-9]+").withTransform .integer

theorem integer_pattern :
    integer.pattern = .sequence [⟨some "number", .value, .terminal integerTerminal⟩] :=
  rfl

theorem integer_described : integerTerminal.Describes integerRegex := by
  refine ⟨rfl, rfl, ?_⟩
  have hregex : integerTerminal.regex? = some integerRegex := by decide +kernel
  rw [Terminal.program?_eq, hregex]
  rfl

-- Evaluated in turn.
mutual

theorem digitSet_ascii : ∀ n < 128, ∀ radix ∈ [2, 10, 16],
    (digitSet radix).has (Char.ofNat n) = true → digitOf (Char.ofNat n) < radix := by
  decide +kernel

theorem markSet_ascii : ∀ n < 128, ∀ radix ∈ [2, 16],
    (markSet radix).has (Char.ofNat n) = true → ['0', Char.ofNat n] ∈ marks radix := by
  decide +kernel

end

theorem has_ascii {s : CharSet} (hs : s.isAscii = true) {c : Char} (hc : s.has c = true) :
    c.toNat < 128 := by
  simp only [CharSet.has, Unicode.covers, List.any_eq_true, Bool.and_eq_true,
    decide_eq_true_eq] at hc
  simp only [CharSet.isAscii, List.all_eq_true, decide_eq_true_eq] at hs
  obtain ⟨r, hr, -, hle⟩ := hc
  have hascii := hs r hr
  omega

theorem digitRun_digits {radix : Nat} (hradix : radix ∈ [2, 10, 16]) {cs : List Char}
    (h : cs ∈ (digitRun radix).language) : Digits radix cs := by
  obtain ⟨hne, hall⟩ := mem_language_run h
  have hascii : ∀ radix ∈ [2, 10, 16], (digitSet radix).isAscii = true := by decide
  refine ⟨hne, fun c hc => ?_⟩
  have hhas := hall c hc
  exact of_ascii (P := fun c => ∀ radix ∈ [2, 10, 16], (digitSet radix).has c = true →
    digitOf c < radix) digitSet_ascii (has_ascii (hascii radix hradix) hhas) radix hradix hhas

theorem markedRun_announces {radix : Nat} (hradix : radix ∈ [2, 16]) {cs : List Char}
    (h : cs ∈ (markedRun radix).language) :
    ∃ digits, Announces radix digits cs := by
  obtain ⟨_, rfl, _, ⟨_, ⟨c, hc, rfl⟩, digits, hdigits, rfl⟩, rfl⟩ := h
  have hascii : ∀ radix ∈ [2, 16], (markSet radix).isAscii = true := by decide
  have hmark := of_ascii (P := fun c => ∀ radix ∈ [2, 16], (markSet radix).has c = true →
    ['0', c] ∈ marks radix) markSet_ascii (has_ascii (hascii radix hradix) hc) radix hradix hc
  have hrun : radix ∈ [2, 10, 16] := by
    simp only [List.mem_cons, List.not_mem_nil, or_false] at hradix ⊢
    omega
  exact ⟨digits, ⟨['0', c], hmark, rfl⟩, digitRun_digits hrun hdigits⟩

/-- Decimal digits are of an octal literal if a zero stands in front of octal digits. -/
theorem announces_or_unannounced {cs : List Char} (h : Digits 10 cs) :
    (∃ digits, Announces 8 digits cs) ∨ Unannounced cs := by
  by_cases hoctal : cs.head? = some '0' ∧ cs ≠ ['0'] ∧ ∀ c ∈ cs, digitOf c < 8
  · obtain ⟨hhead, hne, hbelow⟩ := hoctal
    obtain ⟨digits, rfl⟩ := List.head?_eq_some_iff.1 hhead
    refine .inl ⟨digits, ⟨['0'], List.mem_singleton.2 rfl, rfl⟩, fun hnil => hne (by rw [hnil]),
      fun c hc => hbelow c (List.mem_cons_of_mem _ hc)⟩
  · refine .inr ⟨h, fun hhead => ?_⟩
    by_cases hzero : cs = ['0']
    · exact .inl hzero
    · refine .inr (Classical.by_contradiction fun hnone => hoctal ⟨hhead, hzero, fun c hc => ?_⟩)
      exact Nat.not_le.1 fun h8 => hnone ⟨c, hc, h8⟩

theorem integer_forms {cs : List Char} (h : cs ∈ integerRegex.language) :
    (∃ radix digits, Announces radix digits cs) ∨ Unannounced cs := by
  rw [integerRegex, language, language, one_mul] at h
  obtain h | h | h := h
  · obtain ⟨digits, h⟩ := markedRun_announces (by decide) h
    exact .inl ⟨16, digits, h⟩
  · obtain ⟨digits, h⟩ := markedRun_announces (by decide) h
    exact .inl ⟨2, digits, h⟩
  · exact (announces_or_unannounced (digitRun_digits (by decide) h)).imp_left fun h => ⟨8, h⟩

end Language

section Integers

variable {skipped : Option Lexeme} {calls : Calls} {trivia : Bool} {m : Matched}

/-- Whatever text the rule for integers matches as a whole, it yields in decimal. -/
theorem integer_matches {t : String}
    (hm : Matches skipped (.ofString t) calls integer.pattern trivia 0 m) (hstart : m.start = 0)
    (hstop : m.stop = (Text.ofString t).size) :
    t.toList ∈ integerRegex.language ∧
      m.value = .record (Fields.empty.insert "number" (.text (normalizeInteger t))) := by
  have htext : (Text.ofString t).Has 0 t.toList := Text.has_start _
  rw [integer_pattern] at hm
  obtain ⟨_, ⟨taken, htaken, rfl⟩, rfl⟩ := hm
  obtain ⟨written, rest, -, hhas, hwritten, hend, hvalue⟩ :=
    matches_described ⟨_, htext⟩ htaken integer_described
  have hfirst : taken.start = 0 := by
    simp only [Parts.finish, Parts.startingAt, Parts.push, Matched.consumed, Option.isNone_none,
      Bool.true_and, decide_eq_true_eq] at hstart
    split at hstart
    · exact hstart
    · have hstop : taken.stop = 0 := hstart
      omega
  have hlast : taken.stop = (Text.ofString t).size := hstop
  rw [hfirst] at hhas hend
  have hsplit : t.toList = written ++ rest := htext.unique hhas
  have hsize := hhas.size
  rw [byteLength_append] at hsize
  have hrest : rest = [] := Classical.by_contradiction fun hne => by
    have hpos := byteLength_pos hne
    omega
  rw [hrest, List.append_nil] at hsplit
  refine ⟨hsplit ▸ hwritten, ?_⟩
  rw [← hsplit, String.ofList_toList] at hvalue
  simp only [Parts.finish, Parts.startingAt, Parts.push, hvalue, if_true]
  rfl

/-- Integer literals keep their number. What the rule for integers matches announces its radix or
is of decimal digits, and is yielded rewritten. Rewriting gives a literal that announces its radix
the decimal numeral of the same number, if that is below `2 ^ 128`; it leaves every other integer as
it is, and what has been rewritten as well. -/
theorem integers_keep_number (t : String) :
    (∀ skipped calls trivia m, Matches skipped (.ofString t) calls integer.pattern trivia 0 m →
      m.start = 0 → m.stop = (Text.ofString t).size →
      ((∃ radix digits, Announces radix digits t.toList) ∨ Unannounced t.toList) ∧
        m.value = .record (Fields.empty.insert "number" (.text (normalizeInteger t)))) ∧
    (∀ radix digits, Announces radix digits t.toList →
      (positional radix digits < 2 ^ 128 →
        Canonical (positional radix digits) (normalizeInteger t).toList) ∧
      (2 ^ 128 ≤ positional radix digits → normalizeInteger t = t)) ∧
    (Unannounced t.toList → normalizeInteger t = t) ∧
    normalizeInteger (normalizeInteger t) = normalizeInteger t := by
  refine ⟨fun skipped calls trivia m hm hstart hstop => ?_, fun radix digits h => ?_,
    normalizeInteger_unannounced, normalizeInteger_idem t⟩
  · obtain ⟨hlanguage, hvalue⟩ := integer_matches hm hstart hstop
    exact ⟨integer_forms hlanguage, hvalue⟩
  · have hbound : integerBound = 2 ^ 128 := rfl
    rw [normalizeInteger_announced h, hbound]
    refine ⟨fun hlt => ?_, fun hle => ?_⟩
    · rw [if_pos hlt]
      exact canonical_toString _
    · rw [if_neg (Nat.not_lt.2 hle)]

/-- A hexadecimal number, one that is too great, and a nine behind a zero. -/
theorem integers_keep_number_forms :
    (∃ m, Matches none (.ofString "0x1A") (fun _ _ _ _ => False) integer.pattern false 0 m ∧
      m.value = .record (Fields.empty.insert "number" (.text (normalizeInteger "0x1A"))) ∧
      Announces 16 ['1', 'A'] "0x1A".toList ∧ Canonical 26 (normalizeInteger "0x1A").toList) ∧
    normalizeInteger "0x100000000000000000000000000000000" =
      "0x100000000000000000000000000000000" ∧
    normalizeInteger "09" = "09" := by
  have hmatches : Matches none (.ofString "0x1A") (fun _ _ _ _ => False) integer.pattern false 0
      ⟨0, 4, .record (Fields.empty.insert "number" (.text "26"))⟩ := by
    rw [integer_pattern]
    refine ⟨_, ⟨⟨0, 4, .text "26"⟩, ⟨⟨integerTerminal, .ofRegex integerRegex⟩, 0, rfl,
      integer_described.2.2, .raw, ?_⟩, rfl⟩, rfl⟩
    have hfound : Lexeme.matchAt? ⟨integerTerminal, .ofRegex integerRegex⟩ "0x1A".toList 4 =
        some (4, "26") := by
      decide +kernel
    have hcs : (Text.ofString "0x1A").Has 0 "0x1A".toList := Text.has_start _
    rw [Lexeme.found, hcs.after?, hcs.left, Option.bind_some]
    exact congrArg (fun o => matchedAt 0 (Option.map (fun r : Nat × String => (r.1, Value.text r.2)) o)) hfound
  have hdigits : ∀ c ∈ ['0', '1', 'A'], digitOf c < 16 := by
    rw [List.forall_mem_cons, List.forall_mem_cons, List.forall_mem_singleton]
    decide
  have hsmall : Announces 16 ['1', 'A'] "0x1A".toList := by
    refine ⟨⟨['0', 'x'], by decide, rfl⟩, List.cons_ne_nil _ _, fun c hc => hdigits c ?_⟩
    exact List.mem_cons_of_mem _ hc
  have hgreat : Announces 16 ('1' :: List.replicate 32 '0')
      "0x100000000000000000000000000000000".toList := by
    refine ⟨⟨['0', 'x'], by decide, rfl⟩, List.cons_ne_nil _ _, fun c hc => hdigits c ?_⟩
    obtain rfl | hc := List.mem_cons.1 hc
    · decide
    · rw [List.eq_of_mem_replicate hc]
      decide
  have hplain : Unannounced ['0', '9'] := by
    refine ⟨⟨List.cons_ne_nil _ _, ?_⟩, fun _ => .inr ⟨'9', by decide, by decide⟩⟩
    rw [List.forall_mem_cons, List.forall_mem_singleton]
    decide
  have hvalue := ((integers_keep_number "0x1A").1 none _ false _ hmatches rfl rfl).2
  have hcanonical := ((integers_keep_number "0x1A").2.1 16 _ hsmall).1 (by decide +kernel)
  exact ⟨⟨_, hmatches, hvalue, hsmall, hcanonical⟩,
    ((integers_keep_number _).2.1 16 _ hgreat).2 (by decide +kernel),
    (integers_keep_number "09").2.2.1 hplain⟩

end Integers

end PhpSyntax.Php
