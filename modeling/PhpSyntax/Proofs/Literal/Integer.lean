import Mathlib.Data.Nat.Digits.Defs
import Mathlib.Tactic.Ring
import PhpSyntax.Literal.Integer

namespace PhpSyntax.Literal

section Digits

/-- The digits of all radices up to sixteen, each at the place of its value. -/
def digitSymbols : List Char :=
  "0123456789abcdef".toList

/-- The value of a digit, whose letters count in either case; sixteen if it is none. -/
def digitOf (c : Char) : Nat :=
  digitSymbols.idxOf c.toLower

/-- The number that digits stand for, the most significant first. -/
def positional (radix : Nat) (digits : List Char) : Nat :=
  Nat.ofDigits radix (digits.map digitOf).reverse

/-- At least one digit, and nothing but digits of a radix. -/
structure Digits (radix : Nat) (cs : List Char) : Prop where
  nonempty : cs ≠ []
  below : ∀ c ∈ cs, digitOf c < radix

/-- What holds of the characters of ASCII, which can be tried one by one. -/
theorem of_ascii {P : Char → Prop} (h : ∀ n < 128, P (Char.ofNat n)) {c : Char}
    (hc : c.toNat < 128) : P c := by
  rw [← Char.ofNat_toNat c]
  exact h c.toNat hc

theorem beyond_ascii {c : Char} (hc : ¬c.toNat < 128) :
    c.isDigit = false ∧ ¬('a' ≤ c ∧ c ≤ 'z') ∧ ¬('A' ≤ c ∧ c ≤ 'Z') := by
  have hbeyond : ∀ d : Char, d.toNat < 128 → ¬c ≤ d := by
    intro d hd hle
    rw [Char.le_def, UInt32.le_iff_toNat_le] at hle
    simp only [Char.toNat] at hc hd
    omega
  have h9 := hbeyond '9' (by decide)
  refine ⟨?_, fun h => hbeyond 'z' (by decide) h.2, fun h => hbeyond 'Z' (by decide) h.2⟩
  rw [Char.isDigit, decide_eq_false (show ¬c.val ≤ '9'.val from h9), Bool.and_false]

theorem digitOf_beyond {c : Char} (hc : ¬c.toNat < 128) : digitOf c = 16 := by
  have hsymbols : digitSymbols.all (·.toNat < 128) = true := by decide
  have hlower : c.toLower = c := dif_neg (beyond_ascii hc).2.2
  rw [digitOf, hlower]
  exact List.idxOf_eq_length fun hmem => hc (by simpa using List.all_eq_true.1 hsymbols c hmem)

theorem digitValue?_ascii : ∀ n < 128, ∀ radix ≤ 16, digitValue? radix (Char.ofNat n) =
    if digitOf (Char.ofNat n) < radix then some (digitOf (Char.ofNat n)) else none := by
  decide +kernel

theorem digitValue?_eq {radix : Nat} (hradix : radix ≤ 16) (c : Char) :
    digitValue? radix c = if digitOf c < radix then some (digitOf c) else none := by
  by_cases hc : c.toNat < 128
  · exact of_ascii (P := fun c => ∀ radix ≤ 16, digitValue? radix c =
      if digitOf c < radix then some (digitOf c) else none) digitValue?_ascii hc radix hradix
  · obtain ⟨hdigit, hlower, hupper⟩ := beyond_ascii hc
    have hnone : ¬16 < radix := by omega
    simp only [digitValue?, hdigit, hlower, hupper, digitOf_beyond hc, hnone, Bool.false_eq_true,
      if_false, Nat.lt_irrefl]

@[simp] theorem positional_nil (radix : Nat) : positional radix [] = 0 :=
  rfl

theorem positional_cons (radix : Nat) (c : Char) (cs : List Char) :
    positional radix (c :: cs) = digitOf c * radix ^ cs.length + positional radix cs := by
  rw [positional, List.map_cons, List.reverse_cons, Nat.ofDigits_append, Nat.ofDigits_singleton,
    List.length_reverse, List.length_map, Nat.mul_comm, Nat.add_comm]
  rfl

theorem positional_concat (radix : Nat) (cs : List Char) (c : Char) :
    positional radix (cs ++ [c]) = positional radix cs * radix + digitOf c := by
  rw [positional, List.map_append, List.reverse_append, List.map_singleton, List.reverse_singleton,
    List.singleton_append, Nat.ofDigits_cons, Nat.mul_comm, Nat.add_comm]
  rfl

/-- Reading digits on from a number moves it past them. -/
theorem digitsFrom_eq {radix : Nat} (hradix : radix ≤ 16) (cs : List Char) (n : Nat) :
    cs.foldlM (fun n c => (digitValue? radix c).map (n * radix + ·)) n =
      if cs.all (digitOf · < radix) then some (n * radix ^ cs.length + positional radix cs)
      else none := by
  induction cs generalizing n with
  | nil => simp
  | cons c cs ih =>
    rw [List.foldlM_cons, digitValue?_eq hradix]
    by_cases hc : digitOf c < radix
    · have hsum : (n * radix + digitOf c) * radix ^ cs.length + positional radix cs =
          n * radix ^ (c :: cs).length + positional radix (c :: cs) := by
        rw [positional_cons, List.length_cons, pow_succ']
        ring
      simp only [hc, if_true, Option.map_some, Option.bind_eq_bind, Option.bind_some, ih, hsum,
        List.all_cons, decide_true, Bool.true_and]
    · simp [hc]

/-- The number of a numeral without a sign. -/
theorem numeralValue?_eq {radix : Nat} (hradix : radix ≤ 16) {cs : List Char} (hne : cs ≠ [])
    (hsign : cs.head? ≠ some '+') :
    numeralValue? radix cs =
      if cs.all (digitOf · < radix) && positional radix cs < integerBound then
        some (positional radix cs)
      else none := by
  have hdigits := digitsFrom_eq hradix cs 0
  rw [Nat.zero_mul, Nat.zero_add] at hdigits
  obtain ⟨c, cs, rfl⟩ := List.exists_cons_of_ne_nil hne
  have hsign : c ≠ '+' := by simpa using hsign
  unfold numeralValue?
  split
  · rename_i heq
    exact absurd (List.cons.inj heq).1 hsign
  · simp only [digitsValue?, hdigits]
    cases (c :: cs).all (digitOf · < radix) with
    | false => simp [guard]
    | true =>
      by_cases hlt : positional radix (c :: cs) < integerBound <;> simp [guard, hlt]

end Digits

section Decimal

/-- The one numeral of a number in decimal: its digits, and no zero in front of others. -/
structure Canonical (n : Nat) (cs : List Char) : Prop where
  digits : Digits 10 cs
  value : positional 10 cs = n
  leading : cs.head? = some '0' → cs = ['0']

theorem digitOf_digitChar : ∀ d < 10, digitOf (Nat.digitChar d) = d := by decide

theorem canonical_toDigits (n : Nat) : Canonical n (Nat.toDigits 10 n) := by
  induction n using Nat.strongRecOn with
  | ind n ih =>
    rw [Nat.toDigits_eq_if (by decide)]
    by_cases hn : n < 10
    · have hdigit := digitOf_digitChar n hn
      rw [if_pos hn]
      refine ⟨⟨List.cons_ne_nil _ _, ?_⟩, ?_, ?_⟩
      · simp [hdigit, hn]
      · rw [positional_cons, hdigit]
        simp
      · simp
    · have hlast : n % 10 < 10 := Nat.mod_lt n (by decide)
      have hdigit := digitOf_digitChar (n % 10) hlast
      obtain ⟨⟨hne, hbelow⟩, hvalue, hleading⟩ := ih (n / 10) (by omega)
      rw [if_neg hn]
      refine ⟨⟨by simp, ?_⟩, ?_, fun hzero => ?_⟩
      · intro c hc
        obtain hc | hc := List.mem_append.1 hc
        · exact hbelow c hc
        · rw [List.mem_singleton.1 hc, hdigit]
          exact hlast
      · rw [positional_concat, hvalue, hdigit]
        omega
      · rw [List.head?_append, List.head?_eq_some_head hne, Option.some_or,
          ← List.head?_eq_some_head hne] at hzero
        have hpositional := hvalue
        rw [hleading hzero] at hpositional
        have hzero : n / 10 = 0 := hpositional.symm
        omega

theorem canonical_toString (n : Nat) : Canonical n (toString n).toList := by
  rw [Nat.toString_eq_ofList_toDigits, String.toList_ofList]
  exact canonical_toDigits n

end Decimal

section Normalize

/-- The marks that announce the radix of the digits behind them. -/
def marks : Nat → List (List Char)
  | 16 => [['0', 'x'], ['0', 'X']]
  | 2 => [['0', 'b'], ['0', 'B']]
  | 8 => [['0']]
  | _ => []

/-- A literal that announces its radix, with the digits behind the mark. -/
structure Announces (radix : Nat) (digits cs : List Char) : Prop where
  mark : ∃ mark ∈ marks radix, cs = mark ++ digits
  digits : Digits radix digits

/-- Decimal digits that are no octal literal: no zero stands in front of others, or one of the
others is an eight or a nine. -/
structure Unannounced (cs : List Char) : Prop where
  digits : Digits 10 cs
  leading : cs.head? = some '0' → cs = ['0'] ∨ ∃ c ∈ cs, 8 ≤ digitOf c

variable {t : String}

theorem radixOf?_eq_none {cs : List Char} (h : cs.head? = some '0' → cs = ['0']) :
    radixOf? cs = none := by
  unfold radixOf?
  split <;> simp_all

theorem radixOf?_octal {c : Char} (hc : digitOf c < 10) (cs : List Char) :
    radixOf? ('0' :: c :: cs) = some (8, c :: cs) := by
  have hmarks : ['x', 'X', 'b', 'B'].all (10 ≤ digitOf ·) = true := by decide
  have hmark : ∀ d ∈ ['x', 'X', 'b', 'B'], c ≠ d := by
    rintro d hd rfl
    have hle : 10 ≤ digitOf c := by simpa using List.all_eq_true.1 hmarks c hd
    omega
  unfold radixOf?
  split <;> simp_all

theorem Announces.radixOf? {radix : Nat} {digits cs : List Char} (h : Announces radix digits cs) :
    radixOf? cs = some (radix, digits) ∧ radix ≤ 16 := by
  obtain ⟨⟨mark, hmark, rfl⟩, hne, hbelow⟩ := h
  unfold marks at hmark
  split at hmark
  · simp only [List.mem_cons, List.not_mem_nil, or_false] at hmark
    obtain rfl | rfl := hmark <;> exact ⟨rfl, by decide⟩
  · simp only [List.mem_cons, List.not_mem_nil, or_false] at hmark
    obtain rfl | rfl := hmark <;> exact ⟨rfl, by decide⟩
  · obtain ⟨c, digits, rfl⟩ := List.exists_cons_of_ne_nil hne
    have hc := hbelow c List.mem_cons_self
    rw [List.mem_singleton.1 hmark]
    exact ⟨radixOf?_octal (by omega) digits, by decide⟩
  · cases hmark

theorem Digits.unsigned {radix : Nat} {cs : List Char} (h : Digits radix cs) (hradix : radix ≤ 16) :
    cs.head? ≠ some '+' := by
  intro hhead
  have hlt := h.below '+' (List.mem_of_head? hhead)
  have hplus : digitOf '+' = 16 := by decide
  omega

/-- A literal that announces its radix becomes the decimal numeral of its number, unless that is
too great. -/
theorem normalizeInteger_announced {radix : Nat} {digits : List Char}
    (h : Announces radix digits t.toList) :
    normalizeInteger t =
      if positional radix digits < integerBound then toString (positional radix digits) else t := by
  obtain ⟨hradix, hle⟩ := h.radixOf?
  simp only [normalizeInteger, hradix]
  rw [numeralValue?_eq hle h.digits.nonempty (h.digits.unsigned hle)]
  have hall : digits.all (digitOf · < radix) = true := by simpa using h.digits.below
  by_cases hlt : positional radix digits < integerBound <;> simp [hall, hlt]

/-- Digits in which no radix is announced stay as they are. -/
theorem normalizeInteger_unannounced (h : Unannounced t.toList) : normalizeInteger t = t := by
  obtain ⟨⟨hne, hbelow⟩, hleading⟩ := h
  by_cases hplain : t.toList.head? = some '0' → t.toList = ['0']
  · rw [normalizeInteger, radixOf?_eq_none hplain]
  · obtain ⟨hhead, hmore⟩ := Classical.not_imp.1 hplain
    obtain ⟨c, hc, h8⟩ := (hleading hhead).resolve_left hmore
    obtain ⟨digits, ht⟩ := List.head?_eq_some_iff.1 hhead
    rw [ht] at hmore hbelow hc
    have hdigits : digits ≠ [] := fun hnil => hmore (by rw [hnil])
    obtain ⟨d, digits, rfl⟩ := List.exists_cons_of_ne_nil hdigits
    have hd : digitOf d < 10 := hbelow d (by simp)
    have hzero : digitOf '0' = 0 := by decide
    have hc : c ∈ d :: digits := by
      obtain rfl | hc := List.mem_cons.1 hc
      · omega
      · exact hc
    have hsign := (Digits.mk (List.cons_ne_nil d digits) fun c hc =>
      hbelow c (List.mem_cons_of_mem _ hc)).unsigned (by decide)
    have hall : (d :: digits).all (digitOf · < 8) = false :=
      List.all_eq_false.2 ⟨c, hc, by simpa using h8⟩
    simp only [normalizeInteger, ht, radixOf?_octal hd]
    rw [numeralValue?_eq (by decide) (List.cons_ne_nil d digits) hsign, hall]
    rfl

theorem normalizeInteger_toString (n : Nat) : normalizeInteger (toString n) = toString n := by
  rw [normalizeInteger, radixOf?_eq_none (canonical_toString n).leading]

theorem normalizeInteger_idem (t : String) :
    normalizeInteger (normalizeInteger t) = normalizeInteger t := by
  have hcases : normalizeInteger t = t ∨ ∃ n : Nat, normalizeInteger t = toString n := by
    unfold normalizeInteger
    split
    · exact .inl rfl
    · split
      · exact .inr ⟨_, rfl⟩
      · exact .inl rfl
  obtain h | ⟨n, h⟩ := hcases
  · rw [h, h]
  · rw [h, normalizeInteger_toString]

end Normalize

end PhpSyntax.Literal
