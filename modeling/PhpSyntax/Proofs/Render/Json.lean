import Mathlib.Data.List.DropRight
import Mathlib.Data.Option.Basic
import PhpSyntax.Render.Json
import PhpSyntax.Source.JsonScan

namespace PhpSyntax.Json

open JsonScan

section Reader

/-- Whether a number goes on, with digits or as one that is not natural. -/
def continuesNumber (c : Char) : Bool :=
  c.isDigit || c ∈ ['.', 'e', 'E']

def readNatural? (cs : List Char) : Option (Nat × List Char) :=
  match afterWhole? cs with
  | some rest =>
    if rest.head?.any continuesNumber then none
    else some (Nat.ofDigitChars 10 (cs.takeWhile Char.isDigit) 0, rest)
  | none => none

def readText? (cs : List Char) : Option (String × List Char) :=
  match string? cs with
  | some (units, rest) => (text? units).map fun cs => (String.ofList cs, rest)
  | none => none

/-- The key of a member, and what follows its colon. -/
def readKey? (cs : List Char) : Option (String × List Char) :=
  match skipBlanks cs with
  | '\x22' :: cs =>
    match readText? cs with
    | some (key, rest) => (afterColon? rest).map (key, ·)
    | none => none
  | _ => none

mutual

/-- The document at the start of a text, and what follows it. -/
def readValue? : Nat → List Char → Option (Document × List Char)
  | 0, _ => none
  | fuel + 1, cs =>
    match skipBlanks cs with
    | '[' :: cs =>
      match skipBlanks cs with
      | ']' :: cs => some (.list [], cs)
      | cs => (readItems? fuel cs).map fun (ds, rest) => (.list ds, rest)
    | '\x7b' :: cs =>
      match skipBlanks cs with
      | '\x7d' :: cs => some (.object [], cs)
      | cs => (readMembers? fuel cs).map fun (ms, rest) => (.object ms, rest)
    | '\x22' :: cs => (readText? cs).map fun (s, rest) => (.text s, rest)
    | 't' :: cs => (afterText? ['r', 'u', 'e'] cs).map (.bool true, ·)
    | 'f' :: cs => (afterText? ['a', 'l', 's', 'e'] cs).map (.bool false, ·)
    | 'n' :: cs => (afterText? ['u', 'l', 'l'] cs).map (.null, ·)
    | cs => (readNatural? cs).map fun (n, rest) => (.number n, rest)

/-- The items of an array up to its closing bracket. -/
def readItems? : Nat → List Char → Option (List Document × List Char)
  | 0, _ => none
  | fuel + 1, cs =>
    match readValue? fuel cs with
    | some (d, cs) =>
      match skipBlanks cs with
      | ',' :: cs => (readItems? fuel cs).map fun (ds, rest) => (d :: ds, rest)
      | ']' :: cs => some ([d], cs)
      | _ => none
    | none => none

/-- The members of an object up to its closing brace. -/
def readMembers? : Nat → List Char → Option (List (String × Document) × List Char)
  | 0, _ => none
  | fuel + 1, cs =>
    match readKey? cs with
    | some (key, cs) =>
      match readValue? fuel cs with
      | some (d, cs) =>
        match skipBlanks cs with
        | ',' :: cs => (readMembers? fuel cs).map fun (ms, rest) => ((key, d) :: ms, rest)
        | '\x7d' :: cs => some ([(key, d)], cs)
        | _ => none
      | none => none
    | none => none

end

def read? (s : String) : Option Document :=
  match readValue? (fuelFor s.toList) s.toList with
  | some (d, rest) => if (skipBlanks rest).isEmpty then some d else none
  | none => none

end Reader

section Layout

/-- Where blanks stand: in front of items and members and of the bracket behind them, by how deep
they are nested, and behind the colon of a member. -/
structure Layout where
  lead : Nat → List Char
  gap : List Char
  lead_blank : ∀ depth, ∀ c ∈ lead depth, isBlank c = true
  gap_blank : ∀ c ∈ gap, isBlank c = true

namespace Layout

def onOneLine : Layout where
  lead _ := []
  gap := []
  lead_blank := by simp
  gap_blank := by simp

def indented : Layout where
  lead depth := '\n' :: List.replicate (2 * depth) ' '
  gap := [' ']
  lead_blank depth c hc := by
    obtain rfl | ⟨-, rfl⟩ := by simpa using hc
    all_goals rfl
  gap_blank := by simp [isBlank]

variable (l : Layout)

mutual

/-- A document in a layout. -/
def value (depth : Nat) : Document → List Char
  | .null => ['n', 'u', 'l', 'l']
  | .bool true => ['t', 'r', 'u', 'e']
  | .bool false => ['f', 'a', 'l', 's', 'e']
  | .number n => Nat.toDigits 10 n
  | .text s => (quote s).toList
  | .list [] => ['[', ']']
  | .list (d :: ds) => '[' :: (items (depth + 1) (d :: ds) ++ (l.lead depth ++ [']']))
  | .object [] => ['\x7b', '\x7d']
  | .object (m :: ms) => '\x7b' :: (members (depth + 1) (m :: ms) ++ (l.lead depth ++ ['\x7d']))

def items (depth : Nat) : List Document → List Char
  | [] => []
  | [d] => l.lead depth ++ value depth d
  | d :: ds => l.lead depth ++ (value depth d ++ ',' :: items depth ds)

def members (depth : Nat) : List (String × Document) → List Char
  | [] => []
  | [(k, d)] => l.lead depth ++ ((quote k).toList ++ ':' :: (l.gap ++ value depth d))
  | (k, d) :: ms =>
    l.lead depth ++ ((quote k).toList ++ ':' :: (l.gap ++ (value depth d ++ ',' :: members depth ms)))

end

mutual

theorem compact_toList (depth : Nat) : (d : Document) →
    (compact d).toList = onOneLine.value depth d
  | .null | .bool true | .bool false | .text _ | .list [] | .object [] => rfl
  | .number _ => Nat.toList_repr
  | .list (d :: ds) => by
    simp only [compact, value, String.toList_append, compactItems_toList (depth + 1)]
    rfl
  | .object (m :: ms) => by
    simp only [compact, value, String.toList_append, compactMembers_toList (depth + 1)]
    rfl

theorem compactItems_toList (depth : Nat) : (ds : List Document) →
    (compactItems ds).toList = onOneLine.items depth ds
  | [] => rfl
  | [d] => compact_toList depth d
  | d :: d' :: ds => by
    simp only [compactItems, items, String.toList_append, compact_toList depth d,
      ← compactItems_toList depth (d' :: ds), List.append_assoc]
    rfl

theorem compactMembers_toList (depth : Nat) : (ms : List (String × Document)) →
    (compactMembers ms).toList = onOneLine.members depth ms
  | [] => rfl
  | [(k, d)] => by
    simp only [compactMembers, members, String.toList_append, compact_toList depth d,
      List.append_assoc]
    rfl
  | (k, d) :: m :: ms => by
    simp only [compactMembers, members, String.toList_append, compact_toList depth d,
      ← compactMembers_toList depth (m :: ms), List.append_assoc]
    rfl

end

theorem indented_lead (depth : Nat) (cs : List Char) :
    indented.lead depth ++ cs = '\n' :: ((indent depth).toList ++ cs) := by
  simp [indented, indent]

mutual

theorem pretty_toList (depth : Nat) : (d : Document) →
    (pretty depth d).toList = indented.value depth d
  | .null | .bool true | .bool false | .text _ | .list [] | .object [] => by
    rw [pretty, value] <;> rfl
  | .number _ => Nat.toList_repr
  | .list (d :: ds) => by
    simp only [pretty, value, String.toList_append, indented_lead, List.append_assoc,
      ← prettyItems_toList (depth + 1) (d :: ds) (List.cons_ne_nil _ _)]
    rfl
  | .object (m :: ms) => by
    simp only [pretty, value, String.toList_append, indented_lead, List.append_assoc,
      ← prettyMembers_toList (depth + 1) (m :: ms) (List.cons_ne_nil _ _)]
    rfl

theorem prettyItems_toList (depth : Nat) : (ds : List Document) → ds ≠ [] →
    '\n' :: (prettyItems depth ds).toList = indented.items depth ds
  | [], h => absurd rfl h
  | [d], _ => by
    simp only [prettyItems, items, String.toList_append, pretty_toList depth d, indented_lead]
  | d :: d' :: ds, _ => by
    simp only [prettyItems, items, String.toList_append, pretty_toList depth d, indented_lead,
      ← prettyItems_toList depth (d' :: ds) (List.cons_ne_nil _ _), List.append_assoc]
    rfl

theorem prettyMembers_toList (depth : Nat) : (ms : List (String × Document)) → ms ≠ [] →
    '\n' :: (prettyMembers depth ms).toList = indented.members depth ms
  | [], h => absurd rfl h
  | [(k, d)], _ => by
    simp only [prettyMembers, members, String.toList_append, pretty_toList depth d, indented_lead,
      List.append_assoc]
    rfl
  | (k, d) :: m :: ms, _ => by
    simp only [prettyMembers, members, String.toList_append, pretty_toList depth d, indented_lead,
      ← prettyMembers_toList depth (m :: ms) (List.cons_ne_nil _ _), List.append_assoc]
    rfl

end

end Layout

end Layout

section Strings

/-- What a character of a string is read as: control characters without an escape of their own are
written as code units. -/
def unitOf (c : Char) : Unit16 :=
  if c.toNat < 32 ∧ c ∉ ['\x08', '\x0c', '\n', '\r', '\t'] then .code c.toNat else .char c

theorem digitsValue?_hexDigit : ∀ n < 32,
    Literal.digitsValue? 16 ['0', '0', hexDigit (n / 16), hexDigit (n % 16)] = some n := by
  decide

theorem string?_escaped {c d : Char} (h : escaped? c = some d) (hc : c ≠ 'u') (cs : List Char) :
    string? ('\\' :: c :: cs) = (string? cs).map fun r => (.char d :: r.1, r.2) := by
  rw [string?]
  · simp only [h, Option.bind_eq_bind, Option.bind_some, Option.pure_def]
    cases string? cs <;> rfl
  · exact fun _ _ _ _ _ hu => (hc hu).elim

theorem string?_escapeChar (c : Char) (cs : List Char) :
    string? (escapeChar c ++ cs) = (string? cs).map fun r => (unitOf c :: r.1, r.2) := by
  unfold escapeChar
  split_ifs with hquote hbackslash hb hf hn hr ht hcontrol
  all_goals try subst c
  any_goals exact string?_escaped rfl (by decide) cs
  · have hunit : unitOf c = .code c.toNat := if_pos ⟨hcontrol, by simp [hb, hf, hn, hr, ht]⟩
    simp only [List.cons_append, List.nil_append, string?, digitsValue?_hexDigit _ hcontrol, hunit,
      Option.bind_eq_bind, Option.bind_some, Option.pure_def]
    cases string? cs <;> rfl
  · have hunit : unitOf c = .char c := if_neg fun h => hcontrol h.1
    have hle : 32 ≤ c.toNat := Nat.le_of_not_lt hcontrol
    rw [List.singleton_append, string?]
    · simp only [guard, hle, if_true, hunit, Option.bind_eq_bind, Option.pure_def, Option.bind_some]
      cases string? cs <;> rfl
    all_goals simp [hquote, hbackslash]

theorem string?_quoted (cs rest : List Char) :
    string? (cs.flatMap escapeChar ++ '\x22' :: rest) = some (cs.map unitOf, rest) := by
  induction cs with
  | nil => simp [string?]
  | cons c cs ih => rw [List.flatMap_cons, List.append_assoc, string?_escapeChar, ih]; rfl

theorem text?_code {n : Nat} (hn : n < 32) (units : List Unit16) :
    text? (.code n :: units) = (text? units).map (Char.ofNat n :: ·) := by
  have hhigh : isHighSurrogate n = false := by simp [isHighSurrogate]; omega
  have hlow : isLowSurrogate n = false := by simp [isLowSurrogate]; omega
  rcases units with _ | ⟨c | k, units⟩ <;> simp [text?, hhigh, hlow]

theorem text?_units (cs : List Char) : text? (cs.map unitOf) = some cs := by
  induction cs with
  | nil => rfl
  | cons c cs ih =>
    rw [List.map_cons, unitOf]
    split
    · rename_i hcode
      rw [text?_code hcode.1, ih, Option.map_some, Char.ofNat_toNat]
    · rw [text?, ih, Option.map_some]

theorem readText?_quote (s : String) (rest : List Char) :
    ∃ cs, (quote s).toList = '\x22' :: cs ∧ readText? (cs ++ rest) = some (s, rest) := by
  refine ⟨s.toList.flatMap escapeChar ++ ['\x22'], by simp [quote], ?_⟩
  rw [List.append_assoc, List.singleton_append, readText?, string?_quoted]
  simp only [text?_units, Option.map_some, String.ofList_toList]

end Strings

section Numbers

theorem toDigits_zero {n : Nat} (h : (Nat.toDigits 10 n).head? = some '0') : n = 0 := by
  induction n using Nat.strongRecOn with
  | ind n ih =>
    rw [Nat.toDigits_eq_if (by decide)] at h
    split at h
    · rename_i hlt
      have hall : ∀ n < 10, [Nat.digitChar n].head? = some '0' → n = 0 := by decide
      exact hall n hlt h
    · rename_i hge
      rw [List.head?_append_of_ne_nil _ Nat.toDigits_ne_nil] at h
      have hzero := ih (n / 10) (by omega) h
      omega

/-- A natural number is read back where nothing behind it continues it. -/
theorem readNatural?_toDigits (n : Nat) {rest : List Char}
    (hrest : rest.head?.any continuesNumber = false) :
    readNatural? (Nat.toDigits 10 n ++ rest) = some (n, rest) := by
  have hdigits : ∀ c ∈ Nat.toDigits 10 n, c.isDigit = true := fun c hc =>
    Nat.isDigit_of_mem_toDigits (by decide) (by decide) hc
  have hend : rest.head?.any Char.isDigit = false := by
    cases rest with
    | nil => rfl
    | cons c rest => simp_all [continuesNumber]
  have htake : (Nat.toDigits 10 n ++ rest).takeWhile Char.isDigit = Nat.toDigits 10 n := by
    rw [List.takeWhile_append_of_pos hdigits]
    cases rest <;> simp_all
  have hdrop : (Nat.toDigits 10 n ++ rest).dropWhile Char.isDigit = rest := by
    rw [List.dropWhile_append_of_pos hdigits]
    cases rest <;> simp_all
  have hwhole : afterWhole? (Nat.toDigits 10 n ++ rest) = some rest := by
    cases hn : Nat.toDigits 10 n with
    | nil => exact absurd hn Nat.toDigits_ne_nil
    | cons c cs =>
      rw [hn] at hdigits hdrop
      by_cases hc : c = '0'
      · subst c
        obtain rfl := toDigits_zero (show (Nat.toDigits 10 n).head? = some '0' by rw [hn]; rfl)
        obtain rfl : cs = [] := (List.cons.inj hn).2.symm
        simp [afterWhole?, hend]
      · rw [List.cons_append, afterWhole?]
        · have hdigit := hdigits c List.mem_cons_self
          rw [List.cons_append, List.dropWhile_cons_of_pos hdigit] at hdrop
          simp only [afterDigits?, hdigit, if_true, hdrop]
        · simpa using fun h => absurd h hc
  rw [readNatural?, hwhole]
  simp only [hrest, htake]
  simp [Nat.ofDigitChars_ten_toDigits]

end Numbers

section Blanks

variable {fuel : Nat} {cs rest : List Char}

theorem skipBlanks_append {blanks : List Char} (h : ∀ c ∈ blanks, isBlank c = true)
    (cs : List Char) : skipBlanks (blanks ++ cs) = skipBlanks cs :=
  List.dropWhile_append_of_pos h

theorem skipBlanks_skipBlanks (cs : List Char) : skipBlanks (skipBlanks cs) = skipBlanks cs :=
  List.dropWhile_idempotent _ _

theorem readItems?_skipBlanks (fuel : Nat) (cs : List Char) :
    readItems? fuel (skipBlanks cs) = readItems? fuel cs := by
  rcases fuel with _ | _ | fuel <;> simp only [readItems?, readValue?, skipBlanks_skipBlanks]

theorem readMembers?_skipBlanks (fuel : Nat) (cs : List Char) :
    readMembers? fuel (skipBlanks cs) = readMembers? fuel cs := by
  cases fuel <;> simp only [readMembers?, readKey?, skipBlanks_skipBlanks]

theorem readValue?_blanks {blanks : List Char} (h : ∀ c ∈ blanks, isBlank c = true) (fuel : Nat)
    (cs : List Char) : readValue? fuel (blanks ++ cs) = readValue? fuel cs := by
  cases fuel <;> simp only [readValue?, skipBlanks_append h]

theorem readKey?_blanks {blanks : List Char} (h : ∀ c ∈ blanks, isBlank c = true)
    (cs : List Char) : readKey? (blanks ++ cs) = readKey? cs := by
  simp only [readKey?, skipBlanks_append h]

/-- What a document may begin with: neither a blank nor a closing bracket. -/
def Opens (c : Char) : Prop :=
  isBlank c = false ∧ c ≠ ']' ∧ c ≠ '\x7d'

theorem opens_digit {c : Char} (h : c.isDigit = true) : Opens c := by
  refine ⟨?_, ?_, ?_⟩
  · by_contra hblank
    simp only [isBlank, Bool.not_eq_false, Bool.or_eq_true, decide_eq_true_eq] at hblank
    obtain ((rfl | rfl) | rfl) | rfl := hblank <;> exact absurd h (by decide)
  · rintro rfl
    exact absurd h (by decide)
  · rintro rfl
    exact absurd h (by decide)

theorem skipBlanks_opens {c : Char} (h : Opens c) (cs : List Char) :
    skipBlanks (c :: cs) = c :: cs :=
  List.dropWhile_cons_of_neg (by simp [h.1])

theorem readValue?_list {c : Char} (h : skipBlanks cs = c :: rest) (hc : Opens c)
    {ds : List Document} {tail : List Char} (hitems : readItems? fuel cs = some (ds, tail)) :
    readValue? (fuel + 1) ('[' :: cs) = some (.list ds, tail) := by
  rw [readValue?, skipBlanks_opens (by simp [Opens, isBlank])]
  have hread : readItems? fuel (c :: rest) = some (ds, tail) := by
    rw [← h, readItems?_skipBlanks, hitems]
  simp only [h]
  split
  · rename_i heq
    exact absurd (List.cons.inj heq).1 hc.2.1
  · rw [hread]
    rfl

theorem readValue?_object {c : Char} (h : skipBlanks cs = c :: rest) (hc : Opens c)
    {ms : List (String × Document)} {tail : List Char}
    (hmembers : readMembers? fuel cs = some (ms, tail)) :
    readValue? (fuel + 1) ('\x7b' :: cs) = some (.object ms, tail) := by
  rw [readValue?, skipBlanks_opens (by simp [Opens, isBlank])]
  have hread : readMembers? fuel (c :: rest) = some (ms, tail) := by
    rw [← h, readMembers?_skipBlanks, hmembers]
  simp only [h]
  split
  · rename_i heq
    exact absurd (List.cons.inj heq).1 hc.2.2
  · rw [hread]
    rfl

end Blanks

section Values

variable (l : Layout)

theorem value_opens (depth : Nat) (d : Document) :
    ∃ c cs, l.value depth d = c :: cs ∧ Opens c := by
  have hmark : ∀ c ∈ ['n', 't', 'f', '\x22', '[', '\x7b'], Opens c := by simp [Opens, isBlank]
  match d with
  | .null => exact ⟨_, _, rfl, hmark _ (by simp)⟩
  | .bool true => exact ⟨_, _, rfl, hmark _ (by simp)⟩
  | .bool false => exact ⟨_, _, rfl, hmark _ (by simp)⟩
  | .text s =>
    obtain ⟨cs, hcs, -⟩ := readText?_quote s []
    exact ⟨_, cs, hcs, hmark _ (by simp)⟩
  | .number n =>
    cases hn : Nat.toDigits 10 n with
    | nil => exact absurd hn Nat.toDigits_ne_nil
    | cons c cs =>
      refine ⟨c, cs, hn, opens_digit (Nat.isDigit_of_mem_toDigits (b := 10) (n := n) ?_ ?_ ?_)⟩
      · decide
      · decide
      · rw [hn]
        exact List.mem_cons_self
  | .list [] => exact ⟨_, _, rfl, hmark _ (by simp)⟩
  | .list (d :: ds) => exact ⟨_, _, rfl, hmark _ (by simp)⟩
  | .object [] => exact ⟨_, _, rfl, hmark _ (by simp)⟩
  | .object (m :: ms) => exact ⟨_, _, rfl, hmark _ (by simp)⟩

mutual

def weight : Document → Nat
  | .list ds => itemsWeight ds + 1
  | .object ms => membersWeight ms + 1
  | _ => 1

def itemsWeight : List Document → Nat
  | [] => 0
  | d :: ds => weight d + itemsWeight ds + 1

def membersWeight : List (String × Document) → Nat
  | [] => 0
  | (_, d) :: ms => weight d + membersWeight ms + 1

end

mutual

theorem weight_le (depth : Nat) : (d : Document) → weight d ≤ 2 * (l.value depth d).length
  | .null | .bool true | .bool false | .list [] | .object [] => by
    simp [weight, Layout.value, itemsWeight, membersWeight]
  | .number n => by
    have hpos := List.length_pos_iff.2 (Nat.toDigits_ne_nil (n := n) (b := 10))
    simp only [weight, Layout.value]
    omega
  | .text s => by
    obtain ⟨cs, hcs, -⟩ := readText?_quote s []
    simp only [weight, Layout.value, hcs, List.length_cons]
    omega
  | .list (d :: ds) => by
    have hitems := itemsWeight_le (depth + 1) (d :: ds)
    simp only [weight, Layout.value, List.length_cons, List.length_append]
    omega
  | .object (m :: ms) => by
    have hmembers := membersWeight_le (depth + 1) (m :: ms)
    simp only [weight, Layout.value, List.length_cons, List.length_append]
    omega

theorem itemsWeight_le (depth : Nat) : (ds : List Document) →
    itemsWeight ds ≤ 2 * (l.items depth ds).length + 1
  | [] => Nat.zero_le _
  | [d] => by
    have hd := weight_le depth d
    simp only [itemsWeight, Layout.items, List.length_append]
    omega
  | d :: d' :: ds => by
    have hd := weight_le depth d
    have hds := itemsWeight_le depth (d' :: ds)
    rw [itemsWeight, Layout.items]
    · simp only [List.length_append, List.length_cons]
      omega
    · exact List.cons_ne_nil _ _

theorem membersWeight_le (depth : Nat) : (ms : List (String × Document)) →
    membersWeight ms ≤ 2 * (l.members depth ms).length + 1
  | [] => Nat.zero_le _
  | [(k, d)] => by
    have hd := weight_le depth d
    simp only [membersWeight, Layout.members, List.length_append, List.length_cons]
    omega
  | (k, d) :: m :: ms => by
    have hd := weight_le depth d
    have hms := membersWeight_le depth (m :: ms)
    rw [membersWeight, Layout.members]
    · simp only [List.length_append, List.length_cons]
      omega
    · exact List.cons_ne_nil _ _

end

theorem readKey?_quote (k : String) (rest : List Char) :
    readKey? ((quote k).toList ++ ':' :: rest) = some (k, rest) := by
  obtain ⟨cs, hcs, hread⟩ := readText?_quote k (':' :: rest)
  have hquote : Opens '\x22' := by simp [Opens, isBlank]
  rw [hcs, List.cons_append, readKey?, skipBlanks_opens hquote]
  simp only [hread]
  rfl

theorem lead_continues (depth : Nat) {c : Char} (hc : continuesNumber c = false)
    (rest : List Char) : (l.lead depth ++ c :: rest).head?.any continuesNumber = false := by
  cases hlead : l.lead depth with
  | nil => simpa using hc
  | cons b bs =>
    have hb := l.lead_blank depth b (by rw [hlead]; exact List.mem_cons_self)
    simp only [isBlank, Bool.or_eq_true, decide_eq_true_eq] at hb
    obtain ((rfl | rfl) | rfl) | rfl := hb <;> rfl

theorem readValue?_digit {c : Char} (hc : c.isDigit = true) (fuel : Nat) (cs : List Char) :
    readValue? (fuel + 1) (c :: cs) =
      (readNatural? (c :: cs)).map fun (n, rest) => (.number n, rest) := by
  rw [readValue?, skipBlanks_opens (opens_digit hc)]
  split
  case h_7 => rfl
  all_goals
    rename_i heq
    obtain ⟨rfl, -⟩ := List.cons.inj heq
    exact absurd hc (by decide)

theorem skipBlanks_items (depth : Nat) (d : Document) (ds : List Document) (rest : List Char) :
    ∃ c cs, skipBlanks (l.items depth (d :: ds) ++ rest) = c :: cs ∧ Opens c := by
  obtain ⟨c, cs, hvalue, hc⟩ := value_opens l depth d
  cases ds with
  | nil =>
    refine ⟨c, cs ++ rest, ?_, hc⟩
    rw [Layout.items, List.append_assoc, skipBlanks_append (l.lead_blank depth), hvalue]
    exact skipBlanks_opens hc _
  | cons d' ds =>
    refine ⟨c, cs ++ ',' :: (l.items depth (d' :: ds) ++ rest), ?_, hc⟩
    rw [Layout.items, List.append_assoc, skipBlanks_append (l.lead_blank depth), hvalue]
    · simpa using skipBlanks_opens hc _
    · exact List.cons_ne_nil _ _

theorem skipBlanks_members (depth : Nat) (m : String × Document) (ms : List (String × Document))
    (rest : List Char) : ∃ cs, skipBlanks (l.members depth (m :: ms) ++ rest) = '\x22' :: cs := by
  obtain ⟨k, d⟩ := m
  obtain ⟨cs, hcs, -⟩ := readText?_quote k []
  cases ms with
  | nil =>
    rw [Layout.members, List.append_assoc, skipBlanks_append (l.lead_blank depth), hcs]
    exact ⟨_, rfl⟩
  | cons m' ms =>
    rw [Layout.members, List.append_assoc, skipBlanks_append (l.lead_blank depth), hcs]
    · exact ⟨_, rfl⟩
    · exact List.cons_ne_nil _ _

mutual

/-- A document is read back where nothing behind it continues a number. -/
theorem readValue?_value (depth : Nat) : (d : Document) → ∀ {fuel : Nat} {rest : List Char},
    weight d ≤ fuel → rest.head?.any continuesNumber = false →
    readValue? fuel (l.value depth d ++ rest) = some (d, rest)
  | .null, fuel + 1, rest, _, _ => by
    simp [Layout.value, readValue?, skipBlanks, isBlank, afterText?]
  | .bool true, fuel + 1, rest, _, _ => by
    simp [Layout.value, readValue?, skipBlanks, isBlank, afterText?]
  | .bool false, fuel + 1, rest, _, _ => by
    simp [Layout.value, readValue?, skipBlanks, isBlank, afterText?]
  | .number n, fuel + 1, rest, _, hrest => by
    have hread := readNatural?_toDigits n hrest
    cases hn : Nat.toDigits 10 n with
    | nil => exact absurd hn Nat.toDigits_ne_nil
    | cons c cs =>
      have hdigit : c.isDigit = true := by
        refine Nat.isDigit_of_mem_toDigits (b := 10) (n := n) (by decide) (by decide) ?_
        rw [hn]
        exact List.mem_cons_self
      rw [hn] at hread
      rw [Layout.value, hn, List.cons_append, readValue?_digit hdigit, ← List.cons_append, hread]
      rfl
  | .text s, fuel + 1, rest, _, _ => by
    obtain ⟨cs, hcs, hread⟩ := readText?_quote s rest
    have hquote : Opens '\x22' := by simp [Opens, isBlank]
    rw [Layout.value, hcs, List.cons_append, readValue?, skipBlanks_opens hquote]
    simp only [hread, Option.map_some]
  | .list [], fuel + 1, rest, _, _ => by
    simp [Layout.value, readValue?, skipBlanks, isBlank]
  | .list (d :: ds), fuel + 1, rest, hfuel, _ => by
    have hle : itemsWeight (d :: ds) ≤ fuel := Nat.le_of_succ_le_succ hfuel
    obtain ⟨c, cs, hskip, hc⟩ :=
      skipBlanks_items l (depth + 1) d ds (l.lead depth ++ ']' :: rest)
    have hitems : readItems? fuel (l.items (depth + 1) (d :: ds) ++ (l.lead depth ++ ']' :: rest)) =
        some (d :: ds, rest) := readItems?_items (depth + 1) (d :: ds) (List.cons_ne_nil _ _) hle
    have hread := readValue?_list hskip hc hitems
    simpa only [Layout.value, List.cons_append, List.append_assoc, List.nil_append] using hread
  | .object [], fuel + 1, rest, _, _ => by
    simp [Layout.value, readValue?, skipBlanks, isBlank]
  | .object (m :: ms), fuel + 1, rest, hfuel, _ => by
    have hle : membersWeight (m :: ms) ≤ fuel := Nat.le_of_succ_le_succ hfuel
    obtain ⟨cs, hskip⟩ := skipBlanks_members l (depth + 1) m ms (l.lead depth ++ '\x7d' :: rest)
    have hquote : Opens '\x22' := by simp [Opens, isBlank]
    have hmembers : readMembers? fuel (l.members (depth + 1) (m :: ms) ++
        (l.lead depth ++ '\x7d' :: rest)) = some (m :: ms, rest) :=
      readMembers?_members (depth + 1) (m :: ms) (List.cons_ne_nil _ _) hle
    have hread := readValue?_object hskip hquote hmembers
    simpa only [Layout.value, List.cons_append, List.append_assoc, List.nil_append] using hread

theorem readItems?_items (depth : Nat) : (ds : List Document) → ds ≠ [] →
    ∀ {fuel closing : Nat} {rest : List Char}, itemsWeight ds ≤ fuel →
    readItems? fuel (l.items depth ds ++ (l.lead closing ++ ']' :: rest)) = some (ds, rest)
  | [d], _, fuel + 1, closing, rest, hfuel => by
    have hle : weight d ≤ fuel := by simp only [itemsWeight] at hfuel; omega
    have hread := readValue?_value depth d hle (lead_continues l closing (c := ']') rfl rest)
    have hend : skipBlanks (l.lead closing ++ ']' :: rest) = ']' :: rest := by
      rw [skipBlanks_append (l.lead_blank closing)]
      rfl
    rw [Layout.items, List.append_assoc, readItems?, readValue?_blanks (l.lead_blank depth), hread]
    simp only [hend]
  | d :: d' :: ds, _, fuel + 1, closing, rest, hfuel => by
    have hle : weight d ≤ fuel ∧ itemsWeight (d' :: ds) ≤ fuel := by
      rw [itemsWeight] at hfuel
      omega
    obtain ⟨more, heq⟩ : ∃ more, more = l.items depth (d' :: ds) ++ (l.lead closing ++ ']' :: rest) :=
      ⟨_, rfl⟩
    have hread : readValue? fuel (l.value depth d ++ ',' :: more) = some (d, ',' :: more) :=
      readValue?_value depth d hle.1 rfl
    have hmore : readItems? fuel more = some (d' :: ds, rest) :=
      heq ▸ readItems?_items depth (d' :: ds) (List.cons_ne_nil _ _) hle.2
    rw [Layout.items, List.append_assoc, List.append_assoc, List.cons_append, ← heq, readItems?,
      readValue?_blanks (l.lead_blank depth), hread]
    · simp only [show ∀ cs, skipBlanks (',' :: cs) = ',' :: cs from fun _ => rfl, hmore,
        Option.map_some]
    · exact List.cons_ne_nil _ _

theorem readMembers?_members (depth : Nat) : (ms : List (String × Document)) → ms ≠ [] →
    ∀ {fuel closing : Nat} {rest : List Char}, membersWeight ms ≤ fuel →
    readMembers? fuel (l.members depth ms ++ (l.lead closing ++ '\x7d' :: rest)) = some (ms, rest)
  | [(k, d)], _, fuel + 1, closing, rest, hfuel => by
    have hle : weight d ≤ fuel := by simp only [membersWeight] at hfuel; omega
    have hread := readValue?_value depth d hle (lead_continues l closing (c := '\x7d') rfl rest)
    have hend : skipBlanks (l.lead closing ++ '\x7d' :: rest) = '\x7d' :: rest := by
      rw [skipBlanks_append (l.lead_blank closing)]
      rfl
    rw [Layout.members, List.append_assoc, List.append_assoc, List.cons_append, List.append_assoc,
      readMembers?, readKey?_blanks (l.lead_blank depth), readKey?_quote]
    simp only [readValue?_blanks l.gap_blank, hread, hend]
  | (k, d) :: m :: ms, _, fuel + 1, closing, rest, hfuel => by
    have hle : weight d ≤ fuel ∧ membersWeight (m :: ms) ≤ fuel := by
      rw [membersWeight] at hfuel
      omega
    obtain ⟨more, heq⟩ : ∃ more, more = l.members depth (m :: ms) ++ (l.lead closing ++ '\x7d' :: rest) :=
      ⟨_, rfl⟩
    have hread : readValue? fuel (l.value depth d ++ ',' :: more) = some (d, ',' :: more) :=
      readValue?_value depth d hle.1 rfl
    have hmore : readMembers? fuel more = some (m :: ms, rest) :=
      heq ▸ readMembers?_members depth (m :: ms) (List.cons_ne_nil _ _) hle.2
    rw [Layout.members, List.append_assoc, List.append_assoc, List.cons_append, List.append_assoc,
      List.append_assoc, List.cons_append, ← heq, readMembers?, readKey?_blanks (l.lead_blank depth),
      readKey?_quote]
    · simp only [readValue?_blanks l.gap_blank, hread,
        show ∀ cs, skipBlanks (',' :: cs) = ',' :: cs from fun _ => rfl, hmore, Option.map_some]
    · exact List.cons_ne_nil _ _

end

theorem read?_of_toList {s : String} {depth : Nat} {d : Document}
    (h : s.toList = l.value depth d) : read? s = some d := by
  have hfuel : weight d ≤ fuelFor s.toList := by
    have hle := weight_le l depth d
    rw [← h] at hle
    exact hle.trans (Nat.le_add_right _ _)
  have hread : readValue? (fuelFor s.toList) (l.value depth d ++ []) = some (d, []) :=
    readValue?_value l depth d hfuel rfl
  rw [List.append_nil, ← h] at hread
  rw [read?, hread]
  rfl

end Values

theorem read?_compact (d : Document) : read? (compact d) = some d :=
  read?_of_toList .onOneLine (Layout.compact_toList 0 d)

theorem read?_pretty (depth : Nat) (d : Document) : read? (pretty depth d) = some d :=
  read?_of_toList .indented (Layout.pretty_toList depth d)

end PhpSyntax.Json
