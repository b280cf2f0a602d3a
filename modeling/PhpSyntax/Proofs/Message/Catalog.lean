import Mathlib.Data.List.TakeWhile
import PhpSyntax.Message.Catalog

namespace PhpSyntax.Message

section Fill

/-- A part of a template as it is read from left to right. -/
inductive Piece where
  | char (c : Char)
  | hole (name : List Char)

def Piece.written : Piece → List Char
  | .char c => [c]
  | .hole name => '$' :: '\x7b' :: name ++ ['\x7d']

/-- What a part is replaced by. A value is taken as it is, whatever it looks like. -/
def Piece.filled (values : Placeholders) : Piece → List Char
  | .char c => [c]
  | .hole name =>
    match values.lookup (String.ofList name) with
    | some value => value.toList
    | none => Piece.written (.hole name)

/-- A placeholder: a dollar sign with a name of word characters in braces behind it. -/
def Piece.IsHole : Piece → Prop
  | .char _ => False
  | .hole name => name ≠ [] ∧ ∀ c ∈ name, Unicode.isWord c = true

/-- A template is cut from left to right: where a placeholder begins it is taken as a whole,
elsewhere one character is. -/
inductive Cut : List Char → List Piece → Prop where
  | nil : Cut [] []
  | hole {p : Piece} {rest : List Char} {pieces : List Piece} : p.IsHole → Cut rest pieces →
    Cut (p.written ++ rest) (p :: pieces)
  | char {c : Char} {rest : List Char} {pieces : List Piece} :
    (∀ p : Piece, p.IsHole → ¬p.written <+: c :: rest) → Cut rest pieces →
    Cut (c :: rest) (.char c :: pieces)

theorem placeholderAt?_eq_some {cs name : List Char} :
    placeholderAt? cs = some name ↔
      (Piece.hole name).IsHole ∧ (Piece.hole name).written <+: '$' :: cs := by
  have hbrace : Unicode.isWord '\x7d' = false := by decide +kernel
  constructor
  · intro h
    unfold placeholderAt? at h
    split at h
    · rename_i cs
      have hword : ∀ c ∈ cs.takeWhile Unicode.isWord, Unicode.isWord c = true :=
        fun c hc => List.mem_takeWhile_imp hc
      have hsplit : cs.takeWhile Unicode.isWord ++ cs.dropWhile Unicode.isWord = cs :=
        List.takeWhile_append_dropWhile
      generalize cs.takeWhile Unicode.isWord = front at h hword hsplit
      generalize cs.dropWhile Unicode.isWord = back at hsplit
      subst hsplit
      simp only [Option.ite_none_right_eq_some, Bool.and_eq_true, Bool.not_eq_true',
        List.isEmpty_eq_false_iff, beq_iff_eq, Option.some.injEq] at h
      obtain ⟨⟨hne, hclosed⟩, rfl⟩ := h
      rw [List.getElem?_append_right (Nat.le_refl _), Nat.sub_self] at hclosed
      cases back with
      | nil => simp at hclosed
      | cons d rest =>
        obtain rfl : d = '\x7d' := by simpa using hclosed
        exact ⟨⟨hne, hword⟩, rest, by simp [Piece.written]⟩
    · cases h
  · rintro ⟨⟨hne, hword⟩, rest, hrest⟩
    obtain rfl : cs = '\x7b' :: (name ++ '\x7d' :: rest) := by
      simpa [Piece.written] using hrest.symm
    have hname : (name ++ '\x7d' :: rest).takeWhile Unicode.isWord = name := by
      rw [List.takeWhile_append_of_pos hword, List.takeWhile_cons_of_neg (by simp [hbrace]),
        List.append_nil]
    simp [placeholderAt?, hname, hne]

theorem fillFrom_skip (values : Placeholders) (front rest : List Char) :
    fillFrom values front.length (front ++ rest) = fillFrom values 0 rest := by
  induction front with
  | nil => rfl
  | cons c front ih => exact ih

/-- Filling replaces the parts of a template one by one. -/
theorem fillFrom_cut (values : Placeholders) {cs : List Char} {pieces : List Piece}
    (h : Cut cs pieces) : fillFrom values 0 cs = pieces.flatMap (·.filled values) := by
  induction h with
  | nil => rfl
  | @hole p rest pieces hp _ ih =>
    cases p with
    | char c => exact hp.elim
    | hole name =>
      have hat : placeholderAt? ('\x7b' :: (name ++ '\x7d' :: rest)) = some name :=
        placeholderAt?_eq_some.2 ⟨hp, rest, by simp [Piece.written]⟩
      have hskip := fillFrom_skip values ('\x7b' :: (name ++ ['\x7d'])) rest
      have hlength : ('\x7b' :: (name ++ ['\x7d'])).length = name.length + 2 := by simp
      have htake : (('\x7b' :: (name ++ ['\x7d'])) ++ rest).take (name.length + 2) =
          '\x7b' :: (name ++ ['\x7d']) := List.take_left' hlength
      rw [hlength] at hskip
      have hsplit : ('\x7b' :: (name ++ ['\x7d'])) ++ rest = '\x7b' :: (name ++ '\x7d' :: rest) := by
        simp
      rw [hsplit] at hskip htake
      have hfill : fillFrom values 0 ('$' :: '\x7b' :: (name ++ '\x7d' :: rest)) =
          (Piece.hole name).filled values ++ fillFrom values 0 rest := by
        rw [fillFrom, if_pos rfl, hat]
        simp only [hskip, htake, Piece.filled]
        rfl
      simpa [Piece.written, ih] using hfill
  | @char c rest pieces hnone _ ih =>
    have hat : c = '$' → placeholderAt? rest = none := by
      rintro rfl
      cases hname : placeholderAt? rest with
      | none => rfl
      | some name =>
        obtain ⟨hhole, hbegins⟩ := placeholderAt?_eq_some.1 hname
        exact absurd hbegins (hnone _ hhole)
    by_cases hdollar : c = '$'
    · simp [fillFrom, hdollar, hat hdollar, ih, Piece.filled]
    · simp [fillFrom, hdollar, ih, Piece.filled]

example : fill [("a", "$\x7bb\x7d"), ("b", "c")] "$$\x7ba\x7d $\x7bd\x7d" =
    "$$\x7bb\x7d $\x7bd\x7d" := by
  decide +kernel

/-- Every template can be cut. -/
theorem exists_cut (cs : List Char) : ∃ pieces, Cut cs pieces := by
  induction hn : cs.length using Nat.strong_induction_on generalizing cs with
  | _ n ih =>
    cases cs with
    | nil => exact ⟨[], .nil⟩
    | cons c rest =>
      by_cases hhole : ∃ p : Piece, p.IsHole ∧ p.written <+: c :: rest
      · obtain ⟨p, hp, behind, hsplit⟩ := hhole
        have hpos : 0 < p.written.length := by cases p <;> simp [Piece.written]
        have hlength : behind.length < n := by
          rw [← hn, ← hsplit, List.length_append]
          omega
        obtain ⟨pieces, hpieces⟩ := ih _ hlength behind rfl
        exact ⟨p :: pieces, hsplit ▸ .hole hp hpieces⟩
      · have hlength : rest.length < n := by
          rw [← hn, List.length_cons]
          omega
        obtain ⟨pieces, hpieces⟩ := ih _ hlength rest rfl
        exact ⟨.char c :: pieces, .char (fun p hp hbegins => hhole ⟨p, hp, hbegins⟩) hpieces⟩

end Fill

/-- A change of a catalog. -/
inductive Change where
  | add (locale key template : String)
  | addAll (locale : String) (templates : List (String × String))
  | setLocale (locale : String)

namespace Change

def apply (c : Catalog) : Change → Catalog
  | .add locale key template => c.add locale key template
  | .addAll locale templates => c.addAll locale templates
  | .setLocale locale => c.setLocale locale

/-- The templates that a change adds, in their order. -/
def entries : Change → List Entry
  | .add locale key template => [⟨locale, key, template⟩]
  | .addAll locale templates => templates.map fun (key, template) => ⟨locale, key, template⟩
  | .setLocale _ => []

def locale? : Change → Option String
  | .setLocale locale => some locale
  | _ => none

end Change

/-- The catalog behind some changes of the standard one. -/
def Catalog.after (changes : List Change) : Catalog :=
  changes.foldl Change.apply .standard

/-- All templates that were added, the first one first; the built-in ones count as added first. -/
def added (changes : List Change) : List Entry :=
  Catalog.standard.entries.reverse ++ changes.flatMap Change.entries

def localeAfter (changes : List Change) : String :=
  (changes.filterMap Change.locale?).getLast?.getD defaultLocale

/-- The template that was added last for a key in a locale. -/
def lastFor (entries : List Entry) (locale key : String) : Option String :=
  (entries.filter fun e => e.locale = locale ∧ e.key = key).getLast?.map (·.template)

/-- A catalog knows the templates that were added, and the locale in use. -/
structure Catalog.Knows (c : Catalog) (entries : List Entry) (locale : String) : Prop where
  locale : c.locale = locale
  entries : c.entries = entries.reverse

theorem Catalog.Knows.templateIn? {c : Catalog} {entries : List Entry} {current : String}
    (h : c.Knows entries current) (locale key : String) :
    c.templateIn? locale key = lastFor entries locale key := by
  simp only [Catalog.templateIn?, lastFor, h.entries, List.getLast?_filter]
  congr 2
  funext e
  rw [Bool.eq_iff_iff]
  simp

theorem Catalog.Knows.addAll {c : Catalog} {entries : List Entry} {current : String}
    (h : c.Knows entries current) (locale : String) (templates : List (String × String)) :
    (c.addAll locale templates).Knows
      (entries ++ templates.map fun (key, template) => ⟨locale, key, template⟩) current := by
  induction templates generalizing c entries with
  | nil => simpa [Catalog.addAll] using h
  | cons t templates ih =>
    obtain ⟨key, template⟩ := t
    have hadd : (c.add locale key template).Knows (entries ++ [⟨locale, key, template⟩]) current :=
      ⟨h.locale, by simp [Catalog.add, h.entries]⟩
    simpa [Catalog.addAll] using ih hadd

theorem Catalog.Knows.apply {c : Catalog} {entries : List Entry} {locale : String}
    (h : c.Knows entries locale) (change : Change) :
    (change.apply c).Knows (entries ++ change.entries) (change.locale?.getD locale) := by
  cases change with
  | add l key template =>
    exact ⟨h.locale, by simp [Change.apply, Change.entries, Catalog.add, h.entries]⟩
  | addAll l templates => exact h.addAll l templates
  | setLocale l => exact ⟨rfl, by simp [Change.apply, Change.entries, Catalog.setLocale, h.entries]⟩

/-- What a catalog knows behind any changes. -/
theorem Catalog.knows_after (changes : List Change) :
    (Catalog.after changes).Knows (added changes) (localeAfter changes) := by
  have hrun : ∀ {c : Catalog} {entries : List Entry} {locale : String}, c.Knows entries locale →
      (changes.foldl Change.apply c).Knows (entries ++ changes.flatMap Change.entries)
        ((changes.filterMap Change.locale?).getLast?.getD locale) := by
    induction changes with
    | nil =>
      intro c entries locale h
      simpa using h
    | cons change changes ih =>
      intro c entries locale h
      have hchange := ih (h.apply change)
      rw [List.append_assoc] at hchange
      rw [List.foldl_cons, List.flatMap_cons]
      cases hlocale : change.locale? with
      | none => simpa [hlocale] using hchange
      | some l => simpa [hlocale, List.getLast?_cons] using hchange
  exact hrun ⟨rfl, by simp⟩

/-- A message is looked up as in the list of all templates that were ever added: the last one for
the locale in use counts, or else the last one for the default locale, and a key without any is its
own message. The template is filled in one pass: its placeholders are replaced by their values, which
are not searched again, and stay as they are where they have none. -/
theorem Catalog.message_after (changes : List Change) (key : String) (values : Placeholders) :
    match (lastFor (added changes) (localeAfter changes) key).or
      (lastFor (added changes) defaultLocale key) with
    | some template => (∃ pieces, Cut template.toList pieces) ∧
      ∀ pieces, Cut template.toList pieces →
        ((Catalog.after changes).message key values).toList = pieces.flatMap (·.filled values)
    | none => (Catalog.after changes).message key values = key := by
  have hknows := Catalog.knows_after changes
  have htemplate : (Catalog.after changes).template? key =
      (lastFor (added changes) (localeAfter changes) key).or
        (lastFor (added changes) defaultLocale key) := by
    rw [Catalog.template?, hknows.templateIn?, hknows.templateIn?, hknows.locale]
  rw [← htemplate]
  split
  · rename_i template heq
    refine ⟨exists_cut _, fun pieces hpieces => ?_⟩
    simp only [Catalog.message, heq, fill, String.toList_ofList]
    exact fillFrom_cut values hpieces
  · rename_i heq
    simp only [Catalog.message, heq]

end PhpSyntax.Message
