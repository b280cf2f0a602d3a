import Mathlib.Data.List.DropRight
import PhpSyntax.Render.Yaml
import PhpSyntax.Unicode.Space

namespace PhpSyntax.Yaml

section Last

mutual

/-- The text that a document ends with, if its last scalar is one. -/
def lastText? : Document → Option String
  | .text s => some s
  | .list ds => lastItemText? ds
  | .object ms => lastMemberText? ms
  | _ => none

def lastItemText? : List Document → Option String
  | [] => none
  | [d] => lastText? d
  | _ :: d :: ds => lastItemText? (d :: ds)

def lastMemberText? : List (String × Document) → Option String
  | [] => none
  | [(_, d)] => lastText? d
  | _ :: m :: ms => lastMemberText? (m :: ms)

end

/-- A text shows where it ends, whatever white space is taken away behind it: it is in quotes, or
its last character is visible but for one line break. -/
def Shown (s : String) : Prop :=
  styleOf s = .singleQuoted ∨ styleOf s = .doubleQuoted ∨
    ∃ c, Unicode.isSpace c = false ∧ ([c] <:+ s.toList ∨ [c, '\n'] <:+ s.toList)

end Last

section Scalars

theorem isSpace_of_isBreak {c : Char} (h : isBreak c = true) : Unicode.isSpace c = true := by
  simp only [isBreak, decide_eq_true_eq, List.mem_cons, List.not_mem_nil, or_false] at h
  obtain rfl | rfl | rfl | rfl | rfl := h <;> decide

theorem isSpace_digit {c : Char} (h : c.isDigit = true) : Unicode.isSpace c = false := by
  simp only [Char.isDigit, Bool.and_eq_true, decide_eq_true_eq] at h
  have hlow : 48 ≤ c.toNat := h.1
  have hhigh : c.toNat ≤ 57 := h.2
  simp only [Unicode.isSpace, Unicode.covers, Unicode.spaceRanges, List.any_cons, List.any_nil,
    Bool.or_false, Bool.or_eq_false_iff, Bool.and_eq_false_imp, decide_eq_true_eq,
    decide_eq_false_iff_not]
  omega

theorem ends_number (n : Nat) : ∃ c, Unicode.isSpace c = false ∧ [c] <:+ (toString n).toList := by
  have hdigits : (toString n).toList = Nat.toDigits 10 n := Nat.toList_repr
  have hne : Nat.toDigits 10 n ≠ [] := Nat.toDigits_ne_nil
  refine ⟨(Nat.toDigits 10 n).getLast hne, ?_, ?_⟩
  · exact isSpace_digit (Nat.isDigit_of_mem_toDigits (by decide) (by decide) (List.getLast_mem hne))
  · rw [hdigits]
    exact ⟨_, List.dropLast_append_getLast hne⟩

theorem styleOf_plain {s : String} (h : styleOf s = .plain) : s.toList ≠ [] ∧ '\n' ∉ s.toList := by
  simp only [styleOf] at h
  split_ifs at h with hempty _ hbreak
  simp_all

theorem styleOf_block {s : String} (h : styleOf s = .block) : s.toList ≠ [] := by
  simp only [styleOf] at h
  split_ifs at h with hempty
  simp_all

theorem singleQuotedBody_ends (indent : Nat) (fresh : Bool) (cs : List Char) :
    ['\x27'] <:+ singleQuotedBody indent fresh cs := by
  induction cs generalizing fresh with
  | nil => exact List.suffix_append _ _
  | cons c cs ih =>
    rw [singleQuotedBody]
    split
    · exact (ih true).trans (List.suffix_cons _ _)
    · exact (ih false).trans (List.suffix_append _ _)

theorem indentLines_append (indent : Nat) (fresh : Bool) (cs ds : List Char) :
    ∃ begun, indentLines indent fresh (cs ++ ds) =
      indentLines indent fresh cs ++ indentLines indent begun ds := by
  induction cs generalizing fresh with
  | nil => exact ⟨fresh, rfl⟩
  | cons c cs ih =>
    rw [List.cons_append, indentLines, indentLines]
    split
    · obtain ⟨begun, h⟩ := ih true
      exact ⟨begun, by rw [h, List.cons_append]⟩
    · obtain ⟨begun, h⟩ := ih false
      refine ⟨begun, ?_⟩
      split <;> simp [h]

/-- The last character of a text is the last one of its indented lines. -/
theorem indentLines_ends (indent : Nat) (fresh : Bool) (cs : List Char) (c : Char) :
    [c] <:+ indentLines indent fresh (cs ++ [c]) := by
  obtain ⟨begun, h⟩ := indentLines_append indent fresh cs [c]
  rw [h]
  refine List.IsSuffix.trans ?_ (List.suffix_append _ _)
  simp only [indentLines]
  split
  · exact List.suffix_rfl
  · split
    · exact List.suffix_append _ _
    · exact List.suffix_rfl

/-- A break follows the character in front of it, without an indentation. -/
theorem indentLines_ends_break (indent : Nat) (fresh : Bool) (cs : List Char) (b : Char) {c : Char}
    (hc : isBreak c = true) : [b, c] <:+ indentLines indent fresh (cs ++ [b, c]) := by
  obtain ⟨begun, h⟩ := indentLines_append indent fresh cs [b, c]
  rw [h]
  refine List.IsSuffix.trans ?_ (List.suffix_append _ _)
  simp only [indentLines, hc, if_true]
  split
  · exact List.suffix_rfl
  · split
    · exact List.suffix_append _ _
    · exact List.suffix_rfl

end Scalars

section Closing

/-- A part with the break that ends its last line. -/
def Written.closed (w : Written) : List Char :=
  w.text ++ if w.fresh then [] else ['\n']

/-- What stands at the end of a written part: a visible character and one line break, if and only
if the text that it ends with shows its end. -/
def Closes (w : Written) (last : Option String) : Prop :=
  ∃ a b, [a, b] <:+ w.closed ∧
    ((b = '\n' ∧ Unicode.isSpace a = false) ↔ ∀ s ∈ last, Shown s)

theorem Closes.after {w : Written} {last : Option String} (h : Closes w last) (lead : List Char) :
    Closes (w.after lead) last := by
  obtain ⟨a, b, hends, hshown⟩ := h
  refine ⟨a, b, ?_, hshown⟩
  rw [Written.closed, Written.after, List.append_assoc]
  exact hends.trans (List.suffix_append _ _)

theorem Closes.onNextLine {w : Written} {last : Option String} (h : Closes w last) (fresh : Bool)
    (indent : Nat) : Closes (w.onNextLine fresh indent) last :=
  h.after _

theorem followedBy_nothing (w : Written) : w.followedBy (fun fresh => ⟨[], fresh⟩) = w := by
  rw [Written.followedBy, Written.after, List.append_nil]

theorem closes_line {cs : List Char} {c : Char} {last : Option String}
    (hc : Unicode.isSpace c = false) (hends : [c] <:+ cs) (hlast : ∀ s ∈ last, Shown s) :
    Closes ⟨cs, false⟩ last := by
  refine ⟨c, '\n', ?_, iff_of_true ⟨rfl, hc⟩ hlast⟩
  obtain ⟨front, rfl⟩ := hends
  exact ⟨front, by simp [Written.closed]⟩

/-- A text without quotes shows its end by its last character, or by the one in front of a line
break. -/
theorem shown_concat {s : String} (hstyle : styleOf s = .plain ∨ styleOf s = .block)
    {front : List Char} {c : Char} (hchars : s.toList = front ++ [c]) :
    Shown s ↔ Unicode.isSpace c = false ∨
      c = '\n' ∧ ∃ b, front.getLast? = some b ∧ Unicode.isSpace b = false := by
  constructor
  · rintro (hsingle | hdouble | ⟨d, hd, ⟨f, hf⟩ | ⟨f, hf⟩⟩)
    · rw [hsingle] at hstyle
      simp at hstyle
    · rw [hdouble] at hstyle
      simp at hstyle
    · rw [hchars] at hf
      obtain ⟨-, hlast⟩ := List.append_inj' hf rfl
      obtain rfl := List.singleton_inj.1 hlast
      exact .inl hd
    · have hsplit : (f ++ [d]) ++ ['\n'] = front ++ [c] := by
        rw [← hchars, ← hf, List.append_assoc]
        rfl
      obtain ⟨rfl, hlast⟩ := List.append_inj' hsplit rfl
      obtain rfl := List.singleton_inj.1 hlast
      exact .inr ⟨rfl, d, List.getLast?_concat, hd⟩
  · rintro (hc | ⟨rfl, b, hb, hvisible⟩)
    · exact .inr (.inr ⟨c, hc, .inl ⟨front, hchars.symm⟩⟩)
    · obtain ⟨f, rfl⟩ := List.getLast?_eq_some_iff.1 hb
      exact .inr (.inr ⟨b, hvisible, .inr ⟨f, by simp [hchars]⟩⟩)

theorem closes_plain {s : String} (h : styleOf s = .plain) : Closes ⟨s.toList, false⟩ (some s) := by
  obtain ⟨hne, hbreak⟩ := styleOf_plain h
  obtain ⟨front, c, hchars⟩ := (List.eq_nil_or_concat' s.toList).resolve_left hne
  have hc : c ≠ '\n' := by
    rintro rfl
    exact hbreak (hchars ▸ List.mem_append_right front List.mem_cons_self)
  refine ⟨c, '\n', ⟨front, by simp [Written.closed, hchars]⟩, ?_⟩
  simp [shown_concat (.inl h) hchars, hc]

theorem closes_block (indent : Nat) {s : String} (h : styleOf s = .block) :
    Closes (writeBlock indent s.toList) (some s) := by
  obtain ⟨front, c, hchars⟩ := (List.eq_nil_or_concat' s.toList).resolve_left (styleOf_block h)
  obtain ⟨lead, htext⟩ : ∃ lead, (writeBlock indent s.toList).text =
      lead ++ '\n' :: indentLines indent true (front ++ [c]) := ⟨_, by rw [← hchars]; rfl⟩
  have hfresh : (writeBlock indent s.toList).fresh = isBreak c := by
    simp [writeBlock, hchars]
  simp only [Closes, Written.closed, htext, hfresh, Option.mem_some_iff, forall_eq',
    shown_concat (.inr h) hchars]
  by_cases hc : isBreak c = true
  · -- A text that ends with a break, which is the last one that is written.
    have hspace := isSpace_of_isBreak hc
    rw [if_pos hc, List.append_nil]
    obtain rfl | ⟨f, b, rfl⟩ := List.eq_nil_or_concat' front
    · refine ⟨'\n', c, ⟨lead, by simp [indentLines, hc]⟩, ?_⟩
      simp [hspace, isSpace_of_isBreak (c := '\n') (by decide)]
    · refine ⟨b, c, ?_, by simp [hspace]⟩
      have hlines := indentLines_ends_break indent true f b hc
      rw [List.append_assoc]
      exact hlines.trans ((List.suffix_cons _ _).trans (List.suffix_append _ _))
  · have hne : c ≠ '\n' := by
      rintro rfl
      exact hc (by decide)
    rw [if_neg hc]
    refine ⟨c, '\n', ?_, by simp [hne]⟩
    obtain ⟨lines, hlines⟩ := indentLines_ends indent true front c
    exact ⟨lead ++ '\n' :: lines, by simp [← hlines]⟩

theorem closes_text (indent : Nat) (s : String) : Closes (writeText indent s) (some s) := by
  have hsingle : Unicode.isSpace '\x27' = false := by decide
  have hdouble : Unicode.isSpace '\x22' = false := by decide
  rw [writeText]
  cases hstyle : styleOf s with
  | plain => exact closes_plain hstyle
  | singleQuoted =>
    refine closes_line hsingle ?_ (by simp [Shown, hstyle])
    exact (singleQuotedBody_ends indent false s.toList).trans (List.suffix_cons _ _)
  | doubleQuoted =>
    exact closes_line hdouble (List.suffix_append _ _) (by simp [Shown, hstyle])
  | block => exact closes_block indent hstyle

mutual

/-- How a document ends is told by the text that it ends with. -/
theorem write_closes (indent : Nat) : (d : Document) → Closes (write indent d) (lastText? d)
  | .null => closes_line (c := 'l') (by decide) ⟨['n', 'u', 'l'], rfl⟩ (by simp [lastText?])
  | .bool true => closes_line (c := 'e') (by decide) ⟨['t', 'r', 'u'], rfl⟩ (by simp [lastText?])
  | .bool false =>
    closes_line (c := 'e') (by decide) ⟨['f', 'a', 'l', 's'], rfl⟩ (by simp [lastText?])
  | .number n =>
    have ⟨_, hc, hends⟩ := ends_number n
    closes_line hc hends (by simp [lastText?])
  | .text s => closes_text indent s
  | .list [] => closes_line (c := ']') (by decide) ⟨['['], rfl⟩ (by simp [lastText?, lastItemText?])
  | .list [d] => by
    have hitem := (write_closes (indent + 2) d).after ['-', ' ']
    simpa only [write, writeItems, followedBy_nothing, lastText?, lastItemText?] using hitem
  | .list (d :: d' :: ds) => by
    have hitems := writeItems_closes indent ((write (indent + 2) d).after ['-', ' ']).fresh (d' :: ds)
      (List.cons_ne_nil _ _)
    simp only [write, lastText?, lastItemText?]
    exact hitems.after _
  | .object [] => closes_line (c := '\x7d') (by decide) ⟨['\x7b'], rfl⟩
      (by simp [lastText?, lastMemberText?])
  | .object [(k, d)] => by
    have hmember := (write_closes (valueIndent indent d) d).after
      (keyText k ++ ':' :: valueLead indent d)
    simpa only [write, writeMembers, followedBy_nothing, lastText?, lastMemberText?] using hmember
  | .object ((k, d) :: m :: ms) => by
    have hmembers := writeMembers_closes indent ((write (valueIndent indent d) d).after
      (keyText k ++ ':' :: valueLead indent d)).fresh (m :: ms) (List.cons_ne_nil _ _)
    simp only [write, lastText?, lastMemberText?]
    exact hmembers.after _

theorem writeItems_closes (indent : Nat) (fresh : Bool) : (ds : List Document) → ds ≠ [] →
    Closes (writeItems indent fresh ds) (lastItemText? ds)
  | [], h => absurd rfl h
  | [d], _ => by
    have hitem := ((write_closes (indent + 2) d).after ['-', ' ']).onNextLine fresh indent
    simpa only [writeItems, followedBy_nothing, lastItemText?] using hitem
  | d :: d' :: ds, _ => by
    have hitems := writeItems_closes indent (((write (indent + 2) d).after ['-', ' ']).onNextLine
      fresh indent).fresh (d' :: ds) (List.cons_ne_nil _ _)
    rw [writeItems, lastItemText?]
    exact hitems.after _

theorem writeMembers_closes (indent : Nat) (fresh : Bool) : (ms : List (String × Document)) →
    ms ≠ [] → Closes (writeMembers indent fresh ms) (lastMemberText? ms)
  | [], h => absurd rfl h
  | [(k, d)], _ => by
    have hmember := ((write_closes (valueIndent indent d) d).after
      (keyText k ++ ':' :: valueLead indent d)).onNextLine fresh indent
    simpa only [writeMembers, followedBy_nothing, lastMemberText?] using hmember
  | (k, d) :: m :: ms, _ => by
    have hmembers := writeMembers_closes indent (((write (valueIndent indent d) d).after
      (keyText k ++ ':' :: valueLead indent d)).onNextLine fresh indent).fresh (m :: ms)
        (List.cons_ne_nil _ _)
    rw [writeMembers, lastMemberText?]
    exact hmembers.after _

end

end Closing

end PhpSyntax.Yaml
