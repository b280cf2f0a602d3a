import Mathlib.Data.List.TakeWhile
import PhpSyntax.Php.Interpolation
import PhpSyntax.Proofs.Peg.Matches

namespace PhpSyntax.Php

open Peg

theorem afterText?_some {ws cs rest : List Char} (h : afterText? ws cs = some rest) :
    cs = ws ++ rest := by
  induction ws generalizing cs with
  | nil => exact Option.some.inj h
  | cons w ws ih =>
    cases cs with
    | nil => cases h
    | cons c cs =>
      rw [afterText?, Option.ite_none_right_eq_some] at h
      obtain ⟨rfl, h⟩ := h
      rw [ih h, List.cons_append]

/-- A line terminator is found in front of whatever begins alike. -/
theorem afterNewline?_some {cs body : List Char} (h : afterNewline? cs = some body) :
    ∃ newline, newline ≠ [] ∧ cs = newline ++ body ∧
      ∀ more : List Char, more.head? = body.head? →
        afterNewline? (newline ++ more) = some more := by
  unfold afterNewline? at h
  split at h
  · obtain rfl := Option.some.inj h
    exact ⟨['\r', '\n'], by simp, rfl, fun more _ => rfl⟩
  · obtain rfl := Option.some.inj h
    exact ⟨['\n'], by simp, rfl, fun more _ => rfl⟩
  · rename_i cs hnot
    obtain rfl := Option.some.inj h
    refine ⟨['\r'], by simp, rfl, fun more hmore => ?_⟩
    rw [List.singleton_append]
    unfold afterNewline?
    split
    · rename_i heq
      obtain ⟨-, rfl⟩ := List.cons.inj heq
      cases cs with
      | nil => cases hmore
      | cons c cs =>
        obtain rfl := Option.some.inj hmore
        exact absurd rfl (hnot cs)
    · rename_i heq
      cases heq
    · rename_i heq
      obtain ⟨-, rfl⟩ := List.cons.inj heq
      rfl
    · rename_i hnone
      exact absurd rfl (hnone more)
  · cases h

/-- What a list goes on with where a condition ends, in front of whatever begins alike. -/
theorem span_append {p : Char → Bool} {cs : List Char} {rest : List Char}
    (hrest : rest.head? = (cs.dropWhile p).head?) :
    (cs.takeWhile p ++ rest).span p = (cs.takeWhile p, rest) := by
  have hstop : ∀ c ∈ rest.head?, p c = false := by
    intro c hc
    rw [hrest] at hc
    have := List.head?_dropWhile_not p cs
    rw [hc] at this
    simpa using this
  have htake : rest.takeWhile p = [] := by
    cases rest with
    | nil => rfl
    | cons c rest => exact List.takeWhile_cons_of_neg (by simpa using hstop c rfl)
  have hdrop : rest.dropWhile p = rest := by
    cases rest with
    | nil => rfl
    | cons c rest => exact List.dropWhile_cons_of_neg (by simpa using hstop c rfl)
  have hall : ∀ c ∈ cs.takeWhile p, p c = true := fun c hc => List.mem_takeWhile_imp hc
  rw [List.span_eq_takeWhile_dropWhile, List.takeWhile_append_of_pos hall,
    List.dropWhile_append_of_pos hall, htake, hdrop, List.append_nil]

theorem identAt?_some {cs label rest : List Char} (h : identAt? cs = some (label, rest)) :
    label ≠ [] ∧ cs = label ++ rest ∧
      ∀ more : List Char, more.head? = rest.head? →
        identAt? (label ++ more) = some (label, more) := by
  cases cs with
  | nil => cases h
  | cons c cs =>
    simp only [identAt?, List.span_eq_takeWhile_dropWhile, Option.ite_none_right_eq_some,
      Option.some.injEq, Prod.mk.injEq] at h
    obtain ⟨hc, rfl, rfl⟩ := h
    refine ⟨by simp, by simp, fun more hmore => ?_⟩
    simp only [List.cons_append, identAt?, hc, if_true, span_append hmore]

/-- A part of the header that takes some characters in front of the body, and the same in front of
whatever begins alike. -/
def DocHeader.Stands (read : List Char → Option DocHeader) (cs : List Char)
    (header : DocHeader) : Prop :=
  header.label ≠ [] ∧ ∃ head, head ≠ [] ∧ cs = head ++ header.body ∧
    ∀ more : List Char, more.head? = header.body.head? →
      read (head ++ more) = some { header with body := more }

theorem quotedLabel?_some {kind : DocKind} {quote : Char} {cs : List Char} {header : DocHeader}
    (h : quotedLabel? kind quote cs = some header) :
    header.Stands (quotedLabel? kind quote) cs := by
  unfold quotedLabel? at h
  split at h
  · rename_i label c rest hident
    rw [Option.ite_none_right_eq_some] at h
    obtain ⟨rfl, h⟩ := h
    obtain ⟨body, hbody, rfl⟩ := Option.map_eq_some_iff.1 h
    obtain ⟨hlabel, rfl, hagain⟩ := identAt?_some hident
    obtain ⟨newline, -, rfl, hnewline⟩ := afterNewline?_some hbody
    refine ⟨hlabel, label ++ c :: newline, by simp, by simp, fun more hmore => ?_⟩
    rw [List.append_assoc, List.cons_append]
    simp only [quotedLabel?, hagain (c :: (newline ++ more)) rfl, if_true, hnewline more hmore,
      Option.map_some]
  · cases h

/-- A label without quotes and the end of its line. -/
def bareLabel? (cs : List Char) : Option DocHeader :=
  match identAt? cs with
  | some (label, rest) => (afterNewline? rest).map fun body => ⟨.heredoc, label, body⟩
  | none => none

theorem bareLabel?_some {cs : List Char} {header : DocHeader} (h : bareLabel? cs = some header) :
    header.Stands bareLabel? cs := by
  unfold bareLabel? at h
  split at h
  · rename_i label rest hident
    obtain ⟨body, hbody, rfl⟩ := Option.map_eq_some_iff.1 h
    obtain ⟨hlabel, rfl, hagain⟩ := identAt?_some hident
    obtain ⟨newline, hne, rfl, hnewline⟩ := afterNewline?_some hbody
    refine ⟨hlabel, label ++ newline, by simp [hne], by simp, fun more hmore => ?_⟩
    have hhead : (newline ++ more).head? = (newline ++ body).head? := by
      cases newline with
      | nil => exact absurd rfl hne
      | cons c newline => rfl
    rw [List.append_assoc]
    simp only [bareLabel?, hagain (newline ++ more) hhead, hnewline more hmore, Option.map_some]
  · cases h

def label? : List Char → Option DocHeader
  | '\x22' :: cs => quotedLabel? .heredoc '\x22' cs
  | '\x27' :: cs => quotedLabel? .nowdoc '\x27' cs
  | cs => bareLabel? cs

theorem label?_some {cs : List Char} {header : DocHeader} (h : label? cs = some header) :
    header.Stands label? cs := by
  unfold label? at h
  split at h
  · obtain ⟨hlabel, head, -, rfl, hagain⟩ := quotedLabel?_some h
    exact ⟨hlabel, '\x22' :: head, by simp, rfl, hagain⟩
  · obtain ⟨hlabel, head, -, rfl, hagain⟩ := quotedLabel?_some h
    exact ⟨hlabel, '\x27' :: head, by simp, rfl, hagain⟩
  · rename_i hdouble hsingle
    obtain ⟨hlabel, head, hne, rfl, hagain⟩ := bareLabel?_some h
    refine ⟨hlabel, head, hne, rfl, fun more hmore => ?_⟩
    obtain ⟨c, head, rfl⟩ := List.exists_cons_of_ne_nil hne
    rw [← hagain more hmore, List.cons_append]
    unfold label?
    split
    · rename_i heq
      obtain ⟨rfl, -⟩ := List.cons.inj heq
      exact absurd rfl (hdouble _)
    · rename_i heq
      obtain ⟨rfl, -⟩ := List.cons.inj heq
      exact absurd rfl (hsingle _)
    · rfl

theorem docHeader?_eq (cs : List Char) : docHeader? ('<' :: '<' :: '<' :: cs) =
    label? (cs.dropWhile fun c => c == ' ' || c == '\t') :=
  rfl

theorem docHeader?_some {cs : List Char} {header : DocHeader} (h : docHeader? cs = some header) :
    header.Stands docHeader? cs := by
  have hopens : ∃ rest, cs = '<' :: '<' :: '<' :: rest := by
    unfold docHeader? at h
    split at h
    · exact ⟨_, rfl⟩
    · cases h
  obtain ⟨rest, rfl⟩ := hopens
  rw [docHeader?_eq] at h
  obtain ⟨hlabel, head, hne, hsplit, hagain⟩ := label?_some h
  let blank : Char → Bool := fun c => c == ' ' || c == '\t'
  refine ⟨hlabel, '<' :: '<' :: '<' :: (rest.takeWhile blank ++ head), by simp, ?_,
    fun more hmore => ?_⟩
  · rw [List.cons_append, List.cons_append, List.cons_append, List.append_assoc, ← hsplit,
      List.takeWhile_append_dropWhile]
  · have hhead : (head ++ more).head? = (rest.dropWhile blank).head? := by
      obtain ⟨c, head, rfl⟩ := List.exists_cons_of_ne_nil hne
      rw [hsplit]
      rfl
    have hdrop : (rest.takeWhile blank ++ (head ++ more)).dropWhile blank = head ++ more := by
      have hspan := span_append hhead
      rw [List.span_eq_takeWhile_dropWhile] at hspan
      exact congrArg Prod.snd hspan
    rw [List.cons_append, List.cons_append, List.cons_append, docHeader?_eq, List.append_assoc]
    exact (congrArg label? hdrop).trans (hagain more hmore)

/-- The body ends in front of the label. -/
theorem beforeClosing?_some {label : List Char} {fresh : Bool} {cs body : List Char}
    (h : beforeClosing? label fresh cs = some body) : ∃ rest, cs = body ++ (label ++ rest) := by
  have hcloses : ∀ {b : Bool} {line : List Char}, (b && closes label line) = true →
      ∃ rest, line = label ++ rest := by
    intro b line hline
    rw [Bool.and_eq_true] at hline
    have hlabel := hline.2
    unfold closes at hlabel
    split at hlabel
    · rename_i rest hrest
      exact ⟨rest, afterText?_some hrest⟩
    · cases hlabel
  fun_induction beforeClosing? label fresh cs generalizing body with
  | case1 fresh hline =>
    obtain rfl := Option.some.inj h
    exact hcloses hline
  | case2 fresh _ => cases h
  | case3 fresh cs hline =>
    obtain rfl := Option.some.inj h
    exact hcloses hline
  | case4 fresh cs _ ih =>
    obtain ⟨body, hbody, rfl⟩ := Option.map_eq_some_iff.1 h
    obtain ⟨rest, rfl⟩ := ih hbody
    exact ⟨rest, rfl⟩
  | case5 fresh c cs _ hline =>
    obtain rfl := Option.some.inj h
    exact hcloses hline
  | case6 fresh c cs _ _ ih =>
    obtain ⟨body, hbody, rfl⟩ := Option.map_eq_some_iff.1 h
    obtain ⟨rest, rfl⟩ := ih hbody
    exact ⟨rest, rfl⟩

/-- A text is what is left of it without the end of its last line, and that. -/
theorem dropNewline_append (cs : List Char) : ∃ newline, cs = dropNewline cs ++ newline := by
  unfold dropNewline
  split
  · rename_i rest hrest
    exact ⟨['\r', '\n'], by rw [← List.reverse_reverse cs, hrest]; simp⟩
  · rename_i c rest _ hrest
    exact ⟨[c], by rw [← List.reverse_reverse cs, hrest]; simp⟩
  · rename_i hrest
    exact ⟨[], by rw [← List.reverse_reverse cs, hrest]; simp⟩

/-- What a document takes: its header, the body as it is yielded, the end of the body's last line,
and the label. The header is as long in what is taken. -/
theorem scanDoc_some {kind : DocKind} {cs : List Char} {n : Nat} {v : Value}
    (h : scanDoc kind cs = some (n, v)) :
    ∃ head body newline label rest, head ≠ [] ∧
      cs = head ++ (body ++ (newline ++ (label ++ rest))) ∧ v = .text (String.ofList body) ∧
      n = byteLength (head ++ (body ++ (newline ++ label))) ∧
      headerLength (head ++ (body ++ (newline ++ label))) = byteLength head := by
  simp only [scanDoc, Option.bind_eq_bind, Option.bind_eq_some_iff, pure, Option.some.injEq,
    Prod.mk.injEq] at h
  obtain ⟨header, hheader, _, -, body, hbody, rfl, rfl⟩ := h
  obtain ⟨hlabel, head, hne, rfl, hagain⟩ := docHeader?_some hheader
  obtain ⟨rest, hrest⟩ := beforeClosing?_some hbody
  obtain ⟨newline, hnewline⟩ := dropNewline_append body
  have hsame : (body ++ header.label).head? = header.body.head? := by
    obtain ⟨c, label, hc⟩ := List.exists_cons_of_ne_nil hlabel
    rw [hrest, hc]
    cases body <;> rfl
  have hjoin : dropNewline body ++ (newline ++ header.label) = body ++ header.label := by
    rw [← List.append_assoc, ← hnewline]
  refine ⟨head, dropNewline body, newline, header.label, rest, hne, ?_, rfl, ?_, ?_⟩
  · rw [hrest, ← List.append_assoc newline, ← List.append_assoc (dropNewline body), hjoin,
      List.append_assoc]
  · rw [hjoin]
    simp only [byteLength_append]
    omega
  · rw [hjoin, headerLength, hagain _ hsame]
    simp only [byteLength_append]
    omega

end PhpSyntax.Php
