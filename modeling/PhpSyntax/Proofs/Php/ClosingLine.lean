import PhpSyntax.Proofs.Php.Heredoc
import PhpSyntax.Proofs.Source.Lines

namespace PhpSyntax.Php

open Peg

/-- An identifier from its first character to its last. -/
def IsIdent (cs : List Char) : Prop :=
  ∃ c more, cs = c :: more ∧ isIdentStart c = true ∧ ∀ d ∈ more, isIdentChar d = true

/-- A line terminator in front of a text: a carriage return is one of its own only where no line
feed follows. -/
def IsNewline (newline rest : List Char) : Prop :=
  newline = ['\r', '\n'] ∨ newline = ['\n'] ∨ newline = ['\r'] ∧ rest.head? ≠ some '\n'

def IsBlank (cs : List Char) : Prop :=
  ∀ c ∈ cs, c = ' ' ∨ c = '\t'

/-- A label as it stands in the header of its kind: bare or in double quotes for a heredoc, in
single quotes for a nowdoc. -/
inductive WritesLabel (label : List Char) : DocKind → List Char → Prop where
  | bare : WritesLabel label .heredoc label
  | doubleQuoted : WritesLabel label .heredoc ('\x22' :: (label ++ ['\x22']))
  | singleQuoted : WritesLabel label .nowdoc ('\x27' :: (label ++ ['\x27']))

/-- The header of a document in front of its lines. -/
def IsHeader (kind : DocKind) (label head lines : List Char) : Prop :=
  ∃ blanks written newline, IsBlank blanks ∧ IsIdent label ∧ WritesLabel label kind written ∧
    IsNewline newline lines ∧ head = '<' :: '<' :: '<' :: (blanks ++ (written ++ newline))

/-- A line begins between two texts, the first of which begins a line if it is `fresh`. -/
def LineBegins (fresh : Bool) (front rest : List Char) : Prop :=
  fresh = true ∧ front = [] ∨ EndsLine front rest

/-- A line begins behind `front`, and begins with the label, which no identifier goes on from. -/
def ClosingLine (label : List Char) (fresh : Bool) (front line : List Char) : Prop :=
  LineBegins fresh front line ∧
    ∃ rest, line = label ++ rest ∧ ∀ c ∈ rest.head?, isIdentChar c = false

/-- What is left of lines without the terminator of the last one. -/
def IsBody (front body : List Char) : Prop :=
  front = [] ∧ body = [] ∨ front = body ++ ['\r', '\n'] ∨
    front = body ++ ['\n'] ∧ body.getLast? ≠ some '\r' ∨ front = body ++ ['\r']

section Header

variable {cs label rest body : List Char} {kind : DocKind} {header : DocHeader}

theorem afterNewline?_eq_some :
    afterNewline? cs = some body ↔ ∃ newline, IsNewline newline body ∧ cs = newline ++ body := by
  constructor
  · intro h
    unfold afterNewline? at h
    split at h
    · obtain rfl := Option.some.inj h
      exact ⟨_, .inl rfl, rfl⟩
    · obtain rfl := Option.some.inj h
      exact ⟨_, .inr (.inl rfl), rfl⟩
    · rename_i cs hnot
      obtain rfl := Option.some.inj h
      refine ⟨_, .inr (.inr ⟨rfl, fun hhead => ?_⟩), rfl⟩
      obtain ⟨more, rfl⟩ := List.head?_eq_some_iff.1 hhead
      exact hnot more rfl
    · cases h
  · rintro ⟨newline, rfl | rfl | ⟨rfl, hhead⟩, rfl⟩
    · rfl
    · rfl
    · cases body with
      | nil => rfl
      | cons c body =>
        have hc : c ≠ '\n' := fun hc => hhead (congrArg some hc)
        simp [afterNewline?, hc]

theorem identAt?_eq_some : identAt? cs = some (label, rest) ↔
    IsIdent label ∧ cs = label ++ rest ∧ ∀ c ∈ rest.head?, isIdentChar c = false := by
  constructor
  · intro h
    cases cs with
    | nil => cases h
    | cons c cs =>
      simp only [identAt?, List.span_eq_takeWhile_dropWhile, Option.ite_none_right_eq_some,
        Option.some.injEq, Prod.mk.injEq] at h
      obtain ⟨hc, rfl, rfl⟩ := h
      refine ⟨⟨c, _, rfl, hc, fun d hd => List.mem_takeWhile_imp hd⟩, by simp, fun d hd => ?_⟩
      have hnot := List.head?_dropWhile_not isIdentChar cs
      rw [Option.mem_def.1 hd] at hnot
      simpa using hnot
  · rintro ⟨⟨c, more, rfl, hc, hmore⟩, rfl, hrest⟩
    have hspan : (more ++ rest).span isIdentChar = (more, rest) := by
      have hdrop : rest.dropWhile isIdentChar = rest ∧ rest.takeWhile isIdentChar = [] := by
        cases rest with
        | nil => exact ⟨rfl, rfl⟩
        | cons d rest =>
          have hd := hrest d rfl
          exact ⟨List.dropWhile_cons_of_neg (by simp [hd]), List.takeWhile_cons_of_neg (by simp [hd])⟩
      rw [List.span_eq_takeWhile_dropWhile, List.takeWhile_append_of_pos hmore,
        List.dropWhile_append_of_pos hmore, hdrop.1, hdrop.2, List.append_nil]
    simp only [List.cons_append, identAt?, hc, if_true, hspan]

theorem quotedLabel?_eq_some {quote : Char} (hquote : isIdentChar quote = false) :
    quotedLabel? kind quote cs = some header ↔ ∃ newline, IsNewline newline header.body ∧
      IsIdent header.label ∧ header.kind = kind ∧
      cs = header.label ++ quote :: (newline ++ header.body) := by
  constructor
  · intro h
    unfold quotedLabel? at h
    split at h
    · rename_i label c rest hident
      rw [Option.ite_none_right_eq_some] at h
      obtain ⟨rfl, h⟩ := h
      obtain ⟨body, hbody, rfl⟩ := Option.map_eq_some_iff.1 h
      obtain ⟨hlabel, rfl, -⟩ := identAt?_eq_some.1 hident
      obtain ⟨newline, hnewline, rfl⟩ := afterNewline?_eq_some.1 hbody
      exact ⟨newline, hnewline, hlabel, rfl, rfl⟩
    · cases h
  · obtain ⟨kind', label, body⟩ := header
    rintro ⟨newline, hnewline, hlabel, rfl, rfl⟩
    have hident : identAt? (label ++ quote :: (newline ++ body)) =
        some (label, quote :: (newline ++ body)) :=
      identAt?_eq_some.2 ⟨hlabel, rfl, by simpa using hquote⟩
    have hbody := afterNewline?_eq_some.2 ⟨newline, hnewline, rfl⟩
    simp only [quotedLabel?, hident, if_true, hbody, Option.map_some]

theorem bareLabel?_eq_some : bareLabel? cs = some header ↔
    ∃ newline, IsNewline newline header.body ∧ IsIdent header.label ∧ header.kind = .heredoc ∧
      cs = header.label ++ (newline ++ header.body) := by
  constructor
  · intro h
    unfold bareLabel? at h
    split at h
    · rename_i label rest hident
      obtain ⟨body, hbody, rfl⟩ := Option.map_eq_some_iff.1 h
      obtain ⟨hlabel, rfl, -⟩ := identAt?_eq_some.1 hident
      obtain ⟨newline, hnewline, rfl⟩ := afterNewline?_eq_some.1 hbody
      exact ⟨newline, hnewline, hlabel, rfl, rfl⟩
    · cases h
  · obtain ⟨kind', label, body⟩ := header
    rintro ⟨newline, hnewline, hlabel, rfl, rfl⟩
    have hhead : ∀ c ∈ (newline ++ body).head?, isIdentChar c = false := by
      obtain rfl | rfl | ⟨rfl, -⟩ := hnewline <;> simp <;> decide
    have hident := identAt?_eq_some.2 ⟨hlabel, rfl, hhead⟩
    have hbody := afterNewline?_eq_some.2 ⟨newline, hnewline, rfl⟩
    simp only [bareLabel?, hident, hbody, Option.map_some]

theorem label?_eq_some : label? cs = some header ↔
    ∃ written newline, IsIdent header.label ∧ WritesLabel header.label header.kind written ∧
      IsNewline newline header.body ∧ cs = written ++ (newline ++ header.body) := by
  constructor
  · intro h
    unfold label? at h
    split at h
    · obtain ⟨newline, hnewline, hlabel, hkind, rfl⟩ := (quotedLabel?_eq_some (by decide)).1 h
      refine ⟨'\x22' :: (header.label ++ ['\x22']), newline, hlabel, ?_, hnewline, by simp⟩
      rw [hkind]
      exact .doubleQuoted
    · obtain ⟨newline, hnewline, hlabel, hkind, rfl⟩ := (quotedLabel?_eq_some (by decide)).1 h
      refine ⟨'\x27' :: (header.label ++ ['\x27']), newline, hlabel, ?_, hnewline, by simp⟩
      rw [hkind]
      exact .singleQuoted
    · obtain ⟨newline, hnewline, hlabel, hkind, rfl⟩ := bareLabel?_eq_some.1 h
      refine ⟨header.label, newline, hlabel, ?_, hnewline, rfl⟩
      rw [hkind]
      exact .bare
  · obtain ⟨kind, label, body⟩ := header
    rintro ⟨written, newline, hlabel, hwritten, hnewline, rfl⟩
    cases hwritten with
    | doubleQuoted =>
      exact (quotedLabel?_eq_some (by decide)).2 ⟨newline, hnewline, hlabel, rfl, by simp⟩
    | singleQuoted =>
      exact (quotedLabel?_eq_some (by decide)).2 ⟨newline, hnewline, hlabel, rfl, by simp⟩
    | bare =>
      have hbare := bareLabel?_eq_some.2 ⟨newline, hnewline, hlabel, rfl, rfl⟩
      obtain ⟨c, more, rfl, hc, -⟩ := id hlabel
      rw [← hbare, List.cons_append]
      unfold label?
      split
      · rename_i heq
        obtain ⟨rfl, -⟩ := List.cons.inj heq
        cases hc
      · rename_i heq
        obtain ⟨rfl, -⟩ := List.cons.inj heq
        cases hc
      · rfl

/-- A header is found where one stands. -/
theorem docHeader?_eq_some : docHeader? cs = some ⟨kind, label, body⟩ ↔
    ∃ head, IsHeader kind label head body ∧ cs = head ++ body := by
  let blank : Char → Bool := fun c => c == ' ' || c == '\t'
  constructor
  · intro h
    have hopens : ∃ rest, cs = '<' :: '<' :: '<' :: rest := by
      unfold docHeader? at h
      split at h
      · exact ⟨_, rfl⟩
      · cases h
    obtain ⟨rest, rfl⟩ := hopens
    rw [docHeader?_eq] at h
    obtain ⟨written, newline, hlabel, hwritten, hnewline, hsplit⟩ := label?_eq_some.1 h
    have hblanks : IsBlank (rest.takeWhile blank) := fun c hc => by
      simpa [blank] using List.mem_takeWhile_imp hc
    refine ⟨_, ⟨_, written, newline, hblanks, hlabel, hwritten, hnewline, rfl⟩, ?_⟩
    simp only [List.cons_append, List.append_assoc]
    rw [← hsplit, List.takeWhile_append_dropWhile]
  · rintro ⟨head, ⟨blanks, written, newline, hblanks, hlabel, hwritten, hnewline, rfl⟩, rfl⟩
    have hall : ∀ c ∈ blanks, blank c = true := fun c hc => by simpa [blank] using hblanks c hc
    have hhead : ∃ c more, written = c :: more ∧ blank c = false := by
      cases hwritten with
      | doubleQuoted => exact ⟨_, _, rfl, rfl⟩
      | singleQuoted => exact ⟨_, _, rfl, rfl⟩
      | bare =>
        obtain ⟨c, more, hc, hstart, -⟩ := hlabel
        refine ⟨c, more, hc, ?_⟩
        have hspace : c ≠ ' ' := by
          rintro rfl
          cases hstart
        have htab : c ≠ '\t' := by
          rintro rfl
          cases hstart
        simp [blank, hspace, htab]
    obtain ⟨c, more, hc, hblank⟩ := hhead
    have hdrop : (blanks ++ (written ++ (newline ++ body))).dropWhile blank =
        written ++ (newline ++ body) := by
      rw [List.dropWhile_append_of_pos hall, hc, List.cons_append,
        List.dropWhile_cons_of_neg (by simp [hblank])]
    simp only [List.cons_append, List.append_assoc]
    rw [docHeader?_eq]
    exact (congrArg label? hdrop).trans
      (label?_eq_some.2 ⟨written, newline, hlabel, hwritten, hnewline, rfl⟩)

end Header

section Lines

variable {label cs front line body : List Char} {fresh : Bool}

theorem closes_iff : closes label line = true ↔
    ∃ rest, line = label ++ rest ∧ ∀ c ∈ rest.head?, isIdentChar c = false := by
  have hafter : ∀ {ws cs rest : List Char}, cs = ws ++ rest → afterText? ws cs = some rest := by
    intro ws cs rest h
    subst h
    induction ws with
    | nil => rfl
    | cons w ws ih => simp only [List.cons_append, afterText?, if_true, ih]
  have hhead : ∀ rest : List Char, (!rest.head?.any isIdentChar) = true ↔
      ∀ c ∈ rest.head?, isIdentChar c = false := by
    intro rest
    cases rest <;> simp
  unfold closes
  split
  · rename_i rest hrest
    rw [hhead]
    refine ⟨fun h => ⟨rest, afterText?_some hrest, h⟩, ?_⟩
    rintro ⟨rest', hline, h⟩
    rw [hafter hline, Option.some.injEq] at hrest
    exact hrest ▸ h
  · rename_i hnone
    refine ⟨nofun, ?_⟩
    rintro ⟨rest, hline, -⟩
    rw [hafter hline] at hnone
    cases hnone

theorem closingLine_iff : ClosingLine label fresh front line ↔
    LineBegins fresh front line ∧ closes label line = true := by
  rw [ClosingLine, closes_iff]

theorem closingLine_nil : ClosingLine label fresh [] line ↔
    (fresh && closes label line) = true := by
  simp [closingLine_iff, LineBegins, EndsLine]

/-- A line begins behind a character as it would at the front, if the character ends a line. -/
theorem lineBegins_cons {c : Char} (hpair : c = '\r' → (front ++ line).head? ≠ some '\n') :
    LineBegins fresh (c :: front) line ↔ LineBegins (c == '\n' || c == '\r') front line := by
  by_cases hfront : front = []
  · subst hfront
    have hcr : c = '\r' → line.head? ≠ some '\n' := hpair
    simp only [LineBegins, EndsLine, List.getLast?_singleton, Option.some.injEq, List.getLast?_nil,
      reduceCtorEq, and_false, false_and, or_false, false_or, and_true, Bool.or_eq_true,
      beq_iff_eq]
    exact or_congr_right (and_iff_left_of_imp hcr)
  · simp [LineBegins, endsLine_cons hfront, hfront]

theorem closingLine_cons {c : Char} (hpair : c = '\r' → (front ++ line).head? ≠ some '\n') :
    ClosingLine label fresh (c :: front) line ↔
      ClosingLine label (c == '\n' || c == '\r') front line := by
  rw [ClosingLine, ClosingLine, lineBegins_cons hpair]

/-- Some line of a text closes it, behind what stands in front of the line. -/
def ClosesAt (label : List Char) (fresh : Bool) (cs front : List Char) : Prop :=
  ∃ line, cs = front ++ line ∧ ClosingLine label fresh front line

def Shortest (P : List Char → Prop) (front : List Char) : Prop :=
  P front ∧ ∀ front', P front' → front.length ≤ front'.length

theorem shortest_nil {P : List Char → Prop} (h : P []) : Shortest P front ↔ [] = front := by
  constructor
  · rintro ⟨-, hleast⟩
    exact (List.length_eq_zero_iff.1 (Nat.le_zero.1 (hleast [] h))).symm
  · rintro rfl
    exact ⟨h, fun _ _ => Nat.zero_le _⟩

theorem shortest_append {P Q : List Char → Prop} {start : List Char}
    (h : ∀ front, P front ↔ ∃ more, start ++ more = front ∧ Q more) :
    Shortest P front ↔ ∃ more, Shortest Q more ∧ start ++ more = front := by
  constructor
  · rintro ⟨hfront, hleast⟩
    obtain ⟨more, rfl, hmore⟩ := (h front).1 hfront
    refine ⟨more, ⟨hmore, fun more' hmore' => ?_⟩, rfl⟩
    simpa using hleast _ ((h _).2 ⟨more', rfl, hmore'⟩)
  · rintro ⟨more, ⟨hmore, hleast⟩, rfl⟩
    refine ⟨(h _).2 ⟨more, rfl, hmore⟩, fun front' hfront' => ?_⟩
    obtain ⟨more', rfl, hmore'⟩ := (h front').1 hfront'
    simpa using hleast more' hmore'

theorem closesAt_nil_iff : ClosesAt label fresh cs [] ↔ (fresh && closes label cs) = true := by
  constructor
  · rintro ⟨line, rfl, h⟩
    exact closingLine_nil.1 h
  · exact fun h => ⟨cs, rfl, closingLine_nil.2 h⟩

theorem closesAt_cons {c : Char} (hpair : c = '\r' → cs.head? ≠ some '\n')
    (hhere : ¬(fresh && closes label (c :: cs)) = true) :
    ClosesAt label fresh (c :: cs) front ↔
      ∃ more, [c] ++ more = front ∧ ClosesAt label (c == '\n' || c == '\r') cs more := by
  constructor
  · rintro ⟨line, hsplit, h⟩
    cases front with
    | nil =>
      obtain rfl : c :: cs = line := hsplit
      exact absurd (closingLine_nil.1 h) hhere
    | cons d more =>
      obtain ⟨rfl, rfl⟩ := List.cons.inj hsplit
      exact ⟨more, rfl, line, rfl, (closingLine_cons hpair).1 h⟩
  · rintro ⟨more, rfl, line, rfl, h⟩
    exact ⟨line, rfl, (closingLine_cons hpair).2 h⟩

/-- No line begins between a carriage return and a line feed. -/
theorem closesAt_pair (hhere : ¬(fresh && closes label ('\r' :: '\n' :: cs)) = true) :
    ClosesAt label fresh ('\r' :: '\n' :: cs) front ↔
      ∃ more, ['\r', '\n'] ++ more = front ∧ ClosesAt label true cs more := by
  have hbegins : ∀ more line : List Char,
      LineBegins fresh ('\r' :: '\n' :: more) line ↔ LineBegins true more line := by
    intro more line
    have hlf : LineBegins false ('\n' :: more) line ↔
        LineBegins ('\n' == '\n' || '\n' == '\r') more line := lineBegins_cons (by simp)
    simp only [LineBegins, reduceCtorEq, and_false, false_or, BEq.rfl, Bool.true_or] at hlf ⊢
    rw [endsLine_cons (List.cons_ne_nil _ _), hlf]
  constructor
  · rintro ⟨line, hsplit, h⟩
    match front with
    | [] =>
      obtain rfl : '\r' :: '\n' :: cs = line := hsplit
      exact absurd (closingLine_nil.1 h) hhere
    | [c] =>
      obtain ⟨rfl, rfl⟩ := List.cons.inj hsplit
      have hbetween := h.1
      simp [LineBegins, EndsLine] at hbetween
    | c :: d :: more =>
      simp only [List.cons_append, List.cons.injEq] at hsplit
      obtain ⟨rfl, rfl, rfl⟩ := hsplit
      exact ⟨more, rfl, line, rfl, (hbegins more line).1 h.1, h.2⟩
  · rintro ⟨more, rfl, line, rfl, h⟩
    exact ⟨line, rfl, (hbegins more line).2 h.1, h.2⟩

/-- The search ends in front of the first line that closes the text, and finds one if there is
any. -/
theorem beforeClosing?_eq_some : beforeClosing? label fresh cs = some front ↔
    Shortest (ClosesAt label fresh cs) front := by
  fun_induction beforeClosing? label fresh cs generalizing front with
  | case1 fresh hhere => rw [Option.some.injEq, shortest_nil (closesAt_nil_iff.2 hhere)]
  | case2 fresh hhere =>
    simp only [reduceCtorEq, false_iff]
    rintro ⟨hfront, -⟩
    obtain ⟨line, hsplit, -⟩ := id hfront
    obtain ⟨rfl, -⟩ := List.append_eq_nil_iff.1 hsplit.symm
    exact hhere (closesAt_nil_iff.1 hfront)
  | case3 fresh cs hhere => rw [Option.some.injEq, shortest_nil (closesAt_nil_iff.2 hhere)]
  | case4 fresh cs hhere ih =>
    rw [shortest_append fun _ => closesAt_pair hhere, Option.map_eq_some_iff]
    exact exists_congr fun more => and_congr_left' ih
  | case5 fresh c cs _ hhere => rw [Option.some.injEq, shortest_nil (closesAt_nil_iff.2 hhere)]
  | case6 fresh c cs hpair hhere ih =>
    have hpair' : c = '\r' → cs.head? ≠ some '\n' := by
      rintro rfl hhead
      obtain ⟨rest, rfl⟩ := List.head?_eq_some_iff.1 hhead
      exact hpair rest rfl rfl
    rw [shortest_append fun _ => closesAt_cons hpair' hhere, Option.map_eq_some_iff]
    exact exists_congr fun more => and_congr_left' ih

theorem exists_shortest {P : List Char → Prop} (h : ∃ front, P front) :
    ∃ front, Shortest P front := by
  obtain ⟨front, hfront, hleast⟩ := (measure List.length).wf.has_min {front | P front} h
  exact ⟨front, hfront, fun front' hfront' => not_lt.1 (hleast front' hfront')⟩

theorem dropNewline_of_body (h : IsBody front body) : dropNewline front = body := by
  obtain ⟨rfl, rfl⟩ | rfl | ⟨rfl, hbody⟩ | rfl := h
  · rfl
  · simp [dropNewline]
  · have hreturn : ∀ rest, body.reverse ≠ '\r' :: rest := by
      intro rest hrest
      rw [List.getLast?_eq_head?_reverse, hrest] at hbody
      exact hbody rfl
    unfold dropNewline
    split
    · rename_i rest hrest
      rw [List.reverse_append, List.reverse_singleton, List.singleton_append, List.cons.injEq] at hrest
      exact absurd hrest.2 (hreturn rest)
    · rename_i c rest _ hrest
      rw [List.reverse_append, List.reverse_singleton, List.singleton_append, List.cons.injEq] at hrest
      rw [← hrest.2, List.reverse_reverse]
    · rename_i hrest
      simp at hrest
  · simp [dropNewline]

theorem exists_body (h : LineBegins true front line) : ∃ body, IsBody front body := by
  obtain ⟨-, rfl⟩ | hlf | ⟨hcr, -⟩ := h
  · exact ⟨[], .inl ⟨rfl, rfl⟩⟩
  · obtain ⟨init, rfl⟩ := List.getLast?_eq_some_iff.1 hlf
    by_cases hreturn : init.getLast? = some '\r'
    · obtain ⟨body, rfl⟩ := List.getLast?_eq_some_iff.1 hreturn
      exact ⟨body, .inr (.inl (by simp))⟩
    · exact ⟨init, .inr (.inr (.inl ⟨rfl, hreturn⟩))⟩
  · obtain ⟨init, rfl⟩ := List.getLast?_eq_some_iff.1 hcr
    exact ⟨init, .inr (.inr (.inr rfl))⟩

theorem IsBody.append (h : IsBody front body) : ∃ newline, front = body ++ newline := by
  obtain ⟨rfl, rfl⟩ | h | ⟨h, -⟩ | h := h
  · exact ⟨[], rfl⟩
  · exact ⟨_, h⟩
  · exact ⟨_, h⟩
  · exact ⟨_, h⟩

end Lines

/-- A document of a kind at the front of a text: its header, the lines in front of the first one
that closes it, the body that these are, and what is behind the closing label. -/
structure Document (kind : DocKind) (cs label head front body rest : List Char) : Prop where
  text : cs = head ++ (front ++ (label ++ rest))
  header : IsHeader kind label head (front ++ (label ++ rest))
  first : Shortest (ClosesAt label true (front ++ (label ++ rest))) front
  body : IsBody front body

theorem scanDoc_eq_some {kind : DocKind} {cs : List Char} {n : Nat} {v : Value} :
    scanDoc kind cs = some (n, v) ↔ ∃ label head front body rest,
      Document kind cs label head front body rest ∧ n = byteLength (head ++ (front ++ label)) ∧
      v = .text (String.ofList body) := by
  have hlength : ∀ head front label rest : List Char,
      byteLength (head ++ (front ++ (label ++ rest))) - byteLength (front ++ (label ++ rest)) +
        byteLength front + byteLength label = byteLength (head ++ (front ++ label)) := by
    intro head front label rest
    simp only [byteLength_append]
    omega
  simp only [scanDoc, Option.bind_eq_bind, Option.bind_eq_some_iff, pure, Option.some.injEq,
    Prod.mk.injEq]
  constructor
  · rintro ⟨⟨kind', label, lines⟩, hheader, _, hkind, front, hfront, rfl, rfl⟩
    obtain rfl : kind' = kind := by simpa [guard] using hkind
    obtain ⟨head, hhead, rfl⟩ := docHeader?_eq_some.1 hheader
    simp only at hfront
    have hfirst := beforeClosing?_eq_some.1 hfront
    obtain ⟨line, rfl, hbegins, rest, rfl, -⟩ := id hfirst.1
    obtain ⟨body, hbody⟩ := exists_body hbegins
    rw [dropNewline_of_body hbody]
    exact ⟨label, head, front, body, rest, ⟨rfl, hhead, hfirst, hbody⟩, hlength .., rfl⟩
  · rintro ⟨label, head, front, body, rest, ⟨rfl, hheader, hfirst, hbody⟩, rfl, rfl⟩
    refine ⟨⟨kind, label, _⟩, docHeader?_eq_some.2 ⟨head, hheader, rfl⟩, (), by simp [guard],
      front, beforeClosing?_eq_some.2 hfirst, hlength .., ?_⟩
    rw [dropNewline_of_body hbody]

/-- A document is found exactly where one stands: where there is a header of its kind and some line
behind it begins with the label, which no identifier goes on from. The first such line ends it; the
body is what stands in front of that line, without the terminator before it. All bounds lie between
two characters, one behind the other. -/
theorem scanDoc_finds_document (kind : DocKind) (cs : List Char) :
    ((scanDoc kind cs).isSome = true ↔ ∃ label head lines front,
      cs = head ++ lines ∧ IsHeader kind label head lines ∧ ClosesAt label true lines front) ∧
    ∀ n v, scanDoc kind cs = some (n, v) ↔ ∃ label head front body rest,
      Document kind cs label head front body rest ∧
      v = .text (String.ofList body) ∧ n = byteLength (head ++ (front ++ label)) ∧
      (Text.ofList cs).slice? (byteLength head) (byteLength (head ++ body)) = some body ∧
      byteLength (head ++ body) ≤ byteLength (head ++ front) ∧
      (Text.ofList cs).after? n = some rest := by
  refine ⟨⟨fun h => ?_, ?_⟩, fun n v => ⟨fun h => ?_, ?_⟩⟩
  · obtain ⟨⟨n, v⟩, h⟩ := Option.isSome_iff_exists.1 h
    obtain ⟨label, head, front, body, rest, hdoc, -, -⟩ := scanDoc_eq_some.1 h
    exact ⟨label, head, _, front, hdoc.text, hdoc.header, hdoc.first.1⟩
  · rintro ⟨label, head, lines, front, rfl, hheader, hcloses⟩
    obtain ⟨front, hfirst⟩ := exists_shortest ⟨front, hcloses⟩
    obtain ⟨line, rfl, hbegins, rest, rfl, -⟩ := id hfirst.1
    obtain ⟨body, hbody⟩ := exists_body hbegins
    exact Option.isSome_iff_exists.2 ⟨_, scanDoc_eq_some.2
      ⟨label, head, front, body, rest, ⟨rfl, hheader, hfirst, hbody⟩, rfl, rfl⟩⟩
  · obtain ⟨label, head, front, body, rest, hdoc, hn, hv⟩ := scanDoc_eq_some.1 h
    obtain ⟨newline, hnewline⟩ := hdoc.body.append
    have hbody : (Text.ofList cs).Has (byteLength head) (body ++ (newline ++ (label ++ rest))) :=
      ⟨head, by rw [hdoc.text, hnewline, List.append_assoc], rfl⟩
    have hrest : (Text.ofList cs).Has n rest :=
      ⟨head ++ (front ++ label), by rw [hdoc.text]; simp, hn⟩
    refine ⟨label, head, front, body, rest, hdoc, hv, hn, ?_, ?_, hrest.after?⟩
    · rw [byteLength_append]
      exact hbody.slice?
    · rw [hnewline, ← List.append_assoc, byteLength_append _ newline]
      exact Nat.le_add_right ..
  · rintro ⟨label, head, front, body, rest, hdoc, hv, hn, -⟩
    exact scanDoc_eq_some.2 ⟨label, head, front, body, rest, hdoc, hn, hv⟩

end PhpSyntax.Php
