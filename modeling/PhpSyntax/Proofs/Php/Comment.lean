import Mathlib.Data.List.DropRight
import PhpSyntax.Php.Trivia
import PhpSyntax.Proofs.Peg.Skipping
import PhpSyntax.Proofs.Php.Table

namespace PhpSyntax.Php

open Peg Regex
open Regex.Program (Match)

section Parts

/-- The characters of a comment that begin nothing: no ends of lines, no question marks. -/
def plainSet : CharSet :=
  ⟨[(0, 9), (11, 12), (14, 62), (64, 0x10FFFF)]⟩

/-- The characters that question marks of a comment may stand in front of. -/
def markedSet : CharSet :=
  ⟨[(0, 9), (11, 12), (14, 61), (64, 0x10FFFF)]⟩

def marksRegex : Regex :=
  .rounds 1 none true (.text ['?'])

def partRegex : Regex :=
  .alt (.set plainSet) (.seq marksRegex (.set markedSet))

def lineEndRegex : Regex :=
  .alt (.text ['\r', '\n']) (.alt (.text ['\n']) (.alt (.text ['\r']) (.anchor .textEnd)))

/-- Question marks at the end of a line, with that end. -/
def endingRegex : Regex :=
  .rounds 0 (some 1) true (.seq marksRegex lineEndRegex)

def lineCommentRegex : Regex :=
  .seq (.alt (.text ['/', '/']) (.text ['#'])) (.seq (.rounds 0 none true partRegex) endingRegex)

def blockCommentRegex : Regex :=
  .seq (.text ['/', '*']) (.seq (.rounds 0 none false (.set .all)) (.text ['*', '/']))

def triviaRegex : Regex :=
  .alt (.rounds 1 none true (.set .space)) (.alt lineCommentRegex blockCommentRegex)

theorem trivia_regex :
    trivia.regex? = some (.seq (.anchor .textStart) (.rounds 1 none true triviaRegex)) := by
  decide +kernel

theorem trivia_repeats {l : Lexeme} (hl : l.Read) (ht : l.toTerminal = trivia) :
    l.Repeats triviaRegex := by
  have hprogram : trivia.program? = some l.program := ht ▸ hl
  rw [Terminal.program?_eq, trivia_regex] at hprogram
  exact ⟨(Option.some.inj hprogram).symm, by decide, by decide, by decide⟩

end Parts

section Marks

variable {n : Nat} {rest : List Char}

abbrev questionMarks (n : Nat) : List Char :=
  List.replicate n '?'

theorem prefers_marks (n : Nat) (hrest : rest.head? ≠ some '?') :
    Prefers marksRegex.explore (questionMarks (n + 1)) rest := by
  have hhas : ∀ c, (CharSet.single '?').has c = decide (c = '?') := single_has '?'
  have hfirst : Prefers (taking (.single '?')) ['?'] (questionMarks n ++ rest) :=
    prefers_taking (by simp [hhas]) _
  have hmore : Prefers (Regex.many (taking (.single '?')) true) (questionMarks n) rest := by
    refine prefers_many_taking (fun c hc => ?_) ?_
    · rw [hhas, decide_eq_true_eq]
      exact List.eq_of_mem_replicate hc
    · cases rest with
      | nil => rfl
      | cons c rest =>
        have hc : c ≠ '?' := fun h => hrest (congrArg some h)
        simp [hhas, hc]
  rw [marksRegex, explore_rounds_one, explore_char]
  exact hfirst.bind hmore

/-- What fails at the end of a run of question marks, and within it, fails behind any of them. -/
theorem fails_marked {f : Match → List Match} (hrest : rest.head? ≠ some '?')
    (hf : ∀ k, Fails f (questionMarks k ++ rest)) :
    Fails (fun m => (marksRegex.explore m).flatMap f) (questionMarks n ++ rest) := by
  have htext : language (.text ['?']) = language (.set (.single '?')) :=
    language_ofSet (s := .single '?') (c := '?') rfl
  refine Fails.later (takenFrom_explore marksRegex) fun front hfront behind hsplit => ?_
  have hmarks : ∀ c ∈ front, c = '?' := by
    intro c hc
    have hrun : front ∈ (rounds 1 none true (.set (.single '?'))).language := by
      rw [language, ← htext]
      exact hfront
    have hhas := (mem_language_run hrun).2 c hc
    rwa [single_has, decide_eq_true_eq] at hhas
  obtain ⟨k, rfl⟩ : ∃ k, behind = questionMarks k ++ rest := by
    obtain ⟨more, rfl, rfl⟩ | ⟨left, hleft, rfl⟩ := List.append_eq_append_iff.1 hsplit
    · cases more with
      | nil => exact ⟨0, rfl⟩
      | cons c more =>
        obtain rfl := hmarks c (by simp)
        exact absurd rfl hrest
    · obtain ⟨-, -, hleft⟩ := List.replicate_eq_append_iff.1 hleft
      exact ⟨left.length, by rw [questionMarks, ← hleft]⟩
  exact hf k

end Marks

section Text

/-- What a comment goes on with, part by part: nothing that ends a line or that a question mark in
front of it makes a closing tag. -/
inductive CommentText : List Char → Prop where
  | nil : CommentText []
  | plain {c : Char} {cs : List Char} : plainSet.has c = true → CommentText cs → CommentText (c :: cs)
  | marked (n : Nat) {c : Char} {cs : List Char} : markedSet.has c = true → CommentText cs →
    CommentText (questionMarks (n + 1) ++ c :: cs)

/-- No line ends in a text and no closing tag stands in it. -/
structure OnOneLine (cs : List Char) : Prop where
  line : ∀ c ∈ cs, c ≠ '\n' ∧ c ≠ '\r'
  code : ¬['?', '>'] <:+: cs

theorem plainSet_has {c : Char} : plainSet.has c = true ↔ c ≠ '\n' ∧ c ≠ '\r' ∧ c ≠ '?' := by
  have hc := toNat_le_greatest c
  simp only [CharSet.has, Unicode.covers, plainSet, List.any_cons, List.any_nil, Bool.or_false,
    Bool.or_eq_true, Bool.and_eq_true, decide_eq_true_eq, ne_eq, ← Char.toNat_inj, Char.reduceToNat]
  omega

theorem markedSet_has {c : Char} :
    markedSet.has c = true ↔ c ≠ '\n' ∧ c ≠ '\r' ∧ c ≠ '?' ∧ c ≠ '>' := by
  have hc := toNat_le_greatest c
  simp only [CharSet.has, Unicode.covers, markedSet, List.any_cons, List.any_nil, Bool.or_false,
    Bool.or_eq_true, Bool.and_eq_true, decide_eq_true_eq, ne_eq, ← Char.toNat_inj, Char.reduceToNat]
  omega

/-- Text on one line is that of a comment up to the question marks at its end. -/
theorem OnOneLine.split {cs : List Char} (h : OnOneLine cs) :
    ∃ body n, cs = body ++ questionMarks n ∧ CommentText body := by
  induction cs with
  | nil => exact ⟨[], 0, rfl, .nil⟩
  | cons c cs ih =>
    obtain ⟨hc, hline⟩ := List.forall_mem_cons.1 h.line
    have hcode : ¬['?', '>'] <:+: cs := fun hin => h.code (List.infix_cons hin)
    obtain ⟨body, n, rfl, hbody⟩ := ih ⟨hline, hcode⟩
    by_cases hmark : c = '?'
    · subst hmark
      cases hbody with
      | nil => exact ⟨[], n + 1, rfl, .nil⟩
      | @plain d cs hd hcs =>
        obtain ⟨hfeed, hreturn, hmark⟩ := plainSet_has.1 hd
        have hclose : d ≠ '>' := by
          rintro rfl
          exact h.code ⟨[], cs ++ questionMarks n, rfl⟩
        have hmarked := markedSet_has.2 ⟨hfeed, hreturn, hmark, hclose⟩
        exact ⟨'?' :: d :: cs, n, rfl, .marked 0 hmarked hcs⟩
      | @marked k d cs hd hcs =>
        exact ⟨questionMarks (k + 2) ++ d :: cs, n, rfl, .marked (k + 1) hd hcs⟩
    · exact ⟨c :: body, n, rfl, .plain (plainSet_has.2 ⟨hc.1, hc.2, hmark⟩) hbody⟩

/-- No part of a comment begins with the question marks at its end or behind them. -/
theorem fails_part {n : Nat} {rest : List Char}
    (h : ∀ c ∈ rest.head?, c = '\n' ∨ c = '\r' ∨ c = '>' ∧ n ≠ 0) :
    Fails partRegex.explore (questionMarks n ++ rest) := by
  have hrest : rest.head? ≠ some '?' := by
    intro hhead
    simpa using h '?' hhead
  have hplain : Fails (taking plainSet) (questionMarks n ++ rest) := by
    refine fails_taking ?_
    cases n with
    | succ n => rfl
    | zero =>
      cases rest with
      | nil => rfl
      | cons c rest =>
        obtain rfl | rfl | ⟨-, hn⟩ := h c rfl
        · rfl
        · rfl
        · exact absurd rfl hn
  have hmarked : ∀ k, Fails (taking markedSet) (questionMarks k ++ rest) := by
    intro k
    refine fails_taking ?_
    cases k with
    | succ k => rfl
    | zero =>
      cases rest with
      | nil => rfl
      | cons c rest =>
        obtain rfl | rfl | ⟨rfl, -⟩ := h c rfl <;> rfl
  exact hplain.both (fails_marked hrest hmarked)

theorem prefers_text {body rest : List Char} (hbody : CommentText body)
    (hrest : Fails partRegex.explore rest) :
    Prefers (Regex.many partRegex.explore true) body rest := by
  have hshorter : ∀ m, ∀ m' ∈ partRegex.explore m, m'.stop.rest.length < m.stop.rest.length :=
    fun m m' hm' => explore_shorter (by decide) hm'
  induction hbody with
  | nil => exact prefers_many_nil hshorter hrest
  | @plain c cs hc hcs ih =>
    have hround : Prefers partRegex.explore [c] (cs ++ rest) := (prefers_taking hc _).first
    exact prefers_many_cons hshorter hround ih
  | @marked n c cs hc hcs ih =>
    have hmark : c ≠ '?' := (markedSet_has.1 hc).2.2.1
    have hplain : Fails (taking plainSet) (questionMarks (n + 1) ++ [c] ++ (cs ++ rest)) :=
      fails_taking (by simp [questionMarks, List.replicate_succ]; decide)
    have hmarks : Prefers marksRegex.explore (questionMarks (n + 1)) ([c] ++ (cs ++ rest)) :=
      prefers_marks n (by simpa using hmark)
    have hround : Prefers partRegex.explore (questionMarks (n + 1) ++ [c]) (cs ++ rest) :=
      .second hplain (hmarks.bind (prefers_taking hc _))
    have hall := prefers_many_cons hshorter hround ih
    rwa [List.append_assoc, List.singleton_append] at hall

end Text

section Endings

variable {rest : List Char}

theorem prefers_lineEnd_feed (rest : List Char) : Prefers lineEndRegex.explore ['\n'] rest := by
  have hreturn : Fails (spelling ['\r', '\n']) ('\n' :: rest) := fails_spelling (by simp)
  exact .second hreturn (prefers_spelling ['\n'] rest).first

theorem prefers_lineEnd_both (rest : List Char) :
    Prefers lineEndRegex.explore ['\r', '\n'] rest :=
  (prefers_spelling ['\r', '\n'] rest).first

theorem prefers_lineEnd_return (h : rest.head? ≠ some '\n') :
    Prefers lineEndRegex.explore ['\r'] rest := by
  have hboth : Fails (spelling ['\r', '\n']) ('\r' :: rest) := by
    refine fails_spelling fun hprefix => h ?_
    obtain ⟨rest', hrest⟩ := hprefix
    simp at hrest
    simp [← hrest]
  have hfeed : Fails (spelling ['\n']) ('\r' :: rest) := fails_spelling (by simp)
  exact .second hboth (.second hfeed (prefers_spelling ['\r'] rest).first)

theorem prefers_lineEnd_end : Prefers lineEndRegex.explore [] [] := by
  have hfails : ∀ word, word ≠ [] → Fails (spelling word) [] :=
    fun word hword => fails_spelling (by simpa using hword)
  have hend : Prefers (explore (.anchor .textEnd)) [] [] := by
    intro m hm
    have hmeets : m.stop.meets .textEnd = true := by
      rw [Place.meets, hm]
      rfl
    exact ⟨m, by rw [explore, if_pos hmeets]; rfl, .refl m⟩
  exact .second (hfails _ (by simp)) (.second (hfails _ (by simp)) (.second (hfails _ (by simp)) hend))

theorem prefers_ending (n : Nat) {lineEnd : List Char}
    (hmark : (lineEnd ++ rest).head? ≠ some '?') (h : Prefers lineEndRegex.explore lineEnd rest) :
    Prefers endingRegex.explore (questionMarks (n + 1) ++ lineEnd) rest := by
  rw [endingRegex, explore_optional]
  exact ((prefers_marks n hmark).bind h).first

/-- Without question marks there is nothing that an end of a line is taken with. -/
theorem prefers_ending_plain (h : rest.head? ≠ some '?') : Prefers endingRegex.explore [] rest := by
  have hmark : Fails (taking (.single '?')) rest := by
    refine fails_taking ?_
    cases rest with
    | nil => rfl
    | cons c rest =>
      have hc : c ≠ '?' := fun heq => h (congrArg some heq)
      simp [single_has, hc]
  have hmarks : Fails marksRegex.explore rest := by
    rw [marksRegex, explore_rounds_one, explore_char]
    exact hmark.bind
  rw [endingRegex, explore_optional]
  exact .second hmarks.bind (prefers_nothing rest)

/-- In front of a closing tag no question marks are taken. -/
theorem prefers_ending_tag (n : Nat) (rest : List Char) :
    Prefers endingRegex.explore [] (questionMarks n ++ '>' :: rest) := by
  have hfails : ∀ k, Fails lineEndRegex.explore (questionMarks k ++ '>' :: rest) := by
    intro k
    obtain ⟨c, cs, hcs, hc⟩ : ∃ c cs, questionMarks k ++ '>' :: rest = c :: cs ∧
        c ≠ '\r' ∧ c ≠ '\n' := by
      cases k with
      | zero => exact ⟨'>', rest, rfl, by decide⟩
      | succ k => exact ⟨'?', questionMarks k ++ '>' :: rest, rfl, by decide⟩
    rw [hcs]
    have hword : ∀ d word, d = '\r' ∨ d = '\n' → Fails (spelling (d :: word)) (c :: cs) := by
      intro d word hd
      refine fails_spelling fun hprefix => ?_
      obtain ⟨rfl, -⟩ := List.cons_prefix_cons.1 hprefix
      exact hd.elim hc.1 hc.2
    have hend : Fails (explore (.anchor .textEnd)) (c :: cs) := by
      intro m hm
      have hmeets : m.stop.meets .textEnd = false := by
        rw [Place.meets, hm]
        rfl
      rw [explore, hmeets]
      rfl
    exact (hword '\r' _ (.inl rfl)).both
      ((hword '\n' _ (.inr rfl)).both ((hword '\r' _ (.inl rfl)).both hend))
  rw [endingRegex, explore_optional]
  exact .second (fails_marked (by simp) hfails) (prefers_nothing _)

end Endings

section Rounds

variable {c : Char} {rest : List Char}

theorem fails_blanks (h : rest.head?.any CharSet.space.has = false) :
    Fails (explore (.rounds 1 none true (.set .space))) rest := by
  rw [explore_rounds_one]
  exact (fails_taking h).bind

theorem prefers_blanks {run : List Char} (hc : CharSet.space.has c = true)
    (hrun : ∀ c ∈ run, CharSet.space.has c = true)
    (hrest : rest.head?.any CharSet.space.has = false) :
    Prefers triviaRegex.explore (c :: run) rest := by
  refine Prefers.first ?_
  rw [explore_rounds_one]
  exact (prefers_taking hc _).bind (prefers_many_taking hrun hrest)

def openers : List (List Char) :=
  [['/', '/'], ['#']]

theorem prefers_comment {opener body ending : List Char} (hopener : opener ∈ openers)
    (hbody : CommentText body) (hpart : Fails partRegex.explore (ending ++ rest))
    (hending : Prefers endingRegex.explore ending rest) :
    Prefers triviaRegex.explore (opener ++ (body ++ ending)) rest := by
  have htext := prefers_text hbody hpart
  rw [← explore_rounds] at htext
  have hline : Prefers lineCommentRegex.explore (opener ++ (body ++ ending)) rest := by
    refine Prefers.bind ?_ (htext.bind hending)
    simp only [openers, List.mem_cons, List.not_mem_nil, or_false] at hopener
    obtain rfl | rfl := hopener
    · exact (prefers_spelling ['/', '/'] _).first
    · exact .second (fails_spelling (by simp)) (prefers_spelling ['#'] _)
  refine .second (fails_blanks ?_) hline.first
  simp only [openers, List.mem_cons, List.not_mem_nil, or_false] at hopener
  obtain rfl | rfl := hopener <;> rfl

theorem fails_trivia (hspace : rest.head?.any CharSet.space.has = false)
    (hslash : rest.head? ≠ some '/') (hhash : rest.head? ≠ some '#') :
    Fails triviaRegex.explore rest := by
  have hword : ∀ c word, (c = '/' ∨ c = '#') → Fails (spelling (c :: word)) rest := by
    intro c word hc
    refine fails_spelling fun hprefix => ?_
    obtain ⟨tail, rfl⟩ := hprefix
    obtain rfl | rfl := hc
    · exact hslash rfl
    · exact hhash rfl
  have hopeners := (hword '/' ['/'] (.inl rfl)).both (hword '#' [] (.inr rfl))
  exact (fails_blanks hspace).both
    (hopeners.bind.both (hword '/' ['*'] (.inl rfl)).bind)

end Rounds

section Skipping

variable {text : Text} {offset : Nat} {opener front cs rest : List Char} (quiet : Bool)

theorem grammar_trivia : ∃ l : Lexeme, grammar.trivia = some l ∧ l.Repeats triviaRegex := by
  obtain ⟨l, htrivia, hl, hread⟩ := Grammar.trivia_of_link grammar_linked
  exact ⟨l, htrivia, trivia_repeats hread hl⟩

/-- Skipping passes over a round, and goes on from there as it would have begun there. -/
theorem leading_through (hat : text.Has offset (front ++ rest))
    (hround : Prefers triviaRegex.explore front rest) :
    leading grammar.trivia text ⟨true, quiet⟩ offset =
      leading grammar.trivia text ⟨true, quiet⟩ (offset + byteLength front) := by
  obtain ⟨l, htrivia, hl⟩ := grammar_trivia
  rw [htrivia]
  exact leading_of_skips (hl.skips_round hat hround (skips_leading l text quiet _)) quiet

theorem leading_ends (hat : text.Has offset rest) (hfails : Fails triviaRegex.explore rest) :
    leading grammar.trivia text ⟨true, quiet⟩ offset = offset := by
  obtain ⟨l, htrivia, hl⟩ := grammar_trivia
  rw [htrivia]
  exact leading_of_skips (hl.skips_stop hat hfails) quiet

theorem leading_blank {c : Char} (hc : CharSet.space.has c = true)
    (hat : text.Has offset (c :: rest)) :
    leading grammar.trivia text ⟨true, quiet⟩ offset =
      leading grammar.trivia text ⟨true, quiet⟩ (offset + byteLength [c]) := by
  -- The white space behind the first character is skipped with it, and from there on as well.
  let run := rest.takeWhile CharSet.space.has
  let left := rest.dropWhile CharSet.space.has
  have hrest : rest = run ++ left := List.takeWhile_append_dropWhile.symm
  have hrun : ∀ d ∈ run, CharSet.space.has d = true := fun d hd => List.mem_takeWhile_imp hd
  have hleft : left.head?.any CharSet.space.has = false := by
    have hnot := List.head?_dropWhile_not CharSet.space.has rest
    cases hhead : left.head? with
    | none => rfl
    | some d =>
      rw [show (rest.dropWhile CharSet.space.has).head? = some d from hhead] at hnot
      exact hnot
  clear_value run left
  subst hrest
  have hmove : text.Has (offset + byteLength [c]) (run ++ left) :=
    Text.Has.move (show text.Has offset ([c] ++ (run ++ left)) from hat)
  have hat : text.Has offset (c :: run ++ left) := hat
  rw [leading_through quiet hat (prefers_blanks hc hrun hleft)]
  cases run with
  | nil => rfl
  | cons d run =>
    obtain ⟨hd, hrun⟩ := List.forall_mem_cons.1 hrun
    rw [leading_through quiet hmove (prefers_blanks hd hrun hleft), Nat.add_assoc,
      ← byteLength_append]
    rfl

theorem CommentText.getLast? {body : List Char} (hbody : CommentText body) :
    body.getLast? ≠ some '?' := by
  have hcons : ∀ {c : Char} {cs : List Char}, c ≠ '?' → cs.getLast? ≠ some '?' →
      (c :: cs).getLast? ≠ some '?' := by
    intro c cs hc hcs
    rw [List.getLast?_cons]
    cases hlast : cs.getLast? with
    | none => simpa using hc
    | some d =>
      rw [hlast] at hcs
      simpa using hcs
  induction hbody with
  | nil => nofun
  | plain hc _ ih => exact hcons (plainSet_has.1 hc).2.2 ih
  | @marked n c cs hc _ ih =>
    rw [List.getLast?_append_of_ne_nil _ (List.cons_ne_nil c cs)]
    exact hcons (markedSet_has.1 hc).2.2.1 ih

theorem CommentText.rdropWhile {body : List Char} (hbody : CommentText body) (n : Nat) :
    (body ++ questionMarks n).rdropWhile (· == '?') = body := by
  induction n with
  | zero =>
    rw [questionMarks, List.replicate_zero, List.append_nil, List.rdropWhile_eq_self_iff]
    intro hne hlast
    refine hbody.getLast? ?_
    rw [List.getLast?_eq_some_getLast hne, beq_iff_eq.1 hlast]
  | succ n ih =>
    rw [questionMarks, List.replicate_succ', ← List.append_assoc,
      List.rdropWhile_concat_pos _ _ _ rfl]
    exact ih

/-- A line comment is skipped with the end of its line. -/
theorem comment_newline (hopener : opener ∈ openers) (hcs : OnOneLine cs) {e : Char}
    (he : e = '\n' ∨ e = '\r') (hat : text.Has offset (opener ++ cs ++ e :: rest)) :
    leading grammar.trivia text ⟨true, quiet⟩ offset =
      leading grammar.trivia text ⟨true, quiet⟩ (offset + byteLength (opener ++ cs ++ [e])) := by
  obtain ⟨body, n, rfl, hbody⟩ := hcs.split
  have hblank : ∀ c, c = '\n' ∨ c = '\r' → CharSet.space.has c = true := by
    rintro c (rfl | rfl) <;> decide
  have hmark : ∀ c, c = '\n' ∨ c = '\r' → c ≠ '?' := by
    rintro c (rfl | rfl) <;> decide
  have hpart : ∀ rest, Fails partRegex.explore (questionMarks n ++ e :: rest) := by
    refine fun rest => fails_part fun c hc => ?_
    obtain rfl := Option.some.inj hc
    exact he.elim .inl fun he => .inr (.inl he)
  have hmove : text.Has (offset + byteLength (opener ++ (body ++ questionMarks n) ++ [e])) rest := by
    rw [List.append_cons] at hat
    exact hat.move
  cases n with
  | zero =>
    -- The comment ends in front of the end of the line, which is white space.
    have hround := prefers_comment hopener hbody (hpart rest)
      (prefers_ending_plain (by simpa using hmark e he))
    rw [leading_through quiet hat hround, leading_blank quiet (hblank e he) hat.move, Nat.add_assoc,
      ← byteLength_append]
  | succ n =>
    by_cases hboth : e = '\r' ∧ rest.head? = some '\n'
    · -- The comment takes both characters of the end of the line.
      obtain ⟨rfl, hhead⟩ := hboth
      obtain ⟨rest, rfl⟩ := List.head?_eq_some_iff.1 hhead
      have hending : Prefers endingRegex.explore (questionMarks (n + 1) ++ ['\r', '\n']) rest :=
        prefers_ending n nofun (prefers_lineEnd_both rest)
      have hround := prefers_comment hopener hbody (by simpa using hpart ('\n' :: rest)) hending
      have hat : text.Has offset
          (opener ++ (body ++ (questionMarks (n + 1) ++ ['\r', '\n'])) ++ rest) := by
        simpa using hat
      rw [leading_through quiet hat hround, leading_blank quiet (hblank '\n' (.inl rfl)) hmove,
        Nat.add_assoc, ← byteLength_append]
      simp
    · have hend : Prefers lineEndRegex.explore [e] rest := by
        obtain rfl | rfl := he
        · exact prefers_lineEnd_feed rest
        · exact prefers_lineEnd_return fun hhead => hboth ⟨rfl, hhead⟩
      have hending : Prefers endingRegex.explore (questionMarks (n + 1) ++ [e]) rest :=
        prefers_ending n (by simpa using hmark e he) hend
      have hround := prefers_comment hopener hbody (by simpa using hpart rest) hending
      have hat : text.Has offset (opener ++ (body ++ (questionMarks (n + 1) ++ [e])) ++ rest) := by
        simpa using hat
      rw [leading_through quiet hat hround]
      simp

/-- In front of a closing tag a line comment ends, but for the question marks at its end. -/
theorem comment_tag (hopener : opener ∈ openers) (hcs : OnOneLine cs)
    (hat : text.Has offset (opener ++ cs ++ '?' :: '>' :: rest)) :
    leading grammar.trivia text ⟨true, quiet⟩ offset =
      offset + byteLength (opener ++ cs.rdropWhile (· == '?')) := by
  obtain ⟨body, n, rfl, hbody⟩ := hcs.split
  have hsplit : opener ++ (body ++ questionMarks n) ++ '?' :: '>' :: rest =
      opener ++ (body ++ []) ++ (questionMarks (n + 1) ++ '>' :: rest) := by
    simp [questionMarks, List.replicate_succ']
  rw [hsplit] at hat
  have hpart : Fails partRegex.explore (questionMarks (n + 1) ++ '>' :: rest) :=
    fails_part (by simp)
  have hround : Prefers triviaRegex.explore (opener ++ (body ++ []))
      (questionMarks (n + 1) ++ '>' :: rest) :=
    prefers_comment hopener hbody hpart (prefers_ending_tag (n + 1) rest)
  have hstop : Fails triviaRegex.explore (questionMarks (n + 1) ++ '>' :: rest) :=
    fails_trivia rfl nofun nofun
  rw [hbody.rdropWhile, leading_through quiet hat hround, leading_ends quiet hat.move hstop,
    List.append_nil]

/-- A line comment at the end of the text is skipped. -/
theorem comment_end (hopener : opener ∈ openers) (hcs : OnOneLine cs)
    (hat : text.Has offset (opener ++ cs)) :
    leading grammar.trivia text ⟨true, quiet⟩ offset = offset + byteLength (opener ++ cs) := by
  obtain ⟨body, n, rfl, hbody⟩ := hcs.split
  have hpart : Fails partRegex.explore (questionMarks n ++ []) := fails_part nofun
  have hending : Prefers endingRegex.explore (questionMarks n) [] := by
    cases n with
    | zero => exact prefers_ending_plain nofun
    | succ n =>
      have hmarks : Prefers endingRegex.explore (questionMarks (n + 1) ++ []) [] :=
        prefers_ending n nofun prefers_lineEnd_end
      rwa [List.append_nil] at hmarks
  have hround := prefers_comment hopener hbody hpart hending
  have hstop : Fails triviaRegex.explore [] := fails_trivia rfl nofun nofun
  rw [← List.append_nil (opener ++ (body ++ questionMarks n))] at hat
  rw [leading_through quiet hat hround, leading_ends quiet hat.move hstop]

/-- A line comment ends exactly at the closing tag if and only if no question mark is in front. -/
theorem comment_tag_exact (hopener : opener ∈ openers) (hcs : OnOneLine cs)
    (hat : text.Has offset (opener ++ cs ++ '?' :: '>' :: rest)) :
    leading grammar.trivia text ⟨true, quiet⟩ offset = offset + byteLength (opener ++ cs) ↔
      cs.getLast? ≠ some '?' := by
  obtain ⟨body, n, rfl, hbody⟩ := hcs.split
  rw [comment_tag quiet hopener hcs hat, hbody.rdropWhile]
  simp only [byteLength_append]
  cases n with
  | zero => simpa [questionMarks, byteLength] using hbody.getLast?
  | succ n =>
    have hpos := utf8Size_pos '?'
    have hlast : (body ++ questionMarks (n + 1)).getLast? = some '?' := by
      rw [questionMarks, List.replicate_succ', ← List.append_assoc, List.getLast?_concat]
    rw [hlast, questionMarks, List.replicate_succ, byteLength]
    refine ⟨fun h => ?_, fun h => absurd rfl h⟩
    omega

end Skipping

end PhpSyntax.Php
