import PhpSyntax.Proofs.Peg.Locating
import PhpSyntax.Proofs.Peg.Taking
import PhpSyntax.Proofs.Php.Heredoc
import PhpSyntax.Proofs.Php.Processors

namespace PhpSyntax.Php

open Peg Regex

variable {skipped : Option Lexeme}

/-- What a rule makes of a value depends on nested parses as far as its processor does. -/
theorem Beside.shape {ctx ctx' : Context} (h : Beside ctx ctx') {d : RuleDef} {v : Value}
    (hp : ∀ p, d.processor = some p → ∀ w, LinkedRule.tagged ⟨d.name, .endOfInput, d.captureAs,
      d.processor, d.ifNoMatch, d.pick, d.asNode⟩ v = w → p w ctx = p w ctx') :
    RuleDef.shape d ctx v = RuleDef.shape d ctx' v := by
  have hplace : ∀ v, LinkedRule.place ctx v = LinkedRule.place ctx' v := by
    intro v
    cases v with
    | node n => simp only [LinkedRule.place, h.span, h.input, h.lines, h.options]
    | _ => rfl
  simp only [RuleDef.shape, LinkedRule.shape, LinkedRule.process, hplace]
  cases hr : d.processor with
  | none => rfl
  | some p =>
    rw [hr] at hp
    simp only [hp p rfl _ rfl]

theorem beside_nested (span : Span) (input : Input) (lines : Lines) (options : Options)
    (r r' : String → String → Nat → Except Failure (Option Value)) :
    Beside ⟨span, input, lines, options, r⟩ ⟨span, input, lines, options, r'⟩ :=
  ⟨rfl, rfl, rfl, rfl⟩

/-- A rule whose processor does not depend on nested parses asks for none. -/
theorem Alone.locates {d : RuleDef} (h : ∀ p, d.processor = some p → Alone p) :
    d.Locates skipped := by
  intro input lines options calls trivia offset m _ _ reparse reparse' _
  have hbeside := beside_nested ⟨m.start, m.stop⟩ input lines options reparse reparse'
  exact hbeside.shape fun p hp w _ => h p hp w _ _ hbeside

/-- The terminal for double-quoted strings yields what stands between its quotes. -/
theorem doubleQuoted_frames :
    ((re "\"((?:[^\"\\\\]|\\\\[\\s\\S])*)\"").withGroup 1).Frames
      (['\x22'].map CharSet.single) (['\x22'].map CharSet.single)
      [.after 1, .after 0, .inside, .inside, .inside, .inside, .inside, .inside, .before 1,
        .before 0, .before 0] := by
  decide +kernel

section Takes

variable {text : Text} {calls : Calls} {trivia : Bool} {offset : Nat} {m : Matched}
  (hb : text.Boundary offset)

include hb

theorem doubleQuotedString_takes
    (hm : Matches skipped text calls doubleQuotedString.pattern trivia offset m) :
    ∃ body rest, text.Has m.start ('\x22' :: (body ++ rest)) ∧
      m.start + 1 + byteLength body ≤ m.stop ∧
      m.value = .record ⟨[("string", .text (String.ofList body))]⟩ := by
  obtain ⟨m', hm', hend, hstart, hvalue⟩ := matches_field hm
  obtain ⟨taken, body, more, rest, hhas, htaken, -, hstop, htext⟩ :=
    matches_framed hb hm' doubleQuoted_frames
  obtain rfl := htaken.literal
  rw [hstart (by omega), hvalue, htext, hend, hstop]
  refine ⟨body, more ++ rest, hhas, ?_, rfl⟩
  have hquote : byteLength ['\x22'] = 1 := rfl
  rw [byteLength_append, byteLength_append, hquote]
  omega

theorem heredoc_takes (hm : Matches skipped text calls heredoc.pattern trivia offset m) :
    ∃ head body rest, text.Has m.start (head ++ (body ++ rest)) ∧
      headerLength (text.slice m.start m.stop) = byteLength head ∧
      m.start + byteLength head + byteLength body ≤ m.stop ∧
      m.value = .record ⟨[("body", .text (String.ofList body))]⟩ := by
  obtain ⟨m', ⟨start, hlead, hfound⟩, hstop, hstart, hvalue⟩ := matches_field hm
  obtain ⟨-, cs, hcs⟩ := hlead.placed hb
  obtain ⟨r, hr, rfl⟩ := Option.map_eq_some_iff.1 hfound
  rw [hcs.after?, Option.bind_some] at hr
  obtain ⟨head, body, newline, label, rest, hne, rfl, hbody, hlength, hheader⟩ :=
    scanDoc_some (show scanDoc .heredoc cs = some (r.1, r.2) from hr)
  rw [hstop, hstart (Nat.le_add_right _ _)]
  refine ⟨head, body, newline ++ (label ++ rest), hcs, ?_, ?_, ?_⟩
  · rw [← hheader]
    have htaken : text.Has start (head ++ (body ++ (newline ++ label)) ++ rest) := by
      simpa using hcs
    simp only [hlength, htaken.slice]
  · simp only [hlength, byteLength_append]
    omega
  · rw [hvalue]
    simp only [hbody]
    rfl

end Takes

theorem doubleQuotedString_locates : doubleQuotedString.Locates skipped := by
  intro input lines options calls trivia offset m hb hm reparse reparse' hsame
  obtain ⟨body, rest, hhas, -, hvalue⟩ := doubleQuotedString_takes hb hm
  have hbehind : input.text.Has (m.start + byteLength ['\x22']) (body ++ rest) := hhas.move
  have hholds : input.text.Holds (m.start + 1) (.ofString (String.ofList body)) := hbehind.holds
  refine (beside_nested _ input lines options reparse reparse').shape ?_
  rintro p ⟨⟩ w rfl
  rw [hvalue]
  have htext : (NodeOf.ofFields "StringLiteral"
      ⟨[("string", .text (String.ofList body))]⟩).text? "string" = some (String.ofList body) := rfl
  show interpolateDoubleQuoted (.node (NodeOf.ofFields "StringLiteral" _)) _ =
    interpolateDoubleQuoted (.node (NodeOf.ofFields "StringLiteral" _)) _
  simp only [interpolateDoubleQuoted, htext, Option.getD_some, hsame "StringParts" _ _ hholds]

theorem heredoc_locates : heredoc.Locates skipped := by
  intro input lines options calls trivia offset m hb hm reparse reparse' hsame
  obtain ⟨head, body, rest, hhas, hheader, -, hvalue⟩ := heredoc_takes hb hm
  refine (beside_nested _ input lines options reparse reparse').shape ?_
  rintro p ⟨⟩ w rfl
  rw [hvalue]
  have htext : (NodeOf.ofFields "Heredoc" ⟨[("body", .text (String.ofList body))]⟩).text? "body" =
      some (String.ofList body) := rfl
  show interpolateHeredoc (.node (NodeOf.ofFields "Heredoc" _)) _ =
    interpolateHeredoc (.node (NodeOf.ofFields "Heredoc" _)) _
  simp only [interpolateHeredoc, htext, Option.getD_some, Context.text, hheader,
    hsame "HeredocParts" _ _ hhas.move.holds]

set_option maxRecDepth 20000 in
theorem rules_alone : (rules.filter fun d => d.name != "DoubleQuotedString" &&
    d.name != "Heredoc").filterMap (·.processor) = [assembleProgram, checkHaltCompiler,
      rejectNestedHaltCompiler, foldIf, foldIf, checkTry, foldBinary, foldBinary, foldBinary,
      foldMembers, foldTernary, foldBinaryRight, foldBinary, foldBinary, foldBinary, foldBinary,
      foldBinary, foldBinary, foldBinary, foldBinary, foldBinary, foldBinary, foldBinary,
      foldMembers, foldMembers, nonEmptyParts, nonEmptyParts, foldMembers, foldMembers] :=
  rfl

theorem rules_nodup : (rules.map (·.name)).Nodup := by
  obtain ⟨index, hindex, -⟩ := bind_ok grammar_linked
  exact Grammar.number_nodup hindex

theorem rule_unique {d d' : RuleDef} (hd : d ∈ rules) (hd' : d' ∈ rules)
    (hname : d.name = d'.name) : d = d' :=
  List.inj_on_of_nodup_map rules_nodup hd hd' hname

theorem doubleQuotedString_mem : doubleQuotedString ∈ rules := by
  simp [rules, stringRules]

theorem heredoc_mem : heredoc ∈ rules := by
  simp [rules, stringRules]

/-- The rules of the language parse texts again only where they stand. -/
theorem rules_locate {d : RuleDef} (hd : d ∈ rules) : d.Locates skipped := by
  by_cases hdouble : d.name = "DoubleQuotedString"
  · rw [rule_unique hd doubleQuotedString_mem hdouble]
    exact doubleQuotedString_locates
  by_cases hheredoc : d.name = "Heredoc"
  · rw [rule_unique hd heredoc_mem hheredoc]
    exact heredoc_locates
  refine Alone.locates fun p hp => ?_
  have hmem : p ∈ (rules.filter fun d => d.name != "DoubleQuotedString" &&
      d.name != "Heredoc").filterMap (·.processor) :=
    List.mem_filterMap.2 ⟨d, List.mem_filter.2 ⟨hd, by simp [hdouble, hheredoc]⟩, hp⟩
  have hsub : (rules.filter fun d => d.name != "DoubleQuotedString" &&
      d.name != "Heredoc").filterMap (·.processor) ⊆ [foldBinary, foldBinaryRight, foldTernary,
        foldIf, foldMembers, nonEmptyParts, assembleProgram, checkHaltCompiler,
        rejectNestedHaltCompiler, checkTry] := by
    rw [rules_alone]
    simp
  have hall : ∀ p ∈ [foldBinary, foldBinaryRight, foldTernary, foldIf, foldMembers, nonEmptyParts,
      assembleProgram, checkHaltCompiler, rejectNestedHaltCompiler, checkTry], Alone p := by
    simp only [List.forall_mem_cons]
    exact ⟨foldBinary_alone, foldBinaryRight_alone, foldTernary_alone, foldIf_alone,
      foldMembers_alone, nonEmptyParts_alone, assembleProgram_alone, checkHaltCompiler_alone,
      rejectNestedHaltCompiler_alone, checkTry_alone, by simp⟩
  exact hall p (hsub hmem)

section Honest

theorem honest_of_front {name : String} {scan : List Char → Option (Nat × Value)}
    (h : ∀ cs n v, scan cs = some (n, v) →
      ∃ front rest s, cs = front ++ rest ∧ n = byteLength front ∧ v = .text s) :
    Scanner.Honest ⟨name, scan⟩ := by
  intro cs n v hscan
  obtain ⟨front, rest, s, hsplit, hn, rfl⟩ := h cs n v hscan
  exact ⟨rfl, front, rest, hsplit, hn⟩

theorem markup_append (cs : List Char) : ∃ rest, cs = markup cs ++ rest := by
  fun_induction markup cs with
  | case1 => exact ⟨[], rfl⟩
  | case2 rest _ => exact ⟨_, rfl⟩
  | case3 rest _ ih =>
    obtain ⟨rest', hrest⟩ := ih
    exact ⟨rest', congrArg (fun cs => '<' :: '?' :: cs) hrest⟩
  | case4 c cs _ ih =>
    obtain ⟨rest', hrest⟩ := ih
    exact ⟨rest', congrArg (c :: ·) hrest⟩

theorem literalRun_append (cs : List Char) : ∃ rest, cs = literalRun cs ++ rest := by
  fun_induction literalRun cs with
  | case1 => exact ⟨[], rfl⟩
  | case2 c cs ih =>
    obtain ⟨rest, hrest⟩ := ih
    exact ⟨rest, congrArg (fun cs => '\\' :: c :: cs) hrest⟩
  | case3 c cs _ _ => exact ⟨_, rfl⟩
  | case4 c cs _ _ ih =>
    obtain ⟨rest, hrest⟩ := ih
    exact ⟨rest, congrArg (c :: ·) hrest⟩

theorem markupScanner_honest : markupScanner.Honest :=
  honest_of_front fun cs n v h => by
    obtain ⟨rfl, rfl⟩ := Prod.mk.inj (Option.some.inj h)
    obtain ⟨rest, hrest⟩ := markup_append cs
    exact ⟨_, rest, _, hrest, rfl, rfl⟩

theorem restScanner_honest : restScanner.Honest :=
  honest_of_front fun cs n v h => by
    obtain ⟨rfl, rfl⟩ := Prod.mk.inj (Option.some.inj h)
    exact ⟨cs, [], _, by simp, rfl, rfl⟩

theorem scanDoc_honest (name : String) (kind : DocKind) : Scanner.Honest ⟨name, scanDoc kind⟩ :=
  honest_of_front fun cs n v h => by
    obtain ⟨head, body, newline, label, rest, -, hsplit, rfl, rfl, -⟩ := scanDoc_some h
    exact ⟨_, rest, _, by rw [hsplit]; simp, rfl, rfl⟩

theorem scanLiteralRun_honest (name : String) (set : Literal.EscapeSet) :
    Scanner.Honest ⟨name, scanLiteralRun set⟩ :=
  honest_of_front fun cs n v h => by
    simp only [scanLiteralRun] at h
    split at h
    · cases h
    · obtain ⟨rfl, rfl⟩ := Prod.mk.inj (Option.some.inj h)
      obtain ⟨rest, hrest⟩ := literalRun_append cs
      exact ⟨_, rest, _, hrest, rfl, rfl⟩

theorem rules_honest : ∀ sc ∈ rules.flatMap (·.pattern.scanners), sc.Honest := by
  rw [rules_scanners]
  simp only [List.forall_mem_cons]
  exact ⟨markupScanner_honest, restScanner_honest, markupScanner_honest, scanDoc_honest _ _,
    scanDoc_honest _ _, scanLiteralRun_honest _ _, scanLiteralRun_honest _ _, by simp⟩

end Honest

theorem grammar_lists : grammar.Lists rules :=
  Grammar.lists_of_link grammar_linked rules_honest

end PhpSyntax.Php
