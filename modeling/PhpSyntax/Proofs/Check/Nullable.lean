import Mathlib.Data.List.Nodup
import PhpSyntax.Check.Report
import PhpSyntax.Proofs.Peg.Keeping

namespace PhpSyntax.Peg

/-- A terminal that matches the empty text if it matches no bytes of any. -/
def Terminal.Evenly (t : Terminal) : Prop :=
  ∀ l : Lexeme, t.lexeme? = some l → ∀ (cs : List Char) (yielded : String),
    l.matchAt? cs (byteLength cs) = some (0, yielded) → (l.matchLength? [] 0).isSome = true

/-- A scanner that takes the empty text if it takes no bytes of any. -/
def Scanner.Evenly (sc : Scanner) : Prop :=
  ∀ (cs : List Char) (v : Value), sc.scan cs = some (0, v) → (sc.scan []).isSome = true

end PhpSyntax.Peg

namespace PhpSyntax.Check

open Peg

section Growing

variable {τ ρ : Type} [MatchesEmpty τ] [NamesRule ρ] {table : List (Rule τ ρ)}

/-- A round adds rules to those that were found, each once; where it adds none, none is missing. -/
theorem growNullable_spec (table : List (Rule τ ρ)) {found : List String} (hnodup : found.Nodup) :
    found.length ≤ (growNullable table found).length ∧ (growNullable table found).Nodup ∧
      growNullable table found ⊆ found ++ table.map (·.name) ∧
      ((growNullable table found).length = found.length →
        ∀ d ∈ table, isNullable found d.pattern = true → d.name ∈ found) := by
  induction table generalizing found with
  | nil => exact ⟨Nat.le_refl _, hnodup, List.subset_append_left .., fun _ => nofun⟩
  | cons r table ih =>
    rw [growNullable, List.foldl_cons, ← growNullable]
    split
    · rename_i hadd
      rw [Bool.and_eq_true, Bool.not_eq_true', ← Bool.not_eq_true, List.contains_iff_mem] at hadd
      obtain ⟨hle, hgrown, hsub, -⟩ := ih (List.nodup_cons.2 ⟨hadd.1, hnodup⟩)
      rw [List.length_cons] at hle
      refine ⟨by omega, hgrown, fun name hname => ?_, fun hlength => ?_⟩
      · have hmem := hsub hname
        simp only [List.mem_append, List.mem_cons, List.map_cons] at hmem ⊢
        tauto
      · omega
    · rename_i hkept
      obtain ⟨hle, hgrown, hsub, hclosed⟩ := ih hnodup
      refine ⟨hle, hgrown, fun name hname => ?_, fun hlength => ?_⟩
      · have hmem := hsub hname
        simp only [List.mem_append, List.mem_cons, List.map_cons] at hmem ⊢
        tauto
      · refine List.forall_mem_cons.2 ⟨fun hr => ?_, hclosed hlength⟩
        simpa [hr] using hkept

/-- With a round for each name that is missing and one more, no rule that can match nothing by those
that were found is missing. -/
theorem nullableFrom_closed {rounds : Nat} {found : List String} (hnodup : found.Nodup)
    (hsub : found ⊆ table.map (·.name)) (hrounds : table.length < found.length + rounds) :
    ∀ d ∈ table, isNullable (nullableFrom table rounds found) d.pattern = true →
      d.name ∈ nullableFrom table rounds found := by
  induction rounds generalizing found with
  | zero =>
    have hle := (hnodup.subperm hsub).length_le
    rw [List.length_map] at hle
    omega
  | succ rounds ih =>
    obtain ⟨hle, hgrown, hnames, hclosed⟩ := growNullable_spec table hnodup
    simp only [nullableFrom]
    split
    · rename_i hlength
      exact hclosed hlength
    · rename_i hlength
      refine ih hgrown (fun name hname => ?_) (by omega)
      exact (List.mem_append.1 (hnames hname)).elim (fun h => hsub h) id

/-- A rule that can match nothing by the rules that were found is one of them. -/
theorem mem_nullableRules {d : Rule τ ρ} (hd : d ∈ table)
    (h : isNullable (nullableRules table) d.pattern = true) : d.name ∈ nullableRules table :=
  nullableFrom_closed List.nodup_nil (List.nil_subset _) (by simp) d hd h

end Growing

section Matches

variable {skipped : Option Lexeme} {text : Text} {calls : Calls}

/-- A match that takes nothing where something was tried behind trivia takes no trivia either. -/
theorem empty_of_leadsTo {trivia : Bool} {offset start n : Nat}
    (hl : LeadsTo skipped text trivia offset start) (hb : text.Boundary offset)
    (h : start + n = offset) : n = 0 := by
  have hle := (hl.placed hb).1
  omega

/-- The first round of a repetition takes nothing if all of them together do. -/
theorem first_of_grown {item : Nat → Matched → Prop}
    {separator : Option (Nat → Matched → Prop)} {offset : Nat} {rs : Rounds}
    (hitem : ∀ o m, text.Boundary o → item o m → m.Placed text o)
    (hseparator : ∀ p ∈ separator, ∀ o m, text.Boundary o → p o m → m.Placed text o)
    (hb : text.Boundary offset) (h : rs.Grown item separator offset) (hi : rs.items ≠ []) :
    ∃ m, item offset m ∧ m.stop ≤ rs.cursor := by
  induction h with
  | start => exact absurd rfl hi
  | @more rs next m hgrown hnext hm _ ih =>
    have hrun := hgrown.run hitem hseparator hb
    obtain ⟨hle, hnextb⟩ := hnext.placed hseparator hrun.here
    have hmplaced := hitem _ _ hnextb hm
    by_cases hfirst : rs.items = []
    · cases hgrown with
      | start =>
        cases hnext with
        | leading _ => exact ⟨m, hm, Nat.le_refl _⟩
        | separated _ hne _ => exact absurd rfl hne
      | more _ _ _ _ => exact absurd hfirst (List.cons_ne_nil _ _)
    · obtain ⟨first, hfirst, hstop⟩ := ih hfirst
      exact ⟨first, hfirst, hstop.trans (hle.trans (hmplaced.behind.trans hmplaced.forward))⟩

/-- Components are matched one behind the other. -/
theorem parts_onward (hplaced : calls.Placed text) : (cs : List ComponentDef) →
    (∀ sc ∈ Pattern.componentScanners cs, sc.Honest) → ∀ {trivia ps ps'},
    text.Boundary ps.cursor → MatchesParts skipped text calls cs trivia ps ps' →
    ps.cursor ≤ ps'.cursor ∧ text.Boundary ps'.cursor
  | [], _, trivia, ps, ps', hb, h => by
    obtain rfl := h
    exact ⟨Nat.le_refl _, hb⟩
  | ⟨field, capture, p⟩ :: rest, honest, trivia, ps, ps', hb, h => by
    obtain ⟨honest, honest'⟩ := List.forall_mem_append.1 honest
    obtain ⟨m, hm, hrest⟩ := h
    have hm := matches_placed hplaced p honest trivia _ m hb hm
    have hpushed : text.Boundary (ps.push field capture m).cursor := by
      rw [Parts.push_cursor]
      exact hm.stop
    obtain ⟨hle, hend⟩ := parts_onward hplaced rest honest' hpushed hrest
    rw [Parts.push_cursor] at hle
    exact ⟨(hm.behind.trans hm.forward).trans hle, hend⟩

theorem empty_of_rounds (hplaced : calls.Placed text) {item : PatternDef}
    {separator : Option PatternDef}
    (hitem : ∀ sc ∈ item.scanners, sc.Honest)
    (hseparator : ∀ p ∈ separator, ∀ sc ∈ p.scanners, sc.Honest) {least : Nat} {trivia : Bool}
    {offset : Nat} {m : Matched} (hb : text.Boundary offset)
    (h : MatchesRounds (Matches skipped text calls item trivia)
      (separator.map (Matches skipped text calls · trivia)) least offset m)
    (hstop : m.stop = offset) (hleast : least ≠ 0) :
    ∃ m', Matches skipped text calls item trivia offset m' ∧ m'.stop = offset := by
  obtain ⟨rs, stop, hgrown, hend, hm⟩ := h
  have hitem : ∀ o m, text.Boundary o → Matches skipped text calls item trivia o m →
      m.Placed text o := matches_placed hplaced item hitem trivia
  have hseparator : ∀ p ∈ separator.map (Matches skipped text calls · trivia), ∀ o m,
      text.Boundary o → p o m → m.Placed text o := by
    intro p hp
    obtain ⟨q, hq, rfl⟩ := Option.map_eq_some_iff.1 hp
    exact matches_placed hplaced q (hseparator q hq) trivia
  have hcursor : m.stop = stop := Rounds.finish_stop hm
  have hle : rs.cursor ≤ stop := by
    obtain rfl | ⟨hlt, -⟩ := hend
    · exact Nat.le_refl _
    · exact hlt.le
  have hi : rs.items ≠ [] := by
    intro hi
    simp only [Rounds.finish, hi, List.length_nil, Option.ite_none_left_eq_some] at hm
    omega
  obtain ⟨first, hfirst, hfirststop⟩ := first_of_grown hitem hseparator hb hgrown hi
  have hfirstplaced := hitem _ _ hb hfirst
  refine ⟨first, hfirst, ?_⟩
  have := hfirstplaced.behind.trans hfirstplaced.forward
  omega

variable {nullable : List String}

mutual

/-- A pattern that matches and takes nothing can match nothing. -/
theorem isNullable_of_matches (hplaced : calls.Placed text)
    (hnullable : ∀ r trivia offset m, calls r trivia offset m → m.stop = offset → r ∈ nullable) :
    (p : PatternDef) → (∀ t ∈ p.terminals, t.Evenly) →
    (∀ sc ∈ p.scanners, sc.Honest ∧ sc.Evenly) → ∀ {trivia offset m}, text.Boundary offset →
    Matches skipped text calls p trivia offset m → m.stop = offset → isNullable nullable p = true
  | .terminal t, ht, _, trivia, offset, m, hb, h, hstop => by
    obtain ⟨l, start, rfl, hread, hl, hm⟩ := h
    obtain ⟨⟨n, v⟩, hr, rfl⟩ := Option.map_eq_some_iff.1 hm
    obtain rfl : n = 0 := empty_of_leadsTo hl hb hstop
    obtain ⟨-, cs, hcs⟩ := hl.placed hb
    rw [hcs.after?, hcs.left, Option.bind_some] at hr
    obtain ⟨⟨n, yielded⟩, hmatch, heq⟩ := Option.map_eq_some_iff.1 hr
    obtain rfl : n = 0 := congrArg Prod.fst heq
    have hlexeme : l.toTerminal.lexeme? = some l := by
      rw [Terminal.lexeme?, hread]
      rfl
    show l.toTerminal.lexeme?.any matchesEmpty = true
    rw [hlexeme]
    exact ht _ (List.mem_singleton.2 rfl) l hlexeme cs yielded hmatch
  | .scan sc, _, hsc, trivia, offset, m, hb, h, hstop => by
    obtain ⟨start, hl, hm⟩ := h
    obtain ⟨⟨n, v⟩, hr, rfl⟩ := Option.map_eq_some_iff.1 hm
    obtain rfl : n = 0 := empty_of_leadsTo hl hb hstop
    obtain ⟨cs, -, hscan⟩ := Option.bind_eq_some_iff.1 hr
    exact (hsc sc (List.mem_singleton.2 rfl)).2 cs v hscan
  | .endOfInput, _, _, _, _, _, _, _, _ => rfl
  | .rule r, _, _, trivia, offset, m, _, h, hstop =>
    List.contains_iff_mem.2 (hnullable r trivia offset m h hstop)
  | .sequence cs, ht, hsc, trivia, offset, m, hb, h, hstop => by
    obtain ⟨ps, hps, rfl⟩ := h
    rw [Parts.finish_stop] at hstop
    exact allNullable_of_matches hplaced hnullable cs ht hsc hb hps hstop
  | .choice ps, ht, hsc, trivia, offset, m, hb, h, hstop =>
    anyNullable_of_matches hplaced hnullable ps ht hsc hb h hstop
  | .repetition item none least _, ht, hsc, trivia, offset, m, hb, h, hstop => by
    show (least == 0 || isNullable nullable item) = true
    by_cases hleast : least = 0
    · rw [hleast]
      rfl
    · have honest : ∀ sc ∈ item.scanners, sc.Honest := fun sc h => (hsc sc h).1
      have hrounds : MatchesRounds (Matches skipped text calls item trivia)
          (Option.map (Matches skipped text calls · trivia) none) least offset m := h
      obtain ⟨m', hm', hstop'⟩ := empty_of_rounds hplaced honest (by simp) hb hrounds hstop hleast
      rw [isNullable_of_matches hplaced hnullable item ht hsc hb hm' hstop', Bool.or_true]
  | .repetition item (some separator) least _, ht, hsc, trivia, offset, m, hb, h, hstop => by
    obtain ⟨ht, -⟩ := List.forall_mem_append.1 ht
    obtain ⟨hsc, hsc'⟩ := List.forall_mem_append.1 hsc
    show (least == 0 || isNullable nullable item) = true
    by_cases hleast : least = 0
    · rw [hleast]
      rfl
    · have hseparator : ∀ p ∈ some separator, ∀ sc ∈ p.scanners, sc.Honest := by
        rintro p ⟨⟩ sc h
        exact (hsc' sc h).1
      obtain ⟨m', hm', hstop'⟩ := empty_of_rounds hplaced (fun sc h => (hsc sc h).1) hseparator hb h
        hstop hleast
      rw [isNullable_of_matches hplaced hnullable item ht hsc hb hm' hstop', Bool.or_true]
  | .optional _, _, _, _, _, _, _, _, _ => rfl
  | .ahead _ _, _, _, _, _, _, _, _, _ => rfl
  | .trivia _ p, ht, hsc, _, _, _, hb, h, hstop =>
    isNullable_of_matches hplaced hnullable p ht hsc hb h hstop
  | .silent p, ht, hsc, trivia, offset, m, hb, h, hstop => by
    obtain ⟨m', hm', rfl⟩ := h
    exact isNullable_of_matches hplaced hnullable p ht hsc hb hm' hstop

theorem allNullable_of_matches (hplaced : calls.Placed text)
    (hnullable : ∀ r trivia offset m, calls r trivia offset m → m.stop = offset → r ∈ nullable) :
    (cs : List ComponentDef) →
    (∀ t ∈ Pattern.componentTerminals cs, t.Evenly) →
    (∀ sc ∈ Pattern.componentScanners cs, sc.Honest ∧ sc.Evenly) → ∀ {trivia ps ps'},
    text.Boundary ps.cursor → MatchesParts skipped text calls cs trivia ps ps' →
    ps'.cursor = ps.cursor → allNullable nullable cs = true
  | [], _, _, _, _, _, _, _, _ => rfl
  | ⟨field, capture, p⟩ :: rest, ht, hsc, trivia, ps, ps', hb, h, hstop => by
    obtain ⟨ht, ht'⟩ := List.forall_mem_append.1 ht
    obtain ⟨hsc, hsc'⟩ := List.forall_mem_append.1 hsc
    obtain ⟨m, hm, hrest⟩ := h
    have hmplaced := matches_placed hplaced p (fun sc h => (hsc sc h).1) trivia _ m hb hm
    have hpushed : text.Boundary (ps.push field capture m).cursor := by
      rw [Parts.push_cursor]
      exact hmplaced.stop
    obtain ⟨hle, -⟩ := parts_onward hplaced rest (fun sc h => (hsc' sc h).1) hpushed hrest
    rw [Parts.push_cursor] at hle
    have hforward := hmplaced.behind.trans hmplaced.forward
    have hhere : m.stop = ps.cursor := by omega
    show (isNullable nullable p && allNullable nullable rest) = true
    rw [isNullable_of_matches hplaced hnullable p ht hsc hb hm hhere, Bool.true_and]
    refine allNullable_of_matches hplaced hnullable rest ht' hsc' hpushed hrest ?_
    rw [Parts.push_cursor, hhere, hstop]

theorem anyNullable_of_matches (hplaced : calls.Placed text)
    (hnullable : ∀ r trivia offset m, calls r trivia offset m → m.stop = offset → r ∈ nullable) :
    (ps : List PatternDef) →
    (∀ t ∈ Pattern.allTerminals ps, t.Evenly) →
    (∀ sc ∈ Pattern.allScanners ps, sc.Honest ∧ sc.Evenly) → ∀ {trivia offset m},
    text.Boundary offset → MatchesOne skipped text calls ps trivia offset m → m.stop = offset →
    anyNullable nullable ps = true
  | [], _, _, _, _, _, _, h, _ => nomatch h
  | p :: rest, ht, hsc, trivia, offset, m, hb, h, hstop => by
    obtain ⟨ht, ht'⟩ := List.forall_mem_append.1 ht
    obtain ⟨hsc, hsc'⟩ := List.forall_mem_append.1 hsc
    show (isNullable nullable p || anyNullable nullable rest) = true
    obtain h | h := h
    · rw [isNullable_of_matches hplaced hnullable p ht hsc hb h hstop, Bool.true_or]
    · rw [anyNullable_of_matches hplaced hnullable rest ht' hsc' hb h hstop, Bool.or_true]

end

end Matches

section Ends

variable {skipped : Option Lexeme} {text : Text} {calls : Calls}

mutual

/-- A pattern that must end at the end of input does. -/
theorem stop_of_endsAtEnd (hplaced : calls.Placed text) :
    (p : PatternDef) → (∀ sc ∈ p.scanners, sc.Honest) →
    endsAtEnd p = true → ∀ {trivia offset m}, text.Boundary offset →
    Matches skipped text calls p trivia offset m → m.stop = text.size
  | .endOfInput, _, _, trivia, offset, m, hb, h => by
    obtain ⟨start, hl, hm⟩ := h
    have hle := (hl.placed hb).2.le_size
    rw [endFound, Option.ite_none_right_eq_some] at hm
    obtain ⟨hge, rfl⟩ := And.imp_right Option.some.inj hm
    exact Nat.le_antisymm hle hge
  | .sequence cs, honest, hend, trivia, offset, m, hb, h => by
    obtain ⟨ps, hps, rfl⟩ := h
    rw [Parts.finish_stop]
    exact cursor_of_lastEndsAtEnd hplaced cs honest hend hb hps
  | .choice ps, honest, hend, trivia, offset, m, hb, h => by
    have hall : allEndAtEnd ps = true := (Bool.and_eq_true_iff.1 hend).2
    exact stop_of_allEndAtEnd hplaced ps honest hall hb h
  | .trivia _ p, honest, hend, _, _, _, hb, h => stop_of_endsAtEnd hplaced p honest hend hb h
  | .silent p, honest, hend, trivia, offset, m, hb, h => by
    obtain ⟨m', hm', rfl⟩ := h
    have hstop : m'.stop = text.size := stop_of_endsAtEnd hplaced p honest hend hb hm'
    exact hstop
  | .terminal _, _, hend, _, _, _, _, _ => nomatch hend
  | .rule _, _, hend, _, _, _, _, _ => nomatch hend
  | .repetition _ none _ _, _, hend, _, _, _, _, _ => nomatch hend
  | .repetition _ (some _) _ _, _, hend, _, _, _, _, _ => nomatch hend
  | .optional _, _, hend, _, _, _, _, _ => nomatch hend
  | .ahead _ _, _, hend, _, _, _, _, _ => nomatch hend
  | .scan _, _, hend, _, _, _, _, _ => nomatch hend

theorem cursor_of_lastEndsAtEnd (hplaced : calls.Placed text) : (cs : List ComponentDef) →
    (∀ sc ∈ Pattern.componentScanners cs, sc.Honest) → lastEndsAtEnd cs = true →
    ∀ {trivia ps ps'}, text.Boundary ps.cursor →
    MatchesParts skipped text calls cs trivia ps ps' → ps'.cursor = text.size
  | [], _, hend, _, _, _, _, _ => nomatch hend
  | [⟨field, capture, p⟩], honest, hend, trivia, ps, ps', hb, h => by
    obtain ⟨m, hm, rfl⟩ := h
    rw [Parts.push_cursor]
    exact stop_of_endsAtEnd hplaced p (List.forall_mem_append.1 honest).1 hend hb hm
  | ⟨field, capture, p⟩ :: c :: rest, honest, hend, trivia, ps, ps', hb, h => by
    obtain ⟨honest, honest'⟩ := List.forall_mem_append.1 honest
    obtain ⟨m, hm, hrest⟩ := h
    have hpushed : text.Boundary (ps.push field capture m).cursor := by
      rw [Parts.push_cursor]
      exact (matches_placed hplaced p honest trivia _ m hb hm).stop
    exact cursor_of_lastEndsAtEnd hplaced (c :: rest) honest' hend hpushed hrest

theorem stop_of_allEndAtEnd (hplaced : calls.Placed text) : (ps : List PatternDef) →
    (∀ sc ∈ Pattern.allScanners ps, sc.Honest) → allEndAtEnd ps = true →
    ∀ {trivia offset m}, text.Boundary offset →
    MatchesOne skipped text calls ps trivia offset m → m.stop = text.size
  | [], _, _, _, _, _, _, h => nomatch h
  | p :: rest, honest, hend, trivia, offset, m, hb, h => by
    obtain ⟨honest, honest'⟩ := List.forall_mem_append.1 honest
    obtain ⟨hend, hend'⟩ := Bool.and_eq_true_iff.1 hend
    obtain h | h := h
    · exact stop_of_endsAtEnd hplaced p honest hend hb h
    · exact stop_of_allEndAtEnd hplaced rest honest' hend' hb h

end

end Ends

end PhpSyntax.Check
