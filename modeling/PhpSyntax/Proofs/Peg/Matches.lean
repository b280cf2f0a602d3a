import PhpSyntax.Peg.Build
import PhpSyntax.Proofs.Peg.Execution
import PhpSyntax.Proofs.Peg.Linking
import PhpSyntax.Proofs.Regex.Reached

namespace PhpSyntax.Peg

/-- The matches of rules: by name, with trivia skipped or not, at an offset. -/
abbrev Calls :=
  String → Bool → Nat → Matched → Prop

/-- Where the item of a further round begins, given what separators match. -/
inductive Rounds.Next (separator : Option (Nat → Matched → Prop)) (rs : Rounds) : Nat → Prop where
  | leading : separator = none ∨ rs.items = [] → Next separator rs rs.cursor
  | separated {p : Nat → Matched → Prop} {m : Matched} : separator = some p → rs.items ≠ [] →
    p rs.cursor m → Next separator rs m.stop

/-- The rounds of a repetition, given what items and separators match. An empty item can only be
the first one. -/
inductive Rounds.Grown (item : Nat → Matched → Prop) (separator : Option (Nat → Matched → Prop))
    (offset : Nat) : Rounds → Prop where
  | start : Grown item separator offset (.startingAt offset)
  | more {rs : Rounds} {next : Nat} {m : Matched} : Grown item separator offset rs →
    rs.Next separator next → item next m →
    (m.stop = rs.cursor → rs.items = [] ∧ separator ≠ none) →
    Grown item separator offset (rs.pushed m)

/-- A match of a repetition, given what items and separators match. -/
def MatchesRounds (item : Nat → Matched → Prop) (separator : Option (Nat → Matched → Prop))
    (least : Nat) (offset : Nat) (m : Matched) : Prop :=
  ∃ (rs : Rounds) (stop : Nat), rs.Grown item separator offset ∧
    (stop = rs.cursor ∨ rs.cursor < stop ∧ rs.Next separator stop) ∧
    Rounds.finish { rs with cursor := stop } offset least = some m

section Matches

variable (skipped : Option Lexeme) (text : Text) (calls : Calls)

mutual

/-- What a match of a pattern can be. -/
def Matches : PatternDef → Bool → Nat → Matched → Prop
  | .terminal t, trivia, offset, m => ∃ (l : Lexeme) (start : Nat), l.toTerminal = t ∧ l.Read ∧
    LeadsTo skipped text trivia offset start ∧ l.found text start = some m
  | .scan sc, trivia, offset, m => ∃ start, LeadsTo skipped text trivia offset start ∧
    sc.found text start = some m
  | .endOfInput, trivia, offset, m => ∃ start, LeadsTo skipped text trivia offset start ∧
    endFound text start = some m
  | .rule r, trivia, offset, m => calls r trivia offset m
  | .sequence cs, trivia, offset, m =>
    ∃ ps, MatchesParts cs trivia (.startingAt offset) ps ∧ m = ps.finish text
  | .choice ps, trivia, offset, m => MatchesOne ps trivia offset m
  | .repetition item none least _, trivia, offset, m =>
    MatchesRounds (Matches item trivia) none least offset m
  | .repetition item (some separator) least _, trivia, offset, m =>
    MatchesRounds (Matches item trivia) (some (Matches separator trivia)) least offset m
  | .optional p, trivia, offset, m => Matches p trivia offset m ∨ m = .empty offset
  | .ahead negated p, trivia, offset, m =>
    (negated = false → ∃ m', Matches p trivia offset m') ∧ m = .empty offset
  | .trivia skip p, _, offset, m => Matches p skip offset m
  | .silent p, trivia, offset, m =>
    ∃ m', Matches p trivia offset m' ∧ m = { m' with value := .null }

def MatchesParts : List ComponentDef → Bool → Parts → Parts → Prop
  | [], _, ps, ps' => ps' = ps
  | ⟨field, capture, p⟩ :: rest, trivia, ps, ps' =>
    ∃ m, Matches p trivia ps.cursor m ∧ MatchesParts rest trivia (ps.push field capture m) ps'

def MatchesOne : List PatternDef → Bool → Nat → Matched → Prop
  | [], _, _, _ => False
  | p :: rest, trivia, offset, m => Matches p trivia offset m ∨ MatchesOne rest trivia offset m

end

end Matches

/-- A match of what was tried at an offset. -/
structure Matched.Placed (m : Matched) (text : Text) (offset : Nat) : Prop where
  behind : offset ≤ m.start
  forward : m.start ≤ m.stop
  start : text.Boundary m.start
  stop : text.Boundary m.stop

/-- A scanner that takes some characters from the start of a text and yields a value without
places. -/
def Scanner.Honest (sc : Scanner) : Prop :=
  ∀ cs n v, sc.scan cs = some (n, v) →
    v.strip = v ∧ ∃ front rest, cs = front ++ rest ∧ n = byteLength front

section Placed

variable {text : Text} {offset start : Nat}

theorem Lexeme.matchLength?_honest {t : Lexeme} {cs : List Char} {n : Nat}
    (h : t.matchLength? cs (byteLength cs) = some n) :
    ∃ front rest, cs = front ++ rest ∧ n = byteLength front := by
  obtain ⟨f, hf, rfl⟩ := Option.map_eq_some_iff.1 h
  exact Regex.Program.find?_stop hf

theorem Lexeme.matchAt?_honest {t : Lexeme} {cs : List Char} {n : Nat} {s : String}
    (h : t.matchAt? cs (byteLength cs) = some (n, s)) :
    ∃ front rest, cs = front ++ rest ∧ n = byteLength front := by
  obtain ⟨f, hf, h⟩ := Option.map_eq_some_iff.1 h
  obtain ⟨rfl, -⟩ := Prod.mk.inj h
  exact Regex.Program.find?_stop hf

theorem Skips.placed {t : Lexeme} (h : Skips t text offset start) (hb : text.Boundary offset) :
    offset ≤ start ∧ text.Boundary start := by
  induction h with
  | stop _ => exact ⟨Nat.le_refl _, hb⟩
  | @more offset n stop hmore _ ih =>
    obtain ⟨cs, hcs⟩ := hb
    rw [hcs.after?, hcs.left] at hmore
    obtain ⟨front, rest, rfl, hn⟩ := Lexeme.matchLength?_honest hmore
    obtain ⟨hle, hstart⟩ := ih ⟨rest, by rw [hn]; exact hcs.move⟩
    exact ⟨Nat.le_trans (Nat.le_add_right _ _) hle, hstart⟩

theorem LeadsTo.placed {skipped : Option Lexeme} {trivia : Bool}
    (h : LeadsTo skipped text trivia offset start) (hb : text.Boundary offset) :
    offset ≤ start ∧ text.Boundary start := by
  cases h with
  | raw => exact ⟨Nat.le_refl _, hb⟩
  | bare _ => exact ⟨Nat.le_refl _, hb⟩
  | skipped _ hs => exact hs.placed hb

/-- What a match takes, where something was tried that takes characters from the start of a text. -/
theorem matchedAt_takes {found : Option (Nat × Value)} {m : Matched} {cs : List Char}
    (hcs : text.Has start cs) (h : matchedAt start found = some m)
    (honest : ∀ n v, found = some (n, v) →
      ∃ front rest, cs = front ++ rest ∧ n = byteLength front) :
    m.start = start ∧ ∃ front rest, cs = front ++ rest ∧ m.stop = start + byteLength front := by
  obtain ⟨r, hr, rfl⟩ := Option.map_eq_some_iff.1 h
  obtain ⟨n, v⟩ := r
  obtain ⟨front, rest, rfl, rfl⟩ := honest n v hr
  exact ⟨rfl, front, rest, rfl, rfl⟩

theorem Lexeme.found_takes {t : Lexeme} {m : Matched} {cs : List Char} (hcs : text.Has start cs)
    (h : t.found text start = some m) :
    m.start = start ∧ ∃ front rest, cs = front ++ rest ∧ m.stop = start + byteLength front := by
  refine matchedAt_takes hcs h fun n v hv => ?_
  rw [hcs.after?, hcs.left, Option.bind_some] at hv
  obtain ⟨r, hr, heq⟩ := Option.map_eq_some_iff.1 hv
  obtain ⟨n', s⟩ := r
  obtain ⟨rfl, -⟩ := Prod.mk.inj heq
  exact t.matchAt?_honest hr

theorem Scanner.found_takes {sc : Scanner} (honest : sc.Honest) {m : Matched} {cs : List Char}
    (hcs : text.Has start cs) (h : sc.found text start = some m) :
    m.start = start ∧ ∃ front rest, cs = front ++ rest ∧ m.stop = start + byteLength front := by
  refine matchedAt_takes hcs h fun n v hv => ?_
  rw [hcs.after?, Option.bind_some] at hv
  exact (honest cs n v hv).2

/-- A match that takes characters behind trivia is in its place. -/
theorem placed_of_takes {skipped : Option Lexeme} {trivia : Bool} {m : Matched}
    (hl : LeadsTo skipped text trivia offset start) (hb : text.Boundary offset)
    (h : ∀ cs, text.Has start cs → m.start = start ∧
      ∃ front rest, cs = front ++ rest ∧ m.stop = start + byteLength front) :
    m.Placed text offset := by
  obtain ⟨hle, cs, hcs⟩ := hl.placed hb
  obtain ⟨rfl, front, rest, rfl, hstop⟩ := h cs hcs
  refine ⟨hle, ?_, ⟨_, hcs⟩, rest, ?_⟩
  · rw [hstop]
    exact Nat.le_add_right _ _
  · rw [hstop]
    exact hcs.move

theorem placed_empty (hb : text.Boundary offset) : (Matched.empty offset).Placed text offset :=
  ⟨Nat.le_refl _, Nat.le_refl _, hb, hb⟩

theorem endFound_placed {skipped : Option Lexeme} {trivia : Bool} {m : Matched}
    (hl : LeadsTo skipped text trivia offset start) (hb : text.Boundary offset)
    (h : endFound text start = some m) : m.Placed text offset := by
  obtain ⟨hle, hstart⟩ := hl.placed hb
  rw [endFound, Option.ite_none_right_eq_some] at h
  obtain ⟨-, h⟩ := h
  obtain rfl := Option.some.inj h
  exact ⟨hle, Nat.le_refl _, hstart, hstart⟩

/-- The first character that was taken, and the place where matching goes on, for matches one behind
the other. -/
structure Run (text : Text) (offset : Nat) (start : Option Nat) (cursor : Nat) : Prop where
  behind : offset ≤ cursor
  here : text.Boundary cursor
  start : ∀ a, start = some a → offset ≤ a ∧ a ≤ cursor ∧ text.Boundary a

namespace Run

variable {first : Option Nat} {cursor : Nat}

theorem starting (hb : text.Boundary offset) : Run text offset none offset :=
  ⟨Nat.le_refl _, hb, fun _ h => nomatch h⟩

/-- One more match behind the others, possibly with something skipped in front of it. -/
theorem push (h : Run text offset first cursor) {next : Nat} (hnext : cursor ≤ next) {m : Matched}
    (hm : m.Placed text next) :
    Run text offset (if first.isNone && m.consumed then some m.start else first) m.stop := by
  have hle : cursor ≤ m.stop := hnext.trans (hm.behind.trans hm.forward)
  refine ⟨h.behind.trans hle, hm.stop, fun a ha => ?_⟩
  split at ha
  · obtain rfl := Option.some.inj ha
    exact ⟨h.behind.trans (hnext.trans hm.behind), hm.forward, hm.start⟩
  · obtain ⟨hoff, hcur, hb⟩ := h.start a ha
    exact ⟨hoff, hcur.trans hle, hb⟩

theorem getD (h : Run text offset first cursor) {other : Nat} (ho : offset ≤ other)
    (hc : other ≤ cursor) (hb : text.Boundary other) :
    offset ≤ first.getD other ∧ first.getD other ≤ cursor ∧ text.Boundary (first.getD other) := by
  cases first with
  | none => exact ⟨ho, hc, hb⟩
  | some a => exact h.start a rfl

end Run

theorem Parts.finish_placed {ps : Parts} (h : Run text offset ps.start ps.cursor) :
    (ps.finish text).Placed text offset := by
  obtain ⟨ho, hc, hb⟩ := h.getD h.behind (Nat.le_refl _) h.here
  exact ⟨ho, hc, hb, h.here⟩

@[simp] theorem Parts.push_start (ps : Parts) (field : Option String) (capture : Capture)
    (m : Matched) : (ps.push field capture m).start =
      if ps.start.isNone && m.consumed then some m.start else ps.start := by
  simp only [push]
  split <;> rfl

theorem Parts.push_run {ps : Parts} (h : Run text offset ps.start ps.cursor)
    (field : Option String) (capture : Capture) {m : Matched} (hm : m.Placed text ps.cursor) :
    Run text offset (ps.push field capture m).start (ps.push field capture m).cursor := by
  rw [push_start, push_cursor]
  exact h.push (Nat.le_refl _) hm

theorem Rounds.finish_placed {rs : Rounds} {least : Nat} {m : Matched}
    (h : Run text offset rs.start rs.cursor) (hb : text.Boundary offset)
    (hm : rs.finish offset least = some m) : m.Placed text offset := by
  simp only [Rounds.finish, Option.ite_none_left_eq_some] at hm
  obtain ⟨-, hm⟩ := hm
  obtain rfl := Option.some.inj hm
  obtain ⟨ho, hc, hb⟩ := h.getD (Nat.le_refl _) h.behind hb
  exact ⟨ho, hc, hb, h.here⟩

section Rounds

variable {item : Nat → Matched → Prop} {separator : Option (Nat → Matched → Prop)}
  (hitem : ∀ o m, text.Boundary o → item o m → m.Placed text o)
  (hseparator : ∀ p ∈ separator, ∀ o m, text.Boundary o → p o m → m.Placed text o)

include hseparator in
theorem Rounds.Next.placed {rs : Rounds} {next : Nat} (h : rs.Next separator next)
    (hb : text.Boundary rs.cursor) : rs.cursor ≤ next ∧ text.Boundary next := by
  cases h with
  | leading _ => exact ⟨Nat.le_refl _, hb⟩
  | separated hp _ hm =>
    have hplaced := hseparator _ hp _ _ hb hm
    exact ⟨hplaced.behind.trans hplaced.forward, hplaced.stop⟩

include hitem hseparator

theorem Rounds.Grown.run {rs : Rounds} (h : rs.Grown item separator offset)
    (hb : text.Boundary offset) : Run text offset rs.start rs.cursor := by
  induction h with
  | start => exact .starting hb
  | more _ hnext hm _ ih =>
    obtain ⟨hle, hnextb⟩ := hnext.placed hseparator ih.here
    exact ih.push hle (hitem _ _ hnextb hm)

theorem matchesRounds_placed {least : Nat} {m : Matched} (hb : text.Boundary offset)
    (h : MatchesRounds item separator least offset m) : m.Placed text offset := by
  obtain ⟨rs, stop, hgrown, hstop, hm⟩ := h
  have hrun := hgrown.run hitem hseparator hb
  have hstops : Run text offset rs.start stop := by
    obtain rfl | ⟨hlt, hnext⟩ := hstop
    · exact hrun
    · obtain ⟨hle, hstop⟩ := hnext.placed hseparator hrun.here
      refine ⟨hrun.behind.trans hle, hstop, fun a ha => ?_⟩
      obtain ⟨ho, hc, hab⟩ := hrun.start a ha
      exact ⟨ho, hc.trans hle, hab⟩
  exact Rounds.finish_placed hstops hb hm

end Rounds

def Calls.Placed (calls : Calls) (text : Text) : Prop :=
  ∀ r trivia offset m, text.Boundary offset → calls r trivia offset m → m.Placed text offset

variable {skipped : Option Lexeme} {calls : Calls}

mutual

/-- A match is in its place if those of rules are and scanners take what is there. -/
theorem matches_placed (hcalls : calls.Placed text) :
    (p : PatternDef) → (∀ sc ∈ p.scanners, sc.Honest) → ∀ trivia offset m,
    text.Boundary offset → Matches skipped text calls p trivia offset m → m.Placed text offset
  | .terminal t, _, trivia, offset, m, hb, h => by
    obtain ⟨l, start, -, -, hl, hm⟩ := h
    exact placed_of_takes hl hb fun cs hcs => l.found_takes hcs hm
  | .scan sc, honest, trivia, offset, m, hb, h => by
    obtain ⟨start, hl, hm⟩ := h
    exact placed_of_takes hl hb fun cs hcs =>
      Scanner.found_takes (honest sc (List.mem_singleton.2 rfl)) hcs hm
  | .endOfInput, _, trivia, offset, m, hb, h => by
    obtain ⟨start, hl, hm⟩ := h
    exact endFound_placed hl hb hm
  | .rule r, _, trivia, offset, m, hb, h => hcalls r trivia offset m hb h
  | .sequence cs, honest, trivia, offset, m, hb, h => by
    obtain ⟨ps, hps, rfl⟩ := h
    exact Parts.finish_placed (matchesParts_run hcalls cs honest trivia (.starting hb) hps)
  | .choice ps, honest, trivia, offset, m, hb, h =>
    matchesOne_placed hcalls ps honest trivia offset m hb h
  | .repetition item none _ _, honest, trivia, offset, m, hb, h =>
    matchesRounds_placed (matches_placed hcalls item honest trivia) (by simp) hb h
  | .repetition item (some separator) _ _, honest, trivia, offset, m, hb, h => by
    obtain ⟨honest, honest'⟩ := List.forall_mem_append.1 honest
    refine matchesRounds_placed (matches_placed hcalls item honest trivia) ?_ hb h
    rintro p ⟨⟩
    exact matches_placed hcalls separator honest' trivia
  | .optional p, honest, trivia, offset, m, hb, h => by
    obtain h | rfl := h
    · exact matches_placed hcalls p honest trivia offset m hb h
    · exact placed_empty hb
  | .ahead _ _, _, trivia, offset, m, hb, h => by
    obtain ⟨-, rfl⟩ := h
    exact placed_empty hb
  | .trivia skip p, honest, _, offset, m, hb, h => matches_placed hcalls p honest skip offset m hb h
  | .silent p, honest, trivia, offset, m, hb, h => by
    obtain ⟨m', h, rfl⟩ := h
    obtain ⟨hbehind, hforward, hstart, hstop⟩ :=
      matches_placed hcalls p honest trivia offset m' hb h
    exact ⟨hbehind, hforward, hstart, hstop⟩

theorem matchesParts_run (hcalls : calls.Placed text) : (cs : List ComponentDef) →
    (∀ sc ∈ Pattern.componentScanners cs, sc.Honest) → ∀ trivia {offset ps ps'},
    Run text offset ps.start ps.cursor → MatchesParts skipped text calls cs trivia ps ps' →
    Run text offset ps'.start ps'.cursor
  | [], _, trivia, offset, ps, ps', hrun, h => by
    obtain rfl := h
    exact hrun
  | ⟨field, capture, p⟩ :: rest, honest, trivia, offset, ps, ps', hrun, h => by
    obtain ⟨honest, honest'⟩ := List.forall_mem_append.1 honest
    obtain ⟨m, hm, h⟩ := h
    have hplaced := matches_placed hcalls p honest trivia ps.cursor m hrun.here hm
    exact matchesParts_run hcalls rest honest' trivia (Parts.push_run hrun field capture hplaced) h

theorem matchesOne_placed (hcalls : calls.Placed text) : (ps : List PatternDef) →
    (∀ sc ∈ Pattern.allScanners ps, sc.Honest) → ∀ trivia offset m, text.Boundary offset →
    MatchesOne skipped text calls ps trivia offset m → m.Placed text offset
  | [], _, trivia, offset, m, hb, h => nomatch h
  | p :: rest, honest, trivia, offset, m, hb, h => by
    obtain ⟨honest, honest'⟩ := List.forall_mem_append.1 honest
    obtain h | h := h
    · exact matches_placed hcalls p honest trivia offset m hb h
    · exact matchesOne_placed hcalls rest honest' trivia offset m hb h

end

end Placed

end PhpSyntax.Peg
