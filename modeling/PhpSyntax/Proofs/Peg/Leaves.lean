import PhpSyntax.Proofs.Peg.Occurring

namespace PhpSyntax.Peg

/-- What a terminal or scanner took, behind skipped trivia. -/
structure Leaf where
  start : Nat
  stop : Nat

/-- What a terminal or scanner took that matched: nothing is no leaf. -/
def Matched.leaves (m : Matched) : List Leaf :=
  if m.consumed then [⟨m.start, m.stop⟩] else []

/-- What is derived: a match of a pattern, the parts of a sequence behind others, the rounds of a
repetition, or where one more round begins. -/
inductive Piece where
  | pattern (p : PatternDef) (trivia : Bool) (offset : Nat) (m : Matched)
  | parts (cs : List ComponentDef) (trivia : Bool) (ps ps' : Parts)
  | rounds (item : PatternDef) (separator : Option PatternDef) (trivia : Bool) (offset : Nat)
      (rs : Rounds)
  | next (separator : Option PatternDef) (trivia : Bool) (rs : Rounds) (offset : Nat)

/-- How a match came about, with its leaves in the order in which they were taken. The value of a
rule's match is left open. -/
inductive Derives (table : List RuleDef) (skipped : Option Lexeme) (text : Text) :
    Piece → List Leaf → Prop where
  | terminal {l : Lexeme} {trivia : Bool} {offset start : Nat} {m : Matched} : l.Read →
    LeadsTo skipped text trivia offset start → l.found text start = some m →
    Derives table skipped text (.pattern (.terminal l.toTerminal) trivia offset m) m.leaves
  | scan {sc : Scanner} {trivia : Bool} {offset start : Nat} {m : Matched} : sc.Honest →
    LeadsTo skipped text trivia offset start → sc.found text start = some m →
    Derives table skipped text (.pattern (.scan sc) trivia offset m) m.leaves
  | endOfInput {trivia : Bool} {offset start : Nat} {m : Matched} :
    LeadsTo skipped text trivia offset start → endFound text start = some m →
    Derives table skipped text (.pattern .endOfInput trivia offset m) []
  | rule {d : RuleDef} {trivia : Bool} {offset : Nat} {m : Matched} {ls : List Leaf} (v : Value) :
    d ∈ table → Derives table skipped text (.pattern d.pattern trivia offset m) ls →
    Derives table skipped text (.pattern (.rule d.name) trivia offset { m with value := v }) ls
  | sequence {cs : List ComponentDef} {trivia : Bool} {offset : Nat} {ps : Parts}
    {ls : List Leaf} : Derives table skipped text (.parts cs trivia (.startingAt offset) ps) ls →
    Derives table skipped text (.pattern (.sequence cs) trivia offset (ps.finish text)) ls
  | choice {p : PatternDef} {ps : List PatternDef} {trivia : Bool} {offset : Nat} {m : Matched}
    {ls : List Leaf} : p ∈ ps → Derives table skipped text (.pattern p trivia offset m) ls →
    Derives table skipped text (.pattern (.choice ps) trivia offset m) ls
  | repetition {item : PatternDef} {separator : Option PatternDef} {least : Nat} {trivia : Bool}
    {offset : Nat} {rs : Rounds} {m : Matched} {ls : List Leaf} (trailing : Bool) :
    Derives table skipped text (.rounds item separator trivia offset rs) ls →
    rs.finish offset least = some m →
    Derives table skipped text
      (.pattern (.repetition item separator least trailing) trivia offset m) ls
  | trailed {item : PatternDef} {separator : Option PatternDef} {least : Nat} {trivia : Bool}
    {offset stop : Nat} {rs : Rounds} {m : Matched} {ls ls' : List Leaf} (trailing : Bool) :
    Derives table skipped text (.rounds item separator trivia offset rs) ls → rs.cursor < stop →
    Derives table skipped text (.next separator trivia rs stop) ls' →
    Rounds.finish { rs with cursor := stop } offset least = some m →
    Derives table skipped text
      (.pattern (.repetition item separator least trailing) trivia offset m) (ls ++ ls')
  | present {p : PatternDef} {trivia : Bool} {offset : Nat} {m : Matched} {ls : List Leaf} :
    Derives table skipped text (.pattern p trivia offset m) ls →
    Derives table skipped text (.pattern (.optional p) trivia offset m) ls
  | absent {p : PatternDef} {trivia : Bool} {offset : Nat} :
    Derives table skipped text (.pattern (.optional p) trivia offset (.empty offset)) []
  | ahead {negated : Bool} {p : PatternDef} {trivia : Bool} {offset : Nat} :
    Derives table skipped text (.pattern (.ahead negated p) trivia offset (.empty offset)) []
  | trivia {skip : Bool} {p : PatternDef} {trivia : Bool} {offset : Nat} {m : Matched}
    {ls : List Leaf} : Derives table skipped text (.pattern p skip offset m) ls →
    Derives table skipped text (.pattern (.trivia skip p) trivia offset m) ls
  | silent {p : PatternDef} {trivia : Bool} {offset : Nat} {m : Matched} {ls : List Leaf} :
    Derives table skipped text (.pattern p trivia offset m) ls →
    Derives table skipped text (.pattern (.silent p) trivia offset { m with value := .null }) ls
  | noPart {trivia : Bool} {ps : Parts} : Derives table skipped text (.parts [] trivia ps ps) []
  | part {field : Option String} {capture : Capture} {p : PatternDef} {rest : List ComponentDef}
    {trivia : Bool} {ps ps' : Parts} {m : Matched} {ls ls' : List Leaf} :
    Derives table skipped text (.pattern p trivia ps.cursor m) ls →
    Derives table skipped text (.parts rest trivia (ps.push field capture m) ps') ls' →
    Derives table skipped text (.parts (⟨field, capture, p⟩ :: rest) trivia ps ps') (ls ++ ls')
  | noRound {item : PatternDef} {separator : Option PatternDef} {trivia : Bool} {offset : Nat} :
    Derives table skipped text (.rounds item separator trivia offset (.startingAt offset)) []
  | round {item : PatternDef} {separator : Option PatternDef} {trivia : Bool} {offset next : Nat}
    {rs : Rounds} {m : Matched} {ls ls' ls'' : List Leaf} :
    Derives table skipped text (.rounds item separator trivia offset rs) ls →
    Derives table skipped text (.next separator trivia rs next) ls' →
    Derives table skipped text (.pattern item trivia next m) ls'' →
    (m.stop = rs.cursor → rs.items = [] ∧ separator ≠ none) →
    Derives table skipped text (.rounds item separator trivia offset (rs.pushed m))
      (ls ++ (ls' ++ ls''))
  | leading {separator : Option PatternDef} {trivia : Bool} {rs : Rounds} :
    separator = none ∨ rs.items = [] →
    Derives table skipped text (.next separator trivia rs rs.cursor) []
  | separated {p : PatternDef} {trivia : Bool} {rs : Rounds} {m : Matched} {ls : List Leaf} :
    rs.items ≠ [] → Derives table skipped text (.pattern p trivia rs.cursor m) ls →
    Derives table skipped text (.next (some p) trivia rs m.stop) ls

section Existence

variable {table : List RuleDef} {skipped : Option Lexeme} {text : Text} {calls : Calls}

section Rounds

variable {item : PatternDef} {separator : Option PatternDef} {trivia : Bool}
  (hitem : ∀ offset m, Matches skipped text calls item trivia offset m →
    ∃ ls, Derives table skipped text (.pattern item trivia offset m) ls)
  (hseparator : ∀ p ∈ separator, ∀ offset m, Matches skipped text calls p trivia offset m →
    ∃ ls, Derives table skipped text (.pattern p trivia offset m) ls)

include hseparator in
theorem next_derives {rs : Rounds} {next : Nat}
    (h : rs.Next (separator.map (Matches skipped text calls · trivia)) next) :
    ∃ ls, Derives table skipped text (.next separator trivia rs next) ls := by
  cases h with
  | leading h => exact ⟨[], .leading (h.imp_left Option.map_eq_none_iff.1)⟩
  | separated hp hi hm =>
    obtain ⟨p, rfl, rfl⟩ := Option.map_eq_some_iff.1 hp
    obtain ⟨ls, hls⟩ := hseparator p rfl _ _ hm
    exact ⟨ls, .separated hi hls⟩

include hitem hseparator

theorem rounds_derives {offset : Nat} {rs : Rounds}
    (h : rs.Grown (Matches skipped text calls item trivia)
      (separator.map (Matches skipped text calls · trivia)) offset) :
    ∃ ls, Derives table skipped text (.rounds item separator trivia offset rs) ls := by
  induction h with
  | start => exact ⟨[], .noRound⟩
  | more _ hnext hm hempty ih =>
    obtain ⟨ls, hls⟩ := ih
    obtain ⟨ls', hls'⟩ := next_derives hseparator hnext
    obtain ⟨ls'', hls''⟩ := hitem _ _ hm
    refine ⟨_, .round hls hls' hls'' fun hstop => ?_⟩
    exact (hempty hstop).imp_right (mt Option.map_eq_none_iff.2)

theorem repetition_derives {offset least : Nat} {m : Matched} (trailing : Bool)
    (h : MatchesRounds (Matches skipped text calls item trivia)
      (separator.map (Matches skipped text calls · trivia)) least offset m) :
    ∃ ls, Derives table skipped text
      (.pattern (.repetition item separator least trailing) trivia offset m) ls := by
  obtain ⟨rs, stop, hgrown, hstop, hm⟩ := h
  obtain ⟨ls, hls⟩ := rounds_derives hitem hseparator hgrown
  obtain rfl | ⟨hlt, hnext⟩ := hstop
  · exact ⟨ls, .repetition trailing hls hm⟩
  · obtain ⟨ls', hls'⟩ := next_derives hseparator hnext
    exact ⟨_, .trailed trailing hls hlt hls' hm⟩

end Rounds

mutual

/-- A match has a derivation if those of rules do. -/
theorem derives_of_matches (hcalls : ∀ r trivia offset m, calls r trivia offset m →
      ∃ ls, Derives table skipped text (.pattern (.rule r) trivia offset m) ls) :
    (p : PatternDef) → (∀ sc ∈ p.scanners, sc.Honest) →
    ∀ {trivia offset m}, Matches skipped text calls p trivia offset m →
    ∃ ls, Derives table skipped text (.pattern p trivia offset m) ls
  | .terminal t, _, trivia, offset, m, h => by
    obtain ⟨l, start, rfl, hread, hl, hm⟩ := h
    exact ⟨_, .terminal hread hl hm⟩
  | .scan sc, honest, trivia, offset, m, h => by
    obtain ⟨start, hl, hm⟩ := h
    exact ⟨_, .scan (honest sc (List.mem_singleton.2 rfl)) hl hm⟩
  | .endOfInput, _, trivia, offset, m, h => by
    obtain ⟨start, hl, hm⟩ := h
    exact ⟨_, .endOfInput hl hm⟩
  | .rule r, _, trivia, offset, m, h => hcalls r trivia offset m h
  | .sequence cs, honest, trivia, offset, m, h => by
    obtain ⟨ps, hps, rfl⟩ := h
    obtain ⟨ls, hls⟩ := parts_derive hcalls cs honest hps
    exact ⟨ls, .sequence hls⟩
  | .choice ps, honest, trivia, offset, m, h => by
    obtain ⟨p, hp, ls, hls⟩ := choice_derives hcalls ps honest h
    exact ⟨ls, .choice hp hls⟩
  | .repetition item none _ trailing, honest, trivia, offset, m, h =>
    repetition_derives (fun _ _ => derives_of_matches hcalls item honest) (by simp) trailing h
  | .repetition item (some separator) _ trailing, honest, trivia, offset, m, h => by
    obtain ⟨honest, honest'⟩ := List.forall_mem_append.1 honest
    refine repetition_derives (fun _ _ => derives_of_matches hcalls item honest) ?_ trailing h
    rintro p ⟨⟩ offset m
    exact derives_of_matches hcalls separator honest'
  | .optional p, honest, trivia, offset, m, h => by
    obtain h | rfl := h
    · obtain ⟨ls, hls⟩ := derives_of_matches hcalls p honest h
      exact ⟨ls, .present hls⟩
    · exact ⟨[], .absent⟩
  | .ahead _ _, _, trivia, offset, m, h => by
    obtain ⟨-, rfl⟩ := h
    exact ⟨[], .ahead⟩
  | .trivia skip p, honest, _, offset, m, h => by
    obtain ⟨ls, hls⟩ := derives_of_matches hcalls p honest h
    exact ⟨ls, .trivia hls⟩
  | .silent p, honest, trivia, offset, m, h => by
    obtain ⟨m', h, rfl⟩ := h
    obtain ⟨ls, hls⟩ := derives_of_matches hcalls p honest h
    exact ⟨ls, .silent hls⟩

theorem parts_derive (hcalls : ∀ r trivia offset m, calls r trivia offset m →
      ∃ ls, Derives table skipped text (.pattern (.rule r) trivia offset m) ls) :
    (cs : List ComponentDef) →
    (∀ sc ∈ Pattern.componentScanners cs, sc.Honest) → ∀ {trivia ps ps'},
    MatchesParts skipped text calls cs trivia ps ps' →
    ∃ ls, Derives table skipped text (.parts cs trivia ps ps') ls
  | [], _, trivia, ps, ps', h => by
    obtain rfl := h
    exact ⟨[], .noPart⟩
  | ⟨field, capture, p⟩ :: rest, honest, trivia, ps, ps', h => by
    obtain ⟨honest, honest'⟩ := List.forall_mem_append.1 honest
    obtain ⟨m, hm, h⟩ := h
    obtain ⟨ls, hls⟩ := derives_of_matches hcalls p honest hm
    obtain ⟨ls', hls'⟩ := parts_derive hcalls rest honest' h
    exact ⟨_, .part hls hls'⟩

theorem choice_derives (hcalls : ∀ r trivia offset m, calls r trivia offset m →
      ∃ ls, Derives table skipped text (.pattern (.rule r) trivia offset m) ls) :
    (ps : List PatternDef) →
    (∀ sc ∈ Pattern.allScanners ps, sc.Honest) → ∀ {trivia offset m},
    MatchesOne skipped text calls ps trivia offset m →
    ∃ p ∈ ps, ∃ ls, Derives table skipped text (.pattern p trivia offset m) ls
  | [], _, _, _, _, h => nomatch h
  | p :: rest, honest, trivia, offset, m, h => by
    obtain ⟨honest, honest'⟩ := List.forall_mem_append.1 honest
    obtain h | h := h
    · obtain ⟨ls, hls⟩ := derives_of_matches hcalls p honest h
      exact ⟨p, List.mem_cons_self, ls, hls⟩
    · obtain ⟨q, hq, ls, hls⟩ := choice_derives hcalls rest honest' h
      exact ⟨q, List.mem_cons_of_mem p hq, ls, hls⟩

end

end Existence

/-- Matches of rules have derivations. -/
def derivable (s : Setting) (table : List RuleDef) : Invariant where
  good _ := True
  holds input name trivia offset m :=
    ∃ ls, Derives table s.grammar.trivia input.text (.pattern (.rule name) trivia offset m) ls
  fails _ := True

section Sessions

variable {s : Setting} {table : List RuleDef}
  (honest : ∀ sc ∈ table.flatMap (·.pattern.scanners), sc.Honest)

include honest

theorem derivable_closed : (derivable s table).Closed s table where
  deep _ _ _ _ := trivial
  shape input _ d hd trivia offset m _ _ hm reparse _ := by
    refine ⟨fun v _ => ?_, fun _ _ => trivial⟩
    obtain ⟨ls, hls⟩ := derives_of_matches (fun _ _ _ _ h => h.2) d.pattern
      (fun sc hsc => honest sc (List.mem_flatMap.2 ⟨d, hd, hsc⟩)) hm
    exact ⟨ls, .rule v hd hls⟩

/-- Wherever a session is at, a pattern that matches has a derivation. -/
theorem derives_of_occurs (hl : s.grammar.Lists table) {source input : Input}
    (hstart : source.text.Boundary 0) {q : LinkedPattern} {skip : Bool} {offset : Nat}
    {σ σ' : Progress} (h : Occurs s source input (.pattern q skip offset) σ) {m : Matched}
    (hexec : Exec s (· ≤ s.limit) input (.pattern q skip offset) σ (.ok (some m)) σ') :
    ∃ ls, Derives table s.grammar.trivia input.text (.pattern q.written skip offset m) ls := by
  have hclosed := derivable_closed (s := s) honest
  have hunderway := h.underway hclosed hl trivial hstart fun _ _ _ _ => trivial
  have hmatches : Matches s.grammar.trivia input.text ((derivable s table).calls input)
      q.written skip offset m := (hexec.kept hclosed hl hunderway).found m rfl
  refine derives_of_matches (fun _ _ _ _ h => h.2) q.written (fun sc hsc => ?_) hmatches
  rw [LinkedPattern.written, Pattern.scanners_map] at hsc
  exact hunderway.before.1.2 sc hsc

end Sessions

/-- Leaves one behind the other, from one offset to another. -/
inductive Spread : Nat → List Leaf → Nat → Prop where
  | nil {offset stop : Nat} : offset ≤ stop → Spread offset [] stop
  | cons {offset stop : Nat} {l : Leaf} {ls : List Leaf} : offset ≤ l.start → l.start < l.stop →
    Spread l.stop ls stop → Spread offset (l :: ls) stop

namespace Spread

variable {a b c : Nat} {ls ls' : List Leaf}

theorem le (h : Spread a ls b) : a ≤ b := by
  induction h with
  | nil h => exact h
  | cons hstart hlt _ ih => exact hstart.trans (hlt.le.trans ih)

theorem after (h : Spread b ls c) (hab : a ≤ b) : Spread a ls c := by
  cases h with
  | nil h => exact .nil (hab.trans h)
  | cons hstart hlt h => exact .cons (hab.trans hstart) hlt h

theorem append (h : Spread a ls b) (h' : Spread b ls' c) : Spread a (ls ++ ls') c := by
  induction h with
  | nil h => exact h'.after h
  | cons hstart hlt _ ih => exact .cons hstart hlt (ih h')

theorem within (h : Spread a ls b) : ∀ l ∈ ls, a ≤ l.start ∧ l.start < l.stop ∧ l.stop ≤ b := by
  induction h with
  | nil _ => exact nofun
  | cons hstart hlt h ih =>
    refine List.forall_mem_cons.2 ⟨⟨hstart, hlt, h.le⟩, fun l hl => ?_⟩
    obtain ⟨hbehind, htakes, hstop⟩ := ih l hl
    exact ⟨hstart.trans (hlt.le.trans hbehind), htakes, hstop⟩

end Spread

theorem Matched.Placed.leaves {m : Matched} {text : Text} {offset : Nat}
    (h : m.Placed text offset) : Spread offset m.leaves m.stop := by
  unfold Matched.leaves
  split
  · rename_i hconsumed
    exact .cons h.behind (of_decide_eq_true hconsumed) (.nil (Nat.le_refl _))
  · exact .nil (h.behind.trans h.forward)

/-- A piece goes on from one place between two characters to another, and leaves lie between the
two. -/
def Piece.Lies (text : Text) (ls : List Leaf) : Piece → Prop
  | .pattern _ _ offset m => text.Boundary offset → m.Placed text offset ∧ Spread offset ls m.stop
  | .parts _ _ ps ps' => ∀ offset, Run text offset ps.start ps.cursor →
    Run text offset ps'.start ps'.cursor ∧ Spread ps.cursor ls ps'.cursor
  | .rounds _ _ _ offset rs => text.Boundary offset →
    Run text offset rs.start rs.cursor ∧ Spread offset ls rs.cursor
  | .next _ _ rs offset => text.Boundary rs.cursor →
    text.Boundary offset ∧ Spread rs.cursor ls offset

variable {table : List RuleDef} {skipped : Option Lexeme} {text : Text} {ls : List Leaf}

/-- The leaves of a derivation lie one behind the other within what is derived. -/
theorem Derives.lies {piece : Piece} (h : Derives table skipped text piece ls) :
    piece.Lies text ls := by
  induction h with
  | @terminal l trivia offset start m _ hl hm =>
    intro hb
    have hplaced := placed_of_takes hl hb fun cs hcs => l.found_takes hcs hm
    exact ⟨hplaced, hplaced.leaves⟩
  | scan honest hl hm =>
    intro hb
    have hplaced := placed_of_takes hl hb fun cs hcs => Scanner.found_takes honest hcs hm
    exact ⟨hplaced, hplaced.leaves⟩
  | endOfInput hl hm =>
    intro hb
    have hplaced := endFound_placed hl hb hm
    exact ⟨hplaced, .nil (hplaced.behind.trans hplaced.forward)⟩
  | rule v _ _ ih =>
    intro hb
    obtain ⟨⟨hbehind, hforward, hstart, hstop⟩, hls⟩ := ih hb
    exact ⟨⟨hbehind, hforward, hstart, hstop⟩, hls⟩
  | sequence _ ih =>
    intro hb
    obtain ⟨hrun, hls⟩ := ih _ (.starting hb)
    exact ⟨Parts.finish_placed hrun, hls⟩
  | choice _ _ ih => exact ih
  | repetition _ _ hm ih =>
    intro hb
    obtain ⟨hrun, hls⟩ := ih hb
    have hplaced := Rounds.finish_placed hrun hb hm
    rw [← Rounds.finish_stop hm] at hls
    exact ⟨hplaced, hls⟩
  | @trailed item separator least trivia offset stop rs m ls ls' _ _ hlt _ hm ih ih' =>
    intro hb
    obtain ⟨hrun, hls⟩ := ih hb
    obtain ⟨hstop, hls'⟩ := ih' hrun.here
    have hstops : Run text offset rs.start stop := by
      refine ⟨hrun.behind.trans hlt.le, hstop, fun a ha => ?_⟩
      obtain ⟨ho, hc, hab⟩ := hrun.start a ha
      exact ⟨ho, hc.trans hlt.le, hab⟩
    have hplaced : m.Placed text offset := by
      refine Rounds.finish_placed ?_ hb hm
      exact hstops
    refine ⟨hplaced, ?_⟩
    rw [Rounds.finish_stop hm]
    exact hls.append hls'
  | present _ ih => exact ih
  | absent => exact fun hb => ⟨placed_empty hb, .nil (Nat.le_refl _)⟩
  | ahead => exact fun hb => ⟨placed_empty hb, .nil (Nat.le_refl _)⟩
  | trivia _ ih => exact ih
  | silent _ ih =>
    intro hb
    obtain ⟨⟨hbehind, hforward, hstart, hstop⟩, hls⟩ := ih hb
    exact ⟨⟨hbehind, hforward, hstart, hstop⟩, hls⟩
  | noPart => exact fun _ hrun => ⟨hrun, .nil (Nat.le_refl _)⟩
  | @part field capture p rest trivia ps ps' m ls ls' _ _ ih ih' =>
    intro offset hrun
    obtain ⟨hplaced, hls⟩ := ih hrun.here
    obtain ⟨hrun', hls'⟩ := ih' offset (Parts.push_run hrun field capture hplaced)
    rw [Parts.push_cursor] at hls'
    exact ⟨hrun', hls.append hls'⟩
  | noRound => exact fun hb => ⟨.starting hb, .nil (Nat.le_refl _)⟩
  | round _ _ _ _ ih ih' ih'' =>
    intro hb
    obtain ⟨hrun, hls⟩ := ih hb
    obtain ⟨hnext, hls'⟩ := ih' hrun.here
    obtain ⟨hplaced, hls''⟩ := ih'' hnext
    exact ⟨hrun.push hls'.le hplaced, hls.append (hls'.append hls'')⟩
  | leading _ => exact fun hb => ⟨hb, .nil (Nat.le_refl _)⟩
  | separated _ _ ih =>
    intro hb
    obtain ⟨hplaced, hls⟩ := ih hb
    exact ⟨hplaced.stop, hls⟩

end PhpSyntax.Peg
