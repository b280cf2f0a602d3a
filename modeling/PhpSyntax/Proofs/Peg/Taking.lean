import PhpSyntax.Proofs.Peg.Matches
import PhpSyntax.Proofs.Peg.Reading
import PhpSyntax.Proofs.Regex.Framed
import PhpSyntax.Proofs.Regex.Head
import PhpSyntax.Proofs.Regex.Language

namespace PhpSyntax.Peg

open Regex Program

namespace Terminal

/-- The group of a terminal, with some characters in front of it and some behind it. -/
def Frames (t : Terminal) (front back : List CharSet) (stages : List Stage) : Prop :=
  t.group = 1 ∧ ∃ p ∈ t.program?, p.Framed front back stages

/-- A terminal that takes one character of each set. -/
def Spells (t : Terminal) (sets : List CharSet) : Prop :=
  ∃ p ∈ t.program?, p.startsText = true ∧
    p.spelling? (p.steps.size + 1) p.start = some sets

/-- A terminal whose matches begin with one character of each set. -/
def Begins (t : Terminal) (sets : List CharSet) : Prop :=
  ∃ p ∈ t.program?, p.startsText = true ∧ p.head p.steps.size p.start = sets

def Whole (t : Terminal) : Prop :=
  t.group = 0 ∧ ∃ p ∈ t.program?, p.startsText = true

/-- A terminal that yields all it takes, and takes texts that a regex describes. -/
def Describes (t : Terminal) (r : Regex) : Prop :=
  t.group = 0 ∧ r.startsText = true ∧ t.program? = some (.ofRegex r)

instance (t : Terminal) (front back : List CharSet) (stages : List Stage) :
    Decidable (t.Frames front back stages) :=
  inferInstanceAs (Decidable (_ ∧ _))

instance (t : Terminal) (sets : List CharSet) : Decidable (t.Spells sets) :=
  inferInstanceAs (Decidable (∃ _ ∈ t.program?, _))

instance (t : Terminal) (sets : List CharSet) : Decidable (t.Begins sets) :=
  inferInstanceAs (Decidable (∃ _ ∈ t.program?, _))

instance (t : Terminal) : Decidable t.Whole :=
  inferInstanceAs (Decidable (_ ∧ _))

end Terminal

section None

variable {t : Terminal} {text cs : List Char} (hcs : ¬text <+: cs)

include hcs

theorem Terminal.Spells.takes_none (h : t.Spells (text.map .single)) : t.Takes cs none := by
  rintro ⟨t, program⟩ hl rfl
  obtain ⟨p, hp, hstarts, hspelling⟩ := h
  obtain rfl : program = p := Option.some.inj (hl.symm.trans hp)
  have hnone : program.find? (t.group != 0) cs (byteLength cs) = none := by
    rw [Option.eq_none_iff_forall_ne_some]
    intro f hf
    obtain ⟨front, rest, rfl, -, hspell⟩ := find?_spelled hstarts hspelling hf
    rw [Spell.literal hspell] at hcs
    exact hcs (List.prefix_append text rest)
  simp only [Lexeme.matchAt?, hnone, Option.map_none]

theorem Terminal.Frames.takes_none {back : List CharSet} {stages : List Stage}
    (h : t.Frames (text.map .single) back stages) : t.Takes cs none := by
  rintro ⟨t, program⟩ hl rfl
  obtain ⟨-, p, hp, hframed⟩ := h
  obtain rfl : program = p := Option.some.inj (hl.symm.trans hp)
  have hnone : program.find? (t.group != 0) cs (byteLength cs) = none := by
    rw [Option.eq_none_iff_forall_ne_some]
    intro f hf
    obtain ⟨front, body, more, rest, rfl, hspell, -⟩ := find?_framed hframed hf
    rw [Spell.literal hspell] at hcs
    exact hcs (List.prefix_append text _)
  simp only [Lexeme.matchAt?, hnone, Option.map_none]

end None

theorem Terminal.Describes.takes_none {t : Terminal} {r : Regex} (h : t.Describes r) {cs : List Char}
    (hcs : ∀ front rest, cs = front ++ rest → front ∉ r.language) : t.Takes cs none := by
  rintro ⟨t, program⟩ hl rfl
  obtain ⟨-, hstarts, hr⟩ := h
  obtain rfl : program = .ofRegex r := Option.some.inj (hl.symm.trans hr)
  have hnone : (ofRegex r).find? (t.group != 0) cs (byteLength cs) = none := by
    rw [Option.eq_none_iff_forall_ne_some]
    intro f hf
    obtain ⟨skipped, taken, rest, hsplit, htaken, -, hstart⟩ := find?_language hf
    obtain rfl := hstart hstarts
    exact hcs taken rest hsplit htaken
  simp only [Lexeme.matchAt?, hnone, Option.map_none]

section Found

variable {l : Lexeme} {text : Text} {start : Nat} {cs : List Char} {m : Matched}

theorem Lexeme.found_eq (hcs : text.Has start cs) (h : l.found text start = some m) :
    ∃ f : Found, l.program.find? (l.group != 0) cs (byteLength cs) = some f ∧
      m = ⟨start, start + f.stop, .text (l.transform.apply (f.text l.group))⟩ := by
  obtain ⟨r, hr, rfl⟩ := Option.map_eq_some_iff.1 h
  rw [hcs.after?, hcs.left, Option.bind_some] at hr
  obtain ⟨q, hq, rfl⟩ := Option.map_eq_some_iff.1 hr
  obtain ⟨f, hf, rfl⟩ := Option.map_eq_some_iff.1 hq
  exact ⟨f, hf, rfl⟩

variable (hread : l.Read) (hcs : text.Has start cs) (h : l.found text start = some m)

include hread hcs h

theorem Lexeme.found_framed {front back : List CharSet} {stages : List Stage}
    (hl : l.toTerminal.Frames front back stages) :
    ∃ taken body more rest, cs = taken ++ (body ++ (more ++ rest)) ∧ Spell front taken ∧
      Spell back more ∧ m = ⟨start, start + byteLength (taken ++ (body ++ more)),
        .text (l.transform.apply (String.ofList body))⟩ := by
  obtain ⟨hgroup, p, hp, hframed⟩ := hl
  obtain rfl := Option.some.inj (hread.symm.trans hp)
  obtain ⟨f, hf, rfl⟩ := found_eq hcs h
  obtain ⟨taken, body, more, rest, hsplit, hspell, hmore, hstop, htext⟩ := find?_framed hframed hf
  refine ⟨taken, body, more, rest, hsplit, hspell, hmore, ?_⟩
  rw [hgroup, hstop, htext]

theorem Lexeme.found_spelled {sets : List CharSet} (hl : l.toTerminal.Spells sets) :
    ∃ front rest, cs = front ++ rest ∧ Spell sets front ∧ m.start = start ∧
      m.stop = start + byteLength front := by
  obtain ⟨p, hp, hstarts, hspelling⟩ := hl
  obtain rfl := Option.some.inj (hread.symm.trans hp)
  obtain ⟨f, hf, rfl⟩ := found_eq hcs h
  obtain ⟨front, rest, hsplit, hstop, hspell⟩ := find?_spelled hstarts hspelling hf
  exact ⟨front, rest, hsplit, hspell, rfl, by rw [hstop]⟩

theorem Lexeme.found_begins {sets : List CharSet} (hl : l.toTerminal.Begins sets) :
    ∃ begun more rest, cs = begun ++ (more ++ rest) ∧ Spell sets begun ∧ m.start = start ∧
      m.stop = start + byteLength (begun ++ more) := by
  obtain ⟨p, hp, hstarts, rfl⟩ := hl
  obtain rfl := Option.some.inj (hread.symm.trans hp)
  obtain ⟨f, hf, rfl⟩ := found_eq hcs h
  obtain ⟨begun, more, rest, hsplit, hspell, hstop⟩ := find?_head hstarts _ hf
  exact ⟨begun, more, rest, hsplit, hspell, rfl, by rw [hstop]⟩

theorem Lexeme.found_whole (hl : l.toTerminal.Whole) :
    ∃ front rest, cs = front ++ rest ∧ m = ⟨start, start + byteLength front,
      .text (l.transform.apply (String.ofList front))⟩ := by
  obtain ⟨hgroup, p, hp, hstarts⟩ := hl
  obtain rfl := Option.some.inj (hread.symm.trans hp)
  obtain ⟨f, hf, rfl⟩ := found_eq hcs h
  obtain ⟨front, rest, hsplit, hstop, htext⟩ := find?_whole hstarts hf
  exact ⟨front, rest, hsplit, by rw [hgroup, hstop, htext]⟩

theorem Lexeme.found_described {r : Regex} (hl : l.toTerminal.Describes r) :
    ∃ front rest, cs = front ++ rest ∧ front ∈ r.language ∧
      m = ⟨start, start + byteLength front, .text (l.transform.apply (String.ofList front))⟩ := by
  obtain ⟨hgroup, hstarts, hr⟩ := hl
  have hprogram : l.program = .ofRegex r := Option.some.inj (hread.symm.trans hr)
  obtain ⟨f, hf, rfl⟩ := found_eq hcs h
  rw [hprogram] at hf
  obtain ⟨front, rest, hsplit, hstop, htext⟩ := find?_whole hstarts hf
  obtain ⟨skipped, taken, more, hsplit', htaken, hstop', hnone⟩ := find?_language hf
  obtain rfl := hnone hstarts
  have hsame : taken = front := by
    have htake := takeBytes_append taken more
    rw [List.nil_append] at hsplit' hstop'
    rw [← hsplit', ← hstop', hstop, hsplit, takeBytes_append] at htake
    exact htake.symm
  exact ⟨front, rest, hsplit, hsame ▸ htaken, by rw [hgroup, hstop, htext]⟩

end Found

section Matching

variable {skipped : Option Lexeme} {text : Text} {calls : Calls} {trivia : Bool} {t : Terminal}
  {offset : Nat} {m : Matched}

section Terminals

variable (hb : text.Boundary offset)
  (hm : Matches skipped text calls (.terminal t) trivia offset m)

include hb hm

theorem matches_spelled {sets : List CharSet} (ht : t.Spells sets) :
    ∃ written rest, LeadsTo skipped text trivia offset m.start ∧
      text.Has m.start (written ++ rest) ∧ Spell sets written ∧
      m.stop = m.start + byteLength written := by
  obtain ⟨l, start, rfl, hread, hlead, hfound⟩ := hm
  obtain ⟨-, cs, hcs⟩ := hlead.placed hb
  obtain ⟨written, rest, rfl, hspell, rfl, hstop⟩ := Lexeme.found_spelled hread hcs hfound ht
  exact ⟨written, rest, hlead, hcs, hspell, hstop⟩

theorem matches_begins {sets : List CharSet} (ht : t.Begins sets) :
    ∃ begun more rest, LeadsTo skipped text trivia offset m.start ∧
      text.Has m.start (begun ++ (more ++ rest)) ∧ Spell sets begun ∧
      m.stop = m.start + byteLength (begun ++ more) := by
  obtain ⟨l, start, rfl, hread, hlead, hfound⟩ := hm
  obtain ⟨-, cs, hcs⟩ := hlead.placed hb
  obtain ⟨begun, more, rest, rfl, hspell, rfl, hstop⟩ :=
    Lexeme.found_begins hread hcs hfound ht
  exact ⟨begun, more, rest, hlead, hcs, hspell, hstop⟩

theorem matches_whole (ht : t.Whole) :
    ∃ written rest, LeadsTo skipped text trivia offset m.start ∧
      text.Has m.start (written ++ rest) ∧ m.stop = m.start + byteLength written ∧
      m.value = .text (t.transform.apply (String.ofList written)) := by
  obtain ⟨l, start, rfl, hread, hlead, hfound⟩ := hm
  obtain ⟨-, cs, hcs⟩ := hlead.placed hb
  obtain ⟨written, rest, rfl, rfl⟩ := Lexeme.found_whole hread hcs hfound ht
  exact ⟨written, rest, hlead, hcs, rfl, rfl⟩

theorem matches_described {r : Regex} (ht : t.Describes r) :
    ∃ written rest, LeadsTo skipped text trivia offset m.start ∧
      text.Has m.start (written ++ rest) ∧ written ∈ r.language ∧
      m.stop = m.start + byteLength written ∧
      m.value = .text (t.transform.apply (String.ofList written)) := by
  obtain ⟨l, start, rfl, hread, hlead, hfound⟩ := hm
  obtain ⟨-, cs, hcs⟩ := hlead.placed hb
  obtain ⟨written, rest, rfl, hwritten, rfl⟩ := Lexeme.found_described hread hcs hfound ht
  exact ⟨written, rest, hlead, hcs, hwritten, rfl, rfl⟩

theorem matches_framed {front back : List CharSet} {stages : List Stage}
    (ht : t.Frames front back stages) :
    ∃ taken body more rest, text.Has m.start (taken ++ (body ++ (more ++ rest))) ∧
      Spell front taken ∧ Spell back more ∧
      m.stop = m.start + byteLength (taken ++ (body ++ more)) ∧
      m.value = .text (t.transform.apply (String.ofList body)) := by
  obtain ⟨l, start, rfl, hread, hlead, hfound⟩ := hm
  obtain ⟨-, cs, hcs⟩ := hlead.placed hb
  obtain ⟨taken, body, more, rest, rfl, htaken, hmore, rfl⟩ :=
    Lexeme.found_framed hread hcs hfound ht
  exact ⟨taken, body, more, rest, hcs, htaken, hmore, rfl, rfl⟩

end Terminals

theorem matches_text (hm : Matches skipped text calls (.terminal t) trivia offset m) :
    ∃ s, m.value = .text s := by
  obtain ⟨l, start, -, -, -, hfound⟩ := hm
  obtain ⟨r, hr, rfl⟩ := Option.map_eq_some_iff.1 hfound
  obtain ⟨cs, -, hr⟩ := Option.bind_eq_some_iff.1 hr
  obtain ⟨r', -, rfl⟩ := Option.map_eq_some_iff.1 hr
  exact ⟨_, rfl⟩

theorem LeadsTo.of_raw {start : Nat} (h : LeadsTo skipped text false offset start) :
    start = offset := by
  cases h
  rfl

/-- A match of a single field is where its part is. -/
theorem matches_field {name : String} {capture : Capture} {p : PatternDef}
    (h : Matches skipped text calls (.sequence [⟨some name, capture, p⟩]) trivia offset m) :
    ∃ m', Matches skipped text calls p trivia offset m' ∧ m.stop = m'.stop ∧
      (m'.start ≤ m'.stop → m.start = m'.start) ∧
      m.value = .record ⟨[(name, capture.apply m'.value)]⟩ := by
  obtain ⟨ps, ⟨m', hm', rfl⟩, rfl⟩ := h
  refine ⟨m', hm', rfl, fun hforward => ?_, rfl⟩
  by_cases hconsumed : m'.consumed = true
  · simp [Parts.push, Parts.finish, Parts.startingAt, hconsumed]
  · have hempty : m'.stop = m'.start := by
      simp only [Matched.consumed, decide_eq_true_eq] at hconsumed
      omega
    simp [Parts.push, Parts.finish, Parts.startingAt, hconsumed, hempty]

end Matching

theorem matchesParts_start {skipped : Option Lexeme} {text : Text} {calls : Calls} {trivia : Bool}
    {start : Nat} : (cs : List ComponentDef) → ∀ {ps ps' : Parts}, ps.start = some start →
      MatchesParts skipped text calls cs trivia ps ps' → ps'.start = some start
  | [], ps, ps', hps, h => by
    obtain rfl := h
    exact hps
  | ⟨field, capture, p⟩ :: rest, ps, ps', hps, h => by
    obtain ⟨m, -, h⟩ := h
    refine matchesParts_start rest ?_ h
    rw [Parts.push_start, hps]
    rfl

section Opening

variable {skipped : Option Lexeme} {text : Text} {calls : Calls} {field : Option String}
  {capture : Capture} {rest : List ComponentDef} {offset : Nat} {m : Matched}

/-- A sequence begins with its first component if that takes something. -/
theorem matches_opened {p : PatternDef} {trivia : Bool} {start : Nat}
    (hfirst : ∀ m', Matches skipped text calls p trivia offset m' →
      m'.start = start ∧ start < m'.stop)
    (hm : Matches skipped text calls (.sequence (⟨field, capture, p⟩ :: rest)) trivia offset m) :
    m.start = start := by
  obtain ⟨ps, ⟨m', hm', hrest⟩, rfl⟩ := hm
  obtain ⟨hstart, hstop⟩ := hfirst m' hm'
  have hbegun : ((Parts.startingAt offset).push field capture m').start = some start := by
    simp [Parts.push_start, Parts.startingAt, Matched.consumed, hstart, hstop]
  simp only [Parts.finish, matchesParts_start rest hbegun hrest, Option.getD_some]

/-- A sequence begins with what its first terminal begins with. -/
theorem matches_opening {t : Terminal} {set : CharSet} {sets : List CharSet}
    (hb : text.Boundary offset) (ht : t.Begins (set :: sets))
    (hm : Matches skipped text calls (.sequence (⟨field, capture, .terminal t⟩ :: rest)) false
      offset m) :
    m.start = offset ∧ ∃ begun rest, text.Has offset (begun ++ rest) ∧
      Spell (set :: sets) begun := by
  have hterminal : ∀ m', Matches skipped text calls (.terminal t) false offset m' →
      (m'.start = offset ∧ offset < m'.stop) ∧
        ∃ begun rest, text.Has offset (begun ++ rest) ∧ Spell (set :: sets) begun := by
    intro m' hm'
    obtain ⟨begun, more, rest, hlead, hhas, hspell, hstop⟩ := matches_begins hb hm' ht
    have hstart := hlead.of_raw
    rw [hstart] at hhas hstop
    refine ⟨⟨hstart, ?_⟩, begun, more ++ rest, hhas, hspell⟩
    have hne : begun ≠ [] := by
      rintro rfl
      cases hspell
    have hpos := byteLength_pos hne
    rw [hstop, byteLength_append]
    omega
  refine ⟨matches_opened (fun m' hm' => (hterminal m' hm').1) hm, ?_⟩
  obtain ⟨ps, ⟨m', hm', -⟩, -⟩ := hm
  exact (hterminal m' hm').2

end Opening

end PhpSyntax.Peg
