import PhpSyntax.Proofs.Peg.Underway

namespace PhpSyntax

def Text.Holds (t : Text) (offset : Nat) (part : Text) : Prop :=
  ∃ cs rest, part = .ofList cs ∧ t.Has offset (cs ++ rest)

theorem Text.Has.holds {t : Text} {offset : Nat} {cs rest : List Char}
    (h : t.Has offset (cs ++ rest)) : t.Holds offset (.ofString (String.ofList cs)) := by
  refine ⟨cs, rest, ?_, h⟩
  rw [Text.ofString, String.toList_ofList]

namespace Text.Holds

variable {t part inner : Text} {offset : Nat}

theorem within (h : t.Holds offset part) : offset + part.size ≤ t.size := by
  obtain ⟨cs, rest, rfl, hcs⟩ := h
  rw [hcs.size, size_ofList, byteLength_append]
  omega

theorem has (h : t.Holds offset part) {place : Nat} {cs : List Char} (hcs : part.Has place cs) :
    ∃ rest, t.Has (offset + place) (cs ++ rest) := by
  obtain ⟨whole, rest, rfl, hwhole⟩ := h
  obtain ⟨front, hfront, rfl⟩ := hcs
  obtain rfl : whole = front ++ cs := congrArg Text.chars hfront
  rw [List.append_assoc] at hwhole
  exact ⟨rest, hwhole.move⟩

theorem boundary (h : t.Holds offset part) {place : Nat} (hb : part.Boundary place) :
    t.Boundary (offset + place) := by
  obtain ⟨cs, hcs⟩ := hb
  obtain ⟨rest, hrest⟩ := h.has hcs
  exact ⟨_, hrest⟩

theorem trans (h : t.Holds offset part) {offset' : Nat} (h' : part.Holds offset' inner) :
    t.Holds (offset + offset') inner := by
  obtain ⟨cs, rest, rfl, hcs⟩ := h
  obtain ⟨cs', rest', rfl, front, hfront, rfl⟩ := h'
  obtain rfl : cs = front ++ (cs' ++ rest') := by
    rw [← chars_ofList cs, hfront, chars_ofList]
  refine ⟨cs', rest' ++ rest, rfl, ?_⟩
  rw [List.append_assoc] at hcs
  rw [← List.append_assoc]
  exact hcs.move

end Text.Holds

namespace Peg

/-- What a rule makes of its matches depends on nested parses of such texts only as stand where they
are parsed. -/
def RuleDef.Locates (skipped : Option Lexeme) (d : RuleDef) : Prop :=
  ∀ (input : Input) (lines : Lines) (options : Options) (calls : Calls) (trivia : Bool)
    (offset : Nat) (m : Matched), input.text.Boundary offset →
    Matches skipped input.text calls d.pattern trivia offset m →
    ∀ reparse reparse', (∀ name text offset, input.text.Holds offset (.ofString text) →
      reparse name text offset = reparse' name text offset) →
    RuleDef.shape d ⟨⟨m.start, m.stop⟩, input, lines, options, reparse⟩ m.value =
      RuleDef.shape d ⟨⟨m.start, m.stop⟩, input, lines, options, reparse'⟩ m.value

/-- Nested parses of texts that stand where they are parsed; others find nothing. -/
noncomputable def Input.located (input : Input)
    (reparse : String → String → Nat → Except Failure (Option Value)) :
    String → String → Nat → Except Failure (Option Value) :=
  open Classical in fun name text offset =>
    if input.text.Holds offset (.ofString text) then reparse name text offset else .ok none

theorem Input.located_of_holds {input : Input} {text : String} {offset : Nat}
    (h : input.text.Holds offset (.ofString text))
    (reparse : String → String → Nat → Except Failure (Option Value)) (name : String) :
    input.located reparse name text offset = reparse name text offset :=
  if_pos h

theorem Input.located_of_not {input : Input} {text : String} {offset : Nat}
    (h : ¬input.text.Holds offset (.ofString text))
    (reparse : String → String → Nat → Except Failure (Option Value)) (name : String) :
    input.located reparse name text offset = .ok none :=
  if_neg h

/-- Only located texts are ever parsed. -/
theorem RuleDef.Locates.shape {skipped : Option Lexeme} {d : RuleDef} (h : d.Locates skipped)
    {input : Input} {calls : Calls} {trivia : Bool} {offset : Nat} {m : Matched}
    (hb : input.text.Boundary offset)
    (hm : Matches skipped input.text calls d.pattern trivia offset m) (lines : Lines)
    (options : Options) (reparse : String → String → Nat → Except Failure (Option Value)) :
    RuleDef.shape d ⟨⟨m.start, m.stop⟩, input, lines, options, reparse⟩ m.value =
      RuleDef.shape d ⟨⟨m.start, m.stop⟩, input, lines, options, input.located reparse⟩ m.value :=
  h input lines options calls trivia offset m hb hm _ _ fun name _ _ hholds =>
    (Input.located_of_holds hholds reparse name).symm

section Terminals

variable {s : Setting} {call : Input → Call → Eval (Option Matched)} {input : Input} {c : Call}
  {memory memory' : Memory} {found : Matched} {r : LinkedRule} {name : String} {capture : Capture}
  {l : Lexeme}

/-- What matching a field of one terminal comes to. -/
theorem matchPattern_terminal (mode : Mode) (offset : Nat) (memory : Memory) : ∃ memory',
    matchPattern s.grammar.trivia input.text (call input)
      (.sequence [⟨some name, capture, .terminal l⟩]) mode offset memory =
    ending (.ok ((l.found input.text (leading s.grammar.trivia input.text mode offset)).map fun m =>
      ((Parts.startingAt offset).push (some name) capture m).finish input.text)) memory' := by
  have hterminal : ∃ memory', matchPattern s.grammar.trivia input.text (call input) (.terminal l)
      mode offset memory =
      ending (.ok (l.found input.text (leading s.grammar.trivia input.text mode offset))) memory' := by
    simp only [matchPattern, leaf_eq]
    unfold Lexeme.found
    cases matchedAt _ _ with
    | some found => exact ⟨memory, rfl⟩
    | none =>
      obtain ⟨skip, quiet⟩ := mode
      cases quiet <;> exact ⟨_, rfl⟩
  obtain ⟨memory', hterminal⟩ := hterminal
  refine ⟨memory', ?_⟩
  have hcomponents : matchComponents s.grammar.trivia input.text (call input)
      [⟨some name, capture, .terminal l⟩] mode (.startingAt offset) memory =
      ending (.ok ((l.found input.text (leading s.grammar.trivia input.text mode offset)).map
        ((Parts.startingAt offset).push (some name) capture))) memory' := by
    rw [matchComponents]
    refine (bind_ending hterminal).trans ?_
    cases l.found input.text (leading s.grammar.trivia input.text mode offset) <;> rfl
  rw [matchPattern]
  refine (map_ending hcomponents _).trans ?_
  simp only [Except.map, Option.map_map]
  rfl

/-- A rule of one terminal calls no others: what it takes is what the terminal does. -/
theorem evaluate_terminal (hr : s.grammar.rules[c.rule]? = some r)
    (hpattern : r.pattern = .sequence [⟨some name, capture, .terminal l⟩]) (hl : l.Read)
    (h : evaluate s call input c memory = .ok (some found) memory') (calls : Calls) :
    ∃ m, Matches s.grammar.trivia input.text calls
        (.sequence [⟨some name, capture, .terminal l.toTerminal⟩]) c.trivia c.offset m ∧
      found.start = m.start ∧ found.stop = m.stop ∧
      r.shape ⟨⟨m.start, m.stop⟩, input, s.lines, s.options, reparseWith s.grammar call input⟩
        m.value = .ok found.value := by
  let mode : Mode := ⟨c.trivia, c.quiet⟩
  have hlead : LeadsTo s.grammar.trivia input.text c.trivia c.offset _ :=
    (leading_leadsTo s.grammar.trivia mode c.offset).1
  obtain ⟨_, hmatch⟩ : ∃ memory', _ = ending _ memory' :=
    matchPattern_terminal mode c.offset memory
  simp only [evaluate, hr, hpattern] at h
  rw [bind_ending hmatch] at h
  cases hfound : l.found input.text (leading s.grammar.trivia input.text mode c.offset) with
  | none =>
    rw [hfound] at h
    cases h
  | some first =>
    rw [hfound] at h
    refine ⟨_, ⟨_, ⟨first, ⟨l, _, rfl, hl, hlead, hfound⟩, rfl⟩, rfl⟩, ?_⟩
    rw [Option.map_some] at h
    generalize ((Parts.startingAt c.offset).push (some name) capture first).finish input.text = m
      at h ⊢
    cases hv : r.shape ⟨⟨m.start, m.stop⟩, input, s.lines, s.options,
      reparseWith s.grammar call input⟩ m.value with
    | ok v =>
      simp only [hv] at h
      cases h
      exact ⟨rfl, rfl, rfl⟩
    | error e =>
      simp only [hv] at h
      cases h

end Terminals
end Peg

end PhpSyntax
