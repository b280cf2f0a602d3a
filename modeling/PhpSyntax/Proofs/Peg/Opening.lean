import PhpSyntax.Proofs.Peg.Locating
import PhpSyntax.Proofs.Peg.Occurring

namespace PhpSyntax.Peg

/-- What a rule makes of a match depends on a nested parse: with all others left alone, it can make
something else of it. -/
def RuleDef.Consults (d : RuleDef) (span : Span) (input : Input) (lines : Lines) (options : Options)
    (v : Value) (name text : String) (place : Nat) : Prop :=
  ∃ reparse reparse' : String → String → Nat → Except Failure (Option Value),
    (∀ n t p, (n, t, p) ≠ (name, text, place) → reparse n t p = reparse' n t p) ∧
    RuleDef.shape d ⟨span, input, lines, options, reparse⟩ v ≠
      RuleDef.shape d ⟨span, input, lines, options, reparse'⟩ v

/-- A rule consults a nested parse whose failures it passes on. -/
theorem RuleDef.Consults.of_fails {d : RuleDef} {span : Span} {input : Input} {lines : Lines}
    {options : Options} {v : Value} {name text : String} {place : Nat}
    (h : ∀ (reparse : String → String → Nat → Except Failure (Option Value)) (e : Failure),
      reparse name text place = .error e →
      RuleDef.shape d ⟨span, input, lines, options, reparse⟩ v = .error e) :
    d.Consults span input lines options v name text place := by
  let fails (n : Nat) : String → String → Nat → Except Failure (Option Value) :=
    fun name' text' place' =>
      .error (.mismatch (if (name', text', place') = (name, text, place) then n else 0) true none)
  refine ⟨fails 0, fails 1, fun name' text' place' hne => ?_, ?_⟩
  · simp only [fails, if_neg hne]
  · rw [h (fails 0) (.mismatch 0 true none) (by simp [fails]),
      h (fails 1) (.mismatch 1 true none) (by simp [fails])]
    simp

/-- The jobs of a run and of the sessions that are opened during it, each with its input and the
state it begins in. -/
inductive Takes (s : Setting) (source : Input) (start : String) (trivia : Bool) :
    Input → Job → Progress → Prop where
  | run {id : Nat} : s.grammar.ruleId? start = some id →
    Takes s source start trivia source (.call id 0 trivia) (Session.start s source).progress
  | part {input : Input} {job job' : Job} {σ σ' : Progress} {later : Bool} :
    Takes s source start trivia input job σ → Part s input job σ later job' σ' →
    Takes s source start trivia input job' σ'
  | opened {input : Input} {rule offset id : Nat} {skip : Bool} {r : LinkedRule}
    {σ σ' : Progress} {m : Matched} {name text : String} {place : Nat} :
    Takes s source start trivia input (.evaluate rule offset skip) σ →
    s.grammar.rules[rule]? = some r →
    Exec s (· ≤ s.limit) input (.pattern r.pattern skip offset) σ (.ok (some m)) σ' →
    r.written.Consults ⟨m.start, m.stop⟩ input s.lines s.options m.value name text place →
    s.grammar.ruleId? name = some id →
    Takes s source start trivia (input.within text place) (.call id 0 false) ⟨.empty, σ'.depth, 0⟩

section Takes

variable {s : Setting} {table : List RuleDef} {source input : Input} {start : String}
  {trivia : Bool} {job : Job} {σ : Progress}

theorem Takes.occurs (h : Takes s source start trivia input job σ) :
    Occurs s source input job σ := by
  induction h with
  | run hid => exact .run [] trivia hid
  | part _ hpart ih => exact .part ih hpart
  | opened _ hr hexec _ hid ih => exact .nested _ _ ih hr hexec hid

/-- A rule consults nested parses only of texts that stand where they are parsed. -/
theorem RuleDef.Locates.holds {skipped : Option Lexeme} {d : RuleDef} (h : d.Locates skipped)
    {calls : Calls} {offset : Nat} {m : Matched} (hb : input.text.Boundary offset)
    (hm : Matches skipped input.text calls d.pattern trivia offset m) {lines : Lines}
    {options : Options} {name text : String} {place : Nat}
    (hconsults : d.Consults ⟨m.start, m.stop⟩ input lines options m.value name text place) :
    input.text.Holds place (.ofString text) := by
  obtain ⟨reparse, reparse', hsame, hdiffer⟩ := hconsults
  by_contra hnot
  apply hdiffer
  apply h input lines options calls trivia offset m hb hm
  intro n t p hholds
  apply hsame
  intro heq
  simp only [Prod.mk.injEq] at heq
  obtain ⟨-, rfl, rfl⟩ := heq
  exact hnot hholds

/-- The pattern of a rule matched as it was written. -/
theorem Takes.matched {rule offset : Nat} {skip : Bool} {r : LinkedRule} {σ' : Progress}
    {m : Matched} (hl : s.grammar.Lists table) (hstart : source.text.Boundary 0)
    (h : Takes s source start trivia input (.evaluate rule offset skip) σ)
    (hr : s.grammar.rules[rule]? = some r)
    (hexec : Exec s (· ≤ s.limit) input (.pattern r.pattern skip offset) σ (.ok (some m)) σ') :
    r.written ∈ table ∧ input.text.Boundary offset ∧
      ∃ calls, Matches s.grammar.trivia input.text calls r.written.pattern skip offset m := by
  have hunder := h.occurs.underway (Invariant.trivial_closed s table) hl trivial hstart
    fun _ _ _ _ => trivial
  obtain ⟨hwritten, hfit⟩ := hl.written rule r hr
  have hmatch := (hexec.keeps (Invariant.trivial_closed s table) hl trivial hunder.remembers
    ⟨hfit, hunder.before⟩).found m rfl
  exact ⟨hwritten, hunder.before, _, hmatch⟩

/-- Every session of a parse reads the source where it stands. -/
theorem Takes.holds (hl : s.grammar.Lists table)
    (hlocates : ∀ d ∈ table, d.Locates s.grammar.trivia) {text : Text} (hstart : text.Boundary 0)
    (hwhole : text.Holds 0 text) (h : Takes s ⟨text, 0⟩ start trivia input job σ) :
    text.Holds input.base input.text := by
  induction h with
  | run _ => exact hwhole
  | part _ _ ih => exact ih
  | @opened input rule offset id skip r σ σ' m name nested place htakes hr hexec hconsults hid ih =>
    obtain ⟨hwritten, hb, calls, hmatch⟩ := htakes.matched hl hstart hr hexec
    have hnested : input.text.Holds place (.ofString nested) :=
      (hlocates _ hwritten).holds hb hmatch hconsults
    exact ih.trans hnested

end Takes

end PhpSyntax.Peg
