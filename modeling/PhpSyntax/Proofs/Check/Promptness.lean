import PhpSyntax.Proofs.Peg.Laying
import PhpSyntax.Proofs.Peg.Leaves

namespace PhpSyntax.Peg

/-- A match takes something if and only if it has leaves, and begins where the first of them
does. -/
structure Matched.Begins (m : Matched) (ls : List Leaf) : Prop where
  consumed : m.consumed = true ↔ ls ≠ []
  start : ∀ l ∈ ls.head?, m.start = l.start

theorem Matched.Begins.nil {m : Matched} (h : ¬m.consumed = true) : m.Begins [] :=
  ⟨iff_of_false h (not_not_intro rfl), fun _ hl => absurd hl (Option.not_mem_none _)⟩

theorem Matched.begins_empty (offset : Nat) : (Matched.empty offset).Begins [] :=
  .nil (by simp [Matched.consumed, Matched.empty])

theorem Matched.begins_leaves (m : Matched) : m.Begins m.leaves := by
  unfold Matched.leaves
  split
  · rename_i hconsumed
    refine ⟨iff_of_true hconsumed (List.cons_ne_nil _ _), ?_⟩
    rintro l ⟨⟩
    rfl
  · rename_i hconsumed
    exact .nil hconsumed

/-- The first leaf of matches one behind the other, as a sequence or a repetition keeps it. -/
theorem Matched.Begins.push {m : Matched} {ls front : List Leaf} (h : m.Begins ls)
    {first : Option Nat} (hfirst : first = front.head?.map (·.start)) :
    (if first.isNone && m.consumed then some m.start else first) =
      (front ++ ls).head?.map (·.start) := by
  subst hfirst
  cases front with
  | cons l front => rfl
  | nil =>
    cases ls with
    | nil =>
      have hconsumed : m.consumed = false := by
        rw [← Bool.not_eq_true, h.consumed]
        exact not_not_intro rfl
      rw [hconsumed]
      rfl
    | cons l ls =>
      rw [h.consumed.2 (List.cons_ne_nil _ _), h.start l rfl]
      rfl

/-- What the match of a sequence or a repetition begins with, where the first leaf is kept. -/
theorem Matched.begins_of_first {ls : List Leaf} {offset other : Nat} {first : Option Nat}
    {m : Matched} (hfirst : first = ls.head?.map (·.start)) (hls : Spread offset ls m.stop)
    (hstart : m.start = first.getD other) (hother : ls = [] → other = m.stop) : m.Begins ls := by
  subst hfirst
  cases ls with
  | nil =>
    refine .nil ?_
    simp only [Matched.consumed, decide_eq_true_eq, not_lt]
    exact (hother rfl).ge.trans_eq hstart.symm
  | cons l ls =>
    have hstart : m.start = l.start := hstart
    refine ⟨iff_of_true ?_ (List.cons_ne_nil _ _), ?_⟩
    · obtain ⟨-, htakes, hstop⟩ := hls.within l List.mem_cons_self
      rw [Matched.consumed, hstart]
      exact decide_eq_true (htakes.trans_le hstop)
    · rintro l' ⟨⟩
      exact hstart

/-- A terminal that takes nothing matches the empty text. -/
theorem Lexeme.found_unconsumed {l : Lexeme} {text : Text} {start : Nat} {m : Matched}
    (ht : l.toTerminal.Evenly) (hread : l.Read) (hb : text.Boundary start)
    (h : l.found text start = some m) (hunconsumed : m.consumed = false) :
    (l.matchLength? [] 0).isSome = true := by
  obtain ⟨cs, hcs⟩ := hb
  obtain ⟨⟨n, v⟩, hr, rfl⟩ := Option.map_eq_some_iff.1 h
  rw [hcs.after?, hcs.left, Option.bind_some] at hr
  obtain ⟨⟨n, yielded⟩, hmatch, ⟨⟩⟩ := Option.map_eq_some_iff.1 hr
  have hlexeme : l.toTerminal.lexeme? = some l := by
    rw [Terminal.lexeme?, hread]
    rfl
  simp only [Matched.consumed, decide_eq_false_iff_not] at hunconsumed
  obtain rfl : n = 0 := by omega
  exact ht l hlexeme cs yielded hmatch

theorem Derives.rounds_nil {table : List RuleDef} {skipped : Option Lexeme} {text : Text}
    {item : PatternDef} {separator : Option PatternDef} {trivia : Bool} {offset : Nat} {rs : Rounds}
    {ls : List Leaf} (h : Derives table skipped text (.rounds item separator trivia offset rs) ls)
    (hi : rs.items = []) : ls = [] ∧ rs.cursor = offset := by
  cases h with
  | noRound => exact ⟨rfl, rfl⟩
  | round _ _ _ _ => exact absurd hi (List.cons_ne_nil _ _)

/-- Where no round was matched, another one would begin behind them at once. -/
theorem Derives.next_nil {table : List RuleDef} {skipped : Option Lexeme} {text : Text}
    {separator : Option PatternDef} {trivia : Bool} {rs : Rounds} {next : Nat} {ls : List Leaf}
    (h : Derives table skipped text (.next separator trivia rs next) ls) (hi : rs.items = []) :
    next = rs.cursor ∧ ls = [] := by
  cases h with
  | leading _ => exact ⟨rfl, rfl⟩
  | separated hne _ => exact absurd hi hne

/-- Terminals and scanners that match the empty text if they match nothing of any. -/
def PatternDef.Evenly (p : PatternDef) : Prop :=
  (∀ t ∈ p.terminals, t.Evenly) ∧ ∀ sc ∈ p.scanners, sc.Evenly

namespace PatternDef

theorem evenly_components {cs : List ComponentDef} (h : PatternDef.Evenly (.sequence cs)) :
    ∀ c ∈ cs, c.pattern.Evenly := by
  induction cs with
  | nil => exact List.forall_mem_nil _
  | cons c rest ih =>
    obtain ⟨hterminals, hscanners⟩ := h
    obtain ⟨hc, hrest⟩ := List.forall_mem_append.1 hterminals
    obtain ⟨hc', hrest'⟩ := List.forall_mem_append.1 hscanners
    exact List.forall_mem_cons.2 ⟨⟨hc, hc'⟩, ih ⟨hrest, hrest'⟩⟩

theorem evenly_alternatives {ps : List PatternDef} (h : PatternDef.Evenly (.choice ps)) :
    ∀ p ∈ ps, p.Evenly := by
  induction ps with
  | nil => exact List.forall_mem_nil _
  | cons p rest ih =>
    obtain ⟨hterminals, hscanners⟩ := h
    obtain ⟨hp, hrest⟩ := List.forall_mem_append.1 hterminals
    obtain ⟨hp', hrest'⟩ := List.forall_mem_append.1 hscanners
    exact List.forall_mem_cons.2 ⟨⟨hp, hp'⟩, ih ⟨hrest, hrest'⟩⟩

theorem evenly_item {item : PatternDef} {separator : Option PatternDef} {least : Nat}
    {trailing : Bool} (h : PatternDef.Evenly (.repetition item separator least trailing)) :
    item.Evenly := by
  cases separator with
  | none => exact h
  | some separator =>
    obtain ⟨hterminals, hscanners⟩ := h
    exact ⟨(List.forall_mem_append.1 hterminals).1, (List.forall_mem_append.1 hscanners).1⟩

end PatternDef

end PhpSyntax.Peg

namespace PhpSyntax.Check

open Peg

section Pattern

variable {τ ρ : Type} (empty : Pattern τ ρ → Bool)

mutual

/-- Whether no repetition in a pattern has an item that can match nothing, those aside that stand
behind a component that takes something. -/
def isPrompt : Pattern τ ρ → Bool
  | .terminal _ | .scan _ | .rule _ | .endOfInput | .ahead _ _ => true
  | .sequence components => allPrompt components
  | .choice alternatives => eachPrompt alternatives
  | .repetition item _ _ _ => !empty item && isPrompt item
  | .optional p => isPrompt p
  | .silent p => isPrompt p
  | .trivia _ p => isPrompt p

def allPrompt : List (Component (Pattern τ ρ)) → Bool
  | [] => true
  | ⟨_, _, p⟩ :: rest => isPrompt p && (!empty p || allPrompt rest)

def eachPrompt : List (Pattern τ ρ) → Bool
  | [] => true
  | p :: rest => isPrompt p && eachPrompt rest

end

end Pattern

section Vacant

variable {nullable : List String}

mutual

/-- Where no terminal matches the empty text, a pattern can match nothing if it may be left
vacant. -/
theorem isNullable_eq_vacant : (p : PatternDef) → (∀ t ∈ p.terminals, matchesEmpty t = false) →
    isNullable nullable p = p.vacant nullable
  | .terminal t, h => h t (List.mem_singleton.2 rfl)
  | .scan _, _ => rfl
  | .rule _, _ => rfl
  | .endOfInput, _ => rfl
  | .sequence cs, h => allNullable_eq_allVacant cs h
  | .choice ps, h => anyNullable_eq_anyVacant ps h
  | .repetition item none least _, h =>
    congrArg (least == 0 || ·) (isNullable_eq_vacant item h)
  | .repetition item (some _) least _, h =>
    congrArg (least == 0 || ·) (isNullable_eq_vacant item (List.forall_mem_append.1 h).1)
  | .optional _, _ => rfl
  | .ahead _ _, _ => rfl
  | .trivia _ p, h => isNullable_eq_vacant p h
  | .silent p, h => isNullable_eq_vacant p h

theorem allNullable_eq_allVacant : (cs : List ComponentDef) →
    (∀ t ∈ Pattern.componentTerminals cs, matchesEmpty t = false) →
    allNullable nullable cs = Pattern.allVacant nullable cs
  | [], _ => rfl
  | ⟨_, _, p⟩ :: rest, h => by
    obtain ⟨hp, hrest⟩ := List.forall_mem_append.1 h
    exact congrArg₂ (· && ·) (isNullable_eq_vacant p hp) (allNullable_eq_allVacant rest hrest)

theorem anyNullable_eq_anyVacant : (ps : List PatternDef) →
    (∀ t ∈ Pattern.allTerminals ps, matchesEmpty t = false) →
    anyNullable nullable ps = Pattern.anyVacant nullable ps
  | [], _ => rfl
  | p :: rest, h => by
    obtain ⟨hp, hrest⟩ := List.forall_mem_append.1 h
    exact congrArg₂ (· || ·) (isNullable_eq_vacant p hp) (anyNullable_eq_anyVacant rest hrest)

end

mutual

theorem isPrompt_vacant : (p : PatternDef) → (∀ t ∈ p.terminals, matchesEmpty t = false) →
    isPrompt (isNullable nullable) p = isPrompt (Pattern.vacant nullable) p
  | .terminal _, _ => rfl
  | .scan _, _ => rfl
  | .rule _, _ => rfl
  | .endOfInput, _ => rfl
  | .ahead _ _, _ => rfl
  | .sequence cs, h => allPrompt_vacant cs h
  | .choice ps, h => eachPrompt_vacant ps h
  | .repetition item none _ _, h =>
    congrArg₂ (fun b b' => !b && b') (isNullable_eq_vacant item h) (isPrompt_vacant item h)
  | .repetition item (some _) _ _, h => by
    obtain ⟨h, -⟩ := List.forall_mem_append.1 h
    exact congrArg₂ (fun b b' => !b && b') (isNullable_eq_vacant item h) (isPrompt_vacant item h)
  | .optional p, h => isPrompt_vacant p h
  | .trivia _ p, h => isPrompt_vacant p h
  | .silent p, h => isPrompt_vacant p h

theorem allPrompt_vacant : (cs : List ComponentDef) →
    (∀ t ∈ Pattern.componentTerminals cs, matchesEmpty t = false) →
    allPrompt (isNullable nullable) cs = allPrompt (Pattern.vacant nullable) cs
  | [], _ => rfl
  | ⟨_, _, p⟩ :: rest, h => by
    obtain ⟨hp, hrest⟩ := List.forall_mem_append.1 h
    rw [allPrompt, allPrompt, isPrompt_vacant p hp, isNullable_eq_vacant p hp,
      allPrompt_vacant rest hrest]

theorem eachPrompt_vacant : (ps : List PatternDef) →
    (∀ t ∈ Pattern.allTerminals ps, matchesEmpty t = false) →
    eachPrompt (isNullable nullable) ps = eachPrompt (Pattern.vacant nullable) ps
  | [], _ => rfl
  | p :: rest, h => by
    obtain ⟨hp, hrest⟩ := List.forall_mem_append.1 h
    exact congrArg₂ (· && ·) (isPrompt_vacant p hp) (eachPrompt_vacant rest hrest)

end

end Vacant

theorem items_of_finish {rs : Rounds} {offset least : Nat} {m : Matched}
    (h : rs.finish offset least = some m) (hleast : least ≠ 0) : rs.items ≠ [] := by
  intro hi
  simp only [Rounds.finish, hi, List.length_nil, Option.ite_none_left_eq_some] at h
  omega

theorem start_of_finish {rs : Rounds} {offset least : Nat} {m : Matched}
    (h : rs.finish offset least = some m) : m.start = rs.start.getD offset := by
  simp only [Rounds.finish, Option.ite_none_left_eq_some] at h
  rw [← Option.some.inj h.2]

section Derives

variable (nullable : List String) (text : Text)

/-- What is derived has leaves if it cannot match nothing, and it begins with the first of them if
it is prompt. -/
def Prompt (ls : List Leaf) : Piece → Prop
  | .pattern p _ offset m => p.Evenly → text.Boundary offset →
    (isNullable nullable p = false → ls ≠ []) ∧
      (isPrompt (isNullable nullable) p = true → m.Begins ls)
  | .parts cs _ ps ps' => (∀ c ∈ cs, c.pattern.Evenly) → text.Boundary ps.cursor →
    (allNullable nullable cs = false → ls ≠ []) ∧
      ∀ front : List Leaf, ps.start = front.head?.map (·.start) →
        (front ≠ [] ∨ allPrompt (isNullable nullable) cs = true) →
        ps'.start = (front ++ ls).head?.map (·.start)
  | .rounds item _ _ offset rs => item.Evenly → text.Boundary offset →
    isNullable nullable item = false →
    (rs.items ≠ [] → ls ≠ []) ∧
      (isPrompt (isNullable nullable) item = true → rs.start = ls.head?.map (·.start))
  | .next .. => True

variable {nullable text} {table : List RuleDef} {skipped : Option Lexeme} {ls : List Leaf}

/-- A repetition whose item takes something: its first leaf is kept. -/
theorem prompt_repetition {item : PatternDef} {least offset stop : Nat} {rs : Rounds} {m : Matched}
    {ls' : List Leaf} (hm : Rounds.finish { rs with cursor := stop } offset least = some m)
    (hls : Spread offset (ls ++ ls') m.stop)
    (hnone : rs.items = [] → ls = [] ∧ ls' = [] ∧ stop = offset)
    (hrounds : isNullable nullable item = false → (rs.items ≠ [] → ls ≠ []) ∧
      (isPrompt (isNullable nullable) item = true → rs.start = ls.head?.map (·.start))) :
    ((least == 0 || isNullable nullable item) = false → ls ++ ls' ≠ []) ∧
      ((!isNullable nullable item && isPrompt (isNullable nullable) item) = true →
        m.Begins (ls ++ ls')) := by
  refine ⟨fun h => ?_, fun h => ?_⟩
  · rw [Bool.or_eq_false_iff, beq_eq_false_iff_ne] at h
    obtain ⟨htakes, -⟩ := hrounds h.2
    have hi : ({ rs with cursor := stop } : Rounds).items ≠ [] := items_of_finish hm h.1
    exact List.append_ne_nil_of_left_ne_nil (htakes hi) _
  · rw [Bool.and_eq_true, Bool.not_eq_true'] at h
    obtain ⟨htakes, hstart⟩ := hrounds h.1
    have hfirst : rs.start = (ls ++ ls').head?.map (·.start) := by
      by_cases hi : rs.items = []
      · rw [hstart h.2, (hnone hi).2.1, List.append_nil]
      · rw [hstart h.2, List.head?_append_of_ne_nil _ (htakes hi)]
    have hbegin := start_of_finish hm
    refine Matched.begins_of_first hfirst hls hbegin fun hempty => ?_
    have hi : rs.items = [] := by
      by_contra hi
      exact htakes hi (List.append_eq_nil_iff.1 hempty).1
    rw [Rounds.finish_stop hm, (hnone hi).2.2]

theorem isNullable_of_mem {ps : List PatternDef} (h : anyNullable nullable ps = false) :
    ∀ p ∈ ps, isNullable nullable p = false := by
  induction ps with
  | nil => exact List.forall_mem_nil _
  | cons p rest ih =>
    obtain ⟨hp, hrest⟩ := Bool.or_eq_false_iff.1 h
    exact List.forall_mem_cons.2 ⟨hp, ih hrest⟩

theorem isPrompt_of_mem {ps : List PatternDef} (h : eachPrompt (isNullable nullable) ps = true) :
    ∀ p ∈ ps, isPrompt (isNullable nullable) p = true := by
  induction ps with
  | nil => exact List.forall_mem_nil _
  | cons p rest ih =>
    obtain ⟨hp, hrest⟩ := Bool.and_eq_true_iff.1 h
    exact List.forall_mem_cons.2 ⟨hp, ih hrest⟩

variable (hnullable : ∀ d ∈ table, isNullable nullable d.pattern = true → d.name ∈ nullable)
  (htable : ∀ d ∈ table,
    PatternDef.Evenly d.pattern ∧ isPrompt (isNullable nullable) d.pattern = true)

include hnullable htable

theorem prompt_of_derives {piece : Piece} (h : Derives table skipped text piece ls) :
    Prompt nullable text ls piece := by
  induction h with
  | @terminal l trivia offset start m hread hl hm =>
    intro heven hb
    refine ⟨fun hsure hnone => ?_, fun _ => m.begins_leaves⟩
    have hconsumed : m.consumed = false := by
      rw [← Bool.not_eq_true, m.begins_leaves.consumed]
      exact not_not_intro hnone
    have hempty := Lexeme.found_unconsumed (heven.1 _ (List.mem_singleton.2 rfl)) hread
      (hl.placed hb).2 hm hconsumed
    have hlexeme : l.toTerminal.lexeme? = some l := by
      rw [Terminal.lexeme?, hread]
      rfl
    have hsure : l.toTerminal.lexeme?.any matchesEmpty = false := hsure
    rw [hlexeme] at hsure
    exact absurd hempty (Bool.eq_false_iff.1 hsure)
  | @scan sc trivia offset start m _ hl hm =>
    intro heven hb
    refine ⟨fun hsure hnone => ?_, fun _ => m.begins_leaves⟩
    have hconsumed : m.consumed = false := by
      rw [← Bool.not_eq_true, m.begins_leaves.consumed]
      exact not_not_intro hnone
    have hempty := Scanner.found_unconsumed (heven.2 _ (List.mem_singleton.2 rfl)) hm hconsumed
    exact absurd hempty (Bool.eq_false_iff.1 hsure)
  | endOfInput hl hm =>
    intro _ _
    rw [endFound, Option.ite_none_right_eq_some] at hm
    obtain ⟨-, rfl⟩ := And.imp_right Option.some.inj hm
    exact ⟨fun hsure => absurd hsure.symm Bool.false_ne_true, fun _ => Matched.begins_empty _⟩
  | @rule d trivia offset m ls v hd _ ih =>
    intro _ hb
    obtain ⟨htakes, hbegins⟩ := ih (htable d hd).1 hb
    refine ⟨fun hsure => htakes ?_, fun _ => ?_⟩
    · rw [← Bool.not_eq_true]
      intro hnull
      exact absurd (List.contains_iff_mem.2 (hnullable d hd hnull)) (Bool.eq_false_iff.1 hsure)
    · obtain ⟨hconsumed, hstart⟩ := hbegins (htable d hd).2
      exact ⟨hconsumed, hstart⟩
  | @sequence cs trivia offset ps ls hparts ih =>
    intro heven hb
    obtain ⟨htakes, hfirst⟩ := ih (PatternDef.evenly_components heven) hb
    refine ⟨htakes, fun hprompt => ?_⟩
    obtain ⟨hrun, hls⟩ := hparts.lies offset (.starting hb)
    have hbegin : (ps.finish text).start = ps.start.getD ps.cursor := rfl
    refine Matched.begins_of_first ?_ hls hbegin fun _ => rfl
    exact hfirst [] rfl (.inr hprompt)
  | @choice p ps trivia offset m ls hp _ ih =>
    intro heven hb
    obtain ⟨htakes, hbegins⟩ := ih (PatternDef.evenly_alternatives heven p hp) hb
    exact ⟨fun hsure => htakes (isNullable_of_mem hsure p hp),
      fun hprompt => hbegins (isPrompt_of_mem hprompt p hp)⟩
  | @repetition item separator least trivia offset rs m ls trailing hrounds hm ih =>
    intro heven hb
    obtain ⟨-, hls⟩ := (Derives.repetition trailing hrounds hm).lies hb
    have hlies : Spread offset (ls ++ []) m.stop := by rwa [List.append_nil]
    have hprompt := prompt_repetition hm hlies (fun hi => ?_) (ih (PatternDef.evenly_item heven) hb)
    · rw [List.append_nil] at hprompt
      exact hprompt
    · obtain ⟨hls, hcursor⟩ := hrounds.rounds_nil hi
      exact ⟨hls, rfl, hcursor⟩
  | trailed trailing hrounds hlt hnext hm ih _ =>
    intro heven hb
    obtain ⟨-, hls⟩ := (Derives.trailed trailing hrounds hlt hnext hm).lies hb
    refine prompt_repetition hm hls (fun hi => ?_) (ih (PatternDef.evenly_item heven) hb)
    exact absurd (hnext.next_nil hi).1 hlt.ne'
  | present _ ih =>
    intro heven hb
    exact ⟨fun hsure => absurd hsure.symm Bool.false_ne_true, (ih heven hb).2⟩
  | absent =>
    intro _ _
    exact ⟨fun hsure => absurd hsure.symm Bool.false_ne_true, fun _ => Matched.begins_empty _⟩
  | ahead =>
    intro _ _
    exact ⟨fun hsure => absurd hsure.symm Bool.false_ne_true, fun _ => Matched.begins_empty _⟩
  | trivia _ ih => exact ih
  | silent _ ih =>
    intro heven hb
    obtain ⟨htakes, hbegins⟩ := ih heven hb
    refine ⟨htakes, fun hprompt => ?_⟩
    obtain ⟨hconsumed, hstart⟩ := hbegins hprompt
    exact ⟨hconsumed, hstart⟩
  | noPart =>
    intro _ _
    refine ⟨fun hsure => absurd hsure.symm Bool.false_ne_true, fun front hfront _ => ?_⟩
    rw [List.append_nil, hfront]
  | @part field capture p rest trivia ps ps' m ls ls' hfirst _ ih ih' =>
    intro heven hb
    obtain ⟨heven, heven'⟩ := List.forall_mem_cons.1 heven
    obtain ⟨hplaced, -⟩ := hfirst.lies hb
    obtain ⟨htakes, hbegins⟩ := ih heven hb
    have hpushed : text.Boundary (ps.push field capture m).cursor := by
      rw [Parts.push_cursor]
      exact hplaced.stop
    obtain ⟨htakes', hfirst'⟩ := ih' heven' hpushed
    refine ⟨fun hsure => ?_, fun front hfront hprompt => ?_⟩
    · obtain hsure | hsure := Bool.and_eq_false_iff.1 hsure
      · exact List.append_ne_nil_of_left_ne_nil (htakes hsure) _
      · exact List.append_ne_nil_of_right_ne_nil _ (htakes' hsure)
    · rw [← List.append_assoc]
      by_cases hne : front = []
      · subst hne
        have hprompt := Bool.and_eq_true_iff.1 (hprompt.resolve_left (not_not_intro rfl))
        refine hfirst' (([] : List Leaf) ++ ls) ?_ ?_
        · rw [Parts.push_start]
          exact (hbegins hprompt.1).push hfront
        · obtain hsure | hrest := Bool.or_eq_true_iff.1 hprompt.2
          · exact .inl (htakes (by simpa using hsure))
          · exact .inr hrest
      · refine hfirst' (front ++ ls) ?_ (.inl (List.append_ne_nil_of_left_ne_nil hne _))
        rw [Parts.push_start, hfront, List.head?_append_of_ne_nil _ hne]
        obtain ⟨l, front, rfl⟩ := List.exists_cons_of_ne_nil hne
        rfl
  | noRound => exact fun _ _ _ => ⟨fun h => absurd rfl h, fun _ => rfl⟩
  | @round item separator trivia offset next rs m ls ls' ls'' hrounds hnext _ _ ih _ ih'' =>
    intro heven hb hsure
    obtain ⟨htakes, hstart⟩ := ih heven hb hsure
    obtain ⟨hrun, -⟩ := hrounds.lies hb
    obtain ⟨hnextb, -⟩ := hnext.lies hrun.here
    obtain ⟨htakes'', hbegins⟩ := ih'' heven hnextb
    have hne : ls ++ (ls' ++ ls'') ≠ [] := List.append_ne_nil_of_right_ne_nil _
      (List.append_ne_nil_of_right_ne_nil _ (htakes'' hsure))
    refine ⟨fun _ => hne, fun hprompt => ?_⟩
    have hpushed : (rs.pushed m).start =
        if rs.start.isNone && m.consumed then some m.start else rs.start := rfl
    rw [hpushed]
    by_cases hi : rs.items = []
    · obtain ⟨rfl, -⟩ := hrounds.rounds_nil hi
      obtain ⟨-, rfl⟩ := hnext.next_nil hi
      exact (hbegins hprompt).push (hstart hprompt)
    · rw [hstart hprompt, List.head?_append_of_ne_nil _ (htakes hi)]
      obtain ⟨l, ls, rfl⟩ := List.exists_cons_of_ne_nil (htakes hi)
      rfl
  | leading _ => trivial
  | separated _ _ _ => trivial

end Derives

/-- A match and its derivations: their leaves lie within it, and it begins with the first of
them. -/
structure Covered (table : List RuleDef) (skipped : Option Lexeme) (text : Text) (p : PatternDef)
    (trivia : Bool) (offset : Nat) (m : Matched) : Prop where
  placed : m.Placed text offset
  derived : ∃ ls, Derives table skipped text (.pattern p trivia offset m) ls
  leaves : ∀ ls, Derives table skipped text (.pattern p trivia offset m) ls →
    Spread offset ls m.stop ∧ m.Begins ls

section Sessions

variable {s : Setting} {table : List RuleDef} {source input : Input} {nullable : List String}
  {q : LinkedPattern} {skip : Bool} {offset : Nat} {σ σ' : Progress} {m : Matched}
  (hl : s.grammar.Lists table)
  (honest : ∀ sc ∈ table.flatMap (·.pattern.scanners), sc.Honest)
  (hnullable : ∀ d ∈ table, isNullable nullable d.pattern = true → d.name ∈ nullable)
  (hrules : ∀ d ∈ table, PatternDef.Evenly d.pattern ∧
    isPrompt (isNullable nullable) d.pattern = true) (hstart : source.text.Boundary 0)
  (h : Occurs s source input (.pattern q skip offset) σ)
  (hexec : Exec s (· ≤ s.limit) input (.pattern q skip offset) σ (.ok (some m)) σ')

include hl hrules h in
theorem evenly_of_occurs : PatternDef.Evenly q.written := by
  have hterminals : ∀ l ∈ q.terminals, l.toTerminal.Evenly := by
    refine h.has (terminals_hereditary fun l => l.toTerminal.Evenly) fun id r hr l hl' => ?_
    refine (hrules _ (hl.written id r hr).1).1.1 _ ?_
    rw [LinkedRule.written, (Pattern.contents_map ..).1]
    exact List.mem_map_of_mem hl'
  have hscanners : ∀ sc ∈ q.scanners, sc.Evenly := by
    refine h.has (scanners_hereditary Scanner.Evenly) fun id r hr sc hsc => ?_
    refine (hrules _ (hl.written id r hr).1).1.2 sc ?_
    rw [LinkedRule.written, Pattern.scanners_map]
    exact hsc
  refine ⟨?_, ?_⟩
  · rw [LinkedPattern.written, (Pattern.contents_map ..).1]
    exact List.forall_mem_map.2 hterminals
  · rw [LinkedPattern.written, Pattern.scanners_map]
    exact hscanners

include hl honest hstart h in
theorem boundary_of_occurs : input.text.Boundary offset :=
  (h.underway (derivable_closed honest) hl trivial hstart fun _ _ _ _ => trivial).before.2

include hl honest hnullable hrules hstart h hexec

/-- Wherever a session is at, a pattern that cannot match nothing takes something if it matches. -/
theorem takes_of_occurs (hq : isNullable nullable q.written = false) : offset < m.stop := by
  have hb := boundary_of_occurs hl honest hstart h
  obtain ⟨ls, hls⟩ := derives_of_occurs honest hl hstart h hexec
  have hne := (prompt_of_derives hnullable hrules hls (evenly_of_occurs hl hrules h) hb).1 hq
  obtain ⟨l, ls, rfl⟩ := List.exists_cons_of_ne_nil hne
  obtain ⟨hbehind, htakes, hstop⟩ := (hls.lies hb).2.within l List.mem_cons_self
  exact hbehind.trans_lt (htakes.trans_le hstop)

/-- Wherever a session is at, a pattern that matches is covered by its leaves, if it and the rules
are prompt. -/
theorem covered_of_occurs (hq : isPrompt (isNullable nullable) q.written = true) :
    Covered table s.grammar.trivia input.text q.written skip offset m := by
  have hb := boundary_of_occurs hl honest hstart h
  have hderived := derives_of_occurs honest hl hstart h hexec
  refine ⟨?_, hderived, fun ls hls => ?_⟩
  · obtain ⟨ls, hls⟩ := hderived
    exact (hls.lies hb).1
  · exact ⟨(hls.lies hb).2,
      (prompt_of_derives hnullable hrules hls (evenly_of_occurs hl hrules h) hb).2 hq⟩

end Sessions

end PhpSyntax.Check
