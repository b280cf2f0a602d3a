import PhpSyntax.Proofs.Peg.Inlining
import PhpSyntax.Proofs.Peg.Nesting

namespace PhpSyntax.Peg

/-- A parsing expression over patterns, the values of which are kept or not. -/
inductive Expression where
  | keep (p : LinkedPattern)
  | skip (p : LinkedPattern)
  | nothing
  | both (e f : Expression)
  | optional (e : Expression)
  | star (e : Expression)

namespace Expression

/-- Where an expression ends that matched, with the values that were kept; or that it does not
match. -/
abbrev Result := Except Failure (Option (Nat × List Value))

/-- What an expression found behind some values. -/
def Result.behind (vs : List Value) (res : Result) : Result :=
  res.map fun found => found.map fun r => (r.1, vs ++ r.2)

/-- An expression is matched from a memory, has a result and leaves a memory, given how patterns are
matched. -/
inductive Parses (matcher : LinkedPattern → Matcher) :
    Expression → Nat → Memory → Result → Memory → Prop where
  | keep {p : LinkedPattern} {offset : Nat} {m m' : Memory} {o : Except Failure (Option Matched)} :
    matcher p offset m = ending o m' →
    Parses matcher (.keep p) offset m
      (o.map fun found => found.map fun f => (f.stop, [f.value])) m'
  | skip {p : LinkedPattern} {offset : Nat} {m m' : Memory} {o : Except Failure (Option Matched)} :
    matcher p offset m = ending o m' →
    Parses matcher (.skip p) offset m (o.map fun found => found.map fun f => (f.stop, [])) m'
  | nothing {offset : Nat} {m : Memory} :
    Parses matcher .nothing offset m (.ok (some (offset, []))) m
  | both {e f : Expression} {offset mid : Nat} {vs : List Value} {res : Result}
    {m m' m'' : Memory} : Parses matcher e offset m (.ok (some (mid, vs))) m' →
    Parses matcher f mid m' res m'' → Parses matcher (.both e f) offset m (res.behind vs) m''
  | unmatched {e f : Expression} {offset : Nat} {res : Result} {m m' : Memory} :
    Parses matcher e offset m res m' → (∀ found, res ≠ .ok (some found)) →
    Parses matcher (.both e f) offset m res m'
  | optional {e : Expression} {offset : Nat} {res : Result} {m m' : Memory} :
    Parses matcher e offset m res m' →
    Parses matcher (.optional e) offset m
      (res.map fun found => some (found.getD (offset, []))) m'
  | more {e : Expression} {offset mid : Nat} {vs : List Value} {res : Result}
    {m m' m'' : Memory} : Parses matcher e offset m (.ok (some (mid, vs))) m' →
    Parses matcher (.star e) mid m' res m'' → Parses matcher (.star e) offset m (res.behind vs) m''
  | enough {e : Expression} {offset : Nat} {m m' : Memory} :
    Parses matcher e offset m (.ok none) m' →
    Parses matcher (.star e) offset m (.ok (some (offset, []))) m'
  | failed {e : Expression} {offset : Nat} {m m' : Memory} {failure : Failure} :
    Parses matcher e offset m (.error failure) m' →
    Parses matcher (.star e) offset m (.error failure) m'

variable {matcher : LinkedPattern → Matcher} {e f g : Expression} {offset : Nat}
  {res : Result} {m m' : Memory}

theorem Result.behind_behind (vs vs' : List Value) (res : Result) :
    (res.behind vs').behind vs = res.behind (vs ++ vs') := by
  obtain failure | found := res
  · rfl
  · cases found with
    | none => rfl
    | some r => simp only [behind, Except.map, Option.map_some, List.append_assoc]

/-- An expression has one result at most, and leaves one memory. -/
theorem Parses.unique (h : Parses matcher e offset m res m') {res' : Result} {n : Memory}
    (h' : Parses matcher e offset m res' n) : res' = res ∧ n = m' := by
  induction h generalizing res' n with
  | keep h =>
    cases h' with
    | keep h' =>
      obtain ⟨rfl, rfl⟩ := ending_inj (h'.symm.trans h)
      exact ⟨rfl, rfl⟩
  | skip h =>
    cases h' with
    | skip h' =>
      obtain ⟨rfl, rfl⟩ := ending_inj (h'.symm.trans h)
      exact ⟨rfl, rfl⟩
  | nothing =>
    cases h' with
    | nothing => exact ⟨rfl, rfl⟩
  | both _ _ ih ih' =>
    cases h' with
    | both h' hrest =>
      obtain ⟨hfound, rfl⟩ := ih h'
      cases hfound
      obtain ⟨rfl, rfl⟩ := ih' hrest
      exact ⟨rfl, rfl⟩
    | unmatched h' hnone => exact absurd (ih h').1 (hnone _)
  | unmatched _ hnone ih =>
    cases h' with
    | both h' => exact absurd (ih h').1.symm (hnone _)
    | unmatched h' => exact ih h'
  | optional _ ih =>
    cases h' with
    | optional h' =>
      obtain ⟨rfl, rfl⟩ := ih h'
      exact ⟨rfl, rfl⟩
  | more _ _ ih ih' =>
    cases h' with
    | more h' hrest =>
      obtain ⟨hfound, rfl⟩ := ih h'
      cases hfound
      obtain ⟨rfl, rfl⟩ := ih' hrest
      exact ⟨rfl, rfl⟩
    | enough h' => cases (ih h').1
    | failed h' => cases (ih h').1
  | enough _ ih =>
    cases h' with
    | more h' => cases (ih h').1
    | enough h' => exact ⟨rfl, (ih h').2⟩
    | failed h' => cases (ih h').1
  | failed _ ih =>
    cases h' with
    | more h' => cases (ih h').1
    | enough h' => cases (ih h').1
    | failed h' =>
      obtain ⟨hfailure, rfl⟩ := ih h'
      cases hfailure
      exact ⟨rfl, rfl⟩

theorem Parses.assoc (h : Parses matcher (.both e (.both f g)) offset m res m') :
    Parses matcher (.both (.both e f) g) offset m res m' := by
  cases h with
  | unmatched h hnone => exact .unmatched (.unmatched h hnone) hnone
  | @both _ _ _ _ _ res _ _ _ h hrest =>
    cases hrest with
    | both h' hlast =>
      rw [Result.behind_behind]
      exact .both (.both h h') hlast
    | unmatched h' hnone =>
      refine .unmatched (.both h h') fun found hfound => ?_
      obtain ⟨r, rfl, hr⟩ := map_eq_ok hfound
      obtain ⟨x, rfl, -⟩ := Option.map_eq_some_iff.1 hr
      exact hnone x rfl

/-- An expression that matches anywhere, be it nothing. -/
def Certain (matcher : LinkedPattern → Matcher) (e : Expression) : Prop :=
  ∀ offset m res m', Parses matcher e offset m res m' → res ≠ .ok none

theorem map_ne_none {α β : Type} (k : α → β) {o : Except Failure (Option α)} (h : o ≠ .ok none) :
    o.map (fun found => found.map k) ≠ .ok none := by
  intro hnone
  obtain ⟨found, rfl, hfound⟩ := map_eq_ok hnone
  exact h (congrArg _ (Option.map_eq_none_iff.1 hfound))

theorem certain_nothing : Certain matcher .nothing := by
  intro offset m res m' h
  cases h with
  | nothing => nofun

theorem certain_optional (e : Expression) : Certain matcher (.optional e) := by
  intro offset m res m' h
  cases h with
  | optional _ =>
    intro hnone
    obtain ⟨found, -, hfound⟩ := map_eq_ok hnone
    cases hfound

theorem certain_star (e : Expression) : Certain matcher (.star e) := by
  intro offset m res m' h
  generalize hstar : Expression.star e = x at h
  induction h with
  | more _ _ _ ih => exact map_ne_none _ (ih hstar)
  | enough _ _ => nofun
  | failed _ _ => nofun
  | _ => cases hstar

theorem Certain.both (he : Certain matcher e) (hf : Certain matcher f) :
    Certain matcher (.both e f) := by
  intro offset m res m' h
  cases h with
  | both _ h => exact map_ne_none _ (hf _ _ _ _ h)
  | unmatched h _ => exact he _ _ _ _ h

theorem Parses.ne_none (h : Parses matcher (.both e f) offset m res m') {came : Result}
    {n : Memory} (hcame : Parses matcher e offset m came n) (hsome : came ≠ .ok none)
    (hf : Certain matcher f) : res ≠ .ok none := by
  cases h with
  | both _ h => exact map_ne_none _ (hf _ _ _ _ h)
  | unmatched h _ =>
    obtain ⟨rfl, -⟩ := hcame.unique h
    exact hsome

/-- A part that came and comes any number of times comes any number of times. -/
theorem Parses.roll (h : Parses matcher (.both e (.both (.star e) f)) offset m res m')
    {came : Result} {n : Memory} (hcame : Parses matcher e offset m came n)
    (hsome : came ≠ .ok none) : Parses matcher (.both (.star e) f) offset m res m' := by
  cases h with
  | unmatched h hnone =>
    cases res with
    | error failure => exact .unmatched (.failed h) hnone
    | ok found =>
      cases found with
      | none => exact absurd (h.unique hcame).1 hsome
      | some r => exact absurd rfl (hnone r)
  | @both _ _ _ _ _ res _ _ _ h hrest =>
    cases hrest with
    | both h' hlast =>
      rw [Result.behind_behind]
      exact .both (.more h h') hlast
    | unmatched h' hnone =>
      cases res with
      | error failure => exact .unmatched (.more h h') (by simp [Result.behind, Except.map])
      | ok found =>
        cases found with
        | none => exact absurd rfl (certain_star _ _ _ _ _ h')
        | some r => exact absurd rfl (hnone r)

end Expression

namespace Repetition

variable (r : Repetition)

def further : Expression :=
  match r.separator with
  | some separator => .both (.skip separator) (.keep r.item)
  | none => .keep r.item

def ending : Expression :=
  match r.separator with
  | some separator => if r.trailing then .optional (.skip separator) else .nothing
  | none => .nothing

/-- What stands for the items behind the first, of which some are required. -/
def others : Nat → Expression
  | 0 => .both (.star r.further) r.ending
  | required + 1 => .both r.further (others required)

/-- What a repetition stands for: an item, any number of further ones behind separators, and perhaps
another separator. If no item is required, all of it may be missing; if more than one is, as many
stand in a row before any number of them. -/
def expansion : Expression :=
  if r.least = 0 then .optional (.both (.keep r.item) (r.others 0))
  else .both (.keep r.item) (r.others (r.least - 1))

variable {r}

theorem further_unseparated (h : r.separator = none) : r.further = .keep r.item := by
  rw [further, h]

theorem further_separated {p : LinkedPattern} (h : r.separator = some p) :
    r.further = .both (.skip p) (.keep r.item) := by
  rw [further, h]

/-- What stands for the end changes nothing where matching the separator again does not. -/
theorem ending_separated {matcher : LinkedPattern → Matcher} {p : LinkedPattern} {offset : Nat}
    {found : Option Matched} {m : Memory} (h : r.separator = some p)
    (hagain : matcher p offset m = Peg.ending (.ok found) m) :
    Expression.Parses matcher r.ending offset m
      (.ok (some (if r.trailing then (found.map (·.stop)).getD offset else offset, []))) m := by
  simp only [ending, h]
  cases r.trailing with
  | false => exact .nothing
  | true =>
    have hoptional := Expression.Parses.optional (.skip hagain)
    cases found with
    | none => exact hoptional
    | some f => exact hoptional

theorem trailed_cursor {rs : Rounds} {next : Nat} (h : rs.cursor ≤ next) :
    (r.trailed rs next).cursor = if r.trailing then next else rs.cursor := by
  simp only [trailed]
  cases r.trailing with
  | false => rfl
  | true =>
    by_cases hlt : rs.cursor < next
    · simp only [hlt, decide_true, Bool.and_self, if_true]
    · simp only [hlt, decide_false, Bool.and_false, Bool.false_eq_true, if_false, if_true]
      omega

theorem trailed_self (rs : Rounds) : r.trailed rs rs.cursor = rs := by
  simp only [trailed, Nat.lt_irrefl, decide_false, Bool.and_false, Bool.false_eq_true, if_false]

theorem trailed_items (rs : Rounds) (next : Nat) : (r.trailed rs next).items = rs.items := by
  simp only [trailed]
  split <;> rfl

theorem trailed_emptyFirst (rs : Rounds) (next : Nat) :
    (r.trailed rs next).emptyFirst = rs.emptyFirst := by
  simp only [trailed]
  split <;> rfl

variable (r)

theorem others_certain (matcher : LinkedPattern → Matcher) : (r.others 0).Certain matcher := by
  refine (Expression.certain_star _).both ?_
  simp only [ending]
  split
  · split
    · exact Expression.certain_optional _
    · exact Expression.certain_nothing
  · exact Expression.certain_nothing

section Parses

variable {r} {matcher : LinkedPattern → Matcher} {required offset stop : Nat}
  {res : Expression.Result} {m m' : Memory}

/-- One more item came, and the others behind it. -/
theorem others_came
    (h : Expression.Parses matcher (.both r.further (r.others (required - 1))) offset m res m')
    {came : Expression.Result} {n : Memory}
    (hcame : Expression.Parses matcher r.further offset m came n) (hsome : came ≠ .ok none) :
    Expression.Parses matcher (r.others required) offset m res m' := by
  cases required with
  | zero => exact h.roll hcame hsome
  | succ required => exact h

/-- No more items came. -/
theorem others_missing (required : Nat)
    (h : Expression.Parses matcher r.further offset m (.ok none) m')
    (hending : Expression.Parses matcher r.ending offset m' (.ok (some (stop, []))) m') :
    Expression.Parses matcher (r.others required) offset m
      (if required = 0 then .ok (some (stop, [])) else .ok none) m' := by
  cases required with
  | zero => exact .both (.enough h) hending
  | succ required => exact .unmatched h (by simp)

end Parses

end Repetition

/-- The memories that matching some patterns, in any order and anywhere, leads to. -/
inductive Reaches (matcher : LinkedPattern → Matcher) (ps : List LinkedPattern) (m : Memory) :
    Memory → Prop where
  | start : Reaches matcher ps m m
  | step {p : LinkedPattern} {offset : Nat} {o : Except Failure (Option Matched)}
    {n n' : Memory} : Reaches matcher ps m n → p ∈ ps → matcher p offset n = ending o n' →
    Reaches matcher ps m n'

/-- A pattern takes something whenever it matches, from a memory on and wherever some patterns lead
from there. -/
def TakesOn (matcher : LinkedPattern → Matcher) (ps : List LinkedPattern) (m : Memory)
    (p : LinkedPattern) : Prop :=
  ∀ n, Reaches matcher ps m n → ∀ offset found n',
    matcher p offset n = ending (.ok (some found)) n' → offset < found.stop

/-- What a repetition matches behind some values, given the result of what stands for the rest. -/
def Gathers (o : Except Failure (Option Matched)) (vs : List Value) (res : Expression.Result) :
    Prop :=
  ∃ start, o = res.map fun found => found.map fun r => ⟨start, r.1, .list (vs ++ r.2)⟩

theorem Gathers.behind {o : Except Failure (Option Matched)} {vs : List Value}
    {res : Expression.Result} (vs' : List Value) (h : Gathers o (vs ++ vs') res) :
    Gathers o vs (res.behind vs') := by
  obtain ⟨start, rfl⟩ := h
  refine ⟨start, ?_⟩
  obtain failure | found := res
  · rfl
  · cases found with
    | none => rfl
    | some r =>
      simp only [Expression.Result.behind, Except.map, Option.map_some, List.append_assoc]

theorem Repetition.finish_gathers (r : Repetition) {rs : Rounds} (h : rs.emptyFirst = false) :
    Gathers (r.finish rs) rs.items.reverse
      (if r.least - rs.items.length = 0 then .ok (some (rs.cursor, [])) else .ok none) := by
  obtain ⟨items, cursor, start, emptyFirst⟩ := rs
  obtain rfl : emptyFirst = false := h
  have hfinish : r.finish ⟨items, cursor, start, false⟩ = .ok (if items.length < r.least then none
      else some ⟨start.getD r.offset, cursor, .list items.reverse⟩) := by
    cases items with
    | nil => rfl
    | cons v rest => cases rest <;> rfl
  refine ⟨start.getD r.offset, hfinish.trans ?_⟩
  by_cases hleast : items.length < r.least
  · rw [if_pos hleast, if_neg (by simp only; omega)]
    rfl
  · rw [if_neg hleast, if_pos (by simp only; omega)]
    simp only [Except.map, Option.map_some, List.append_nil]

/-- The value of a slot: that of what is in it, or null. -/
def slotValue (found : Option Matched) : Value :=
  (found.map (·.value)).getD .null

/-- Where a slot ends: behind what is in it, or where it begins. -/
def slotStop (offset : Nat) (found : Option Matched) : Nat :=
  (found.map (·.stop)).getD offset

/-- Slots with separators between them. A slot is empty if nothing matches in it, and there is
another one behind every separator that matches. -/
inductive Slots (matcher : LinkedPattern → Matcher) (p separator : LinkedPattern) :
    Nat → Memory → List (Option Matched) → List Matched → Nat → Memory → Prop where
  | last {offset : Nat} {found : Option Matched} {m m₁ m₂ : Memory} :
    matcher p offset m = ending (.ok found) m₁ →
    matcher separator (slotStop offset found) m₁ = ending (.ok none) m₂ →
    Slots matcher p separator offset m [found] [] (slotStop offset found) m₂
  | more {offset stop : Nat} {found : Option Matched} {d : Matched}
    {founds : List (Option Matched)} {separators : List Matched} {m m₁ m₂ m₃ : Memory} :
    matcher p offset m = ending (.ok found) m₁ →
    matcher separator (slotStop offset found) m₁ = ending (.ok (some d)) m₂ →
    Slots matcher p separator d.stop m₂ founds separators stop m₃ →
    Slots matcher p separator offset m (found :: founds) (d :: separators) stop m₃

/-- The values of some slots; there are none where the only slot is empty. -/
def slotValues : List (Option Matched) → List Value
  | [none] => []
  | founds => founds.map slotValue

/-- The rounds behind one more slot. -/
theorem pushed_slot (rs : Rounds) (offset : Nat) (found : Option Matched) :
    ∃ first, rs.pushed (found.getD (.empty offset)) =
      ⟨slotValue found :: rs.items, slotStop offset found, first,
        rs.emptyFirst || slotStop offset found == rs.cursor⟩ := by
  cases found with
  | none => exact ⟨_, rfl⟩
  | some f => exact ⟨_, rfl⟩

theorem slotValues_of_ne {founds : List (Option Matched)} (h : founds ≠ [none]) :
    slotValues founds = founds.map slotValue := by
  unfold slotValues
  split
  · exact absurd rfl h
  · rfl

theorem Slots.length {matcher : LinkedPattern → Matcher} {p separator : LinkedPattern}
    {offset stop : Nat} {founds : List (Option Matched)} {separators : List Matched}
    {m m' : Memory} (h : Slots matcher p separator offset m founds separators stop m') :
    founds.length = separators.length + 1 := by
  induction h with
  | last _ _ => rfl
  | more _ _ _ ih => rw [List.length_cons, List.length_cons, ih]

def Repetition.ofSlots (p separator : LinkedPattern) (trivia : Bool) (offset : Nat) : Repetition :=
  ⟨.optional p, some separator, 0, false, trivia, offset⟩

/-- No items are required, and none is taken back behind a separator. -/
theorem Repetition.finish_slots {p separator : LinkedPattern} {trivia : Bool} {start : Nat}
    {v : Value} {items : List Value} (hitems : items ≠ [])
    (cursor : Nat) (first : Option Nat) (emptyFirst : Bool) :
    (ofSlots p separator trivia start).finish ⟨v :: items, cursor, first, emptyFirst⟩ =
      .ok (some ⟨first.getD start, cursor, .list (v :: items).reverse⟩) := by
  cases items with
  | nil => exact absurd rfl hitems
  | cons w rest => rfl

section Rounds

variable {s : Setting} {input : Input} {depth lookaheads : Nat}
  {call : Call → Eval (Option Matched)} {r : Repetition} {m₀ : Memory}
  {σ σ' : Progress} {o : Except Failure (Option Matched)}

/-- How patterns are matched, with trivia skipped or not. -/
abbrev matcherOf (s : Setting) (input : Input) (call : Call → Eval (Option Matched))
    (lookaheads : Nat) (trivia : Bool) (p : LinkedPattern) : Matcher :=
  matching s input call lookaheads p trivia

def Repetition.patterns (r : Repetition) : List LinkedPattern :=
  r.item :: r.separator.toList

theorem Repetition.separator_mem {p : LinkedPattern} (h : r.separator = some p) :
    p ∈ r.patterns := by
  simp [patterns, h]

/-- A state that matching some patterns leads to. -/
structure Amid (s : Setting) (input : Input) (call : Call → Eval (Option Matched))
    (depth lookaheads : Nat) (trivia : Bool) (ps : List LinkedPattern) (m₀ : Memory)
    (σ : Progress) : Prop where
  same_depth : σ.depth = depth
  same_lookaheads : σ.lookaheads = lookaheads
  sane : Sane input.text σ.memory
  reached : Reaches (matcherOf s input call lookaheads trivia) ps m₀ σ.memory

variable (hcall : Performing s input depth call)

include hcall

section Amid

variable {trivia : Bool} {ps : List LinkedPattern} {p : LinkedPattern} {offset : Nat}

/-- What is done at a pattern is what its matcher does. -/
theorem Amid.matched (h : Amid s input call depth lookaheads trivia ps m₀ σ) (hp : p ∈ ps)
    (hexec : Exec s (· ≤ s.limit) input (.pattern p trivia offset) σ o σ') :
    matcherOf s input call lookaheads trivia p offset σ.memory = ending o σ'.memory ∧
      Amid s input call depth lookaheads trivia ps m₀ σ' ∧
      ∀ found, o = .ok (some found) → Advances input.text offset found.stop := by
  obtain ⟨m, depth', lookaheads'⟩ := σ
  obtain ⟨rfl, rfl, hsane, hreached⟩ := h
  obtain ⟨o', m', hx, hsane', hadvances, hexec'⟩ :=
    pattern_performs hcall lookaheads' p trivia offset m hsane
  obtain ⟨rfl, rfl⟩ := hexec.unique hexec'
  exact ⟨hx, ⟨rfl, rfl, hsane', hreached.step hp hx⟩, hadvances⟩

/-- A pattern changes nothing when it is matched again where all that was found is remembered. -/
theorem Amid.again {found : Option Matched} {τ : Progress}
    (h : Amid s input call depth lookaheads trivia ps m₀ τ) (hp : p ∈ ps)
    (hexec : Exec s (· ≤ s.limit) input (.pattern p trivia offset) σ (.ok found) σ')
    (hq : τ.quiet = σ.quiet) (hgrows : σ'.memory.Within τ.memory)
    (hfurthest : σ'.memory.furthest ≤ τ.memory.furthest) :
    matcherOf s input call lookaheads trivia p offset τ.memory = ending (.ok found) τ.memory :=
  (h.matched hcall hp (hexec.repeats rfl rfl hq hgrows hfurthest)).1

end Amid

section Items

variable (hitem : TakesOn (matcherOf s input call lookaheads r.trivia) r.patterns m₀ r.item)

include hitem

/-- A round whose item begins at an offset: the item is missing, or it comes and the other rounds
behind it stand for the other items. -/
theorem item_expands {rs : Rounds} {next : Nat} (hrs : rs.emptyFirst = false)
    (hnext : rs.cursor ≤ next) (hσ : Amid s input call depth lookaheads r.trivia r.patterns m₀ σ)
    (hexec : Exec s (· ≤ s.limit) input (.item r rs next) σ o σ')
    (hrounds : ∀ (found : Matched) (σ₁ : Progress), next < found.stop → next ≤ input.text.size →
      Amid s input call depth lookaheads r.trivia r.patterns m₀ σ₁ → (rs.pushed found).emptyFirst = false →
      Exec s (· ≤ s.limit) input (.rounds r (rs.pushed found)) σ₁ o σ' →
      ∃ res, Expression.Parses (matcherOf s input call lookaheads r.trivia)
          (r.others (r.least - (rs.items.length + 1))) found.stop σ₁.memory res σ'.memory ∧
        Gathers o (rs.items.reverse ++ [found.value]) res) :
    (Exec s (· ≤ s.limit) input (.pattern r.item r.trivia next) σ (.ok none) σ' ∧
      o = r.finish (r.trailed rs next)) ∨
    (∃ came n, matcherOf s input call lookaheads r.trivia r.item next σ.memory = ending came n ∧
      came ≠ .ok none) ∧
      ∃ res, Expression.Parses (matcherOf s input call lookaheads r.trivia)
          (.both (.keep r.item) (r.others (r.least - (rs.items.length + 1)))) next σ.memory res
          σ'.memory ∧
        Gathers o rs.items.reverse res := by
  have hmem : r.item ∈ r.patterns := List.mem_cons_self ..
  cases hexec with
  | itemFailed h =>
    obtain ⟨hx, -, -⟩ := hσ.matched hcall hmem h
    exact .inr ⟨⟨_, _, hx, by simp⟩, _, .unmatched (.keep hx) (by simp [Except.map]), 0, rfl⟩
  | itemMissing h => exact .inl ⟨h, rfl⟩
  | itemEmpty h hends =>
    obtain ⟨hx, -, -⟩ := hσ.matched hcall hmem h
    have htakes := hitem _ hσ.reached _ _ _ hx
    have hempty := hends.1
    omega
  | @itemMatched _ _ _ _ _ σ₁ _ found _ h hgoes hrest =>
    obtain ⟨hx, hσ₁, hadvances⟩ := hσ.matched hcall hmem h
    have htakes := hitem _ hσ.reached _ _ _ hx
    have hsize := (hadvances found rfl).2.resolve_left (Nat.ne_of_gt htakes)
    have hfirst : (rs.pushed found).emptyFirst = false := by
      simp only [Rounds.pushed, Rounds.push, hrs, Bool.false_or]
      exact beq_false_of_ne (by omega)
    obtain ⟨res, hparses, hgathers⟩ := hrounds found σ₁ htakes hsize hσ₁ hfirst hrest
    exact .inr ⟨⟨_, _, hx, by simp⟩, _, .both (.keep hx) hparses, hgathers.behind [found.value]⟩

/-- The rounds behind the first stand for the other items. -/
theorem rounds_expand (fuel : Nat) {rs : Rounds} (hfuel : rs.left input.text < fuel)
    (hitems : rs.items ≠ []) (hrs : rs.emptyFirst = false)
    (hσ : Amid s input call depth lookaheads r.trivia r.patterns m₀ σ)
    (hexec : Exec s (· ≤ s.limit) input (.rounds r rs) σ o σ') :
    ∃ res, Expression.Parses (matcherOf s input call lookaheads r.trivia)
        (r.others (r.least - rs.items.length)) rs.cursor σ.memory res σ'.memory ∧
      Gathers o rs.items.reverse res := by
  induction fuel generalizing rs σ o σ' with
  | zero => exact absurd hfuel (Nat.not_lt_zero _)
  | succ fuel ih =>
    have hrounds : ∀ next, rs.cursor ≤ next → ∀ (found : Matched) (σ₁ : Progress),
        next < found.stop → next ≤ input.text.size →
        Amid s input call depth lookaheads r.trivia r.patterns m₀ σ₁ → (rs.pushed found).emptyFirst = false →
        Exec s (· ≤ s.limit) input (.rounds r (rs.pushed found)) σ₁ o σ' →
        ∃ res, Expression.Parses (matcherOf s input call lookaheads r.trivia)
            (r.others (r.least - (rs.items.length + 1))) found.stop σ₁.memory res σ'.memory ∧
          Gathers o (rs.items.reverse ++ [found.value]) res := by
      intro next hnext found σ₁ hstop hsize hσ₁ hfirst hrest
      have hleft : (rs.pushed found).left input.text < fuel := by
        simp only [Rounds.left, Rounds.pushed, Rounds.push, reduceCtorEq, if_false, hitems]
          at hfuel ⊢
        omega
      obtain ⟨res, hparses, hgathers⟩ := ih hleft (List.cons_ne_nil _ _) hfirst hσ₁ hrest
      refine ⟨res, hparses, ?_⟩
      rwa [← List.reverse_cons]
    have hrequired : r.least - (rs.items.length + 1) = r.least - rs.items.length - 1 :=
      Nat.sub_succ' ..
    cases hexec with
    | leading hlead hexec =>
      have hseparator : r.separator = none := hlead.resolve_right hitems
      obtain ⟨h, rfl⟩ | ⟨⟨came, n, hx, hcame⟩, res, hparses, hgathers⟩ :=
        item_expands hcall hitem hrs (Nat.le_refl _) hσ hexec (hrounds _ (Nat.le_refl _))
      · obtain ⟨hx, -, -⟩ := hσ.matched hcall (List.mem_cons_self ..) h
        rw [Repetition.trailed_self]
        refine ⟨_, Repetition.others_missing _ ?_ ?_, r.finish_gathers hrs⟩
        · rw [Repetition.further_unseparated hseparator]
          exact .keep hx
        · rw [Repetition.ending, hseparator]
          exact .nothing
      · have hkept : Expression.Parses (matcherOf s input call lookaheads r.trivia) (.keep r.item)
            rs.cursor σ.memory _ n := .keep hx
        rw [← Repetition.further_unseparated hseparator] at hparses hkept
        rw [hrequired] at hparses
        exact ⟨res, Repetition.others_came hparses hkept (Expression.map_ne_none _ hcame), hgathers⟩
    | @separated _ _ p _ _ σ₁ _ d _ hr hi hfirst hexec =>
      have hmem := Repetition.separator_mem hr
      have hfurther := Repetition.further_separated hr
      obtain ⟨hx, hσ₁, hadvances⟩ := hσ.matched hcall hmem hfirst
      obtain ⟨hle, -⟩ := hadvances d rfl
      obtain ⟨h, rfl⟩ | ⟨⟨came, n, hy, hcame⟩, res, hparses, hgathers⟩ :=
        item_expands hcall hitem hrs hle hσ₁ hexec (hrounds _ hle)
      · obtain ⟨hy, hσ', -⟩ := hσ₁.matched hcall (List.mem_cons_self ..) h
        have hagain := hσ'.again hcall hmem hfirst (h.quiet.trans hfirst.quiet) h.grows
          h.furthest_le
        have hgathers := r.finish_gathers ((r.trailed_emptyFirst rs d.stop).trans hrs)
        rw [Repetition.trailed_items, Repetition.trailed_cursor hle] at hgathers
        refine ⟨_, Repetition.others_missing _ ?_ ?_, hgathers⟩
        · have hmissing := Expression.Parses.both (.skip hx) (.keep hy)
          rwa [← hfurther] at hmissing
        · exact Repetition.ending_separated hr hagain
      · have hkept := Expression.Parses.both (.skip hx) (.keep hy)
        rw [← hfurther] at hkept
        refine ⟨res.behind [], Repetition.others_came ?_ hkept
          (Expression.map_ne_none _ (Expression.map_ne_none _ hcame)), ?_⟩
        · rw [hfurther, ← hrequired]
          exact .assoc (.both (.skip hx) hparses)
        · refine Gathers.behind [] ?_
          rwa [List.append_nil]
    | @separatorMissing _ _ p _ _ _ hr hi h =>
      have hmem := Repetition.separator_mem hr
      obtain ⟨hx, hσ', -⟩ := hσ.matched hcall hmem h
      have hagain := hσ'.again hcall hmem h h.quiet (Memory.within_of_eq rfl) (Nat.le_refl _)
      refine ⟨_, Repetition.others_missing _ ?_ ?_, r.finish_gathers hrs⟩
      · rw [Repetition.further_separated hr]
        exact .unmatched (.skip hx) (by simp)
      · have hending := Repetition.ending_separated hr hagain
        rwa [Option.map_none, Option.getD_none, ite_self] at hending
    | @separatorFailed _ _ p _ _ _ e hr hi h =>
      obtain ⟨hx, -, -⟩ := hσ.matched hcall (Repetition.separator_mem hr) h
      have hfailed : Expression.Parses (matcherOf s input call lookaheads r.trivia) r.further rs.cursor
          σ.memory (.error e) σ'.memory := by
        rw [Repetition.further_separated hr]
        exact .unmatched (.skip hx) (by simp)
      exact ⟨_, Repetition.others_came (.unmatched hfailed (by simp)) hfailed (by simp), 0, rfl⟩

/-- A repetition ends as what it stands for does: in the same place, with the same items and
failures, and with the same memory. -/
theorem repetition_parses (hσ : Amid s input call depth lookaheads r.trivia r.patterns m₀ σ)
    (hexec : Exec s (· ≤ s.limit) input (.rounds r (.startingAt r.offset)) σ o σ') :
    ∃ res, Expression.Parses (matcherOf s input call lookaheads r.trivia) r.expansion r.offset σ.memory res
        σ'.memory ∧ Gathers o [] res := by
  have hexec : Exec s (· ≤ s.limit) input (.item r (.startingAt r.offset) r.offset) σ o σ' := by
    cases hexec with
    | leading _ h => exact h
    | separated _ hi _ _ => exact absurd rfl hi
    | separatorMissing _ hi _ => exact absurd rfl hi
    | separatorFailed _ hi _ => exact absurd rfl hi
  have hfirst : (Rounds.startingAt r.offset).emptyFirst = false := rfl
  obtain ⟨h, rfl⟩ | ⟨⟨came, n, hx, hcame⟩, res, hparses, hgathers⟩ :=
    item_expands hcall hitem hfirst (Nat.le_refl _) hσ hexec
      fun found σ₁ _ _ hσ₁ hrs hrest =>
        rounds_expand hcall hitem _ (Nat.lt_succ_self _) (List.cons_ne_nil _ _) hrs hσ₁ hrest
  · obtain ⟨hx, -, -⟩ := hσ.matched hcall (List.mem_cons_self ..) h
    have hgathers : Gathers (r.finish (.startingAt r.offset)) []
        (if r.least = 0 then .ok (some (r.offset, [])) else .ok none) := r.finish_gathers hfirst
    have hmissing : Expression.Parses (matcherOf s input call lookaheads r.trivia)
        (.both (.keep r.item) (r.others (r.least - 1))) r.offset σ.memory (.ok none) σ'.memory :=
      .unmatched (.keep hx) (by simp)
    rw [Repetition.trailed_self]
    refine ⟨_, ?_, hgathers⟩
    by_cases hleast : r.least = 0
    · rw [hleast] at hmissing
      rw [Repetition.expansion, if_pos hleast, if_pos hleast]
      exact .optional hmissing
    · rw [Repetition.expansion, if_neg hleast, if_neg hleast]
      exact hmissing
  · simp only [Rounds.startingAt, List.length_nil, Nat.zero_add, List.reverse_nil]
      at hparses hgathers
    simp only [Repetition.expansion]
    split
    · rename_i hleast
      rw [hleast] at hparses
      have hsome : res ≠ .ok none :=
        hparses.ne_none (.keep hx) (Expression.map_ne_none _ hcame) (r.others_certain _)
      have hsame : res.map (fun found => some (found.getD (r.offset, []))) = res := by
        obtain failure | found := res
        · rfl
        · cases found with
          | none => exact absurd rfl hsome
          | some r => rfl
      have hoptional := hparses.optional
      rw [hsame] at hoptional
      exact ⟨res, hoptional, hgathers⟩
    · exact ⟨res, hparses, hgathers⟩

end Items

section Slots

variable {trivia : Bool} {p separator : LinkedPattern}

/-- In a round there is something in the slot or not, and the other rounds come behind it. -/
theorem item_slot {rs : Rounds} {start next : Nat}
    (hgoes : rs.items ≠ [] → rs.cursor < next)
    (hσ : Amid s input call depth lookaheads trivia [p, separator] m₀ σ)
    (hexec : Exec s (· ≤ s.limit) input
      (.item (.ofSlots p separator trivia start) rs next) σ o σ') :
    (∃ e, o = .error e) ∨ ∃ found first σ₁,
      matcherOf s input call lookaheads trivia p next σ.memory = ending (.ok found) σ₁.memory ∧
      Amid s input call depth lookaheads trivia [p, separator] m₀ σ₁ ∧
      Advances input.text next (slotStop next found) ∧
      Exec s (· ≤ s.limit) input (.rounds (.ofSlots p separator trivia start)
        ⟨slotValue found :: rs.items, slotStop next found, first,
          rs.emptyFirst || slotStop next found == rs.cursor⟩) σ₁ o σ' := by
  have hslot : ∀ {o : Except Failure (Option Matched)} {σ₁ : Progress},
      Exec s (· ≤ s.limit) input (.pattern (.optional p) trivia next) σ o σ₁ →
      (∃ e, o = .error e) ∨ ∃ found, o = .ok (some (found.getD (.empty next))) ∧
        matcherOf s input call lookaheads trivia p next σ.memory = ending (.ok found) σ₁.memory ∧
        Amid s input call depth lookaheads trivia [p, separator] m₀ σ₁ ∧
        Advances input.text next (slotStop next found) := by
    intro o σ₁ h
    cases h with
    | @optional _ _ _ _ _ _ o h =>
      obtain ⟨hx, hσ₁, hadvances⟩ := hσ.matched hcall (List.mem_cons_self ..) h
      cases o with
      | error e => exact .inl ⟨e, rfl⟩
      | ok found =>
        refine .inr ⟨found, rfl, hx, hσ₁, ?_⟩
        cases found with
        | none => exact .refl _ _
        | some f => exact hadvances f rfl
  cases hexec with
  | itemFailed _ => exact .inl ⟨_, rfl⟩
  | itemMissing h =>
    obtain ⟨e, he⟩ | ⟨found, hfound, -⟩ := hslot h
    · cases he
    · cases hfound
  | itemEmpty h hends =>
    obtain ⟨e, he⟩ | ⟨found, hfound, -, -, hle, -⟩ := hslot h
    · cases he
    · obtain ⟨hstop, hitems⟩ := hends
      have hlt := hgoes (hitems.resolve_right (by simp [Repetition.ofSlots]))
      obtain rfl := Option.some.inj (Except.ok.inj hfound)
      cases found with
      | none => exact absurd hstop (Nat.ne_of_gt hlt)
      | some f => exact absurd hstop (Nat.ne_of_gt (hlt.trans_le hle))
  | itemMatched h _ hrest =>
    obtain ⟨e, he⟩ | ⟨found, hfound, hx, hσ₁, hadvances⟩ := hslot h
    · cases he
    · obtain rfl := Option.some.inj (Except.ok.inj hfound)
      obtain ⟨first, hpushed⟩ := pushed_slot rs next found
      rw [hpushed] at hrest
      exact .inr ⟨found, first, _, hx, hσ₁, hadvances, hrest⟩

variable (hseparator : TakesOn (matcherOf s input call lookaheads trivia) [p, separator] m₀
  separator)

include hseparator

/-- Behind some slots there is no separator, or one and other slots behind it. -/
theorem rounds_slots (fuel : Nat) {rs : Rounds} {start : Nat} (hfuel : rs.left input.text < fuel)
    (hitems : rs.items ≠ [])
    (hσ : Amid s input call depth lookaheads trivia [p, separator] m₀ σ)
    (hexec : Exec s (· ≤ s.limit) input
      (.rounds (.ofSlots p separator trivia start) rs) σ o σ') :
    (∃ e, o = .error e) ∨
    (matcherOf s input call lookaheads trivia separator rs.cursor σ.memory =
        ending (.ok none) σ'.memory ∧
      o = (Repetition.ofSlots p separator trivia start).finish rs) ∨
    ∃ d m₁ founds separators stop,
      matcherOf s input call lookaheads trivia separator rs.cursor σ.memory =
        ending (.ok (some d)) m₁ ∧
      Slots (matcherOf s input call lookaheads trivia) p separator d.stop m₁ founds separators stop
        σ'.memory ∧
      ∃ begin, o = .ok (some ⟨begin, stop, .list (rs.items.reverse ++ founds.map slotValue)⟩) := by
  induction fuel generalizing rs σ o σ' with
  | zero => exact absurd hfuel (Nat.not_lt_zero _)
  | succ fuel ih =>
    have hmem : separator ∈ [p, separator] := List.mem_cons_of_mem _ (List.mem_cons_self ..)
    cases hexec with
    | leading hlead _ => exact absurd hlead (Repetition.not_leads rfl hitems)
    | separatorFailed _ _ _ => exact .inl ⟨_, rfl⟩
    | separatorMissing hr _ h =>
      obtain rfl := Option.some.inj hr
      obtain ⟨hx, -, -⟩ := hσ.matched hcall hmem h
      exact .inr (.inl ⟨hx, rfl⟩)
    | @separated _ _ _ _ _ σ₁ _ d _ hr _ hfirst hexec =>
      obtain rfl := Option.some.inj hr
      obtain ⟨hx, hσ₁, hadvances⟩ := hσ.matched hcall hmem hfirst
      have htakes := hseparator _ hσ.reached _ _ _ hx
      have hsize := (hadvances d rfl).2.resolve_left (Nat.ne_of_gt htakes)
      obtain hfailed | ⟨found, first, σ₂, hy, hσ₂, hslot, hrest⟩ :=
        item_slot hcall (fun _ => htakes) hσ₁ hexec
      · exact .inl hfailed
      · have hleft : Rounds.left input.text ⟨slotValue found :: rs.items, slotStop d.stop found,
            first, rs.emptyFirst || slotStop d.stop found == rs.cursor⟩ < fuel := by
          have hle := hslot.1
          simp only [Rounds.left, reduceCtorEq, if_false, hitems] at hfuel ⊢
          omega
        obtain hfailed | ⟨hz, rfl⟩ | ⟨d', m₁, founds, separators, stop, hz, hslots, begin, rfl⟩ :=
          ih hleft (List.cons_ne_nil _ _) hσ₂ hrest
        · exact .inl hfailed
        · refine .inr (.inr ⟨d, σ₁.memory, [found], [], _, hx, .last hy hz, first.getD start, ?_⟩)
          rw [Repetition.finish_slots hitems, List.reverse_cons]
          rfl
        · refine .inr (.inr ⟨d, σ₁.memory, found :: founds, d' :: separators, stop, hx,
            .more hy hz hslots, begin, ?_⟩)
          rw [List.reverse_cons, List.append_assoc]
          rfl

variable (hp : TakesOn (matcherOf s input call lookaheads trivia) [p, separator] m₀ p)

include hp

/-- A list of slots that something may be in has the values of its slots. -/
theorem repetition_slots {offset : Nat}
    (hσ : Amid s input call depth lookaheads trivia [p, separator] m₀ σ)
    (hexec : Exec s (· ≤ s.limit) input
      (.rounds (.ofSlots p separator trivia offset) (.startingAt offset)) σ o σ') :
    (∃ e, o = .error e) ∨ ∃ founds separators stop begin,
      Slots (matcherOf s input call lookaheads trivia) p separator offset σ.memory founds separators
        stop σ'.memory ∧
      o = .ok (some ⟨begin, stop, .list (slotValues founds)⟩) := by
  cases hexec with
  | separated _ hi _ _ => exact absurd rfl hi
  | separatorMissing _ hi _ => exact absurd rfl hi
  | separatorFailed _ hi _ => exact absurd rfl hi
  | leading _ hexec =>
    obtain hfailed | ⟨found, first, σ₁, hx, hσ₁, hslot, hrest⟩ :=
      item_slot hcall (fun hi => absurd rfl hi) hσ hexec
    · exact .inl hfailed
    · obtain hfailed | ⟨hz, rfl⟩ | ⟨d, m₁, founds, separators, stop, hz, hslots, begin, rfl⟩ :=
        rounds_slots hcall hseparator _ (Nat.lt_succ_self _) (List.cons_ne_nil _ _) hσ₁ hrest
      · exact .inl hfailed
      · refine .inr ⟨[found], [], _, first.getD offset, .last hx hz, ?_⟩
        cases found with
        | none =>
          simp only [Repetition.finish, Rounds.finish, Rounds.startingAt, slotStop, Option.map_none,
            Option.getD_none, beq_self_eq_true, Bool.or_true, if_true]
          rfl
        | some f =>
          have htakes := hp _ hσ.reached _ _ _ hx
          have hempty : (f.stop == offset) = false := beq_false_of_ne (Nat.ne_of_gt htakes)
          simp only [Repetition.finish, Rounds.finish, Rounds.startingAt, slotStop, Option.map_some,
            Option.getD_some, hempty, Bool.or_self, Bool.false_eq_true, if_false]
          rfl
      · have hmore : found :: founds ≠ [none] := by
          cases hslots <;> simp
        refine .inr ⟨found :: founds, d :: separators, stop, begin, .more hx hz hslots, ?_⟩
        rw [slotValues_of_ne hmore]
        rfl

end Slots

end Rounds

/-- Where the item always takes something, a repetition does what it stands for: the expression has
a result and leaves a memory, and the repetition ends in the same place with the same items, does not
match or fails where the expression does, and leaves the same memory, with how far the text was
understood. A list of slots has a value for every slot, and one slot more than separators; it is
empty if there is but one slot with nothing in it. -/
theorem repetition_expands (s : Setting) {room : Nat} (hroom : room ≤ s.limit) (input : Input)
    (mode : Mode) {m : Memory} (hm : Sane input.text m) (offset : Nat) :
    let matcher p := matchPattern s.grammar.trivia input.text (invoke s room input) p mode
    (∀ item separator least trailing,
      let r : Repetition := ⟨item, separator, least, trailing, mode.trivia, offset⟩
      TakesOn matcher r.patterns m item →
      ∃ res m' start,
        matcher (.repetition item separator least trailing) offset m =
          ending (res.map fun found => found.map fun x => ⟨start, x.1, .list x.2⟩) m' ∧
        ∀ res' n, Expression.Parses matcher r.expansion offset m res' n ↔ res' = res ∧ n = m') ∧
    ∀ p separator, TakesOn matcher [p, separator] m p → TakesOn matcher [p, separator] m separator →
      (∃ e m', matcher (.repetition (.optional p) (some separator) 0 false) offset m =
        ending (.error e) m') ∨
      ∃ founds separators start stop m',
        Slots matcher p separator offset m founds separators stop m' ∧
        founds.length = separators.length + 1 ∧
        matcher (.repetition (.optional p) (some separator) 0 false) offset m =
          ending (.ok (some ⟨start, stop, .list (slotValues founds)⟩)) m' := by
  obtain ⟨lookaheads, hmode⟩ := mode.exists_lookaheads
  generalize mode.trivia = trivia at hmode
  subst hmode
  intro matcher
  have hcall := invoke_performs (Nat.sub_add_cancel hroom) input
  have hrounds : ∀ item separator least trailing, ∃ o m',
      matcher (.repetition item separator least trailing) offset m = ending o m' ∧
      Exec s (· ≤ s.limit) input
        (.rounds ⟨item, separator, least, trailing, trivia, offset⟩ (.startingAt offset))
        ⟨m, s.limit - room, lookaheads⟩ o ⟨m', s.limit - room, lookaheads⟩ := by
    intro item separator least trailing
    obtain ⟨o, m', hx, -, -, hexec⟩ := pattern_performs hcall lookaheads
      (.repetition item separator least trailing) trivia offset m hm
    cases hexec with
    | repetition hexec => exact ⟨o, m', hx, hexec⟩
  constructor
  · intro item separator least trailing r hitem
    obtain ⟨o, m', hx, hexec⟩ := hrounds item separator least trailing
    have hstart : Amid s input (invoke s room input) (s.limit - room) lookaheads trivia r.patterns m
        ⟨m, s.limit - room, lookaheads⟩ := ⟨rfl, rfl, hm, .start⟩
    obtain ⟨res, hparses, start, rfl⟩ := repetition_parses (r := r) hcall hitem hstart hexec
    refine ⟨res, m', start, hx, fun res' n => ⟨fun h => hparses.unique h, ?_⟩⟩
    intro h
    rw [h.1, h.2]
    exact hparses
  · intro p separator hp hseparator
    obtain ⟨o, m', hx, hexec⟩ := hrounds (.optional p) (some separator) 0 false
    have hstart : Amid s input (invoke s room input) (s.limit - room) lookaheads trivia
        [p, separator] m ⟨m, s.limit - room, lookaheads⟩ := ⟨rfl, rfl, hm, .start⟩
    obtain ⟨e, rfl⟩ | ⟨founds, separators, stop, start, hslots, rfl⟩ :=
      repetition_slots hcall hseparator hp hstart hexec
    · exact .inl ⟨e, m', hx⟩
    · exact .inr ⟨founds, separators, start, stop, m', hslots, hslots.length, hx⟩

/-- A pattern for a character that yields the character. -/
def mark (c : Char) : LinkedPattern :=
  .scan ⟨"mark", fun cs => if cs.head? = some c then some (1, .text (.singleton c)) else none⟩

theorem mark_takes (text : Text) (call : Call → Eval (Option Matched)) (mode : Mode)
    (ps : List LinkedPattern) (m : Memory) (c : Char) :
    TakesOn (fun p => matchPattern none text call p mode) ps m (mark c) := by
  intro n _ offset found n' h
  have hstart : leading none text mode offset = offset := ite_self offset
  simp only [mark, matchPattern, hstart] at h
  cases hscan : (text.after? offset).bind
      fun cs => if cs.head? = some c then some (1, Value.text (.singleton c)) else none with
  | none =>
    rw [hscan] at h
    cases hquiet : mode.quiet <;> simp only [leaf, miss, hquiet] at h <;> cases h
  | some r =>
    obtain ⟨cs, -, hr⟩ := Option.bind_eq_some_iff.1 hscan
    obtain ⟨-, hr⟩ := Option.ite_none_right_eq_some.1 hr
    obtain rfl := Option.some.inj hr
    rw [hscan] at h
    have hleaf : leaf mode offset (some (1, Value.text (.singleton c))) n =
        ending (.ok (some ⟨offset, offset + 1, .text (.singleton c)⟩)) n := rfl
    obtain ⟨hfound, -⟩ := ending_inj (hleaf.symm.trans h)
    obtain rfl := Option.some.inj (Except.ok.inj hfound)
    exact Nat.lt_succ_self offset

/-- A separator at the end belongs to the list, and there is an empty slot behind it. -/
theorem repetition_expands_marks :
    let input : Input := ⟨Text.ofString "x,x,", 0⟩
    let s : Setting := ⟨⟨#[], ∅, none⟩, .ofText input.text, .off, 0⟩
    let matcher p := matchPattern none input.text (invoke s 0 input) p ⟨false, false⟩
    let r : Repetition := ⟨mark 'x', some (mark ','), 1, true, false, 0⟩
    TakesOn matcher [mark 'x', mark ','] .empty (mark 'x') ∧
    TakesOn matcher [mark 'x', mark ','] .empty (mark ',') ∧
    (∃ m', Expression.Parses matcher r.expansion 0 .empty
      (.ok (some (4, [.text "x", .text "x"]))) m') ∧
    ∃ founds separators m', Slots matcher (mark 'x') (mark ',') 0 .empty founds separators 4 m' ∧
      founds.length = separators.length + 1 ∧
      slotValues founds = [.text "x", .text "x", .null] := by
  intro input s matcher r
  have htakes := mark_takes input.text (invoke s 0 input) ⟨false, false⟩
    [mark 'x', mark ','] .empty
  obtain ⟨hexpands, hslots⟩ := repetition_expands s (Nat.le_refl 0) input ⟨false, false⟩
    (sane_empty input.text) 0
  refine ⟨htakes 'x', htakes ',', ?_, ?_⟩
  · obtain ⟨res, m', start, hx, hparses⟩ :=
      hexpands (mark 'x') (some (mark ',')) 1 true (htakes 'x')
    have hrun : matcher (.repetition (mark 'x') (some (mark ',')) 1 true) 0 .empty =
        ending (.ok (some ⟨0, 4, .list [.text "x", .text "x"]⟩)) ⟨∅, 4⟩ := rfl
    obtain ⟨hres, -⟩ := ending_inj (hx.symm.trans hrun)
    obtain ⟨found, rfl, hfound⟩ := map_eq_ok hres
    obtain ⟨⟨stop, vs⟩, rfl, hmatched⟩ := Option.map_eq_some_iff.1 hfound
    simp only [Matched.mk.injEq, Value.list.injEq] at hmatched
    obtain ⟨-, rfl, rfl⟩ := hmatched
    exact ⟨m', (hparses _ m').2 ⟨rfl, rfl⟩⟩
  · have hrun : matcher (.repetition (.optional (mark 'x')) (some (mark ',')) 0 false) 0 .empty =
        ending (.ok (some ⟨0, 4, .list [.text "x", .text "x", .null]⟩)) ⟨∅, 4⟩ := rfl
    obtain ⟨e, m', hx⟩ | ⟨founds, separators, start, stop, m', hslots, hlength, hx⟩ :=
      hslots (mark 'x') (mark ',') (htakes 'x') (htakes ',')
    · cases (ending_inj (hx.symm.trans hrun)).1
    · obtain ⟨hmatched, -⟩ := ending_inj (hx.symm.trans hrun)
      simp only [Except.ok.injEq, Option.some.injEq, Matched.mk.injEq, Value.list.injEq] at hmatched
      obtain ⟨-, rfl, hvalues⟩ := hmatched
      exact ⟨founds, separators, m', hslots, hlength, hvalues⟩

/-- Where two items are required, one is not enough, though it is an item with any number of further
ones behind it; and where one item is required without a separator, an empty run of items is not. -/
theorem repetition_requires :
    let s : Setting := ⟨⟨#[], ∅, none⟩, .ofText (Text.ofString "x"), .off, 0⟩
    let matcher text p := matchPattern none (Text.ofString text)
      (invoke s 0 ⟨Text.ofString text, 0⟩) p ⟨false, false⟩
    let r : Repetition := ⟨mark 'x', some (mark ','), 2, false, false, 0⟩
    TakesOn (matcher "x") [mark 'x', mark ','] .empty (mark 'x') ∧
    matcher "x" (.repetition (mark 'x') (some (mark ',')) 2 false) 0 .empty =
      ending (.ok none) ⟨∅, 1⟩ ∧
    Expression.Parses (matcher "x") (.both (.keep r.item) (r.others 0)) 0 .empty
      (.ok (some (1, [.text "x"]))) ⟨∅, 1⟩ ∧
    TakesOn (matcher "") [mark 'x'] .empty (mark 'x') ∧
    matcher "" (.repetition (mark 'x') none 1 false) 0 .empty = ending (.ok none) .empty ∧
    Expression.Parses (matcher "") (.star (.keep (mark 'x'))) 0 .empty (.ok (some (0, [])))
      .empty := by
  intro s matcher r
  have hitem : matcher "x" (mark 'x') 0 .empty = ending (.ok (some ⟨0, 1, .text "x"⟩)) .empty := rfl
  have hmark : matcher "x" (mark ',') 1 .empty = ending (.ok none) ⟨∅, 1⟩ := rfl
  have hnone : matcher "" (mark 'x') 0 .empty = ending (.ok none) .empty := rfl
  refine ⟨mark_takes _ _ _ _ _ _, rfl, ?_, mark_takes _ _ _ _ _ _, rfl, .enough (.keep hnone)⟩
  refine .both (.keep hitem) (.both (.enough ?_) .nothing)
  exact .unmatched (.skip hmark) (by simp)

end PhpSyntax.Peg
