import Mathlib
import PhpSyntax.Peg.Session

namespace PhpSyntax

/-- Entries of the same names in the same order, with related values of any kinds. -/
abbrev NamedRel {α β : Type} (V : α → β → Prop) : List (String × α) → List (String × β) → Prop :=
  List.Forall₂ fun e f => e.1 = f.1 ∧ V e.2 f.2

/-- Entries of the same names in the same order, with related values. -/
abbrev EntriesRel (V : Value → Value → Prop) :
    List (String × Value) → List (String × Value) → Prop :=
  List.Forall₂ fun e f => e.1 = f.1 ∧ V e.2 f.2

/-- A relation between values that agrees with all that captures tell apart. -/
structure Congruence (V : Value → Value → Prop) : Prop where
  null : V .null .null
  bool (b : Bool) : V (.bool b) (.bool b)
  text (s : String) : V (.text s) (.text s)
  list {as bs : List Value} : List.Forall₂ V as bs → V (.list as) (.list bs)
  record {es fs : List (String × Value)} : EntriesRel V es fs → V (.record ⟨es⟩) (.record ⟨fs⟩)
  isNull {a b : Value} : V a b → a.isNull = b.isNull
  toList {a b : Value} : V a b → List.Forall₂ V a.toList b.toList
  ofRecord {es : List (String × Value)} {b : Value} : V (.record ⟨es⟩) b →
    ∃ fs, b = .record ⟨fs⟩ ∧ EntriesRel V es fs
  toRecord {a : Value} {fs : List (String × Value)} : V a (.record ⟨fs⟩) → ∃ es, a = .record ⟨es⟩

namespace Fields

variable {α β : Type} {V : α → β → Prop} {es : List (String × α)} {fs : List (String × β)}

theorem rel_get? (h : NamedRel V es fs) (key : String) :
    Option.Rel V (get? ⟨es⟩ key) (get? ⟨fs⟩ key) := by
  simp only [get?]
  induction h with
  | nil => exact .none
  | @cons e f es fs hef _ ih =>
    obtain ⟨k, a⟩ := e
    obtain ⟨l, b⟩ := f
    obtain ⟨rfl, hab⟩ : k = l ∧ V a b := hef
    simp only [List.lookup]
    split
    · exact .some hab
    · exact ih

theorem rel_assign {key : String} {a : α} {b : β} (h : NamedRel V es fs) (hab : V a b) :
    NamedRel V (assign key a es) (assign key b fs) := by
  induction h with
  | nil => exact .nil
  | @cons e f es fs hef hes ih =>
    obtain ⟨k, c⟩ := e
    obtain ⟨l, d⟩ := f
    obtain ⟨rfl, hcd⟩ : k = l ∧ V c d := hef
    simp only [assign]
    split
    · exact .cons ⟨rfl, hab⟩ hes
    · exact .cons ⟨rfl, hcd⟩ ih

theorem rel_remove (h : NamedRel V es fs) (key : String) :
    NamedRel V (remove key es) (remove key fs) := by
  induction h with
  | nil => exact .nil
  | @cons e f es fs hef hes ih =>
    obtain ⟨k, c⟩ := e
    obtain ⟨l, d⟩ := f
    obtain ⟨rfl, hcd⟩ : k = l ∧ V c d := hef
    simp only [remove]
    split
    · exact hes
    · exact .cons ⟨rfl, hcd⟩ ih

theorem rel_insert {fs : Fields α} {gs : Fields β} {key : String} {a : α} {b : β}
    (h : NamedRel V fs.entries gs.entries) (hab : V a b) :
    NamedRel V (fs.insert key a).entries (gs.insert key b).entries := by
  have hc : fs.contains key = gs.contains key := by
    have hk := rel_get? h key
    simp only [contains]
    generalize fs.get? key = x at hk ⊢
    generalize gs.get? key = y at hk ⊢
    cases hk <;> rfl
  simp only [insert, hc]
  split
  · exact rel_assign h hab
  · exact List.rel_append h (.cons ⟨rfl, hab⟩ .nil)

theorem rel_insertAll {fs : Fields α} {gs : Fields β} {es : List (String × α)}
    {es' : List (String × β)}
    (h : NamedRel V fs.entries gs.entries) (he : NamedRel V es es') :
    NamedRel V (fs.insertAll es).entries (gs.insertAll es').entries := by
  induction he generalizing fs gs with
  | nil => exact h
  | @cons e f es fs' hef _ ih =>
    obtain ⟨k, a⟩ := e
    obtain ⟨l, b⟩ := f
    obtain ⟨rfl, hab⟩ : k = l ∧ V a b := hef
    exact ih (rel_insert h hab)

end Fields

theorem Congruence.capture {V : Value → Value → Prop} (hV : Congruence V) {a b : Value}
    (h : V a b) (capture : Peg.Capture) : V (capture.apply a) (capture.apply b) := by
  cases capture with
  | value => exact h
  | flag =>
    simp only [Peg.Capture.apply, hV.isNull h]
    exact hV.bool _
  | list => exact hV.list (hV.toList h)

theorem Congruence.eq : Congruence (· = ·) where
  null := rfl
  bool _ := rfl
  text _ := rfl
  list h := by
    rw [List.forall₂_eq_eq_eq] at h
    rw [h]
  record h := by
    have he : (fun e f : String × Value => e.1 = f.1 ∧ e.2 = f.2) = (· = ·) := by
      funext e f
      exact propext Prod.ext_iff.symm
    rw [EntriesRel, he, List.forall₂_eq_eq_eq] at h
    rw [h]
  isNull h := by rw [h]
  toList h := by rw [h]; exact List.forall₂_refl _
  ofRecord h := ⟨_, h.symm, List.forall₂_same.2 fun _ _ => ⟨rfl, rfl⟩⟩
  toRecord h := ⟨_, h⟩

namespace Peg

/-- Rules were nested deeper than the limit allows. -/
def Failure.isTooDeep : Failure → Bool
  | .mismatch .. => false
  | .fatal key _ _ => key == Message.nestingTooDeep

/-- Goes on behind a step, also behind its failure unless that is one of depth. -/
def attempt {α β : Type} (x : Eval α) (f : α → Eval β) (h : Failure → Eval β) : Eval β := fun m =>
  match x m with
  | .ok a m => f a m
  | .error e m => if e.isTooDeep then .error e m else h e m

theorem bind_eq_attempt {α β : Type} (x : Eval α) (f : α → Eval β) :
    x >>= f = attempt x f throw := by
  funext m
  simp only [bind, EStateM.bind, attempt, throw, throwThe, MonadExceptOf.throw, EStateM.throw]
  cases x m with
  | ok a m => rfl
  | error e m => simp only [ite_self]

/-- A relation between families of steps and steps that respects how the steps of a parse are put
together. -/
structure Lifting (ι : Type) where
  rel : {α β : Type} → (α → β → Prop) → (ι → Eval α) → Eval β → Prop
  pure {α β : Type} {R : α → β → Prop} {a : α} {b : β} :
    R a b → rel R (fun _ => pure a) (pure b)
  throw {α β : Type} {R : α → β → Prop} (e : Failure) : rel R (fun _ => throw e) (throw e)
  attempt {α β α' β' : Type} {R : α → β → Prop} {Q : α' → β' → Prop} {x : ι → Eval α}
    {y : Eval β} {f : ι → α → Eval α'} {g : β → Eval β'} {h : ι → Failure → Eval α'}
    {k : Failure → Eval β'} :
    rel R x y → (∀ a b, R a b → rel Q (fun i => f i a) (g b)) →
      (∀ e, e.isTooDeep = false → rel Q (fun i => h i e) (k e)) →
      rel Q (fun i => attempt (x i) (f i) (h i)) (attempt y g k)
  note (offset : Nat) :
    rel (fun _ _ : PUnit => True) (fun _ => modify (·.note offset)) (modify (·.note offset))

theorem Lifting.bind {ι : Type} (L : Lifting ι) {α β α' β' : Type} {R : α → β → Prop}
    {Q : α' → β' → Prop} {x : ι → Eval α} {y : Eval β} {f : ι → α → Eval α'} {g : β → Eval β'}
    (h : L.rel R x y) (hf : ∀ a b, R a b → L.rel Q (fun i => f i a) (g b)) :
    L.rel Q (fun i => x i >>= f i) (y >>= g) := by
  simp only [bind_eq_attempt]
  exact L.attempt h hf fun e _ => L.throw e

/-- Matches of the same extent with related values. -/
structure Matched.Rel (V : Value → Value → Prop) (m n : Matched) : Prop where
  start : m.start = n.start
  stop : m.stop = n.stop
  value : V m.value n.value

/-- Parts of the same extent with related fields. -/
structure Parts.Rel (V : Value → Value → Prop) (ps qs : Parts) : Prop where
  cursor : ps.cursor = qs.cursor
  start : ps.start = qs.start
  hasFields : ps.hasFields = qs.hasFields
  fields : EntriesRel V ps.fields.entries qs.fields.entries

/-- Rounds of the same extent with related items. -/
structure Rounds.Rel (V : Value → Value → Prop) (rs qs : Rounds) : Prop where
  cursor : rs.cursor = qs.cursor
  start : rs.start = qs.start
  emptyFirst : rs.emptyFirst = qs.emptyFirst
  items : List.Forall₂ V rs.items qs.items

namespace Pattern

variable {τ ρ : Type}

mutual

/-- The scanners in a pattern, in writing order. -/
def scanners : Pattern τ ρ → List Scanner
  | .terminal _ => []
  | .rule _ => []
  | .sequence components => componentScanners components
  | .choice alternatives => allScanners alternatives
  | .repetition item none _ _ => scanners item
  | .repetition item (some separator) _ _ => scanners item ++ scanners separator
  | .optional p => scanners p
  | .ahead _ p => scanners p
  | .trivia _ p => scanners p
  | .silent p => scanners p
  | .scan s => [s]
  | .endOfInput => []

def componentScanners : List (Component (Pattern τ ρ)) → List Scanner
  | [] => []
  | ⟨_, _, p⟩ :: rest => scanners p ++ componentScanners rest

def allScanners : List (Pattern τ ρ) → List Scanner
  | [] => []
  | p :: rest => scanners p ++ allScanners rest

end

end Pattern

section Match

variable {ι : Type} (L : Lifting ι) {V : Value → Value → Prop} (hV : Congruence V)

theorem Parts.rel_startingAt (offset : Nat) :
    Parts.Rel V (.startingAt offset) (.startingAt offset) :=
  ⟨rfl, rfl, rfl, .nil⟩

theorem Rounds.rel_startingAt (offset : Nat) :
    Rounds.Rel V (.startingAt offset) (.startingAt offset) :=
  ⟨rfl, rfl, rfl, .nil⟩

include hV in
theorem Parts.rel_push {ps qs : Parts} {m n : Matched} (h : Parts.Rel V ps qs)
    (hm : Matched.Rel V m n) (field : Option String) (capture : Capture) :
    Parts.Rel V (ps.push field capture m) (qs.push field capture n) := by
  obtain ⟨start, stop, v⟩ := m
  obtain ⟨start', stop', w⟩ := n
  obtain ⟨rfl, rfl, hvw⟩ := hm
  obtain ⟨cursor, first, fields, hasFields⟩ := ps
  obtain ⟨cursor', first', fields', hasFields'⟩ := qs
  obtain ⟨rfl, rfl, rfl, hf⟩ := h
  cases field with
  | some name => exact ⟨rfl, rfl, rfl, Fields.rel_insert hf (hV.capture hvw capture)⟩
  | none =>
    by_cases hr : ∃ es, v = .record ⟨es⟩
    · obtain ⟨es, rfl⟩ := hr
      obtain ⟨fs, rfl, hes⟩ := hV.ofRecord hvw
      exact ⟨rfl, rfl, rfl, Fields.rel_insertAll hf hes⟩
    · have hw : ¬∃ fs, w = .record ⟨fs⟩ := by
        rintro ⟨fs, rfl⟩
        exact hr (hV.toRecord hvw)
      cases v with
      | record fields => exact absurd ⟨fields.entries, rfl⟩ hr
      | _ =>
        cases w with
        | record fields => exact absurd ⟨fields.entries, rfl⟩ hw
        | _ => exact ⟨rfl, rfl, rfl, hf⟩

include hV in
theorem Parts.rel_finish {ps qs : Parts} (text : Text) (h : Parts.Rel V ps qs) :
    Matched.Rel V (ps.finish text) (qs.finish text) := by
  obtain ⟨cursor, start, fields, hasFields⟩ := ps
  obtain ⟨cursor', start', fields', hasFields'⟩ := qs
  obtain ⟨rfl, rfl, rfl, hf⟩ := h
  cases hasFields with
  | true => exact ⟨rfl, rfl, hV.record hf⟩
  | false => exact ⟨rfl, rfl, hV.text _⟩

theorem Rounds.rel_push {rs qs : Rounds} {m n : Matched} (h : Rounds.Rel V rs qs)
    (hm : Matched.Rel V m n) (emptyFirst : Bool) :
    Rounds.Rel V (rs.push m emptyFirst) (qs.push n emptyFirst) := by
  obtain ⟨hs, ht, hv⟩ := hm
  refine ⟨ht, ?_, rfl, .cons hv h.items⟩
  simp only [Rounds.push, h.start, Matched.consumed, hs, ht]
  rfl

include hV in
theorem Rounds.rel_outcome {as bs : List Value} (h : List.Forall₂ V as bs)
    (start stop least : Nat) :
    Option.Rel (Matched.Rel V)
      (if as.length < least then none else some ⟨start, stop, .list as.reverse⟩)
      (if bs.length < least then none else some ⟨start, stop, .list bs.reverse⟩) := by
  rw [h.length_eq]
  split
  · exact .none
  · exact .some ⟨rfl, rfl, hV.list (List.rel_reverse h)⟩

include hV in
theorem Rounds.rel_finish {rs qs : Rounds} (h : Rounds.Rel V rs qs) (offset least : Nat) :
    Option.Rel (Matched.Rel V) (rs.finish offset least) (qs.finish offset least) := by
  obtain ⟨items, cursor, start, emptyFirst⟩ := rs
  obtain ⟨items', cursor', start', emptyFirst'⟩ := qs
  obtain ⟨rfl, rfl, rfl, hi⟩ := h
  cases hi with
  | nil => exact rel_outcome hV .nil _ _ _
  | cons hv hs =>
    cases hs with
    | nil => cases emptyFirst with
      | true => exact rel_outcome hV .nil _ _ _
      | false => exact rel_outcome hV (.cons hv .nil) _ _ _
    | cons hw hs => exact rel_outcome hV (.cons hv (.cons hw hs)) _ _ _

theorem miss_rel (mode : Mode) (offset : Nat) :
    L.rel (Option.Rel (Matched.Rel V)) (fun _ => miss mode offset) (miss mode offset) := by
  obtain ⟨trivia, quiet⟩ := mode
  cases quiet with
  | true => exact L.pure .none
  | false => exact L.bind (L.note offset) fun _ _ _ => L.pure .none

theorem leaf_rel (mode : Mode) (start : Nat) (found : Option (Nat × Value))
    (hf : ∀ n v, found = some (n, v) → V v v) :
    L.rel (Option.Rel (Matched.Rel V)) (fun _ => leaf mode start found)
      (leaf mode start found) := by
  cases found with
  | none => exact miss_rel L mode start
  | some r => exact L.pure (.some ⟨rfl, rfl, hf r.1 r.2 rfl⟩)

def MatcherRel (V : Value → Value → Prop) (x : ι → Matcher) (y : Matcher) : Prop :=
  ∀ offset, L.rel (Option.Rel (Matched.Rel V)) (fun i => x i offset) (y offset)

/-- Separators are related where there are any, and are there on both sides or on neither. -/
inductive SeparatorRel (V : Value → Value → Prop) :
    (ι → Option Matcher) → Option Matcher → Prop where
  | none : SeparatorRel V (fun _ => .none) .none
  | some {x : ι → Matcher} {y : Matcher} : MatcherRel L V x y →
      SeparatorRel V (fun i => .some (x i)) (.some y)

variable {L}

theorem nextItem_rel {sx : ι → Option Matcher} {sy : Option Matcher} (hs : SeparatorRel L V sx sy)
    {rs qs : Rounds} (h : Rounds.Rel V rs qs) :
    L.rel (· = ·) (fun i => nextItem (sx i) rs) (nextItem sy qs) := by
  cases hs with
  | none => exact L.pure (by rw [h.cursor])
  | some hs =>
    simp only [nextItem, List.isEmpty_iff_length_eq_zero, h.items.length_eq, h.cursor]
    split
    · exact L.pure rfl
    · refine L.bind (hs qs.cursor) fun a b hab => L.pure ?_
      cases hab with
      | none => rfl
      | some hm => exact congrArg some hm.stop

theorem repeatFrom_rel {x : ι → Matcher} {y : Matcher} (hx : MatcherRel L V x y)
    {sx : ι → Option Matcher} {sy : Option Matcher} (hs : SeparatorRel L V sx sy)
    (trailing : Bool) (fuel : Nat) {rs qs : Rounds} (h : Rounds.Rel V rs qs) :
    L.rel (Rounds.Rel V) (fun i => repeatFrom (x i) (sx i) trailing fuel rs)
      (repeatFrom y sy trailing fuel qs) := by
  induction fuel generalizing rs qs with
  | zero => exact L.pure h
  | succ fuel ih =>
    simp only [repeatFrom]
    refine L.bind (nextItem_rel hs h) ?_
    rintro next _ rfl
    cases next with
    | none => exact L.pure h
    | some next =>
      refine L.bind (hx next) fun a b hab => ?_
      cases hab with
      | none =>
        simp only [h.cursor]
        split
        · exact L.pure ⟨rfl, h.start, h.emptyFirst, h.items⟩
        · exact L.pure h
      | @some m n hm =>
        have he : rs.items.isEmpty = qs.items.isEmpty := by
          rw [Bool.eq_iff_iff, List.isEmpty_iff_length_eq_zero, List.isEmpty_iff_length_eq_zero,
            h.items.length_eq]
        simp only [hm.stop, h.cursor, he]
        split
        · have hsep : ∀ i, (sx i).isSome = sy.isSome := by
            cases hs <;> exact fun _ => rfl
          simp only [hsep]
          split
          · exact ih (Rounds.rel_push h hm true)
          · exact L.pure h
        · simp only [h.emptyFirst]
          exact ih (Rounds.rel_push h hm _)

variable {trivia : Option Lexeme} {text : Text} {x : ι → Call → Eval (Option Matched)}
  {y : Call → Eval (Option Matched)}

/-- A scanner yields only values that are related to themselves. -/
def Scanner.Fixed (V : Value → Value → Prop) (s : Scanner) : Prop :=
  ∀ cs n v, s.scan cs = some (n, v) → V v v

mutual

theorem matchPattern_rel (hV : Congruence V)
    (hc : ∀ c, L.rel (Option.Rel (Matched.Rel V)) (fun i => x i c) (y c)) :
    (p : LinkedPattern) → (∀ s ∈ p.scanners, s.Fixed V) → (mode : Mode) →
    MatcherRel L V (fun i => matchPattern trivia text (x i) p mode)
      (matchPattern trivia text y p mode)
  | .terminal t, _, mode, offset => by
    simp only [matchPattern]
    refine leaf_rel L mode _ _ fun n v h => ?_
    obtain ⟨cs, -, h⟩ := Option.bind_eq_some_iff.1 h
    obtain ⟨r, -, h⟩ := Option.map_eq_some_iff.1 h
    cases h
    exact hV.text _
  | .scan s, hp, mode, offset => by
    simp only [matchPattern]
    refine leaf_rel L mode _ _ fun n v h => ?_
    obtain ⟨cs, -, h⟩ := Option.bind_eq_some_iff.1 h
    exact hp s (List.mem_singleton.2 rfl) cs n v h
  | .endOfInput, _, mode, offset => by
    simp only [matchPattern]
    split
    · exact L.pure (.some ⟨rfl, rfl, hV.null⟩)
    · exact miss_rel L mode _
  | .rule r, _, mode, offset => by
    simp only [matchPattern]
    exact hc _
  | .sequence components, hp, mode, offset => by
    simp only [matchPattern]
    refine L.bind (matchComponents_rel hV hc components hp mode
      (Parts.rel_startingAt offset)) ?_
    intro a b hab
    cases hab with
    | none => exact L.pure .none
    | some h => exact L.pure (.some (Parts.rel_finish hV text h))
  | .choice alternatives, hp, mode, offset => by
    simp only [matchPattern]
    exact matchFirst_rel hV hc alternatives hp mode offset
  | .repetition item none least trailing, hp, mode, offset => by
    simp only [matchPattern]
    refine L.bind (repeatFrom_rel (matchPattern_rel hV hc item hp mode) .none trailing _
      (Rounds.rel_startingAt offset)) ?_
    exact fun a b hab => L.pure (Rounds.rel_finish hV hab offset least)
  | .repetition item (some separator) least trailing, hp, mode, offset => by
    simp only [matchPattern]
    obtain ⟨hitem, hseparator⟩ := List.forall_mem_append.1 hp
    refine L.bind (repeatFrom_rel (matchPattern_rel hV hc item hitem mode)
      (.some (matchPattern_rel hV hc separator hseparator mode)) trailing _
      (Rounds.rel_startingAt offset)) ?_
    exact fun a b hab => L.pure (Rounds.rel_finish hV hab offset least)
  | .optional p, hp, mode, offset => by
    simp only [matchPattern]
    refine L.bind (matchPattern_rel hV hc p hp mode offset) fun a b hab => L.pure ?_
    cases hab with
    | none => exact .some ⟨rfl, rfl, hV.null⟩
    | some hm => exact .some hm
  | .ahead negated p, hp, mode, offset => by
    simp only [matchPattern]
    refine L.bind (matchPattern_rel hV hc p hp mode.beneathLookahead offset) fun a b hab =>
      L.pure ?_
    have he : a.isSome = b.isSome := by cases hab <;> rfl
    simp only [he]
    split
    · exact .some ⟨rfl, rfl, hV.null⟩
    · exact .none
  | .trivia skip p, hp, mode, offset => by
    simp only [matchPattern]
    exact matchPattern_rel hV hc p hp (mode.skipping skip) offset
  | .silent p, hp, mode, offset => by
    simp only [matchPattern]
    refine L.bind (matchPattern_rel hV hc p hp mode offset) fun a b hab => L.pure ?_
    cases hab with
    | none => exact .none
    | some hm => exact .some ⟨hm.start, hm.stop, hV.null⟩

theorem matchComponents_rel (hV : Congruence V)
    (hc : ∀ c, L.rel (Option.Rel (Matched.Rel V)) (fun i => x i c) (y c)) :
    (cs : List (Component LinkedPattern)) →
    (∀ s ∈ Pattern.componentScanners cs, s.Fixed V) → (mode : Mode) → {ps qs : Parts} →
    Parts.Rel V ps qs → L.rel (Option.Rel (Parts.Rel V))
      (fun i => matchComponents trivia text (x i) cs mode ps)
      (matchComponents trivia text y cs mode qs)
  | [], _, _, _, _, h => by
    simp only [matchComponents]
    exact L.pure (.some h)
  | ⟨field, capture, p⟩ :: rest, hp, mode, ps, qs, h => by
    simp only [matchComponents, h.cursor]
    obtain ⟨hfirst, hrest⟩ := List.forall_mem_append.1 hp
    refine L.bind (matchPattern_rel hV hc p hfirst mode _) fun a b hab => ?_
    cases hab with
    | none => exact L.pure .none
    | some hm =>
      exact matchComponents_rel hV hc rest hrest mode (Parts.rel_push hV h hm field capture)

theorem matchFirst_rel (hV : Congruence V)
    (hc : ∀ c, L.rel (Option.Rel (Matched.Rel V)) (fun i => x i c) (y c)) :
    (ps : List LinkedPattern) →
    (∀ s ∈ Pattern.allScanners ps, s.Fixed V) → (mode : Mode) →
    MatcherRel L V (fun i => matchFirst trivia text (x i) ps mode)
      (matchFirst trivia text y ps mode)
  | [], _, _, _ => by
    simp only [matchFirst]
    exact L.pure .none
  | p :: rest, hp, mode, offset => by
    simp only [matchFirst]
    obtain ⟨hfirst, hrest⟩ := List.forall_mem_append.1 hp
    refine L.bind (matchPattern_rel hV hc p hfirst mode offset) fun a b hab => ?_
    cases hab with
    | none => exact matchFirst_rel hV hc rest hrest mode offset
    | some hm => exact L.pure (.some hm)

end

end Match

theorem LinkedRule.place_off {ctx : Context} (h : ctx.options = .off) (v : Value) :
    place ctx v = v := by
  cases v with
  | node n =>
    have hoff : ctx.options.instruments = false := by rw [h]; rfl
    simp only [place, hoff, Bool.false_and, Bool.false_eq_true, if_false]
  | _ => rfl

/-- The outcome of a rule whose pattern matched. -/
def conclude (s : Setting) (call : Input → Call → Eval (Option Matched)) (input : Input)
    (rule : LinkedRule) (m : Matched) : Eval (Option Matched) :=
  let ctx := ⟨⟨m.start, m.stop⟩, input, s.lines, s.options, reparseWith s.grammar call input⟩
  match rule.shape ctx m.value with
  | .ok v => return some { m with value := v }
  | .error e => throw e

theorem evaluate_of_none {s : Setting} {c : Call} (h : s.grammar.rules[c.rule]? = none)
    (call : Input → Call → Eval (Option Matched)) (input : Input) :
    evaluate s call input c = pure none := by
  simp only [evaluate, h]

theorem evaluate_of_some {s : Setting} {c : Call} {r : LinkedRule}
    (h : s.grammar.rules[c.rule]? = some r)
    (call : Input → Call → Eval (Option Matched)) (input : Input) :
    evaluate s call input c =
      matchPattern s.grammar.trivia input.text (call input) r.pattern ⟨c.trivia, c.quiet⟩
        c.offset >>= fun
        | none => pure none
        | some m => conclude s call input r m := by
  simp only [evaluate, h]
  rfl

/-- Evaluations of a call are related if calls within it are, and if matches are concluded alike. -/
theorem evaluate_rel {ι : Type} (L : Lifting ι) {V : Value → Value → Prop} (hV : Congruence V)
    {s s' : Setting} (hg : s.grammar = s'.grammar)
    (hscan : ∀ r ∈ s.grammar.rules, ∀ s ∈ r.pattern.scanners, s.Fixed V)
    {x : ι → Input → Call → Eval (Option Matched)} {y : Input → Call → Eval (Option Matched)}
    {input : Input}
    (hc : ∀ c, L.rel (Option.Rel (Matched.Rel V)) (fun i => x i input c) (y input c))
    (hend : ∀ r ∈ s.grammar.rules, ∀ m n, Matched.Rel V m n →
      L.rel (Option.Rel (Matched.Rel V)) (fun i => conclude s (x i) input r m)
        (conclude s' y input r n)) (c : Call) :
    L.rel (Option.Rel (Matched.Rel V)) (fun i => evaluate s (x i) input c)
      (evaluate s' y input c) := by
  cases hr : s.grammar.rules[c.rule]? with
  | none =>
    simp only [evaluate_of_none hr, evaluate_of_none (hg ▸ hr)]
    exact L.pure .none
  | some rule =>
    have hmem : rule ∈ s.grammar.rules := Array.mem_of_getElem? hr
    simp only [evaluate_of_some hr, evaluate_of_some (hg ▸ hr), ← hg]
    refine L.bind (matchPattern_rel hV hc rule.pattern (hscan rule hmem) _ c.offset) ?_
    intro a b hab
    cases hab with
    | none => exact L.pure .none
    | some hm => exact hend rule hmem _ _ hm

end Peg

end PhpSyntax
