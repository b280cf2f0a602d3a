import PhpSyntax.Proofs.Check.Nullable
import PhpSyntax.Proofs.Peg.Form
import PhpSyntax.Proofs.Peg.Taking
import PhpSyntax.Proofs.Tree.Laid
import PhpSyntax.Proofs.Tree.Merging

namespace PhpSyntax

theorem Fields.insertAll_fresh {α : Type} {fs : Fields α} {es : List (String × α)}
    (hnodup : (es.map (·.1)).Nodup) (hfresh : ∀ key ∈ es.map (·.1), key ∉ fs.keys) :
    (fs.insertAll es).entries = fs.entries ++ es := by
  induction es generalizing fs with
  | nil => simp [insertAll]
  | cons e es ih =>
    rw [List.map_cons, List.nodup_cons] at hnodup
    rw [List.map_cons, List.forall_mem_cons] at hfresh
    have hinsert := fs.insert_of_notMem e.2 hfresh.1
    calc (fs.insertAll (e :: es)).entries = ((fs.insert e.1 e.2).insertAll es).entries := rfl
      _ = (fs.insert e.1 e.2).entries ++ es := by
        refine ih hnodup.2 fun key hkey hmem => ?_
        obtain rfl | hmem := fs.mem_insert_keys e.2 |>.1 hmem
        · exact hnodup.1 hkey
        · exact hfresh.2 key hkey hmem
      _ = fs.entries ++ e :: es := by rw [hinsert, List.append_assoc, List.singleton_append]

namespace Peg

/-- A terminal that takes something wherever it matches. -/
def Terminal.Grasps (t : Terminal) : Prop :=
  ∀ l : Lexeme, t.lexeme? = some l → ∀ (cs : List Char) (n : Nat) (yielded : String),
    l.matchAt? cs (byteLength cs) = some (n, yielded) → 0 < n

theorem Lexeme.found_consumed {l : Lexeme} {text : Text} {start : Nat} {cs : List Char}
    {m : Matched} (ht : l.toTerminal.Grasps) (hread : l.Read) (hcs : text.Has start cs)
    (h : l.found text start = some m) : m.consumed = true := by
  obtain ⟨⟨n, v⟩, hr, rfl⟩ := Option.map_eq_some_iff.1 h
  rw [hcs.after?, hcs.left, Option.bind_some] at hr
  obtain ⟨⟨n, yielded⟩, hmatch, ⟨⟩⟩ := Option.map_eq_some_iff.1 hr
  have hlexeme : l.toTerminal.lexeme? = some l := by
    rw [Terminal.lexeme?, hread]
    rfl
  have hpos := ht l hlexeme cs n yielded hmatch
  simp only [Matched.consumed, decide_eq_true_eq]
  omega

theorem Scanner.found_unconsumed {sc : Scanner} {text : Text} {start : Nat} {m : Matched}
    (hsc : sc.Evenly) (h : sc.found text start = some m) (hunconsumed : m.consumed = false) :
    (sc.scan []).isSome = true := by
  obtain ⟨⟨n, v⟩, hr, rfl⟩ := Option.map_eq_some_iff.1 h
  obtain ⟨cs, -, hscan⟩ := Option.bind_eq_some_iff.1 hr
  simp only [Matched.consumed, decide_eq_false_iff_not] at hunconsumed
  obtain rfl : n = 0 := by omega
  exact hsc cs v hscan

namespace Pattern

variable {τ ρ : Type}

mutual

/-- The names under which a pattern captures something for the sequence around it. -/
def labels : Pattern τ ρ → List String
  | .terminal _ | .rule _ | .scan _ | .endOfInput | .repetition _ _ _ _ | .ahead _ _
  | .silent _ => []
  | .sequence components => componentLabels components
  | .choice alternatives => anyLabels alternatives
  | .optional p => labels p
  | .trivia _ p => labels p

def componentLabels : List (Component (Pattern τ ρ)) → List String
  | [] => []
  | ⟨some name, _, _⟩ :: rest => name :: componentLabels rest
  | ⟨none, _, p⟩ :: rest => labels p ++ componentLabels rest

def anyLabels : List (Pattern τ ρ) → List String
  | [] => []
  | p :: rest => labels p ∪ anyLabels rest

end

section Orderly

-- The rules that can match nothing, and those of them that make nodes of it.
variable [NamesRule ρ] (nullable holders : List String)

mutual

/-- Whether a pattern may take nothing, where every terminal takes something. -/
def vacant : Pattern τ ρ → Bool
  | .terminal _ => false
  | .scan sc => (sc.scan []).isSome
  | .rule r => nullable.contains (ruleName r)
  | .sequence components => allVacant components
  | .choice alternatives => anyVacant alternatives
  | .repetition item _ least _ => least == 0 || vacant item
  | .endOfInput | .optional _ | .ahead _ _ => true
  | .trivia _ p => vacant p
  | .silent p => vacant p

def allVacant : List (Component (Pattern τ ρ)) → Bool
  | [] => true
  | ⟨_, _, p⟩ :: rest => vacant p && allVacant rest

def anyVacant : List (Pattern τ ρ) → Bool
  | [] => false
  | p :: rest => vacant p || anyVacant rest

end

mutual

/-- Whether no sequence in a pattern captures something twice, or captures a node in front of what
it takes. What captures such a node itself has to stand behind something that is taken. -/
def orderly (first : Bool) : Pattern τ ρ → Bool
  | .terminal _ | .scan _ | .endOfInput | .ahead _ _ => true
  | .rule r => !(first && holders.contains (ruleName r))
  | .sequence components =>
    decide (componentLabels components).Nodup && componentsOrderly true components
  | .choice alternatives => allOrderly first alternatives
  | .repetition item _ _ _ => orderly true item
  | .optional p => orderly first p
  | .trivia _ p => orderly first p
  | .silent p => orderly false p

def componentsOrderly (first : Bool) : List (Component (Pattern τ ρ)) → Bool
  | [] => true
  | ⟨_, _, p⟩ :: rest => orderly first p && componentsOrderly (first && vacant nullable p) rest

def allOrderly (first : Bool) : List (Pattern τ ρ) → Bool
  | [] => true
  | p :: rest => orderly first p && allOrderly first rest

end

end Orderly

end Pattern

theorem Capture.apply_laid {P : Node → Nat → Nat → Prop} {v : Value} {a b : Nat}
    (capture : Capture) (h : v.Laid P a b) : (capture.apply v).Laid P a b := by
  cases capture with
  | value => exact h
  | flag => exact h.le
  | list => exact h.toList

section Neat

variable (P : Node → Nat → Nat → Prop) (base : Nat)

/-- The captures of a match, in a text that begins `base` bytes into the whole, are laid out over
it. Whether it may take nothing is known, and where it does, there may be no node in it if nothing
was taken before. -/
structure Neat (first empty : Bool) (labels : List String) (m : Matched) : Prop where
  laid : m.value.Laid P (base + m.start) (base + m.stop)
  empty : m.consumed = false → empty = true
  bare : first = true → m.consumed = false → m.value.Bare P
  labels : ∀ fs, m.value = .record fs → fs.keys ⊆ labels ∧ fs.keys.Nodup

/-- The captures of a sequence in progress are laid out over what it has taken. -/
structure Parts.Neat (first : Bool) (ps : Parts) : Prop where
  bare : ps.start = none → ∀ a, Value.EntriesLaid P ps.fields.entries a a
  laid : ∀ s, ps.start = some s → s < ps.cursor ∧
    Value.EntriesLaid P ps.fields.entries (base + s) (base + ps.cursor)
  first : ps.start = none → first = true
  nodup : ps.fields.keys.Nodup

/-- The items of a repetition in progress are laid out over what it has taken. -/
structure Rounds.Neat (empty : Bool) (rs : Rounds) : Prop where
  bare : rs.start = none → ∀ v ∈ rs.items, v.Bare P
  laid : ∀ s, rs.start = some s → s < rs.cursor ∧
    Value.AllLaid P rs.items.reverse (base + s) (base + rs.cursor)
  empty : rs.start = none → rs.items ≠ [] → empty = true

end Neat

section Neat

variable {P : Node → Nat → Nat → Prop} {base : Nat} {first empty : Bool} {labels : List String}
  {m : Matched} {text : Text}

theorem Neat.of_leaf (hv : m.value.IsLeaf) (hforward : m.start ≤ m.stop)
    (hempty : m.consumed = false → empty = true) : Neat P base first empty labels m where
  laid := hv.laid_iff.2 (Nat.add_le_add_left hforward base)
  empty := hempty
  bare _ _ := hv.bare
  labels fs h := by
    rw [h] at hv
    exact hv.elim

theorem Neat.imp (h : Neat P base first empty labels m) {first' empty' : Bool}
    {labels' : List String} (hfirst : first' = true → first = true)
    (hempty : empty = true → empty' = true) (hlabels : labels ⊆ labels') :
    Neat P base first' empty' labels' m where
  laid := h.laid
  empty hm := hempty (h.empty hm)
  bare hf := h.bare (hfirst hf)
  labels fs hfs := (h.labels fs hfs).imp_left fun hsub => List.Subset.trans hsub hlabels

/-- What a component adds to the captures of a sequence. -/
def Matched.added (m : Matched) (capture : Capture) : Option String → List (String × Value)
  | some name => [(name, capture.apply m.value)]
  | none =>
    match m.value with
    | .record fs => fs.entries
    | _ => []

theorem Neat.added_laid (h : Neat P base first empty labels m) (hforward : m.start ≤ m.stop)
    (capture : Capture) (field : Option String) :
    Value.EntriesLaid P (m.added capture field) (base + m.start) (base + m.stop) := by
  have hle : base + m.start ≤ base + m.stop := Nat.add_le_add_left hforward base
  cases field with
  | some name => exact ⟨_, capture.apply_laid h.laid, Nat.le_refl _⟩
  | none =>
    have hlaid := h.laid
    simp only [Matched.added]
    split
    · rename_i fs hfs
      rw [hfs] at hlaid
      exact hlaid
    · exact hle

theorem Neat.added_bare (h : Neat P base first empty labels m) (hfirst : first = true)
    (hm : m.consumed = false) (capture : Capture) (field : Option String) (a : Nat) :
    Value.EntriesLaid P (m.added capture field) a a := by
  have hbare := h.bare hfirst hm a
  cases field with
  | some name => exact ⟨_, capture.apply_laid hbare, Nat.le_refl _⟩
  | none =>
    simp only [Matched.added]
    split
    · rename_i fs hfs
      rw [hfs] at hbare
      exact hbare
    · exact Nat.le_refl a

theorem Neat.added_labels (h : Neat P base first empty labels m) (capture : Capture)
    (field : Option String) : (m.added capture field).map (·.1) ⊆ (field.elim labels ([·])) ∧
      ((m.added capture field).map (·.1)).Nodup := by
  cases field with
  | some name => exact ⟨List.Subset.refl _, List.nodup_singleton name⟩
  | none =>
    simp only [Matched.added]
    split
    · rename_i fs hfs
      exact h.labels fs hfs
    · exact ⟨List.nil_subset _, List.nodup_nil⟩

theorem Parts.push_entries {ps : Parts} {capture : Capture} {field : Option String}
    (hnodup : ((m.added capture field).map (·.1)).Nodup)
    (hfresh : ∀ key ∈ (m.added capture field).map (·.1), key ∉ ps.fields.keys) :
    (ps.push field capture m).fields.entries = ps.fields.entries ++ m.added capture field := by
  have hadd := Fields.insertAll_fresh hnodup hfresh
  rw [← hadd]
  cases field with
  | some name => rfl
  | none =>
    cases hv : m.value with
    | record fs =>
      simp only [Parts.push, Matched.added, hv]
      rfl
    | _ =>
      simp only [Parts.push, Matched.added, hv]
      rfl

/-- A component that follows keeps a sequence neat. -/
theorem Parts.Neat.push {ps : Parts} (h : ps.Neat P base first)
    (hm : Peg.Neat P base first empty labels m) (hplaced : m.Placed text ps.cursor)
    (capture : Capture) {field : Option String}
    (hfresh : ∀ key ∈ field.elim labels ([·]), key ∉ ps.fields.keys) :
    (ps.push field capture m).Neat P base (first && empty) ∧
      (ps.push field capture m).fields.keys ⊆ ps.fields.keys ++ field.elim labels ([·]) := by
  obtain ⟨hlabels, hnodup⟩ := hm.added_labels capture field
  have hentries := Parts.push_entries hnodup fun key hkey => hfresh key (hlabels hkey)
  have hkeys : (ps.push field capture m).fields.keys =
      ps.fields.keys ++ (m.added capture field).map (·.1) := by
    rw [Fields.keys, hentries, List.map_append]
    rfl
  have hlaid := hm.added_laid hplaced.forward capture field
  have hbehind := hplaced.behind
  have happend : ∀ {a b c : Nat}, Value.EntriesLaid P ps.fields.entries a b →
      Value.EntriesLaid P (m.added capture field) b c →
      Value.EntriesLaid P (ps.push field capture m).fields.entries a c := by
    intro a b c hps hadded
    rw [hentries, Value.entriesLaid_iff, List.map_append, Value.allLaid_append]
    exact ⟨b, Value.entriesLaid_iff.1 hps, Value.entriesLaid_iff.1 hadded⟩
  refine ⟨⟨fun hstart => ?_, fun s hs => ?_, fun hstart => ?_, ?_⟩, ?_⟩
  · rw [Parts.push_start] at hstart
    split at hstart
    · cases hstart
    · rename_i hunconsumed
      simp only [hstart, Option.isNone_none, Bool.true_and, Bool.not_eq_true] at hunconsumed
      exact fun a => happend (h.bare hstart a)
        (hm.added_bare (h.first hstart) hunconsumed capture field a)
  · rw [Parts.push_start] at hs
    rw [Parts.push_cursor]
    split at hs
    · rename_i hconsumed
      obtain rfl := Option.some.inj hs
      simp only [Bool.and_eq_true, Option.isNone_iff_eq_none, Matched.consumed,
        decide_eq_true_eq] at hconsumed
      exact ⟨hconsumed.2, happend (h.bare hconsumed.1 _) hlaid⟩
    · obtain ⟨hlt, hps⟩ := h.laid s hs
      refine ⟨hlt.trans_le (hbehind.trans hplaced.forward),
        happend (hps.mono (Nat.le_refl _) ?_) hlaid⟩
      exact Nat.add_le_add_left hbehind base
  · rw [Parts.push_start] at hstart
    split at hstart
    · cases hstart
    · rename_i hunconsumed
      simp only [hstart, Option.isNone_none, Bool.true_and, Bool.not_eq_true] at hunconsumed
      rw [h.first hstart, hm.empty hunconsumed]
      rfl
  · rw [hkeys]
    refine List.nodup_append.2 ⟨h.nodup, hnodup, ?_⟩
    rintro key hkey _ hadded rfl
    exact hfresh key (hlabels hadded) hkey
  · rw [hkeys]
    exact List.append_subset.2 ⟨List.subset_append_left .., fun key hkey =>
      List.mem_append_right _ (hlabels hkey)⟩

theorem Parts.Neat.finish {ps : Parts} (h : ps.Neat P base first)
    (hlabels : ps.fields.keys ⊆ labels)
    (hempty : ps.start = none → empty = true) {first' : Bool} :
    Peg.Neat P base first' empty labels (ps.finish text) := by
  have hunconsumed : (ps.finish text).consumed = false → ps.start = none := by
    intro hm
    cases hs : ps.start with
    | none => rfl
    | some s =>
      have hlt := (h.laid s hs).1
      simp only [Matched.consumed, Parts.finish, hs, Option.getD_some,
        decide_eq_false_iff_not] at hm
      exact absurd hlt hm
  have hle : ps.start.getD ps.cursor ≤ ps.cursor := by
    cases hs : ps.start with
    | none => exact Nat.le_refl _
    | some s => exact (h.laid s hs).1.le
  cases hfields : ps.hasFields with
  | false =>
    refine Neat.of_leaf ?_ hle fun hm => hempty (hunconsumed hm)
    simp only [Parts.finish, hfields]
    trivial
  | true =>
    have hvalue : (ps.finish text).value = .record ps.fields := by
      simp only [Parts.finish, hfields, if_true]
    refine ⟨?_, fun hm => hempty (hunconsumed hm), fun _ hm a => ?_, fun fs hfs => ?_⟩
    · rw [hvalue]
      cases hs : ps.start with
      | none =>
        simp only [Parts.finish, hs, Option.getD_none]
        exact h.bare hs _
      | some s =>
        simp only [Parts.finish, hs, Option.getD_some]
        exact (h.laid s hs).2
    · rw [hvalue]
      exact h.bare (hunconsumed hm) a
    · rw [hvalue] at hfs
      obtain rfl := Value.record.inj hfs
      exact ⟨hlabels, h.nodup⟩

theorem Rounds.finish_some {rs : Rounds} {offset least : Nat}
    (h : rs.finish offset least = some m) : ∃ kept : List Value, kept.Sublist rs.items ∧
      least ≤ kept.length ∧
      m = ⟨rs.start.getD offset, rs.cursor, .list kept.reverse⟩ := by
  simp only [Rounds.finish, Option.ite_none_left_eq_some] at h
  obtain ⟨hleast, hm⟩ := h
  refine ⟨_, ?_, Nat.not_lt.1 hleast, (Option.some.inj hm).symm⟩
  split
  · split
    · exact List.nil_sublist _
    · exact List.Sublist.refl _
  · exact List.Sublist.refl _

/-- One more item keeps a repetition neat. -/
theorem Rounds.Neat.push {rs : Rounds} (h : rs.Neat P base empty) {next : Nat}
    (hnext : rs.cursor ≤ next) (hm : Peg.Neat P base true empty labels m)
    (hplaced : m.Placed text next) : (rs.pushed m).Neat P base empty := by
  have hbehind := hnext.trans hplaced.behind
  have hstart : (rs.pushed m).start =
      if rs.start.isNone && m.consumed then some m.start else rs.start := rfl
  have hitems : (rs.pushed m).items = m.value :: rs.items := rfl
  have hcursor : (rs.pushed m).cursor = m.stop := rfl
  have happend : ∀ {a b c : Nat}, Value.AllLaid P rs.items.reverse a b → m.value.Laid P b c →
      Value.AllLaid P (rs.pushed m).items.reverse a c := by
    intro a b c hrs hvalue
    rw [hitems, List.reverse_cons, Value.allLaid_append]
    exact ⟨b, hrs, Value.allLaid_singleton.2 hvalue⟩
  have hnothing : (rs.pushed m).start = none → rs.start = none ∧ m.consumed = false := by
    intro hnone
    rw [hstart] at hnone
    split at hnone
    · cases hnone
    · rename_i hunconsumed
      simp only [hnone, Option.isNone_none, Bool.true_and, Bool.not_eq_true] at hunconsumed
      exact ⟨hnone, hunconsumed⟩
  refine ⟨fun hnone => ?_, fun s hs => ?_, fun hnone _ => hm.empty (hnothing hnone).2⟩
  · obtain ⟨hrs, hunconsumed⟩ := hnothing hnone
    rw [hitems]
    exact List.forall_mem_cons.2 ⟨hm.bare rfl hunconsumed, h.bare hrs⟩
  · rw [hstart] at hs
    rw [hcursor]
    split at hs
    · rename_i hconsumed
      obtain rfl := Option.some.inj hs
      simp only [Bool.and_eq_true, Option.isNone_iff_eq_none, Matched.consumed,
        decide_eq_true_eq] at hconsumed
      have hbare : ∀ v ∈ rs.items.reverse, v.Bare P := by
        simpa using h.bare hconsumed.1
      exact ⟨hconsumed.2, happend (Value.allLaid_bare hbare) hm.laid⟩
    · obtain ⟨hlt, hrs⟩ := h.laid s hs
      refine ⟨hlt.trans_le (hbehind.trans hplaced.forward),
        happend (hrs.mono (Nat.le_refl _) ?_) hm.laid⟩
      exact Nat.add_le_add_left hbehind base

section Rounds

variable {item : Nat → Matched → Prop} {separator : Option (Nat → Matched → Prop)} {offset : Nat}
  (hitem : ∀ o m, text.Boundary o → item o m →
    m.Placed text o ∧ Peg.Neat P base true empty labels m)
  (hseparator : ∀ p ∈ separator, ∀ o m, text.Boundary o → p o m → m.Placed text o)

include hitem hseparator

theorem Rounds.Grown.neat {rs : Rounds} (h : rs.Grown item separator offset)
    (hb : text.Boundary offset) : rs.Neat P base empty := by
  induction h with
  | start => exact ⟨fun _ => by simp [Rounds.startingAt], nofun, fun _ h => absurd rfl h⟩
  | @more rs next m hgrown hnext hm _ ih =>
    have hrun := hgrown.run (fun o m hb hm => (hitem o m hb hm).1) hseparator hb
    obtain ⟨hle, hnextb⟩ := hnext.placed hseparator hrun.here
    obtain ⟨hplaced, hneat⟩ := hitem _ _ hnextb hm
    exact ih.push hle hneat hplaced

theorem matchesRounds_neat {least : Nat} (hb : text.Boundary offset)
    (h : MatchesRounds item separator least offset m) {first' : Bool} :
    Peg.Neat P base first' (least == 0 || empty) [] m := by
  have hplaced := matchesRounds_placed (fun o m hb hm => (hitem o m hb hm).1) hseparator hb h
  obtain ⟨rs, stop, hgrown, hstop, hm⟩ := h
  have hneat := hgrown.neat hitem hseparator hb
  have hrun := hgrown.run (fun o m hb hm => (hitem o m hb hm).1) hseparator hb
  have hle : rs.cursor ≤ stop := by
    obtain rfl | ⟨hlt, -⟩ := hstop
    · exact Nat.le_refl _
    · exact hlt.le
  obtain ⟨kept, hsub, hleast, rfl⟩ := Rounds.finish_some hm
  have hunconsumed : Matched.consumed ⟨rs.start.getD offset, stop, .list kept.reverse⟩ = false →
      rs.start = none := by
    intro hm
    cases hs : rs.start with
    | none => rfl
    | some s =>
      have hlt := (hneat.laid s hs).1
      simp only [Matched.consumed, hs, Option.getD_some, decide_eq_false_iff_not] at hm
      omega
  have hbare : rs.start = none → (Value.list kept.reverse).Bare P := by
    intro hs a
    refine Value.laid_list.2 (Value.allLaid_bare fun v hv => hneat.bare hs v ?_)
    exact hsub.subset (List.mem_reverse.1 hv)
  refine ⟨?_, fun hm => ?_, fun _ hm => hbare (hunconsumed hm), fun _ hrecord => by cases hrecord⟩
  · cases hs : rs.start with
    | none =>
      have hforward := hplaced.forward
      simp only [hs] at hforward
      exact (hbare hs).laid (Nat.add_le_add_left hforward base)
    | some s =>
      have hlaid := (hneat.laid s hs).2.mono (Nat.le_refl _) (Nat.add_le_add_left hle base)
      exact Value.laid_list.2 (hlaid.sublist hsub.reverse)
  · rw [Bool.or_eq_true, beq_iff_eq]
    by_cases hzero : least = 0
    · exact .inl hzero
    · refine .inr (hneat.empty (hunconsumed hm) fun hnil => ?_)
      rw [hnil, List.sublist_nil] at hsub
      rw [hsub, List.length_nil] at hleast
      omega

end Rounds

end Neat

section Matches

variable {P : Node → Nat → Nat → Prop} {base : Nat} {nullable holders : List String}
  {skipped : Option Lexeme} {text : Text} {calls : Calls}

/-- A sequence that takes nothing begins with a component that takes nothing. -/
theorem first_unconsumed
    (hplaced : calls.Placed text)
    {field : Option String} {capture : Capture} {p : PatternDef} {rest : List ComponentDef}
    (honest : ∀ sc ∈ Pattern.componentScanners (⟨field, capture, p⟩ :: rest), sc.Honest)
    {trivia : Bool} {offset : Nat} {m : Matched} (hb : text.Boundary offset)
    (h : Matches skipped text calls (.sequence (⟨field, capture, p⟩ :: rest)) trivia offset m)
    (hunconsumed : m.consumed = false) :
    ∃ first ps, Matches skipped text calls p trivia offset first ∧ first.consumed = false ∧
      MatchesParts skipped text calls rest trivia
        ((Parts.startingAt offset).push field capture first) ps ∧ m = ps.finish text := by
  obtain ⟨ps, ⟨first, hfirst, hrest⟩, rfl⟩ := h
  obtain ⟨honest, honest'⟩ := List.forall_mem_append.1 honest
  refine ⟨first, ps, hfirst, ?_, hrest, rfl⟩
  by_contra hconsumed
  rw [Bool.not_eq_false] at hconsumed
  have hfirst := matches_placed hplaced p honest trivia offset first hb hfirst
  have hstart : ps.start = some first.start := by
    refine matchesParts_start rest ?_ hrest
    simp only [Parts.push_start, Parts.startingAt, Option.isNone_none, hconsumed, Bool.and_self,
      if_true]
  have hcursor : text.Boundary ((Parts.startingAt offset).push field capture first).cursor := by
    rw [Parts.push_cursor]
    exact hfirst.stop
  obtain ⟨hle, -⟩ := Check.parts_onward hplaced rest honest' hcursor hrest
  rw [Parts.push_cursor] at hle
  have hlt := of_decide_eq_true hconsumed
  have hshort := of_decide_eq_false hunconsumed
  simp only [Parts.finish, hstart, Option.getD_some] at hshort
  omega

/-- The matches of rules lie where they begin and are laid out neatly. -/
def LaidOut (P : Node → Nat → Nat → Prop) (base : Nat) (nullable holders : List String)
    (text : Text) (calls : Calls) : Prop :=
  ∀ r trivia offset m, calls r trivia offset m → m.Placed text offset ∧
    Neat P base (!holders.contains r) (nullable.contains r) [] m

mutual

/-- The captures of an orderly pattern are laid out over its match. -/
theorem matches_neat (hcalls : LaidOut P base nullable holders text calls) :
    (p : PatternDef) → (∀ t ∈ p.terminals, t.Grasps) →
    (∀ sc ∈ p.scanners, (sc.Honest ∧ sc.Evenly) ∧ sc.Plain) → ∀ {first : Bool},
    p.orderly nullable holders first = true → ∀ {trivia offset m}, text.Boundary offset →
    Matches skipped text calls p trivia offset m →
    Neat P base first (p.vacant nullable) p.labels m
  | .terminal t, ht, hsc, first, _, trivia, offset, m, hb, h => by
    obtain ⟨s, hs⟩ := matches_text h
    obtain ⟨l, start, hl, hread, hlead, hm⟩ := h
    obtain ⟨-, cs, hcs⟩ := hlead.placed hb
    obtain ⟨hstart, front, rest, -, hstop⟩ := l.found_takes hcs hm
    refine .of_leaf (hs ▸ trivial) (by omega) fun hunconsumed => ?_
    have hconsumed := l.found_consumed (hl ▸ ht t (List.mem_singleton_self t)) hread hcs hm
    rw [hunconsumed] at hconsumed
    cases hconsumed
  | .scan sc, ht, hsc, first, _, trivia, offset, m, hb, h => by
    obtain ⟨start, hlead, hm⟩ := h
    have hleaf : m.value.IsLeaf := by
      obtain ⟨r, hr, rfl⟩ := Option.map_eq_some_iff.1 hm
      obtain ⟨cs, -, hr⟩ := Option.bind_eq_some_iff.1 hr
      exact (hsc sc (List.mem_singleton_self sc)).2 cs r.1 r.2 hr
    obtain ⟨-, cs, hcs⟩ := hlead.placed hb
    obtain ⟨hstart, front, rest, -, hstop⟩ :=
      sc.found_takes (hsc sc (List.mem_singleton_self sc)).1.1 hcs hm
    exact .of_leaf hleaf (by omega) fun hunconsumed =>
      sc.found_unconsumed (hsc sc (List.mem_singleton_self sc)).1.2 hm hunconsumed
  | .endOfInput, _, _, first, _, trivia, offset, m, hb, h => by
    obtain ⟨start, hlead, hm⟩ := h
    rw [endFound, Option.ite_none_right_eq_some] at hm
    obtain rfl := Option.some.inj hm.2
    exact .of_leaf trivial (Nat.le_refl _) fun _ => rfl
  | .rule r, _, _, first, horderly, trivia, offset, m, hb, h => by
    simp only [Pattern.orderly, ruleName, Bool.not_eq_true', Bool.and_eq_false_iff] at horderly
    refine (hcalls r trivia offset m h).2.imp (fun hfirst => ?_) id (List.Subset.refl _)
    simpa [hfirst] using horderly
  | .sequence cs, ht, hsc, first, horderly, trivia, offset, m, hb, h => by
    obtain ⟨ps, hps, rfl⟩ := h
    simp only [Pattern.orderly, Bool.and_eq_true, decide_eq_true_eq] at horderly
    obtain ⟨hnodup, horderly⟩ := horderly
    have hstart : (Parts.startingAt offset).Neat P base true :=
      ⟨fun _ a => Nat.le_refl a, nofun, fun _ => rfl, List.nodup_nil⟩
    obtain ⟨⟨_, hneat⟩, hlabels, hempty⟩ :=
      matchesParts_neat hcalls cs ht hsc horderly hnodup hb hstart
        (by simp [Parts.startingAt, Fields.empty, Fields.keys]) hps
    exact hneat.finish hlabels hempty
  | .choice ps, ht, hsc, first, horderly, trivia, offset, m, hb, h =>
    matchesOne_neat hcalls ps ht hsc horderly hb h
  | .repetition item none _ _, ht, hsc, first, horderly, trivia, offset, m, hb, h =>
    matchesRounds_neat (fun o m hb hm => ⟨matches_placed (fun r t o m _ hm => (hcalls r t o m hm).1)
      item (fun sc h => (hsc sc h).1.1) trivia o m hb hm,
      matches_neat hcalls item ht hsc horderly hb hm⟩)
      (by simp) hb h
  | .repetition item (some separator) _ _, ht, hsc, first, horderly, trivia, offset, m, hb, h => by
    obtain ⟨ht, -⟩ := List.forall_mem_append.1 ht
    obtain ⟨hsc, hsc'⟩ := List.forall_mem_append.1 hsc
    have hplaced : ∀ p : PatternDef, (∀ sc ∈ p.scanners, sc.Honest) → ∀ o m, text.Boundary o →
        Matches skipped text calls p trivia o m → m.Placed text o :=
      fun p honest => matches_placed (fun r t o m _ hm => (hcalls r t o m hm).1) p honest trivia
    refine matchesRounds_neat (fun o m hb hm =>
      ⟨hplaced item (fun sc h => (hsc sc h).1.1) o m hb hm,
      matches_neat hcalls item ht hsc horderly hb hm⟩) ?_ hb h
    rintro p ⟨⟩
    exact hplaced separator fun sc h => (hsc' sc h).1.1
  | .optional p, ht, hsc, first, horderly, trivia, offset, m, hb, h => by
    obtain h | rfl := h
    · exact (matches_neat hcalls p ht hsc horderly hb h).imp id (fun _ => rfl) (List.Subset.refl _)
    · exact .of_leaf trivial (Nat.le_refl _) fun _ => rfl
  | .ahead _ p, _, _, first, _, trivia, offset, m, hb, h => by
    obtain ⟨-, rfl⟩ := h
    exact .of_leaf trivial (Nat.le_refl _) fun _ => rfl
  | .trivia _ p, ht, hsc, first, horderly, trivia, offset, m, hb, h =>
    matches_neat hcalls p ht hsc horderly hb h
  | .silent p, ht, hsc, first, horderly, trivia, offset, m, hb, h => by
    obtain ⟨m', hm', rfl⟩ := h
    have hplaced := matches_placed (fun r t o m _ hm => (hcalls r t o m hm).1) p
      (fun sc h => (hsc sc h).1.1) trivia offset m' hb hm'
    exact .of_leaf trivial hplaced.forward (matches_neat hcalls p ht hsc horderly hb hm').empty

theorem matchesParts_neat (hcalls : LaidOut P base nullable holders text calls) :
    (cs : List ComponentDef) →
    (∀ t ∈ Pattern.componentTerminals cs, t.Grasps) →
    (∀ sc ∈ Pattern.componentScanners cs, (sc.Honest ∧ sc.Evenly) ∧ sc.Plain) → ∀ {first : Bool},
    Pattern.componentsOrderly nullable holders first cs = true →
    (Pattern.componentLabels cs).Nodup → ∀ {trivia} {ps ps' : Parts}, text.Boundary ps.cursor →
    ps.Neat P base first → (∀ key ∈ Pattern.componentLabels cs, key ∉ ps.fields.keys) →
    MatchesParts skipped text calls cs trivia ps ps' →
    (∃ first', ps'.Neat P base first') ∧
      ps'.fields.keys ⊆ ps.fields.keys ++ Pattern.componentLabels cs ∧
      (ps'.start = none → Pattern.allVacant nullable cs = true)
  | [], _, _, first, _, _, trivia, ps, ps', _, hneat, _, h => by
    obtain rfl := h
    exact ⟨⟨first, hneat⟩, List.subset_append_left .., fun _ => rfl⟩
  | ⟨field, capture, p⟩ :: rest, ht, hsc, first, horderly, hnodup, trivia, ps, ps', hb, hneat,
      hfresh, h => by
    obtain ⟨ht, ht'⟩ := List.forall_mem_append.1 ht
    obtain ⟨hsc, hsc'⟩ := List.forall_mem_append.1 hsc
    simp only [Pattern.componentsOrderly, Bool.and_eq_true] at horderly
    have hlabels : Pattern.componentLabels (⟨field, capture, p⟩ :: rest) =
        field.elim p.labels ([·]) ++ Pattern.componentLabels rest := by
      cases field <;> rfl
    rw [hlabels] at hnodup hfresh ⊢
    obtain ⟨-, hnodup', hdisjoint⟩ := List.nodup_append.1 hnodup
    obtain ⟨hfresh, hfresh'⟩ := List.forall_mem_append.1 hfresh
    obtain ⟨m, hm, h⟩ := h
    have hplaced := matches_placed (fun r t o m _ hm => (hcalls r t o m hm).1) p
      (fun sc h => (hsc sc h).1.1) trivia _ m hb hm
    have hmneat := matches_neat hcalls p ht hsc horderly.1 hb hm
    obtain ⟨hpushed, hkeys⟩ := hneat.push hmneat hplaced capture hfresh
    have hpushedb : text.Boundary (ps.push field capture m).cursor := by
      rw [Parts.push_cursor]
      exact hplaced.stop
    obtain ⟨hneat', hkeys', hempty⟩ := matchesParts_neat hcalls rest ht' hsc' horderly.2
      hnodup' hpushedb hpushed (fun key hkey hmem => by
        obtain hmem | hmem := List.mem_append.1 (hkeys hmem)
        · exact hfresh' key hkey hmem
        · exact hdisjoint key hmem key hkey rfl) h
    refine ⟨hneat', fun key hkey => ?_, fun hstart => ?_⟩
    · obtain hkey | hkey := List.mem_append.1 (hkeys' hkey)
      · obtain hkey | hkey := List.mem_append.1 (hkeys hkey)
        · exact List.mem_append_left _ hkey
        · exact List.mem_append_right _ (List.mem_append_left _ hkey)
      · exact List.mem_append_right _ (List.mem_append_right _ hkey)
    · have hnone : (ps.push field capture m).start = none := by
        cases hs : (ps.push field capture m).start with
        | none => rfl
        | some s =>
          have hkept := matchesParts_start rest hs h
          rw [hstart] at hkept
          cases hkept
      have hunconsumed : m.consumed = false := by
        rw [Parts.push_start] at hnone
        split at hnone
        · cases hnone
        · rename_i hunconsumed
          simpa only [hnone, Option.isNone_none, Bool.true_and, Bool.not_eq_true] using hunconsumed
      show (p.vacant nullable && Pattern.allVacant nullable rest) = true
      rw [hmneat.empty hunconsumed, hempty hstart]
      rfl

theorem matchesOne_neat (hcalls : LaidOut P base nullable holders text calls) :
    (ps : List PatternDef) → (∀ t ∈ Pattern.allTerminals ps, t.Grasps) →
    (∀ sc ∈ Pattern.allScanners ps, (sc.Honest ∧ sc.Evenly) ∧ sc.Plain) → ∀ {first : Bool},
    Pattern.allOrderly nullable holders first ps = true → ∀ {trivia offset m},
    text.Boundary offset → MatchesOne skipped text calls ps trivia offset m →
    Neat P base first (Pattern.anyVacant nullable ps) (Pattern.anyLabels ps) m
  | [], _, _, _, _, _, _, _, _, h => h.elim
  | p :: rest, ht, hsc, first, horderly, trivia, offset, m, hb, h => by
    obtain ⟨ht, ht'⟩ := List.forall_mem_append.1 ht
    obtain ⟨hsc, hsc'⟩ := List.forall_mem_append.1 hsc
    simp only [Pattern.allOrderly, Bool.and_eq_true] at horderly
    have hunion : ∀ {key : String}, key ∈ Pattern.anyLabels (p :: rest) ↔
        key ∈ p.labels ∨ key ∈ Pattern.anyLabels rest := List.mem_union_iff
    obtain h | h := h
    · refine (matches_neat hcalls p ht hsc horderly.1 hb h).imp id (fun hp => ?_) fun key hkey =>
        hunion.2 (.inl hkey)
      exact Bool.or_eq_true_iff.2 (.inl hp)
    · refine (matchesOne_neat hcalls rest ht' hsc' horderly.2 hb h).imp id (fun hrest => ?_)
        fun key hkey => hunion.2 (.inr hkey)
      exact Bool.or_eq_true_iff.2 (.inr hrest)

end

end Matches

end Peg

end PhpSyntax
