import Mathlib.Data.List.DropRight
import PhpSyntax.Proofs.Tree.Merging
import PhpSyntax.Tree.Value

namespace PhpSyntax.Fields

variable {α : Type} {fs : Fields α} {key other : String} {v : α}

section Lookup

theorem get?_isSome : (fs.get? key).isSome = true ↔ key ∈ fs.keys :=
  fs.contains_iff

theorem get?_eq_none : fs.get? key = none ↔ key ∉ fs.keys := by
  rw [← get?_isSome, Bool.not_eq_true, Option.isSome_eq_false_iff, Option.isNone_iff_eq_none]

theorem lookup_assign_self {es : List (String × α)} (h : key ∈ es.map (·.1)) :
    (assign key v es).lookup key = some v := by
  induction es with
  | nil => cases h
  | cons e es ih =>
    obtain ⟨k, a⟩ := e
    by_cases hk : key = k
    · simp [assign, hk]
    · have hes : key ∈ es.map (·.1) := by simpa [hk] using h
      have hbeq : (key == k) = false := beq_false_of_ne hk
      simp [assign, List.lookup_cons, hbeq, ih hes]

theorem assign_of_notMem {es : List (String × α)} (h : key ∉ es.map (·.1)) :
    assign key v es = es := by
  induction es with
  | nil => rfl
  | cons e es ih =>
    obtain ⟨k, a⟩ := e
    simp only [List.map_cons, List.mem_cons, not_or] at h
    obtain ⟨hk, hes⟩ := h
    simp [assign, hk, ih hes]

theorem get?_update_self (h : key ∈ fs.keys) : (fs.update key v).get? key = some v :=
  lookup_assign_self h

theorem get?_update_of_ne (hne : key ≠ other) : (fs.update other v).get? key = fs.get? key :=
  lookup_assign v hne fs.entries

theorem update_of_notMem (h : key ∉ fs.keys) : fs.update key v = fs :=
  congrArg mk (assign_of_notMem h)

theorem get?_insert_self : (fs.insert key v).get? key = some v := by
  by_cases h : key ∈ fs.keys
  · rw [insert_of_mem fs v h, get?_update_self h]
  · have hnone := get?_eq_none.2 h
    rw [get?] at hnone
    rw [insert_of_notMem fs v h, get?, List.lookup_append, hnone]
    simp

/-- Of entries that are inserted, the values prevail. -/
theorem get?_insertAll_of_nodup {es : List (String × α)} (hnodup : (es.map (·.1)).Nodup)
    (key : String) : (fs.insertAll es).get? key = (es.lookup key).or (fs.get? key) := by
  induction es generalizing fs with
  | nil => rfl
  | cons e es ih =>
    obtain ⟨k, a⟩ := e
    rw [List.map_cons, List.nodup_cons] at hnodup
    have hrest : (fs.insertAll ((k, a) :: es)).get? key =
        (es.lookup key).or ((fs.insert k a).get? key) := ih hnodup.2
    by_cases hkey : key = k
    · subst hkey
      have hnone : (Fields.mk es).get? key = none := get?_eq_none.2 hnodup.1
      rw [get?] at hnone
      rw [hrest, hnone, get?_insert_self, List.lookup_cons_self]
      rfl
    · rw [hrest, get?_insert_of_ne fs a hkey, List.lookup_cons, beq_false_of_ne hkey]

/-- Of entries that are inserted, the new ones come last. -/
theorem insertAll_keys_of_nodup {es : List (String × α)} (hnodup : (es.map (·.1)).Nodup) :
    (fs.insertAll es).keys = fs.keys ++ (es.map (·.1)).filter (· ∉ fs.keys) := by
  induction es generalizing fs with
  | nil => exact (List.append_nil _).symm
  | cons e es ih =>
    obtain ⟨k, a⟩ := e
    rw [List.map_cons, List.nodup_cons] at hnodup
    have hrest : (fs.insertAll ((k, a) :: es)).keys = (fs.insert k a).keys ++
        (es.map (·.1)).filter (· ∉ (fs.insert k a).keys) := ih hnodup.2
    by_cases hk : k ∈ fs.keys
    · rw [hrest, insert_keys, if_pos hk, List.map_cons, List.filter_cons_of_neg (by simpa using hk)]
    · have hsame : (es.map (·.1)).filter (· ∉ fs.keys ++ [k]) =
          (es.map (·.1)).filter (· ∉ fs.keys) := by
        refine List.filter_congr fun l hl => ?_
        have hne : l ≠ k := fun h => hnodup.1 (h ▸ hl)
        simp [hne]
      rw [hrest, insert_keys, if_neg hk, hsame, List.map_cons,
        List.filter_cons_of_pos (by simpa using hk), List.append_assoc]
      rfl

theorem remove_keys (es : List (String × α)) :
    (remove key es).map (·.1) = (es.map (·.1)).erase key := by
  induction es with
  | nil => rfl
  | cons e es ih =>
    obtain ⟨k, a⟩ := e
    by_cases hk : key = k
    · simp [remove, hk]
    · have hk' : k ≠ key := fun h => hk h.symm
      simp [remove, hk, hk', ih]

@[simp]
theorem erase_keys : (fs.erase key).keys = fs.keys.erase key :=
  remove_keys fs.entries

theorem lookup_remove (hne : key ≠ other) (es : List (String × α)) :
    (remove other es).lookup key = es.lookup key := by
  induction es with
  | nil => rfl
  | cons e es ih =>
    obtain ⟨k, a⟩ := e
    by_cases hk : other = k
    · subst hk
      simp [remove, List.lookup_cons, beq_false_of_ne hne]
    · simp only [remove, beq_iff_eq, hk, if_false, List.lookup_cons, ih]

theorem get?_erase_of_ne (hne : key ≠ other) : (fs.erase other).get? key = fs.get? key :=
  lookup_remove hne fs.entries

theorem remove_of_notMem {es : List (String × α)} (h : key ∉ es.map (·.1)) :
    remove key es = es := by
  induction es with
  | nil => rfl
  | cons e es ih =>
    obtain ⟨k, a⟩ := e
    simp only [List.map_cons, List.mem_cons, not_or] at h
    obtain ⟨hk, hes⟩ := h
    simp [remove, hk, ih hes]

theorem erase_of_notMem (h : key ∉ fs.keys) : fs.erase key = fs :=
  congrArg mk (remove_of_notMem h)

end Lookup

/-- What is done to one field, or to all of them. -/
inductive Step (α : Type) where
  | insert (key : String) (value : α)
  /-- Gives a field a value if it is there. -/
  | assign (key : String) (value : α)
  | take (key : String)
  /-- Starts over without any fields. -/
  | clear

namespace Step

def apply (fs : Fields α) : Step α → Fields α
  | insert key value => fs.insert key value
  | assign key value => fs.update key value
  | take key => fs.erase key
  | clear => .empty

def inserts (key : String) : Step α → Bool
  | insert k _ => k = key
  | _ => false

/-- Whether a field is gone after a step, be it there before or not. -/
def removes (key : String) : Step α → Bool
  | take k => k = key
  | clear => true
  | _ => false

def value? (key : String) : Step α → Option α
  | insert k v | assign k v => if k = key then some v else none
  | _ => none

end Step

section History

variable {history : List (Step α)} {s : Step α}

def sinceTaken (key : String) (history : List (Step α)) : List (Step α) :=
  history.rtakeWhile fun s => !s.removes key

/-- What was done since a field was first inserted, from the time on that it was last taken; nothing
if it was not inserted since. -/
def life (key : String) (history : List (Step α)) : List (Step α) :=
  (sinceTaken key history).dropWhile fun s => !s.inserts key

/-- The value that was last written to a field. An assignment to a field that is not there writes
nothing. -/
def lastWritten (key : String) (history : List (Step α)) : Option α :=
  ((life key history).filterMap (Step.value? key)).getLast?

theorem life_removed (h : s.removes key = true) : life key (history ++ [s]) = [] := by
  rw [life, sinceTaken, List.rtakeWhile_concat_neg _ _ _ (by simp [h]), List.dropWhile_nil]

theorem life_kept (h : s.removes key = false) (halive : life key history ≠ []) :
    life key (history ++ [s]) = life key history ++ [s] := by
  rw [life] at halive
  rw [life, sinceTaken, List.rtakeWhile_concat_pos _ _ _ (by simp [h]), List.dropWhile_append,
    if_neg (by simpa [sinceTaken] using halive)]
  rfl

theorem life_begins (h : s.removes key = false) (hdead : life key history = []) :
    life key (history ++ [s]) = if s.inserts key then [s] else [] := by
  rw [life] at hdead
  rw [life, sinceTaken, List.rtakeWhile_concat_pos _ _ _ (by simp [h]), List.dropWhile_append,
    if_pos (by simpa [sinceTaken] using hdead)]
  cases hs : s.inserts key <;> simp [hs]

theorem Step.value?_of_inserts (h : s.inserts key = true) : (s.value? key).isSome = true := by
  cases s <;> simp_all [Step.inserts, Step.value?]

/-- The life of a field begins with a value. -/
theorem lastWritten_isSome :
    (lastWritten key history).isSome = true ↔ life key history ≠ [] := by
  constructor
  · intro hsome hlife
    simp [lastWritten, hlife] at hsome
  · intro hlife
    have hfirst : ((life key history).head hlife).inserts key = true := by
      have hhead := List.head_dropWhile_not (fun s => !Step.inserts key s) hlife
      rw [Bool.not_eq_false'] at hhead
      exact hhead
    obtain ⟨v, hv⟩ := Option.isSome_iff_exists.1 (Step.value?_of_inserts hfirst)
    have hmem : v ∈ (life key history).filterMap (Step.value? key) :=
      List.mem_filterMap.2 ⟨_, List.head_mem hlife, hv⟩
    rw [lastWritten, List.getLast?_isSome]
    exact List.ne_nil_of_mem hmem

theorem lastWritten_dead (h : life key history = []) : lastWritten key history = none := by
  simp [lastWritten, h]

theorem lastWritten_kept (h : s.removes key = false) (halive : life key history ≠ []) :
    lastWritten key (history ++ [s]) = (s.value? key).or (lastWritten key history) := by
  rw [lastWritten, life_kept h halive, List.filterMap_append, List.getLast?_append]
  cases hv : s.value? key <;> simp [hv, lastWritten]

theorem lastWritten_inserted (h : s.removes key = false) (hs : s.inserts key = true) :
    lastWritten key (history ++ [s]) = s.value? key := by
  obtain ⟨v, hv⟩ := Option.isSome_iff_exists.1 (Step.value?_of_inserts hs)
  by_cases hlife : life key history = []
  · rw [lastWritten, life_begins h hlife, if_pos hs]
    simp [hv]
  · rw [lastWritten_kept h hlife, hv]
    rfl

theorem lastWritten_idle (h : s.removes key = false) (hs : s.value? key = none) :
    lastWritten key (history ++ [s]) = lastWritten key history := by
  have hinserts : s.inserts key = false := by
    by_contra hinserts
    have hsome := Step.value?_of_inserts (Bool.not_eq_false _ ▸ hinserts)
    simp [hs] at hsome
  by_cases hlife : life key history = []
  · have hdead : life key (history ++ [s]) = [] := by
      simpa [hinserts] using life_begins h hlife
    rw [lastWritten_dead hdead, lastWritten_dead hlife]
  · rw [lastWritten_kept h hlife, hs, Option.none_or]

/-- Whether a field was first inserted before another. -/
def Older (history : List (Step α)) (a b : String) : Prop :=
  (life b history).length < (life a history).length

theorem older_kept {keys : List String}
    (hkeys : ∀ key ∈ keys, s.removes key = false ∧ life key history ≠ [])
    (h : keys.Pairwise (Older history)) : keys.Pairwise (Older (history ++ [s])) := by
  refine h.imp_of_mem fun {a b} ha hb hab => ?_
  rw [Older, life_kept (hkeys a ha).1 (hkeys a ha).2, life_kept (hkeys b hb).1 (hkeys b hb).2,
    List.length_append, List.length_append]
  exact Nat.add_lt_add_right hab _

/-- Fields hold what their history tells. -/
structure Reflects (fs : Fields α) (history : List (Step α)) : Prop where
  values : ∀ key, fs.get? key = lastWritten key history
  order : fs.keys.Pairwise (Older history)

namespace Reflects

theorem distinct (h : fs.Reflects history) : fs.keys.Nodup :=
  h.order.imp fun {a b} hab heq => by
    subst heq
    exact Nat.lt_irrefl _ hab

theorem present (h : fs.Reflects history) : key ∈ fs.keys ↔ life key history ≠ [] := by
  rw [← get?_isSome, h.values, lastWritten_isSome]

theorem absent (h : fs.Reflects history) (hkey : key ∉ fs.keys) : life key history = [] := by
  by_contra halive
  exact hkey (h.present.2 halive)

theorem insert (h : fs.Reflects history) (key : String) (v : α) :
    (fs.insert key v).Reflects (history ++ [.insert key v]) := by
  constructor
  · intro other
    by_cases hother : other = key
    · subst hother
      rw [get?_insert_self, lastWritten_inserted rfl (by simp [Step.inserts])]
      simp [Step.value?]
    · have hidle : (Step.insert key v).value? other = none := by
        simp [Step.value?, Ne.symm hother]
      rw [get?_insert_of_ne fs v hother, h.values, lastWritten_idle rfl hidle]
  · have hkept : fs.keys.Pairwise (Older (history ++ [.insert key v])) :=
      older_kept (fun other hother => ⟨rfl, h.present.1 hother⟩) h.order
    rw [insert_keys]
    split
    · exact hkept
    · rename_i hnew
      refine List.pairwise_append.2 ⟨hkept, List.pairwise_singleton _ _, ?_⟩
      intro other hother k hk
      obtain rfl := List.mem_singleton.1 hk
      have halive := h.present.1 hother
      rw [Older, life_begins rfl (h.absent hnew), life_kept rfl halive, List.length_append]
      simpa [Step.inserts] using List.length_pos_iff.2 halive

theorem assign (h : fs.Reflects history) (key : String) (v : α) :
    (fs.update key v).Reflects (history ++ [.assign key v]) := by
  constructor
  · intro other
    by_cases hother : other = key
    · subst hother
      by_cases hmem : other ∈ fs.keys
      · rw [get?_update_self hmem, lastWritten_kept rfl (h.present.1 hmem)]
        simp [Step.value?]
      · have hdead := h.absent hmem
        have hstill : life other (history ++ [.assign other v]) = [] := life_begins rfl hdead
        rw [update_of_notMem hmem, h.values, lastWritten_dead hdead, lastWritten_dead hstill]
    · have hidle : (Step.assign key v).value? other = none := by
        simp [Step.value?, Ne.symm hother]
      rw [get?_update_of_ne hother, h.values, lastWritten_idle rfl hidle]
  · rw [update_keys]
    exact older_kept (fun other hother => ⟨rfl, h.present.1 hother⟩) h.order

theorem take (h : fs.Reflects history) (key : String) :
    (fs.erase key).Reflects (history ++ [.take key]) := by
  have hgone : key ∉ (fs.erase key).keys := by
    rw [erase_keys]
    exact h.distinct.not_mem_erase
  have hothers : ∀ other, other ≠ key → (Step.take key : Step α).removes other = false := by
    intro other hother
    simp [Step.removes, Ne.symm hother]
  constructor
  · intro other
    by_cases hother : other = key
    · subst hother
      rw [get?_eq_none.2 hgone, lastWritten_dead (life_removed (by simp [Step.removes]))]
    · rw [get?_erase_of_ne hother, h.values, lastWritten_idle (hothers other hother) rfl]
  · rw [erase_keys]
    refine older_kept (fun other hother => ?_) (h.order.sublist List.erase_sublist)
    have hne : other ≠ key := by
      rintro rfl
      rw [erase_keys] at hgone
      exact hgone hother
    exact ⟨hothers other hne, h.present.1 (List.mem_of_mem_erase hother)⟩

theorem clear : (empty : Fields α).Reflects (history ++ [.clear]) :=
  ⟨fun _ => (lastWritten_dead (life_removed rfl)).symm, .nil⟩

theorem apply (h : fs.Reflects history) (s : Step α) : (s.apply fs).Reflects (history ++ [s]) := by
  cases s with
  | insert key v => exact h.insert key v
  | assign key v => exact h.assign key v
  | take key => exact h.take key
  | clear => exact clear

end Reflects

theorem reflects_run (history : List (Step α)) :
    (history.foldl Step.apply (empty : Fields α)).Reflects history := by
  induction history using List.reverseRecOn with
  | nil => exact ⟨fun _ => rfl, .nil⟩
  | append_singleton history s ih =>
    rw [List.foldl_append]
    exact ih.apply s

end History

/-- A change of fields. -/
inductive Change (α : Type) where
  | insert (key : String) (value : α)
  | assign (key : String) (value : α)
  | take (key : String)
  | extend (others : Fields α)
  /-- Gives the fields up for new ones that are collected from entries. -/
  | collect (entries : List (String × α))

namespace Change

def apply (fs : Fields α) : Change α → Fields α
  | insert key value => fs.insert key value
  | assign key value => fs.update key value
  | take key => fs.erase key
  | extend others => fs.extend others
  | collect entries => .ofEntries entries

/-- What a change does to fields one by one, in order. -/
def steps : Change α → List (Step α)
  | insert key value => [.insert key value]
  | assign key value => [.assign key value]
  | take key => [.take key]
  | extend others => others.entries.map fun (key, value) => .insert key value
  | collect entries => .clear :: entries.map fun (key, value) => .insert key value

end Change

/-- The fields behind some changes, from none on. -/
def after (changes : List (Change α)) : Fields α :=
  changes.foldl Change.apply empty

def historyOf (changes : List (Change α)) : List (Step α) :=
  changes.flatMap Change.steps

theorem insertAll_steps (fs : Fields α) (es : List (String × α)) :
    (es.map fun (key, value) => Step.insert key value).foldl Step.apply fs = fs.insertAll es := by
  rw [List.foldl_map]
  rfl

theorem apply_steps (fs : Fields α) (change : Change α) :
    change.steps.foldl Step.apply fs = change.apply fs := by
  cases change with
  | insert key value => rfl
  | assign key value => rfl
  | take key => rfl
  | extend others => exact insertAll_steps fs others.entries
  | collect entries => exact insertAll_steps empty entries

theorem after_eq_run (changes : List (Change α)) :
    after changes = (historyOf changes).foldl Step.apply empty := by
  rw [after, historyOf, List.foldl_flatMap]
  simp only [apply_steps]

theorem after_reflects (changes : List (Change α)) :
    (after changes).Reflects (historyOf changes) := by
  rw [after_eq_run]
  exact reflects_run _

theorem after_append (changes more : List (Change α)) :
    after (changes ++ more) = more.foldl Change.apply (after changes) :=
  List.foldl_append

/-- Fields are a map in the order of insertion, whatever was done to them: no key comes twice; a
field has the value that was written to it last since it was last taken; the fields that are there
come in the order of their first insertion since then; to take a field that is not there gives null
and changes nothing; and to merge others is to insert their entries in order, so that their values
prevail and their new keys come last. -/
theorem insertion_ordered (changes : List (Change Value)) :
    (after changes).keys.Nodup ∧
    (∀ key, (after changes).get? key = lastWritten key (historyOf changes)) ∧
    (∀ key, key ∈ (after changes).keys ↔ life key (historyOf changes) ≠ []) ∧
    (after changes).keys.Pairwise (Older (historyOf changes)) ∧
    (∀ key, (after changes).take key =
      ((lastWritten key (historyOf changes)).getD .null, after (changes ++ [.take key]))) ∧
    (∀ key, key ∉ (after changes).keys → (after changes).take key = (.null, after changes)) ∧
    (∀ others : Captures, (after changes).extend others =
      after (changes ++ others.entries.map fun (key, value) => .insert key value)) ∧
    ∀ more : List (Change Value),
      ((after changes).extend (after more)).keys =
        (after changes).keys ++ (after more).keys.filter (· ∉ (after changes).keys) ∧
      ∀ key, ((after changes).extend (after more)).get? key =
        ((after more).get? key).or ((after changes).get? key) := by
  have hreflects := after_reflects changes
  refine ⟨hreflects.distinct, hreflects.values, fun key => hreflects.present, hreflects.order,
    ?_, ?_, ?_, ?_⟩
  · intro key
    rw [take, hreflects.values, after_append]
    rfl
  · intro key hkey
    rw [take, get?_eq_none.2 hkey, erase_of_notMem hkey]
    rfl
  · intro others
    rw [after_append, List.foldl_map]
    rfl
  · intro more
    have hdistinct := (after_reflects more).distinct
    exact ⟨insertAll_keys_of_nodup hdistinct, get?_insertAll_of_nodup hdistinct⟩

/-- Fields that are collected, merged with others, taken and put back again. -/
theorem insertion_ordered_put_back :
    let changes : List (Change Value) := [.collect [("a", .null), ("b", .null)],
      .extend (.ofEntries [("c", .null), ("b", .bool true)]), .take "a", .assign "a" .null,
      .insert "a" (.bool false)]
    (after changes).keys = ["b", "c", "a"] ∧ "d" ∉ (after changes).keys ∧
      (after changes).take "d" = (.null, after changes) := by
  intro changes
  have habsent : "d" ∉ (after changes).keys := by decide
  obtain ⟨-, -, -, -, -, htake, -⟩ := insertion_ordered changes
  exact ⟨by decide, habsent, htake "d" habsent⟩

end PhpSyntax.Fields
