import Mathlib.Data.List.Nodup
import PhpSyntax.Check.Report

namespace PhpSyntax.Check

open Peg

variable {τ ρ : Type}

/-- A pattern refers to a rule, however deep inside. -/
inductive Mentions : Pattern τ ρ → ρ → Prop where
  | rule {r : ρ} : Mentions (.rule r) r
  | sequence {cs : List (Component (Pattern τ ρ))} {c : Component (Pattern τ ρ)} {r : ρ} :
    c ∈ cs → Mentions c.pattern r → Mentions (.sequence cs) r
  | choice {ps : List (Pattern τ ρ)} {p : Pattern τ ρ} {r : ρ} :
    p ∈ ps → Mentions p r → Mentions (.choice ps) r
  | item {p : Pattern τ ρ} {separator : Option (Pattern τ ρ)} {least : Nat} {trailing : Bool}
    {r : ρ} : Mentions p r → Mentions (.repetition p separator least trailing) r
  | separator {p separator : Pattern τ ρ} {least : Nat} {trailing : Bool} {r : ρ} :
    Mentions separator r → Mentions (.repetition p (some separator) least trailing) r
  | optional {p : Pattern τ ρ} {r : ρ} : Mentions p r → Mentions (.optional p) r
  | ahead {negated : Bool} {p : Pattern τ ρ} {r : ρ} : Mentions p r → Mentions (.ahead negated p) r
  | trivia {skip : Bool} {p : Pattern τ ρ} {r : ρ} : Mentions p r → Mentions (.trivia skip p) r
  | silent {p : Pattern τ ρ} {r : ρ} : Mentions p r → Mentions (.silent p) r

/-- A chain of references leads from some roots to a name. -/
inductive Reaches [NamesRule ρ] (table : List (Rule τ ρ)) (roots : List String) :
    String → Prop where
  | root {name : String} : name ∈ roots → Reaches table roots name
  | reference {rule : Rule τ ρ} {target : ρ} : Reaches table roots rule.name → rule ∈ table →
    Mentions rule.pattern target → Reaches table roots (ruleName target)

section References

variable {r : ρ}

mutual

theorem mentions_of_mem : (p : Pattern τ ρ) → r ∈ p.references → Mentions p r
  | .terminal _, h => absurd h List.not_mem_nil
  | .rule _, h => by
    obtain rfl := List.mem_singleton.1 h
    exact .rule
  | .sequence components, h => by
    obtain ⟨c, hc, hr⟩ := mentions_of_componentReferences components h
    exact .sequence hc hr
  | .choice alternatives, h => by
    obtain ⟨p, hp, hr⟩ := mentions_of_allReferences alternatives h
    exact .choice hp hr
  | .repetition item none _ _, h => .item (mentions_of_mem item h)
  | .repetition item (some separator) _ _, h =>
    (List.mem_append.1 h).elim (fun h => .item (mentions_of_mem item h))
      fun h => .separator (mentions_of_mem separator h)
  | .optional p, h => .optional (mentions_of_mem p h)
  | .ahead _ p, h => .ahead (mentions_of_mem p h)
  | .trivia _ p, h => .trivia (mentions_of_mem p h)
  | .silent p, h => .silent (mentions_of_mem p h)
  | .scan _, h => absurd h List.not_mem_nil
  | .endOfInput, h => absurd h List.not_mem_nil

theorem mentions_of_componentReferences : (cs : List (Component (Pattern τ ρ))) →
    r ∈ Pattern.componentReferences cs → ∃ c ∈ cs, Mentions c.pattern r
  | [], h => absurd h List.not_mem_nil
  | ⟨field, capture, p⟩ :: rest, h => by
    obtain h | h := List.mem_append.1 h
    · exact ⟨⟨field, capture, p⟩, List.mem_cons_self .., mentions_of_mem p h⟩
    · obtain ⟨c, hc, hr⟩ := mentions_of_componentReferences rest h
      exact ⟨c, List.mem_cons_of_mem _ hc, hr⟩

theorem mentions_of_allReferences : (ps : List (Pattern τ ρ)) → r ∈ Pattern.allReferences ps →
    ∃ p ∈ ps, Mentions p r
  | [], h => absurd h List.not_mem_nil
  | p :: rest, h => by
    obtain h | h := List.mem_append.1 h
    · exact ⟨p, List.mem_cons_self .., mentions_of_mem p h⟩
    · obtain ⟨q, hq, hr⟩ := mentions_of_allReferences rest h
      exact ⟨q, List.mem_cons_of_mem _ hq, hr⟩

end

theorem componentReferences_subset {c : Component (Pattern τ ρ)}
    {cs : List (Component (Pattern τ ρ))} (h : c ∈ cs) :
    c.pattern.references ⊆ Pattern.componentReferences cs := by
  induction cs with
  | nil => cases h
  | cons d rest ih =>
    obtain ⟨field, capture, p⟩ := d
    intro r hr
    cases h with
    | head => exact List.mem_append_left _ hr
    | tail _ h => exact List.mem_append_right _ (ih h hr)

theorem allReferences_subset {p : Pattern τ ρ} {ps : List (Pattern τ ρ)} (h : p ∈ ps) :
    p.references ⊆ Pattern.allReferences ps := by
  induction ps with
  | nil => cases h
  | cons q rest ih =>
    intro r hr
    cases h with
    | head => exact List.mem_append_left _ hr
    | tail _ h => exact List.mem_append_right _ (ih h hr)

/-- The listed references of a pattern are those it makes. -/
theorem mem_references {p : Pattern τ ρ} : r ∈ p.references ↔ Mentions p r := by
  refine ⟨mentions_of_mem p, fun h => ?_⟩
  induction h with
  | rule => exact List.mem_singleton.2 rfl
  | sequence hc _ ih => exact componentReferences_subset hc ih
  | choice hp _ ih => exact allReferences_subset hp ih
  | @item p separator _ _ _ _ ih =>
    cases separator with
    | none => exact ih
    | some separator => exact List.mem_append_left _ ih
  | separator _ ih => exact List.mem_append_right _ ih
  | optional _ ih => exact ih
  | ahead _ ih => exact ih
  | trivia _ ih => exact ih
  | silent _ ih => exact ih

end References

section Unsearched

/-- The references that may still become pending. -/
def unsearched (table : List (Rule τ ρ)) (reached : List String) : Nat :=
  referenceCount (table.filter fun r => !reached.contains r.name)

theorem referenceCount_cons (rule : Rule τ ρ) (table : List (Rule τ ρ)) :
    referenceCount (rule :: table) = rule.pattern.references.length + referenceCount table := by
  simp only [referenceCount, List.flatMap_cons, List.length_append]

theorem unsearched_nil (table : List (Rule τ ρ)) : unsearched table [] = referenceCount table := by
  simp only [unsearched, List.contains_nil, Bool.not_false, List.filter_true]

theorem unsearched_cons_le (table : List (Rule τ ρ)) (reached : List String) (name : String) :
    unsearched table (name :: reached) ≤ unsearched table reached := by
  induction table with
  | nil => exact Nat.le_refl _
  | cons rule table ih =>
    simp only [unsearched, List.filter_cons, List.contains_cons, Bool.not_or] at ih ⊢
    cases hname : rule.name == name <;> cases hreached : reached.contains rule.name <;>
      simp only [Bool.not_false, Bool.not_true, Bool.and_true, Bool.and_false, if_true,
        Bool.false_eq_true, if_false, referenceCount_cons] <;> omega

theorem unsearched_cons_add_le {table : List (Rule τ ρ)} {rule : Rule τ ρ}
    {reached : List String} (hrule : rule ∈ table)
    (hnew : reached.contains rule.name = false) :
    rule.pattern.references.length + unsearched table (rule.name :: reached) ≤
      unsearched table reached := by
  induction table with
  | nil => cases hrule
  | cons other table ih =>
    cases hrule with
    | head =>
      have hle := unsearched_cons_le table reached rule.name
      simp only [unsearched, List.filter_cons, List.contains_cons, Bool.not_or, beq_self_eq_true,
        hnew, Bool.not_true, Bool.not_false, Bool.and_true, if_true, Bool.false_eq_true, if_false,
        referenceCount_cons] at hle ⊢
      omega
    | tail _ hrule =>
      have ih := ih hrule
      simp only [unsearched, List.filter_cons, List.contains_cons, Bool.not_or] at ih ⊢
      cases hname : other.name == rule.name <;> cases hreached : reached.contains other.name <;>
        simp only [Bool.not_false, Bool.not_true, Bool.and_true, Bool.and_false, if_true,
          Bool.false_eq_true, if_false, referenceCount_cons] <;> omega

end Unsearched

section Search

variable [NamesRule ρ] {table : List (Rule τ ρ)} {roots : List String}

theorem mem_referencesOf {name target : String} (h : target ∈ referencesOf table name) :
    ∃ rule ∈ table, rule.name = name ∧ ∃ r, Mentions rule.pattern r ∧ ruleName r = target := by
  simp only [referencesOf] at h
  split at h
  · rename_i rule hrule
    obtain ⟨r, hr, rfl⟩ := List.mem_map.1 h
    exact ⟨rule, List.mem_reverse.1 (List.mem_of_find?_eq_some hrule),
      by simpa using List.find?_some hrule, r, mem_references.1 hr, rfl⟩
  · cases h

/-- Where no name comes twice, the references of a name are those of its rule. -/
theorem referencesOf_name (hnames : (table.map (·.name)).Nodup) {rule : Rule τ ρ}
    (hrule : rule ∈ table) :
    referencesOf table rule.name = rule.pattern.references.map ruleName := by
  simp only [referencesOf]
  cases hfound : table.reverse.find? (·.name == rule.name) with
  | none =>
    have := List.find?_eq_none.1 hfound rule (List.mem_reverse.2 hrule)
    simp at this
  | some found =>
    have hname : found.name = rule.name := by simpa using List.find?_some hfound
    have hmem : found ∈ table := List.mem_reverse.1 (List.mem_of_find?_eq_some hfound)
    rw [List.inj_on_of_nodup_map hnames hmem hrule hname]

/-- Whatever is found, a chain of references leads to it. -/
theorem reaches_of_reachFrom {fuel : Nat} {reached pending : List String}
    (hreached : ∀ name ∈ reached, Reaches table roots name)
    (hpending : ∀ name ∈ pending, Reaches table roots name) :
    ∀ name ∈ reachFrom table fuel reached pending, Reaches table roots name := by
  induction fuel generalizing reached pending with
  | zero => exact hreached
  | succ fuel ih =>
    cases pending with
    | nil => exact hreached
    | cons name pending =>
      obtain ⟨hname, hpending⟩ := List.forall_mem_cons.1 hpending
      rw [reachFrom]
      split
      · exact ih hreached hpending
      · refine ih (List.forall_mem_cons.2 ⟨hname, hreached⟩)
          (List.forall_mem_append.2 ⟨fun target htarget => ?_, hpending⟩)
        obtain ⟨rule, hrule, rfl, r, hr, rfl⟩ := mem_referencesOf htarget
        exact .reference hname hrule hr

theorem unsearched_reference_le {name : String} {reached : List String}
    (hnew : reached.contains name = false) :
    (referencesOf table name).length + unsearched table (name :: reached) ≤
      unsearched table reached := by
  simp only [referencesOf]
  split
  · rename_i rule hrule
    obtain rfl : rule.name = name := by simpa using List.find?_some hrule
    rw [List.length_map]
    exact unsearched_cons_add_le (List.mem_reverse.1 (List.mem_of_find?_eq_some hrule)) hnew
  · rw [List.length_nil, Nat.zero_add]
    exact unsearched_cons_le table reached name

/-- A search with enough fuel ends with the references of all it found among what it found. -/
theorem reachFrom_closed {fuel : Nat} {reached pending : List String}
    (hfuel : pending.length + unsearched table reached < fuel)
    (hopen : ∀ name ∈ reached, referencesOf table name ⊆ reached ++ pending) :
    reached ++ pending ⊆ reachFrom table fuel reached pending ∧
      ∀ name ∈ reachFrom table fuel reached pending,
        referencesOf table name ⊆ reachFrom table fuel reached pending := by
  induction fuel generalizing reached pending with
  | zero => exact absurd hfuel (Nat.not_lt_zero _)
  | succ fuel ih =>
    cases pending with
    | nil =>
      rw [List.append_nil] at hopen ⊢
      exact ⟨fun _ h => h, hopen⟩
    | cons name pending =>
      rw [List.length_cons] at hfuel
      rw [reachFrom]
      split
      · rename_i hknown
        have hsub : reached ++ name :: pending ⊆ reached ++ pending := by
          refine List.append_subset.2 ⟨List.subset_append_left .., List.cons_subset.2 ⟨?_, ?_⟩⟩
          · exact List.mem_append_left _ (List.contains_iff_mem.1 hknown)
          · exact List.subset_append_right ..
        have hfuel : pending.length + unsearched table reached < fuel := by omega
        obtain ⟨hall, hclosed⟩ := ih hfuel fun n hn _ ht => hsub (hopen n hn ht)
        exact ⟨fun _ h => hall (hsub h), hclosed⟩
      · rename_i hnew
        have hle : (referencesOf table name).length + unsearched table (name :: reached) ≤
            unsearched table reached := unsearched_reference_le (Bool.eq_false_iff.2 hnew)
        have hsub : reached ++ name :: pending ⊆
            (name :: reached) ++ (referencesOf table name ++ pending) := by
          refine List.append_subset.2 ⟨fun _ h => ?_, List.cons_subset.2 ⟨?_, fun _ h => ?_⟩⟩
          · exact List.mem_append_left _ (List.mem_cons_of_mem _ h)
          · exact List.mem_append_left _ (List.mem_cons_self ..)
          · exact List.mem_append_right _ (List.mem_append_right _ h)
        have hfuel : (referencesOf table name ++ pending).length +
            unsearched table (name :: reached) < fuel := by
          rw [List.length_append]
          omega
        obtain ⟨hall, hclosed⟩ := ih hfuel <| List.forall_mem_cons.2
          ⟨fun _ ht => List.mem_append_right _ (List.mem_append_left _ ht),
            fun n hn _ ht => hsub (hopen n hn ht)⟩
        exact ⟨fun _ h => hall (hsub h), hclosed⟩

/-- The search finds exactly the names that a chain of references leads to. -/
theorem mem_reachable (hnames : (table.map (·.name)).Nodup) {name : String} :
    name ∈ reachable table roots ↔ Reaches table roots name := by
  have hfuel : roots.length + unsearched table [] < roots.length + referenceCount table + 1 := by
    rw [unsearched_nil]
    exact Nat.lt_succ_self _
  obtain ⟨hall, hclosed⟩ := reachFrom_closed hfuel fun _ h => absurd h List.not_mem_nil
  refine ⟨reaches_of_reachFrom (fun _ h => absurd h List.not_mem_nil) (fun _ h => .root h) name,
    fun h => ?_⟩
  induction h with
  | root h => exact hall h
  | @reference rule target _ hrule htarget ih =>
    refine hclosed rule.name ih ?_
    rw [referencesOf_name hnames hrule]
    exact List.mem_map_of_mem (mem_references.2 htarget)

end Search

end PhpSyntax.Check
