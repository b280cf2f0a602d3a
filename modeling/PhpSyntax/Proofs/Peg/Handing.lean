import PhpSyntax.Proofs.Peg.Form
import PhpSyntax.Proofs.Peg.Taking
import PhpSyntax.Proofs.Tree.Merging

namespace PhpSyntax.Peg

section Table

variable (names : List String) (key : String)

mutual

/-- Whether the rules whose matches a pattern hands on as they are have some names. -/
def PatternDef.handsOn : PatternDef → Bool
  | .rule r => names.contains r
  | .choice ps => PatternDef.eachHandsOn ps
  | .optional p => PatternDef.handsOn p
  | .trivia _ p => PatternDef.handsOn p
  | _ => true

def PatternDef.eachHandsOn : List PatternDef → Bool
  | [] => true
  | p :: rest => PatternDef.handsOn p && PatternDef.eachHandsOn rest

end

mutual

/-- Whether a pattern captures nothing under a name for the sequence around it. -/
def PatternDef.spares : PatternDef → Bool
  | .rule _ => false
  | .sequence cs => PatternDef.componentsSpare cs
  | .choice ps => PatternDef.eachSpares ps
  | .optional p => PatternDef.spares p
  | .trivia _ p => PatternDef.spares p
  | _ => true

def PatternDef.componentsSpare : List ComponentDef → Bool
  | [] => true
  | ⟨some name, _, _⟩ :: rest => key != name && PatternDef.componentsSpare rest
  | ⟨none, _, p⟩ :: rest => PatternDef.spares p && PatternDef.componentsSpare rest

def PatternDef.eachSpares : List PatternDef → Bool
  | [] => true
  | p :: rest => PatternDef.spares p && PatternDef.eachSpares rest

end

end Table

section Matches

variable {skipped : Option Lexeme} {text : Text} {calls : Calls}

theorem Parts.finish_value (ps : Parts) (n : Node) : (ps.finish text).value ≠ .node n := by
  intro h
  simp only [Parts.finish] at h
  split at h
  · cases h
  · cases h

theorem matchesRounds_value {item : Nat → Matched → Prop}
    {separator : Option (Nat → Matched → Prop)} {least offset : Nat} {m : Matched}
    (h : MatchesRounds item separator least offset m) : ∃ vs, m.value = .list vs := by
  obtain ⟨rs, stop, -, -, hm⟩ := h
  simp only [Rounds.finish, Option.ite_none_left_eq_some] at hm
  obtain rfl := Option.some.inj hm.2
  exact ⟨_, rfl⟩

theorem matches_scan {sc : Scanner} (plain : sc.Plain) {trivia : Bool} {offset : Nat} {m : Matched}
    (h : Matches skipped text calls (.scan sc) trivia offset m) : m.value.IsLeaf := by
  obtain ⟨start, -, hm⟩ := h
  obtain ⟨r, hr, rfl⟩ := Option.map_eq_some_iff.1 hm
  obtain ⟨cs, -, hr⟩ := Option.bind_eq_some_iff.1 hr
  exact plain cs r.1 r.2 hr

theorem matches_end {trivia : Bool} {offset : Nat} {m : Matched}
    (h : Matches skipped text calls .endOfInput trivia offset m) : m.value = .null := by
  obtain ⟨start, -, hm⟩ := h
  rw [endFound, Option.ite_none_right_eq_some] at hm
  obtain rfl := Option.some.inj hm.2
  rfl

section Handed

variable {names : List String} {Q : Value → Prop} {offset : Nat}

mutual

/-- What holds of all that is no node holds of a match if it does of those of the rules that are
handed on. -/
theorem Matches.handed (hQ : ∀ v, (∀ n, v ≠ .node n) → Q v)
    (hcalls : ∀ r ∈ names, ∀ trivia m, calls r trivia offset m → Q m.value) :
    (p : PatternDef) → (∀ sc ∈ p.scanners, sc.Plain) →
    p.handsOn names = true → ∀ {trivia m}, Matches skipped text calls p trivia offset m → Q m.value
  | .terminal t, _, _, trivia, m, h => by
    obtain ⟨s, hs⟩ := matches_text h
    rw [hs]
    exact hQ _ nofun
  | .scan sc, plain, _, trivia, m, h => by
    have hleaf := matches_scan (plain sc (List.mem_singleton_self sc)) h
    refine hQ _ fun n hn => ?_
    rw [hn] at hleaf
    exact hleaf
  | .endOfInput, _, _, trivia, m, h => by
    rw [matches_end h]
    exact hQ _ nofun
  | .rule r, _, hnames, trivia, m, h =>
    hcalls r (by simpa [PatternDef.handsOn] using hnames) trivia m h
  | .sequence cs, _, _, trivia, m, h => by
    obtain ⟨ps, -, rfl⟩ := h
    exact hQ _ (Parts.finish_value ps)
  | .choice ps, plain, hnames, trivia, m, h => Matches.eachHanded hQ hcalls ps plain hnames h
  | .repetition item none _ _, _, _, trivia, m, h => by
    obtain ⟨vs, hvs⟩ := matchesRounds_value h
    rw [hvs]
    exact hQ _ nofun
  | .repetition item (some separator) _ _, _, _, trivia, m, h => by
    obtain ⟨vs, hvs⟩ := matchesRounds_value h
    rw [hvs]
    exact hQ _ nofun
  | .optional p, plain, hnames, trivia, m, h => by
    obtain h | rfl := h
    · exact Matches.handed hQ hcalls p plain hnames h
    · exact hQ _ nofun
  | .ahead _ _, _, _, trivia, m, h => by
    obtain ⟨-, rfl⟩ := h
    exact hQ _ nofun
  | .trivia _ p, plain, hnames, trivia, m, h => Matches.handed hQ hcalls p plain hnames h
  | .silent p, _, _, trivia, m, h => by
    obtain ⟨m', -, rfl⟩ := h
    exact hQ _ nofun

theorem Matches.eachHanded (hQ : ∀ v, (∀ n, v ≠ .node n) → Q v)
    (hcalls : ∀ r ∈ names, ∀ trivia m, calls r trivia offset m → Q m.value) :
    (ps : List PatternDef) →
    (∀ sc ∈ (Pattern.choice ps : PatternDef).scanners, sc.Plain) →
    PatternDef.eachHandsOn names ps = true → ∀ {trivia m},
    MatchesOne skipped text calls ps trivia offset m → Q m.value
  | [], _, _, trivia, m, h => h.elim
  | p :: rest, plain, hnames, trivia, m, h => by
    obtain ⟨plain, plain'⟩ := List.forall_mem_append.1 plain
    obtain ⟨hp, hrest⟩ := Bool.and_eq_true_iff.1 hnames
    exact h.elim (Matches.handed hQ hcalls p plain hp)
      (Matches.eachHanded hQ hcalls rest plain' hrest)

end

end Handed

section Spared

variable {key : String}

theorem Parts.push_get? {ps : Parts} {field : Option String} {capture : Capture} {m : Matched}
    (hfield : field ≠ some key)
    (hm : field = none → ∀ fs : Captures, m.value = .record fs → key ∉ fs.keys) :
    (ps.push field capture m).fields.get? key = ps.fields.get? key := by
  cases field with
  | some name =>
    have hname : key ≠ name := by
      rintro rfl
      exact hfield rfl
    cases hv : m.value <;> simp only [Parts.push, hv] <;> exact Fields.get?_insert_of_ne _ _ hname
  | none =>
    cases hv : m.value with
    | record fs =>
      simp only [Parts.push, hv]
      exact Fields.get?_insertAll _ (hm rfl fs hv)
    | _ => simp only [Parts.push, hv]

mutual

/-- A pattern that spares a name does not capture under it. -/
theorem Matches.spared : (p : PatternDef) → (∀ sc ∈ p.scanners, sc.Plain) →
    p.spares key = true → ∀ {trivia offset m}, Matches skipped text calls p trivia offset m →
    ∀ fs : Captures, m.value = .record fs → fs.get? key = none
  | .terminal t, _, _, trivia, offset, m, h => by
    obtain ⟨s, hs⟩ := matches_text h
    rw [hs]
    nofun
  | .scan sc, plain, _, trivia, offset, m, h => by
    have hleaf := matches_scan (plain sc (List.mem_singleton_self sc)) h
    intro fs hfs
    rw [hfs] at hleaf
    exact hleaf.elim
  | .endOfInput, _, _, trivia, offset, m, h => by
    rw [matches_end h]
    nofun
  | .rule r, _, hspares, trivia, offset, m, h => by cases hspares
  | .sequence cs, plain, hspares, trivia, offset, m, h => by
    obtain ⟨ps, hps, rfl⟩ := h
    intro fs hfs
    simp only [Parts.finish] at hfs
    split at hfs
    · obtain rfl := Value.record.inj hfs
      exact (MatchesParts.spared cs plain hspares hps).trans rfl
    · cases hfs
  | .choice ps, plain, hspares, trivia, offset, m, h => MatchesOne.spared ps plain hspares h
  | .repetition item none _ _, _, _, trivia, offset, m, h => by
    obtain ⟨vs, hvs⟩ := matchesRounds_value h
    rw [hvs]
    nofun
  | .repetition item (some separator) _ _, _, _, trivia, offset, m, h => by
    obtain ⟨vs, hvs⟩ := matchesRounds_value h
    rw [hvs]
    nofun
  | .optional p, plain, hspares, trivia, offset, m, h => by
    obtain h | rfl := h
    · exact Matches.spared p plain hspares h
    · nofun
  | .ahead _ _, _, _, trivia, offset, m, h => by
    obtain ⟨-, rfl⟩ := h
    nofun
  | .trivia _ p, plain, hspares, trivia, offset, m, h => Matches.spared p plain hspares h
  | .silent p, _, _, trivia, offset, m, h => by
    obtain ⟨m', -, rfl⟩ := h
    nofun

/-- Components that spare a name leave its field alone. -/
theorem MatchesParts.spared : (cs : List ComponentDef) →
    (∀ sc ∈ Pattern.componentScanners cs, sc.Plain) →
    PatternDef.componentsSpare key cs = true → ∀ {trivia} {ps ps' : Parts},
    MatchesParts skipped text calls cs trivia ps ps' → ps'.fields.get? key = ps.fields.get? key
  | [], _, _, trivia, ps, ps', h => by
    obtain rfl := h
    rfl
  | ⟨some name, capture, p⟩ :: rest, plain, hspares, trivia, ps, ps', h => by
    obtain ⟨m, -, h⟩ := h
    rw [PatternDef.componentsSpare, Bool.and_eq_true, bne_iff_ne] at hspares
    rw [MatchesParts.spared rest (List.forall_mem_append.1 plain).2 hspares.2 h]
    exact Parts.push_get? (fun h => hspares.1 (Option.some.inj h).symm) nofun
  | ⟨none, capture, p⟩ :: rest, plain, hspares, trivia, ps, ps', h => by
    obtain ⟨m, hm, h⟩ := h
    obtain ⟨plain, plain'⟩ := List.forall_mem_append.1 plain
    rw [PatternDef.componentsSpare, Bool.and_eq_true] at hspares
    rw [MatchesParts.spared rest plain' hspares.2 h]
    refine Parts.push_get? nofun fun _ fs hfs hmem => ?_
    have hnone := Matches.spared p plain hspares.1 hm fs hfs
    rw [← Fields.contains_iff, Fields.contains, hnone] at hmem
    cases hmem

theorem MatchesOne.spared : (ps : List PatternDef) →
    (∀ sc ∈ (Pattern.choice ps : PatternDef).scanners, sc.Plain) →
    PatternDef.eachSpares key ps = true → ∀ {trivia offset m},
    MatchesOne skipped text calls ps trivia offset m →
    ∀ fs : Captures, m.value = .record fs → fs.get? key = none
  | [], _, _, trivia, offset, m, h => h.elim
  | p :: rest, plain, hspares, trivia, offset, m, h => by
    obtain ⟨plain, plain'⟩ := List.forall_mem_append.1 plain
    obtain ⟨hp, hrest⟩ := Bool.and_eq_true_iff.1 hspares
    exact h.elim (Matches.spared p plain hp) (MatchesOne.spared rest plain' hrest)

end

/-- The field of the first component of a sequence, where no other one captures under its name. -/
theorem matches_first {p : PatternDef} {rest : List ComponentDef}
    (plain : ∀ sc ∈ Pattern.componentScanners rest, sc.Plain)
    (hspares : PatternDef.componentsSpare key rest = true) {trivia : Bool} {offset : Nat}
    {m : Matched}
    (h : Matches skipped text calls (.sequence (⟨some key, .value, p⟩ :: rest)) trivia offset m) :
    ∃ first, Matches skipped text calls p trivia offset first ∧
      ∀ fs : Captures, m.value = .record fs → fs.get? key = some first.value := by
  obtain ⟨ps, ⟨first, hfirst, hrest⟩, rfl⟩ := h
  refine ⟨first, hfirst, fun fs hfs => ?_⟩
  simp only [Parts.finish] at hfs
  split at hfs
  · obtain rfl := Value.record.inj hfs
    rw [MatchesParts.spared rest plain hspares hrest]
    cases hv : first.value <;> simp [Parts.push, Parts.startingAt, hv, Fields.insert,
      Fields.contains, Fields.get?, Fields.empty, Capture.apply]
  · cases hfs

end Spared

end Matches

end PhpSyntax.Peg
