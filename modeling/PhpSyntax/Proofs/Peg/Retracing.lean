import PhpSyntax.Proofs.Peg.Chaining
import PhpSyntax.Proofs.Peg.Occurring

namespace PhpSyntax.Peg

section Links

variable {g : Grammar} {q : LinkedPattern}

theorem Links.of_terminal {t : Terminal} (h : Links g (.terminal t) q) :
    ∃ l, q = .terminal l ∧ l.toTerminal = t := by
  cases h with
  | terminal => exact ⟨_, rfl, rfl⟩

theorem Links.of_rule {name : String} (h : Links g (.rule name) q) :
    ∃ r, q = .rule r ∧ r.name = name ∧ r.Resolved g.index := by
  cases h with
  | rule hresolved => exact ⟨_, rfl, rfl, hresolved⟩

theorem Links.of_sequence {cs : List ComponentDef} (h : Links g (.sequence cs) q) :
    ∃ ls, q = .sequence ls ∧ LinksComponents g cs ls := by
  cases h with
  | sequence h => exact ⟨_, rfl, h⟩

theorem Links.of_repetition {p : PatternDef} {least : Nat} {trailing : Bool}
    (h : Links g (.repetition p none least trailing) q) :
    ∃ item, q = .repetition item none least trailing ∧ Links g p item := by
  cases h with
  | repetition h => exact ⟨_, rfl, h⟩

theorem Links.of_optional {p : PatternDef} (h : Links g (.optional p) q) :
    ∃ inner, q = .optional inner ∧ Links g p inner := by
  cases h with
  | optional h => exact ⟨_, rfl, h⟩

theorem LinksComponents.of_nil {ls : List (Component LinkedPattern)}
    (h : LinksComponents g [] ls) : ls = [] := by
  cases h
  rfl

theorem LinksComponents.of_cons {field : Option String} {capture : Capture} {p : PatternDef}
    {cs : List ComponentDef} {ls : List (Component LinkedPattern)}
    (h : LinksComponents g (⟨field, capture, p⟩ :: cs) ls) :
    ∃ q rest, ls = ⟨field, capture, q⟩ :: rest ∧ Links g p q ∧ LinksComponents g cs rest := by
  cases h with
  | cons h hrest => exact ⟨_, _, rfl, h, hrest⟩

end Links

variable {s : Setting} {source input : Input} {σ σ' : Progress}

/-- A rule was called at an offset in a session on a source, and this is what it came to. -/
def Called (s : Setting) (source input : Input) (name : String) (skip : Bool) (offset : Nat)
    (found : Option Matched) : Prop :=
  ∃ id σ σ', s.grammar.ruleId? name = some id ∧
    Occurs s source input (.call id offset skip) σ ∧
    Exec s (· ≤ s.limit) input (.call id offset skip) σ (.ok found) σ'

section Steps

variable {skip : Bool} {offset : Nat} {m : Matched}

theorem Called.of_exec {ref : RuleRef} {found : Option Matched}
    (href : s.grammar.ruleId? ref.name = some ref.id)
    (h : Occurs s source input (.pattern (.rule ref) skip offset) σ)
    (hexec : Exec s (· ≤ s.limit) input (.pattern (.rule ref) skip offset) σ (.ok found) σ') :
    Called s source input ref.name skip offset found := by
  cases hexec with
  | rule hcall => exact ⟨_, _, _, href, .part h .rule, hcall⟩

theorem Lexeme.found_text {l : Lexeme} {text : Text} {start : Nat}
    (h : l.found text start = some m) : ∃ t, m.value = .text t := by
  obtain ⟨r, hr, rfl⟩ := Option.map_eq_some_iff.1 h
  obtain ⟨cs, -, hr⟩ := Option.bind_eq_some_iff.1 hr
  obtain ⟨r', -, rfl⟩ := Option.map_eq_some_iff.1 hr
  exact ⟨_, rfl⟩

/-- The first component of a sequence that matches, and the others behind it. -/
theorem Occurs.component {field : Option String} {capture : Capture} {p : LinkedPattern}
    {rest : List (Component LinkedPattern)} {ps : Parts}
    (h : Occurs s source input (.components (⟨field, capture, p⟩ :: rest) skip ps) σ)
    (hexec : Exec s (· ≤ s.limit) input (.components (⟨field, capture, p⟩ :: rest) skip ps) σ
      (.ok (some m)) σ') :
    ∃ first σ₁, (Occurs s source input (.pattern p skip ps.cursor) σ ∧
      Exec s (· ≤ s.limit) input (.pattern p skip ps.cursor) σ (.ok (some first)) σ₁) ∧
      Occurs s source input (.components rest skip (ps.push field capture first)) σ₁ ∧
      Exec s (· ≤ s.limit) input (.components rest skip (ps.push field capture first)) σ₁
        (.ok (some m)) σ' := by
  cases hexec with
  | partUnmatched _ hnone => exact absurd rfl (hnone m)
  | partMatched hfirst hrest =>
    exact ⟨_, _, ⟨.part h .firstComponent, hfirst⟩, .part h (.otherComponents hfirst), hrest⟩

theorem Exec.allParts_eq {ps : Parts}
    (h : Exec s (· ≤ s.limit) input (.components [] skip ps) σ (.ok (some m)) σ') :
    m = ps.finish input.text := by
  cases h
  rfl

/-- A repetition of a rule without separators that comes to an empty list: the rule, which takes
something wherever it matches, was tried and found nothing. -/
theorem Occurs.unrepeated {ref : RuleRef} {trailing : Bool}
    (h : Occurs s source input (.pattern (.repetition (.rule ref) none 0 trailing) skip offset) σ)
    (hexec : Exec s (· ≤ s.limit) input
      (.pattern (.repetition (.rule ref) none 0 trailing) skip offset) σ (.ok (some m)) σ')
    (hvalue : m.value.toList = [])
    (htakes : ∀ first σ σ₁, Occurs s source input (.pattern (.rule ref) skip offset) σ →
      Exec s (· ≤ s.limit) input (.pattern (.rule ref) skip offset) σ (.ok (some first)) σ₁ →
      first.stop ≠ offset) :
    m.stop = offset ∧ ∃ σ₁, Occurs s source input (.pattern (.rule ref) skip offset) σ ∧
      Exec s (· ≤ s.limit) input (.pattern (.rule ref) skip offset) σ (.ok none) σ₁ := by
  have hrounds := Occurs.part h .repetition
  have hleads : (Repetition.mk (.rule ref) none 0 trailing skip offset).Leads
      (.startingAt offset) := .inl rfl
  have hitem := Occurs.part (hrounds.part (.unseparated hleads)) .item
  cases hexec with
  | repetition hexec => cases hexec with
    | separated hr => cases hr
    | separatorMissing hr => cases hr
    | leading _ hexec =>
      generalize ho : (Except.ok (some m) : Except Failure (Option Matched)) = o at hexec
      cases hexec with
      | itemFailed _ => cases ho
      | itemMissing hexec =>
        rw [Repetition.trailed_self] at ho
        exact ⟨Rounds.finish_stop (Except.ok.inj ho).symm, _, hitem, hexec⟩
      | itemEmpty hexec hends => exact absurd hends.1 (htakes _ _ _ hitem hexec)
      | @itemMatched _ _ _ _ _ _ _ first _ hexec hends hrest =>
        subst ho
        have hstop := htakes _ _ _ hitem hexec
        have hpushed : ((Rounds.startingAt offset).pushed first).emptyFirst = false := by
          simp only [Rounds.pushed, Rounds.push, Rounds.startingAt, Bool.false_or,
            beq_eq_false_iff_ne]
          exact hstop
        obtain ⟨ms, -, hlist⟩ := hrest.chained ref rfl ⟨rfl, rfl, rfl⟩ hpushed
        rw [hlist] at hvalue
        simp [Value.toList, Rounds.pushed, Rounds.push, Rounds.startingAt] at hvalue

/-- An optional rule that comes to null: the rule, which has a value wherever it matches, was tried
and found nothing. -/
theorem Occurs.omitted {ref : RuleRef}
    (h : Occurs s source input (.pattern (.optional (.rule ref)) skip offset) σ)
    (hexec : Exec s (· ≤ s.limit) input (.pattern (.optional (.rule ref)) skip offset) σ
      (.ok (some m)) σ')
    (hvalue : m.value = .null)
    (htells : ∀ first σ σ₁, Occurs s source input (.pattern (.rule ref) skip offset) σ →
      Exec s (· ≤ s.limit) input (.pattern (.rule ref) skip offset) σ (.ok (some first)) σ₁ →
      first.value ≠ .null) :
    m.stop = offset ∧ ∃ σ₁, Occurs s source input (.pattern (.rule ref) skip offset) σ ∧
      Exec s (· ≤ s.limit) input (.pattern (.rule ref) skip offset) σ (.ok none) σ₁ := by
  have hrule := Occurs.part h .optional
  generalize ho : (Except.ok (some m) : Except Failure (Option Matched)) = o at hexec
  cases hexec with
  | optional hexec =>
    obtain ⟨found, rfl, hfound⟩ := map_eq_ok ho.symm
    obtain rfl := Option.some.inj hfound
    cases found with
    | none => exact ⟨rfl, _, hrule, hexec⟩
    | some first => exact absurd hvalue (htells _ _ _ hrule hexec)

end Steps

end PhpSyntax.Peg
