import PhpSyntax.Proofs.Check.Reach
import PhpSyntax.Proofs.Peg.Renumbering

namespace PhpSyntax.Peg

namespace Pattern

section Link

variable {ε τ ρ τ' ρ' : Type} {terminal : τ → Except ε τ'} {rule rule' : ρ → Except ε ρ'}
  {f : ρ' → ρ'} {Q : ρ' → Prop}

mutual

/-- Where the rules that a pattern refers to get other numbers, so does the linked pattern. -/
theorem link_renumber : (p : Pattern τ ρ) →
    (∀ r ∈ p.references, ∀ i, rule r = .ok i → rule' r = .ok (f i) ∧ Q i) →
    {q : Pattern τ' ρ'} → p.link terminal rule = .ok q →
    p.link terminal rule' = .ok (q.map id f) ∧ q.Every (fun _ => True) Q
  | .terminal t, _, q, h => by
    obtain ⟨l, hl, h⟩ := bind_ok h
    cases h
    exact ⟨by simp only [link, hl]; rfl, trivial⟩
  | .rule r, hr, q, h => by
    obtain ⟨i, hi, h⟩ := bind_ok h
    cases h
    obtain ⟨hi', hQ⟩ := hr r (List.mem_singleton.2 rfl) i hi
    exact ⟨by simp only [link, hi']; rfl, hQ⟩
  | .sequence components, hr, q, h => by
    obtain ⟨linked, hl, h⟩ := bind_ok h
    cases h
    obtain ⟨hl', hall⟩ := linkComponents_renumber components hr hl
    exact ⟨by simp only [link, hl']; rfl, hall⟩
  | .choice alternatives, hr, q, h => by
    obtain ⟨linked, hl, h⟩ := bind_ok h
    cases h
    obtain ⟨hl', hall⟩ := linkAll_renumber alternatives hr hl
    exact ⟨by simp only [link, hl']; rfl, hall⟩
  | .repetition item none least trailing, hr, q, h => by
    obtain ⟨linked, hl, h⟩ := bind_ok h
    cases h
    obtain ⟨hl', hall⟩ := link_renumber item hr hl
    exact ⟨by simp only [link, hl']; rfl, hall⟩
  | .repetition item (some separator) least trailing, hr, q, h => by
    obtain ⟨hri, hrs⟩ := List.forall_mem_append.1 hr
    obtain ⟨linked, hl, h⟩ := bind_ok h
    obtain ⟨linkedSeparator, hs, h⟩ := bind_ok h
    cases h
    obtain ⟨hl', hall⟩ := link_renumber item hri hl
    obtain ⟨hs', halls⟩ := link_renumber separator hrs hs
    exact ⟨by simp only [link, hl', hs']; rfl, hall, halls⟩
  | .optional p, hr, q, h => by
    obtain ⟨linked, hl, h⟩ := bind_ok h
    cases h
    obtain ⟨hl', hall⟩ := link_renumber p hr hl
    exact ⟨by simp only [link, hl']; rfl, hall⟩
  | .ahead negated p, hr, q, h => by
    obtain ⟨linked, hl, h⟩ := bind_ok h
    cases h
    obtain ⟨hl', hall⟩ := link_renumber p hr hl
    exact ⟨by simp only [link, hl']; rfl, hall⟩
  | .trivia skip p, hr, q, h => by
    obtain ⟨linked, hl, h⟩ := bind_ok h
    cases h
    obtain ⟨hl', hall⟩ := link_renumber p hr hl
    exact ⟨by simp only [link, hl']; rfl, hall⟩
  | .silent p, hr, q, h => by
    obtain ⟨linked, hl, h⟩ := bind_ok h
    cases h
    obtain ⟨hl', hall⟩ := link_renumber p hr hl
    exact ⟨by simp only [link, hl']; rfl, hall⟩
  | .scan s, _, q, h => by
    cases h
    exact ⟨rfl, trivial⟩
  | .endOfInput, _, q, h => by
    cases h
    exact ⟨rfl, trivial⟩

theorem linkComponents_renumber : (cs : List (Component (Pattern τ ρ))) →
    (∀ r ∈ componentReferences cs, ∀ i, rule r = .ok i → rule' r = .ok (f i) ∧ Q i) →
    {ls : List (Component (Pattern τ' ρ'))} → linkComponents terminal rule cs = .ok ls →
    linkComponents terminal rule' cs = .ok (mapComponents id f ls) ∧
      EveryComponent (fun _ => True) Q ls
  | [], _, ls, h => by
    cases h
    exact ⟨rfl, trivial⟩
  | ⟨field, capture, p⟩ :: rest, hr, ls, h => by
    obtain ⟨hrp, hrr⟩ := List.forall_mem_append.1 hr
    obtain ⟨q, hq, h⟩ := bind_ok h
    obtain ⟨linked, hl, h⟩ := bind_ok h
    cases h
    obtain ⟨hq', hall⟩ := link_renumber p hrp hq
    obtain ⟨hl', halls⟩ := linkComponents_renumber rest hrr hl
    exact ⟨by simp only [linkComponents, hq', hl']; rfl, hall, halls⟩

theorem linkAll_renumber : (ps : List (Pattern τ ρ)) →
    (∀ r ∈ allReferences ps, ∀ i, rule r = .ok i → rule' r = .ok (f i) ∧ Q i) →
    {qs : List (Pattern τ' ρ')} → linkAll terminal rule ps = .ok qs →
    linkAll terminal rule' ps = .ok (mapAll id f qs) ∧ EveryAlternative (fun _ => True) Q qs
  | [], _, qs, h => by
    cases h
    exact ⟨rfl, trivial⟩
  | p :: rest, hr, qs, h => by
    obtain ⟨hrp, hrr⟩ := List.forall_mem_append.1 hr
    obtain ⟨q, hq, h⟩ := bind_ok h
    obtain ⟨linked, hl, h⟩ := bind_ok h
    cases h
    obtain ⟨hq', hall⟩ := link_renumber p hrp hq
    obtain ⟨hl', halls⟩ := linkAll_renumber rest hrr hl
    exact ⟨by simp only [linkAll, hq', hl']; rfl, hall, halls⟩

end

end Link

end Pattern

/-- A processor that has rules with some names only parse texts within a match. -/
def Processor.AsksOnly (p : Processor) (names : List String) : Prop :=
  ∀ v span input lines options reparse reparse',
    (∀ name ∈ names, ∀ text offset, reparse name text offset = reparse' name text offset) →
    p v ⟨span, input, lines, options, reparse⟩ = p v ⟨span, input, lines, options, reparse'⟩

theorem LinkedRule.shape_congr {r : LinkedRule} {names : List String}
    (hr : ∀ p, r.processor = some p → p.AsksOnly names) (v : Value) (span : Span) (input : Input)
    (lines : Lines) (options : Options)
    {reparse reparse' : String → String → Nat → Except Failure (Option Value)}
    (h : ∀ name ∈ names, ∀ text offset, reparse name text offset = reparse' name text offset) :
    r.shape ⟨span, input, lines, options, reparse⟩ v =
      r.shape ⟨span, input, lines, options, reparse'⟩ v := by
  simp only [shape]
  cases r.fallback? v with
  | some v => rfl
  | none =>
    have hprocess : r.process ⟨span, input, lines, options, reparse⟩ (r.tagged v) =
        r.process ⟨span, input, lines, options, reparse'⟩ (r.tagged v) := by
      simp only [process]
      cases hp : r.processor with
      | none => rfl
      | some p => exact hr p hp _ _ _ _ _ _ _ h
    simp only [hprocess]
    rfl

theorem forall₂_getElem? {α β : Type} {R : α → β → Prop} {as : List α} {bs : List β}
    (h : List.Forall₂ R as bs) (i : Nat) : Option.Rel R as[i]? bs[i]? := by
  induction h generalizing i with
  | nil => exact .none
  | cons hab _ ih =>
    cases i with
    | zero => exact .some hab
    | succ i => exact ih i

namespace Grammar

/-- What a table is linked to. -/
structure LinkedTo (table : List RuleDef) (trivia : Option Terminal) (g : Grammar) : Prop where
  nodup : (table.map (·.name)).Nodup
  number : ∀ (id : Nat) (d : RuleDef), table[id]? = some d → g.index[d.name]? = some id
  named : ∀ (name : String) (id : Nat), g.index[name]? = some id →
    ∃ d, table[id]? = some d ∧ d.name = name
  rules : ∀ id : Nat, Option.Rel (fun d r => linkRule g.index d = .ok r) table[id]? g.rules[id]?
  trivia : trivia.mapM (linkTerminal "<trivia>") = .ok g.trivia

theorem linkedTo {table : List RuleDef} {trivia : Option Terminal} {g : Grammar}
    (h : link table trivia = .ok g) : LinkedTo table trivia g := by
  obtain ⟨index, hindex, h⟩ := bind_ok h
  obtain ⟨rules, hrules, h⟩ := bind_ok h
  obtain ⟨l, hl, h⟩ := bind_ok h
  cases h
  refine ⟨number_nodup hindex, fun id d hd => ?_, fun name id hid => ?_, fun id => ?_, hl⟩
  · rw [(number_ok hindex).2 id d hd, Nat.zero_add]
  · obtain hold | ⟨k, d, hd, hname, rfl⟩ := number_named hindex hid
    · simp at hold
    · rw [Nat.zero_add]
      exact ⟨d, hd, hname⟩
  · rw [List.getElem?_toArray]
    exact forall₂_getElem? (mapM_ok hrules) id

namespace LinkedTo

variable {table : List RuleDef} {trivia : Option Terminal} {g : Grammar}
  (h : LinkedTo table trivia g)

include h

theorem rule_at {id : Nat} {d : RuleDef} (hd : table[id]? = some d) :
    ∃ r, g.rules[id]? = some r ∧ linkRule g.index d = .ok r := by
  have hrel := h.rules id
  rw [hd] at hrel
  cases hr : g.rules[id]? with
  | none =>
    rw [hr] at hrel
    cases hrel
  | some r =>
    rw [hr] at hrel
    cases hrel with
    | some hlink => exact ⟨r, rfl, hlink⟩

theorem eq_of_name {d e : RuleDef} (hd : d ∈ table) (he : e ∈ table) (hname : d.name = e.name) :
    d = e :=
  List.inj_on_of_nodup_map h.nodup hd he hname

end LinkedTo

/-- A part of a table that is a table by itself. -/
structure Part (table part : List RuleDef) : Prop where
  subset : part ⊆ table
  nodup : (part.map (·.name)).Nodup
  closed : ∀ d ∈ part, ∀ name ∈ d.pattern.references, name ∈ part.map (·.name)

/-- The numbers of the rules that are in a part of the table. -/
def InPart (table part : List RuleDef) (id : Nat) : Prop :=
  ∃ d ∈ part, table[id]? = some d

/-- The numbers that rules have in a part of the table. -/
def partNumber (table : List RuleDef) (index : Std.HashMap String Nat) (id : Nat) : Nat :=
  (table[id]?.bind fun d => index[d.name]?).getD 0

section Part

variable {table part : List RuleDef} {trivia : Option Terminal} {g : Grammar}
  {index : Std.HashMap String Nat} (hg : LinkedTo table trivia g)
  (hindex : number 0 ∅ part = .ok index) (hpart : Part table part)

include hg hindex

theorem inPart_numbers {id : Nat} {d : RuleDef} (hd : d ∈ part) (hid : table[id]? = some d) :
    g.index[d.name]? = some id ∧ ∃ id', part[id']? = some d ∧ index[d.name]? = some id' ∧
      partNumber table index id = id' := by
  obtain ⟨id', hid'⟩ := List.getElem?_of_mem hd
  have hnumber : index[d.name]? = some id' := by
    rw [(number_ok hindex).2 id' d hid', Nat.zero_add]
  refine ⟨hg.number id d hid, id', hid', hnumber, ?_⟩
  rw [partNumber, hid, Option.bind_some, hnumber, Option.getD_some]

include hpart

theorem linkRule_renumber {d : RuleDef} (hd : d ∈ part) {r : LinkedRule}
    (hr : linkRule g.index d = .ok r) :
    linkRule index d = .ok (r.renumber (partNumber table index)) ∧
      LinkedPattern.Among (InPart table part) r.pattern := by
  obtain ⟨pattern, hpattern, hr⟩ := bind_ok hr
  cases hr
  have hreference : ∀ name ∈ d.pattern.references, ∀ i : RuleRef,
      linkReference d.name g.index name = .ok i →
      linkReference d.name index name = .ok (RuleRef.renumber (partNumber table index) i) ∧
        InPart table part i.id := by
    intro name hname i hi
    obtain ⟨rfl, hresolved⟩ := linkReference_ok hi
    obtain ⟨e, he, hname⟩ := List.mem_map.1 (hpart.closed d hd _ hname)
    obtain ⟨id, hid⟩ := List.getElem?_of_mem (hpart.subset he)
    obtain ⟨hgid, id', -, hid', hnumber⟩ := inPart_numbers hg hindex he hid
    rw [hname] at hgid hid'
    obtain rfl := Option.some.inj (hgid.symm.trans hresolved)
    refine ⟨?_, e, he, hid⟩
    simp only [linkReference, hid', RuleRef.renumber, hnumber]
  obtain ⟨hlink, hall⟩ := d.pattern.link_renumber hreference hpattern
  exact ⟨by simp only [linkRule, hlink]; rfl, hall⟩

end Part

theorem linkRule_processor {index : Std.HashMap String Nat} {d : RuleDef} {r : LinkedRule}
    (h : linkRule index d = .ok r) : r.processor = d.processor := by
  obtain ⟨pattern, -, h⟩ := bind_ok h
  cases h
  rfl

/-- A part of a table that holds the rules that processors ask for is linked to a grammar with the
same rules. -/
theorem exists_link_part {table part : List RuleDef} {trivia : Option Terminal} {g : Grammar}
    (hg : link table trivia = .ok g) (hpart : Part table part) {names : List String}
    (hasks : ∀ d ∈ table, ∀ p, d.processor = some p → p.AsksOnly names)
    (hnames : ∀ name ∈ names, name ∈ table.map (·.name) → name ∈ part.map (·.name)) :
    ∃ g' index, link part trivia = .ok g' ∧
      Renumbering g g' (· ∈ names) (InPart table part) (partNumber table index) := by
  have hg := linkedTo hg
  obtain ⟨index, hindex⟩ : ∃ index, number 0 ∅ part = .ok index :=
    exists_number (fun d _ => Std.HashMap.contains_empty) hpart.nodup
  have hrule : ∀ d ∈ part, ∃ r, linkRule index d = .ok r := by
    intro d hd
    obtain ⟨id, hid⟩ := List.getElem?_of_mem (hpart.subset hd)
    obtain ⟨r, -, hr⟩ := hg.rule_at hid
    exact ⟨_, (linkRule_renumber hg hindex hpart hd hr).1⟩
  obtain ⟨rules, hrules⟩ := exists_mapM hrule
  have hlink : link part trivia = .ok ⟨rules.toArray, index, g.trivia⟩ := by
    rw [link, hindex, hg.trivia]
    show (part.mapM (linkRule index) >>= fun rules => _) = _
    rw [hrules]
    rfl
  have hg' := linkedTo hlink
  have hnamed : ∀ (name : String) (id' : Nat), index[name]? = some id' →
      ∃ id, g.index[name]? = some id ∧ InPart table part id ∧ partNumber table index id = id' := by
    intro name id' hid'
    obtain ⟨d, hd, rfl⟩ := hg'.named name id' hid'
    have hmem := List.mem_of_getElem? hd
    obtain ⟨id, hid⟩ := List.getElem?_of_mem (hpart.subset hmem)
    obtain ⟨hgid, id'', -, hid'', hnumber⟩ := inPart_numbers hg hindex hmem hid
    obtain rfl := Option.some.inj (hid'.symm.trans hid'')
    exact ⟨id, hgid, ⟨d, hmem, hid⟩, hnumber⟩
  refine ⟨_, index, hlink, rfl, ?_, ?_, ?_, hnamed, ?_, ?_⟩
  case refine_1 =>
    rintro id ⟨d, hd, hid⟩
    obtain ⟨-, id', hid', -, rfl⟩ := inPart_numbers hg hindex hd hid
    obtain ⟨r, hr, hlinked⟩ := hg.rule_at hid
    obtain ⟨r', hr', hlinked'⟩ := hg'.rule_at hid'
    rw [(linkRule_renumber hg hindex hpart hd hlinked).1] at hlinked'
    obtain rfl := Except.ok.inj hlinked'
    rw [hr, hr', Option.map_some]
  case refine_2 =>
    rintro id r ⟨d, hd, hid⟩ hr
    obtain ⟨r', hr', hlinked⟩ := hg.rule_at hid
    obtain rfl := Option.some.inj (hr.symm.trans hr')
    exact (linkRule_renumber hg hindex hpart hd hlinked).2
  case refine_3 =>
    rintro i j ⟨d, hd, hi⟩ ⟨e, he, hj⟩ hij
    obtain ⟨hgi, i', hi', -, rfl⟩ := inPart_numbers hg hindex hd hi
    obtain ⟨hgj, j', hj', -, rfl⟩ := inPart_numbers hg hindex he hj
    rw [hij, hj'] at hi'
    obtain rfl := Option.some.inj hi'
    exact Option.some.inj (hgi.symm.trans hgj)
  case refine_4 =>
    intro name hname
    show index[name]? = g.index[name]?.map _
    cases hid : g.index[name]? with
    | none =>
      cases hid' : index[name]? with
      | none => rfl
      | some id' =>
        obtain ⟨id, hid'', -⟩ := hnamed name id' hid'
        cases hid.symm.trans hid''
    | some id =>
      obtain ⟨d, hd, rfl⟩ := hg.named name id hid
      obtain ⟨e, he, hename⟩ := List.mem_map.1
        (hnames _ hname (List.mem_map_of_mem (List.mem_of_getElem? hd)))
      obtain rfl := hg.eq_of_name (hpart.subset he) (List.mem_of_getElem? hd) hename
      obtain ⟨-, id', -, hid', hnumber⟩ := inPart_numbers hg hindex he hd
      rw [hid', Option.map_some, hnumber]
  case refine_5 =>
    rintro id r ⟨d, hd, hid⟩ hr v span input lines options reparse reparse' hreparse
    obtain ⟨r', hr', hlinked⟩ := hg.rule_at hid
    obtain rfl := Option.some.inj (hr.symm.trans hr')
    refine LinkedRule.shape_congr (fun p hp => ?_) v span input lines options hreparse
    rw [linkRule_processor hlinked] at hp
    exact hasks d (hpart.subset hd) p hp

end Grammar

end PhpSyntax.Peg

namespace PhpSyntax.Check

open Peg

section Linked

variable {ε τ ρ τ' ρ' : Type} {terminal : τ → Except ε τ'} {rule : ρ → Except ε ρ'}

theorem component_linked {cs : List (Component (Pattern τ ρ))}
    {ls : List (Component (Pattern τ' ρ'))} (h : Pattern.linkComponents terminal rule cs = .ok ls)
    {c : Component (Pattern τ ρ)} (hc : c ∈ cs) : ∃ q, c.pattern.link terminal rule = .ok q := by
  induction cs generalizing ls with
  | nil => cases hc
  | cons d rest ih =>
    obtain ⟨field, capture, p⟩ := d
    obtain ⟨q, hq, h⟩ := bind_ok h
    obtain ⟨linked, hl, -⟩ := bind_ok h
    cases hc with
    | head => exact ⟨q, hq⟩
    | tail _ hc => exact ih hl hc

theorem alternative_linked {ps : List (Pattern τ ρ)} {qs : List (Pattern τ' ρ')}
    (h : Pattern.linkAll terminal rule ps = .ok qs) {p : Pattern τ ρ} (hp : p ∈ ps) :
    ∃ q, p.link terminal rule = .ok q := by
  induction ps generalizing qs with
  | nil => cases hp
  | cons p' rest ih =>
    obtain ⟨q, hq, h⟩ := bind_ok h
    obtain ⟨linked, hl, -⟩ := bind_ok h
    cases hp with
    | head => exact ⟨q, hq⟩
    | tail _ hp => exact ih hl hp

/-- A linked pattern refers to rules that there are. -/
theorem Mentions.linked {p : Pattern τ ρ} {r : ρ} (h : Mentions p r) {q : Pattern τ' ρ'}
    (hq : p.link terminal rule = .ok q) : ∃ i, rule r = .ok i := by
  induction h generalizing q with
  | rule =>
    obtain ⟨i, hi, -⟩ := bind_ok hq
    exact ⟨i, hi⟩
  | sequence hc _ ih =>
    obtain ⟨linked, hl, -⟩ := bind_ok hq
    obtain ⟨q', hq'⟩ := component_linked hl hc
    exact ih hq'
  | choice hp _ ih =>
    obtain ⟨linked, hl, -⟩ := bind_ok hq
    obtain ⟨q', hq'⟩ := alternative_linked hl hp
    exact ih hq'
  | @item p separator _ _ _ _ ih =>
    cases separator with
    | none =>
      obtain ⟨q', hq', -⟩ := bind_ok hq
      exact ih hq'
    | some separator =>
      obtain ⟨q', hq', -⟩ := bind_ok hq
      exact ih hq'
  | separator _ ih =>
    obtain ⟨_, -, hq⟩ := bind_ok hq
    obtain ⟨q', hq', -⟩ := bind_ok hq
    exact ih hq'
  | optional _ ih =>
    obtain ⟨q', hq', -⟩ := bind_ok hq
    exact ih hq'
  | ahead _ ih =>
    obtain ⟨q', hq', -⟩ := bind_ok hq
    exact ih hq'
  | trivia _ ih =>
    obtain ⟨q', hq', -⟩ := bind_ok hq
    exact ih hq'
  | silent _ ih =>
    obtain ⟨q', hq', -⟩ := bind_ok hq
    exact ih hq'

end Linked

/-- Whether a name is reported as that of an unreachable rule. -/
def reportsUnreachable (table : List RuleDef) (roots : List String) (name : String) : Bool :=
  (unreachableWarnings table roots).contains ("Rule '" ++ name ++ "' is unreachable")

variable {table : List RuleDef} {roots : List String}

theorem reportsUnreachable_nil (name : String) : reportsUnreachable table [] name = false := rfl

/-- A rule is reported exactly if no chain of references leads to it. -/
theorem reportsUnreachable_iff (hroots : roots ≠ []) (hnames : (table.map (·.name)).Nodup)
    {d : RuleDef} (hd : d ∈ table) :
    reportsUnreachable table roots d.name = true ↔ ¬Reaches table roots d.name := by
  have hinj : ∀ a b : String,
      "Rule '" ++ a ++ "' is unreachable" = "Rule '" ++ b ++ "' is unreachable" → a = b := by
    intro a b h
    simpa [← String.toList_inj] using h
  rw [reportsUnreachable, unreachableWarnings, if_neg (by simpa using hroots),
    List.contains_iff_mem, List.mem_map]
  constructor
  · rintro ⟨e, he, hmessage⟩
    rw [← hinj _ _ hmessage, ← mem_reachable hnames]
    simpa using (List.mem_filter.1 he).2
  · intro h
    refine ⟨d, List.mem_filter.2 ⟨hd, ?_⟩, rfl⟩
    rw [← mem_reachable hnames] at h
    simpa using h

/-- The rules that are not reported are a table by themselves. -/
theorem part_of_reported {trivia : Option Terminal} {g : Grammar}
    (hg : Grammar.LinkedTo table trivia g) {part : List RuleDef}
    (hpart : part.Perm (table.filter fun d => !reportsUnreachable table roots d.name)) :
    Grammar.Part table part := by
  have hmem : ∀ d, d ∈ part ↔ d ∈ table ∧ reportsUnreachable table roots d.name = false := by
    intro d
    rw [hpart.mem_iff, List.mem_filter, Bool.not_eq_true']
  refine ⟨fun d hd => ((hmem d).1 hd).1, ?_, fun d hd name hname => ?_⟩
  · refine (hpart.map _).nodup_iff.2 ?_
    exact hg.nodup.sublist (List.filter_sublist.map _)
  · obtain ⟨hd, hkept⟩ := (hmem d).1 hd
    have hmention := mem_references.1 hname
    obtain ⟨id, hid⟩ := List.getElem?_of_mem hd
    obtain ⟨r, -, hlink⟩ := hg.rule_at hid
    obtain ⟨pattern, hpattern, -⟩ := bind_ok hlink
    obtain ⟨ref, href⟩ := hmention.linked hpattern
    obtain ⟨rfl, hresolved⟩ := Grammar.linkReference_ok href
    obtain ⟨e, he, hename⟩ := hg.named _ _ hresolved
    have he := List.mem_of_getElem? he
    refine List.mem_map.2 ⟨e, (hmem e).2 ⟨he, ?_⟩, hename⟩
    by_cases hroots : roots = []
    · subst hroots
      exact reportsUnreachable_nil _
    · rw [← Bool.not_eq_true, reportsUnreachable_iff hroots hg.nodup he, not_not, hename]
      rw [← Bool.not_eq_true, reportsUnreachable_iff hroots hg.nodup hd, not_not] at hkept
      exact .reference hkept hd hmention

/-- The roots are not reported. -/
theorem root_in_part {trivia : Option Terminal} {g : Grammar}
    (hg : Grammar.LinkedTo table trivia g) {part : List RuleDef}
    (hpart : part.Perm (table.filter fun d => !reportsUnreachable table roots d.name))
    {name : String} (hname : name ∈ roots) (hmem : name ∈ table.map (·.name)) :
    name ∈ part.map (·.name) := by
  obtain ⟨d, hd, rfl⟩ := List.mem_map.1 hmem
  refine List.mem_map_of_mem (hpart.mem_iff.2 (List.mem_filter.2 ⟨hd, ?_⟩))
  rw [Bool.not_eq_true', ← Bool.not_eq_true,
    reportsUnreachable_iff (List.ne_nil_of_mem hname) hg.nodup hd, not_not]
  exact .root hname

/-- Rules are reported as unreachable exactly if no chain of references leads to them from the
roots, of which there must be one. A table without the reported rules, in any order, is a grammar
that parses alike from the roots, if processors have no other rules parse texts. -/
theorem unreachable_dispensable {trivia : Option Terminal} {g : Grammar}
    (hlink : Grammar.link table trivia = .ok g)
    (hasks : ∀ d ∈ table, ∀ p, d.processor = some p → p.AsksOnly roots) :
    (roots ≠ [] → ∀ d ∈ table,
      (reportsUnreachable table roots d.name = true ↔ ¬Reaches table roots d.name)) ∧
    ∀ part : List RuleDef,
      part.Perm (table.filter fun d => !reportsUnreachable table roots d.name) →
      ∃ g', Grammar.link part trivia = .ok g' ∧
        ∀ (lines : Lines) (options : Options) (limit : Nat) (input : Input)
          (runs : List (String × Bool)), (∀ start ∈ runs, start.1 ∈ roots) →
          let session := (Session.start ⟨g, lines, options, limit⟩ input).after Session.run runs
          let session' := (Session.start ⟨g', lines, options, limit⟩ input).after Session.run runs
          session'.furthest = session.furthest ∧ ∀ rule ∈ roots, ∀ skip,
            (session'.run rule skip).1 = (session.run rule skip).1 := by
  have hg := Grammar.linkedTo hlink
  refine ⟨fun hroots d hd => reportsUnreachable_iff hroots hg.nodup hd, fun part hpart => ?_⟩
  obtain ⟨g', index, hlink', hr⟩ := Grammar.exists_link_part hlink (part_of_reported hg hpart)
    hasks fun name hname => root_in_part hg hpart hname
  refine ⟨g', hlink', fun lines options limit input runs hruns => ?_⟩
  intro session session'
  have hstart : (Session.start ⟨g, lines, options, limit⟩ input).Alike g'
      (Grammar.InPart table part) (Grammar.partNumber table index)
      (Session.start ⟨g', lines, options, limit⟩ input) := by
    refine ⟨rfl, rfl, sane_empty _, sane_empty _, rfl, rfl, rfl, fun c _ => ?_⟩
    simp only [Session.progress, Session.start, Memory.empty, Std.HashMap.getElem?_empty]
  have hafter : session.Alike g' (Grammar.InPart table part) (Grammar.partNumber table index)
      session' := hstart.after hr hruns
  have hr : Renumbering session.setting.grammar g' (· ∈ roots) (Grammar.InPart table part)
      (Grammar.partNumber table index) := by
    rw [(sane_after (.start ⟨g, lines, options, limit⟩ input) (sane_empty _) runs).1]
    exact hr
  exact ⟨hafter.progress.furthest, fun rule hrule skip => (hafter.run hr hrule skip).1⟩

def tableWithUnused : List RuleDef :=
  [.ofPattern "Start" (.rule "Text"), .ofPattern "Unused" .endOfInput,
    .ofPattern "Text" .endOfInput]

/-- That rule can be left out, and the others exchanged. -/
theorem unused_dispensable :
    ∃ g g', Grammar.link tableWithUnused (some (.ofSource " ")) = .ok g ∧
      Grammar.link [.ofPattern "Text" .endOfInput, .ofPattern "Start" (.rule "Text")]
        (some (.ofSource " ")) = .ok g' ∧
      ¬Reaches tableWithUnused ["Start"] "Unused" ∧
      ∀ lines options limit input skip,
        ((Session.start ⟨g', lines, options, limit⟩ input).run "Start" skip).1 =
          ((Session.start ⟨g, lines, options, limit⟩ input).run "Start" skip).1 := by
  obtain ⟨g, hg⟩ := Grammar.exists_link
    (show Grammar.links tableWithUnused (.ofSource " ") = true by decide +kernel)
  have hasks : ∀ d ∈ tableWithUnused, ∀ p, d.processor = some p → p.AsksOnly ["Start"] := by
    simp [tableWithUnused, Rule.ofPattern]
  obtain ⟨hreported, hpruned⟩ := unreachable_dispensable hg hasks
  obtain ⟨g', hg', halike⟩ :=
    hpruned [.ofPattern "Text" .endOfInput, .ofPattern "Start" (.rule "Text")] (.swap _ _ _)
  refine ⟨g, g', hg, hg', ?_, fun lines options limit input skip => ?_⟩
  · exact (hreported (List.cons_ne_nil _ _) (.ofPattern "Unused" .endOfInput)
      (by simp [tableWithUnused])).1 (by decide +kernel)
  · exact (halike lines options limit input [] (by simp)).2 "Start" (by simp) skip

def lone : List RuleDef :=
  [.ofPattern "A" .endOfInput]

/-- Without roots nothing is reported, although no chain of references leads to any rule. -/
theorem unreachable_unreported_without_roots :
    (∃ g, Grammar.link lone (some (.ofSource " ")) = .ok g) ∧
      (∀ d ∈ lone, ∀ p, d.processor = some p → p.AsksOnly []) ∧
      ¬Reaches lone [] "A" ∧ reportsUnreachable lone [] "A" = false := by
  refine ⟨Grammar.exists_link (by decide +kernel), by simp [lone, Rule.ofPattern], fun h => ?_, rfl⟩
  have hreached : "A" ∈ reachable lone [] := (mem_reachable (by decide)).2 h
  exact absurd hreached List.not_mem_nil

end PhpSyntax.Check
