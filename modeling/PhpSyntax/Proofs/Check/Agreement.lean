import PhpSyntax.Proofs.Check.Pruning
import PhpSyntax.Proofs.Peg.Occurring

namespace PhpSyntax.Check

open Peg

section Names

variable {τ ρ : Type} {table : List (Rule τ ρ)}

theorem repeatedNames_eq_nil {seen names : List String} :
    repeatedNames seen names = [] ↔ names.Nodup ∧ ∀ name ∈ names, name ∉ seen := by
  induction names generalizing seen with
  | nil => simp [repeatedNames]
  | cons name rest ih =>
    rw [repeatedNames]
    split
    · rename_i hseen
      simp [List.contains_iff_mem.1 hseen]
    · rename_i hnew
      have hnew : name ∉ seen := by simpa using hnew
      rw [ih, List.nodup_cons, List.forall_mem_cons]
      simp only [List.mem_cons, not_or]
      constructor
      · rintro ⟨hrest, h⟩
        exact ⟨⟨fun hmem => (h name hmem).1 rfl, hrest⟩, hnew, fun n hn => (h n hn).2⟩
      · rintro ⟨⟨hname, hrest⟩, -, h⟩
        exact ⟨hrest, fun n hn => ⟨fun heq => hname (heq ▸ hn), h n hn⟩⟩

theorem duplicateErrors_eq_nil : duplicateErrors table = [] ↔ (table.map (·.name)).Nodup := by
  rw [duplicateErrors, List.map_eq_nil_iff, repeatedNames_eq_nil]
  simp

theorem referenceErrors_eq_nil [NamesRule ρ] : referenceErrors table = [] ↔
    ∀ d ∈ table, ∀ r ∈ d.pattern.references, ruleName r ∈ table.map (·.name) := by
  simp [referenceErrors, List.flatMap_eq_nil_iff]

end Names

section Written

theorem matchesEmpty_read {l : Lexeme} (h : l.Read) :
    matchesEmpty l.toTerminal = matchesEmpty l := by
  have hlexeme : l.toTerminal.lexeme? = some l := by
    rw [Terminal.lexeme?, h]
    rfl
  show l.toTerminal.lexeme?.any matchesEmpty = matchesEmpty l
  rw [hlexeme]
  rfl

variable {Q : RuleRef → Prop} (nullable : List String)

mutual

/-- A linked pattern can match nothing where the one that was written can. -/
theorem isNullable_written : (q : LinkedPattern) → q.Every Lexeme.Read Q →
    isNullable nullable q.written = isNullable nullable q
  | .terminal _, h => matchesEmpty_read h
  | .scan _, _ => rfl
  | .rule _, _ => rfl
  | .sequence components, h => allNullable_written components h
  | .choice alternatives, h => anyNullable_written alternatives h
  | .repetition item none _ _, h => congrArg (_ || ·) (isNullable_written item h)
  | .repetition item (some _) _ _, h => congrArg (_ || ·) (isNullable_written item h.1)
  | .optional _, _ => rfl
  | .ahead _ _, _ => rfl
  | .endOfInput, _ => rfl
  | .silent p, h => isNullable_written p h
  | .trivia _ p, h => isNullable_written p h

theorem allNullable_written : (cs : List (Component LinkedPattern)) →
    Pattern.EveryComponent Lexeme.Read Q cs →
    allNullable nullable (Pattern.mapComponents Lexeme.toTerminal RuleRef.name cs) =
      allNullable nullable cs
  | [], _ => rfl
  | ⟨_, _, p⟩ :: rest, h =>
    congrArg₂ (· && ·) (isNullable_written p h.1) (allNullable_written rest h.2)

theorem anyNullable_written : (ps : List LinkedPattern) →
    Pattern.EveryAlternative Lexeme.Read Q ps →
    anyNullable nullable (Pattern.mapAll Lexeme.toTerminal RuleRef.name ps) =
      anyNullable nullable ps
  | [], _ => rfl
  | p :: rest, h =>
    congrArg₂ (· || ·) (isNullable_written p h.1) (anyNullable_written rest h.2)

end

mutual

theorem repeatsNullable_written : (q : LinkedPattern) → q.Every Lexeme.Read Q →
    repeatsNullable nullable q.written = repeatsNullable nullable q
  | .terminal _, _ => rfl
  | .rule _, _ => rfl
  | .scan _, _ => rfl
  | .endOfInput, _ => rfl
  | .sequence components, h => componentsRepeatNullable_written components h
  | .choice alternatives, h => someRepeatsNullable_written alternatives h
  | .repetition item none _ _, h =>
    congrArg₂ (· || ·) (isNullable_written nullable item h) (repeatsNullable_written item h)
  | .repetition item (some separator) _ _, h =>
    congrArg₂ (· || ·) (repeatsNullable_written item h.1) (repeatsNullable_written separator h.2)
  | .optional p, h => repeatsNullable_written p h
  | .ahead _ p, h => repeatsNullable_written p h
  | .silent p, h => repeatsNullable_written p h
  | .trivia _ p, h => repeatsNullable_written p h

theorem componentsRepeatNullable_written : (cs : List (Component LinkedPattern)) →
    Pattern.EveryComponent Lexeme.Read Q cs →
    componentsRepeatNullable nullable
        (Pattern.mapComponents Lexeme.toTerminal RuleRef.name cs) =
      componentsRepeatNullable nullable cs
  | [], _ => rfl
  | ⟨_, _, p⟩ :: rest, h =>
    congrArg₂ (· || ·) (repeatsNullable_written p h.1) (componentsRepeatNullable_written rest h.2)

theorem someRepeatsNullable_written : (ps : List LinkedPattern) →
    Pattern.EveryAlternative Lexeme.Read Q ps →
    someRepeatsNullable nullable (Pattern.mapAll Lexeme.toTerminal RuleRef.name ps) =
      someRepeatsNullable nullable ps
  | [], _ => rfl
  | p :: rest, h =>
    congrArg₂ (· || ·) (repeatsNullable_written p h.1) (someRepeatsNullable_written rest h.2)

end

mutual

theorem endsAtEnd_written : (q : LinkedPattern) → endsAtEnd q.written = endsAtEnd q
  | .endOfInput => rfl
  | .sequence components => lastEndsAtEnd_written components
  | .choice alternatives =>
    congrArg₂ (!· && ·) (by cases alternatives <;> rfl) (allEndAtEnd_written alternatives)
  | .trivia _ p => endsAtEnd_written p
  | .silent p => endsAtEnd_written p
  | .terminal _ => rfl
  | .rule _ => rfl
  | .repetition _ none _ _ => rfl
  | .repetition _ (some _) _ _ => rfl
  | .optional _ => rfl
  | .ahead _ _ => rfl
  | .scan _ => rfl

theorem lastEndsAtEnd_written : (cs : List (Component LinkedPattern)) →
    lastEndsAtEnd (Pattern.mapComponents Lexeme.toTerminal RuleRef.name cs) = lastEndsAtEnd cs
  | [] => rfl
  | [⟨_, _, p⟩] => endsAtEnd_written p
  | ⟨_, _, _⟩ :: c :: rest => lastEndsAtEnd_written (c :: rest)

theorem allEndAtEnd_written : (ps : List LinkedPattern) →
    allEndAtEnd (Pattern.mapAll Lexeme.toTerminal RuleRef.name ps) = allEndAtEnd ps
  | [] => rfl
  | p :: rest => congrArg₂ (· && ·) (endsAtEnd_written p) (allEndAtEnd_written rest)

end

end Written

section Report

variable {rules : List LinkedRule} (roots : List String)

theorem references_written (r : LinkedRule) :
    r.written.pattern.references.map ruleName = r.pattern.references.map ruleName := by
  rw [LinkedRule.written, (Pattern.contents_map _ _ _).2, List.map_map]
  rfl

theorem find?_written (rules : List LinkedRule) (name : String) :
    (rules.map LinkedRule.written).find? (·.name == name) =
      (rules.find? (·.name == name)).map LinkedRule.written := by
  rw [List.find?_map]
  rfl

theorem growNullable_written
    (h : ∀ r ∈ rules, ∃ Q, r.pattern.Every Lexeme.Read Q) (nullable : List String) :
    growNullable (rules.map LinkedRule.written) nullable = growNullable rules nullable := by
  rw [growNullable, List.foldl_map]
  refine List.foldl_ext _ _ _ fun found r hr => ?_
  obtain ⟨Q, hQ⟩ := h r hr
  have hr : isNullable found r.written.pattern = isNullable found r.pattern :=
    isNullable_written found r.pattern hQ
  simp only [hr]
  rfl

theorem nullableRules_written (h : ∀ r ∈ rules, ∃ Q, r.pattern.Every Lexeme.Read Q) :
    nullableRules (rules.map LinkedRule.written) = nullableRules rules := by
  have hfrom : ∀ rounds found, nullableFrom (rules.map LinkedRule.written) rounds found =
      nullableFrom rules rounds found := by
    intro rounds
    induction rounds with
    | zero => exact fun _ => rfl
    | succ rounds ih =>
      intro found
      simp only [nullableFrom, growNullable_written h, ih]
  rw [nullableRules, hfrom, List.length_map]
  rfl

theorem reachable_written :
    reachable (rules.map LinkedRule.written) roots = reachable rules roots := by
  have hof : ∀ name, referencesOf (rules.map LinkedRule.written) name = referencesOf rules name := by
    intro name
    rw [referencesOf, referencesOf, ← List.map_reverse, find?_written]
    cases rules.reverse.find? (·.name == name) with
    | none => rfl
    | some r => exact references_written r
  have hfrom : ∀ fuel reached pending,
      reachFrom (rules.map LinkedRule.written) fuel reached pending =
        reachFrom rules fuel reached pending := by
    intro fuel
    induction fuel with
    | zero => exact fun _ _ => rfl
    | succ fuel ih =>
      intro reached pending
      cases pending with
      | nil => rfl
      | cons name pending => simp only [reachFrom, hof, ih]
  have hcount : referenceCount (rules.map LinkedRule.written) = referenceCount rules := by
    simp only [referenceCount, List.flatMap_map, List.length_flatMap]
    refine congrArg List.sum (List.map_congr_left fun r _ => ?_)
    simpa using congrArg List.length (references_written r)
  rw [reachable, hfrom, hcount]
  rfl

/-- Linked rules are reported on as the rules that were written. -/
theorem report_written (h : ∀ r ∈ rules, ∃ Q, r.pattern.Every Lexeme.Read Q) :
    report (rules.map LinkedRule.written) roots = report rules roots := by
  have hnames : (rules.map LinkedRule.written).map (·.name) = rules.map (·.name) := by
    rw [List.map_map]
    rfl
  have hduplicates : duplicateErrors (rules.map LinkedRule.written) = duplicateErrors rules := by
    rw [duplicateErrors, hnames]
    rfl
  have hreferences : referenceErrors (rules.map LinkedRule.written) = referenceErrors rules := by
    simp only [referenceErrors, hnames, List.flatMap_map, references_written]
    rfl
  have hmissing :
      missingRootErrors (rules.map LinkedRule.written) roots = missingRootErrors rules roots := by
    simp only [missingRootErrors, hnames]
  have hnullable : nullableErrors (rules.map LinkedRule.written) = nullableErrors rules := by
    simp only [nullableErrors, nullableRules_written h, List.filter_map, List.map_map]
    refine congrArg (List.map _) (List.filter_congr fun r hr => ?_)
    obtain ⟨Q, hQ⟩ := h r hr
    exact repeatsNullable_written _ r.pattern hQ
  have hopen :
      openRootWarnings (rules.map LinkedRule.written) roots = openRootWarnings rules roots := by
    refine congrArg (List.map _) (List.filter_congr fun root _ => ?_)
    rw [find?_written]
    cases rules.find? (·.name == root) with
    | none => rfl
    | some r => exact congrArg (!·) (endsAtEnd_written r.pattern)
  have hunreachable :
      unreachableWarnings (rules.map LinkedRule.written) roots = unreachableWarnings rules roots := by
    simp only [unreachableWarnings, reachable_written, List.filter_map, List.map_map]
    rfl
  have halias : aliasSuggestions (rules.map LinkedRule.written) = aliasSuggestions rules := by
    simp only [aliasSuggestions, List.filter_map, List.map_map]
    rfl
  simp only [report, hduplicates, hreferences, hmissing, hnullable, hopen, hunreachable, halias]

end Report

section Link

variable {table : List RuleDef} {trivia : Option Terminal} {g : Grammar}

/-- A rule of a linked grammar has the number of its name, and no other rule has that name. -/
theorem resolved_iff (hg : Grammar.LinkedTo table trivia g) {ref : RuleRef}
    (href : ref.Resolved g.index) (id : Nat) :
    (∃ r, g.rules[id]? = some r ∧ r.name = ref.name) ↔ id = ref.id := by
  constructor
  · rintro ⟨r, hr, hname⟩
    have hrel := hg.rules id
    rw [hr] at hrel
    cases htable : table[id]? with
    | none =>
      rw [htable] at hrel
      cases hrel
    | some d =>
      rw [htable] at hrel
      cases hrel with
      | some hlink =>
        obtain ⟨rfl, -⟩ := Grammar.linkRule_ok hlink
        have hid : g.index[r.name]? = some id := hg.number id _ htable
        rw [hname] at hid
        exact Option.some.inj (hid.symm.trans href)
  · rintro rfl
    obtain ⟨d, hd, hname⟩ := hg.named _ _ href
    obtain ⟨r, hr, hlink⟩ := hg.rule_at hd
    obtain ⟨rfl, -⟩ := Grammar.linkRule_ok hlink
    exact ⟨r, hr, hname⟩

theorem whole_of_link (hlink : Grammar.link table trivia = .ok g) : g.Whole where
  every id r hr := (Grammar.link_rules hlink).2 r (List.mem_of_getElem? (by simpa using hr))
  named name id hid := by
    have hg := Grammar.linkedTo hlink
    obtain ⟨d, hd, -⟩ := hg.named name id hid
    obtain ⟨r, hr, -⟩ := hg.rule_at hd
    exact ⟨r, hr⟩

theorem trivia_read (hlink : Grammar.link table trivia = .ok g) :
    g.trivia.map Lexeme.toTerminal = trivia ∧ ∀ l ∈ g.trivia, l.Read := by
  cases trivia with
  | none =>
    have htrivia := (Grammar.linkedTo hlink).trivia
    rw [Option.mapM_none] at htrivia
    rw [← Except.ok.inj htrivia]
    exact ⟨rfl, nofun⟩
  | some t =>
    obtain ⟨l, hl, rfl, hread⟩ := Grammar.trivia_of_link hlink
    rw [hl]
    refine ⟨rfl, ?_⟩
    rintro _ ⟨⟩
    exact hread

/-- Nothing that a parse with a grammar can come to is missing. -/
structure Complete (table : List RuleDef) (trivia : Option Terminal) (g : Grammar) : Prop where
  written : g.rules.toList.map LinkedRule.written = table
  /-- A reference bears the number of the only rule with its name. -/
  numbered : ∀ r ∈ g.rules, ∀ ref, Mentions r.pattern ref → ∀ id : Nat,
    (∃ r', g.rules[id]? = some r' ∧ r'.name = ref.name) ↔ id = ref.id
  read : ∀ r ∈ g.rules, ∀ l ∈ r.pattern.terminals, l.Read
  trivia : g.trivia.map Lexeme.toTerminal = trivia ∧ ∀ l ∈ g.trivia, l.Read
  /-- No call in a session, or in a parse nested in it, is one of a missing rule. -/
  called : ∀ lines options limit source input id offset skip σ,
    Occurs ⟨g, lines, options, limit⟩ source input (.call id offset skip) σ →
      ∃ r, g.rules[id]? = some r
  /-- No terminal is tried that was not read. -/
  tried : ∀ lines options limit source input l offset skip σ,
    Occurs ⟨g, lines, options, limit⟩ source input (.pattern (.terminal l) skip offset) σ → l.Read

theorem complete_of_link (hlink : Grammar.link table trivia = .ok g) :
    Complete table trivia g := by
  have hg := Grammar.linkedTo hlink
  obtain ⟨hwritten, hevery⟩ := Grammar.link_rules hlink
  have hlisted : ∀ r ∈ g.rules, (∀ l ∈ r.pattern.terminals, l.Read) ∧
      ∀ ref ∈ r.pattern.references, ref.Resolved g.index :=
    fun r hr => (hevery r hr.val).listed
  refine ⟨hwritten, fun r hr ref href id => ?_, fun r hr => (hlisted r hr).1, trivia_read hlink,
    ?_, ?_⟩
  · exact resolved_iff hg ((hlisted r hr).2 ref (mem_references.2 href)) id
  · intro lines options limit source input id offset skip σ h
    exact h.called (whole_of_link hlink)
  · intro lines options limit source input l offset skip σ h
    exact h.tried (whole_of_link hlink)

/-- A table that is linked is not reported on for its names, and its terminals can be read. -/
theorem unreported_of_link (hlink : Grammar.link table trivia = .ok g) :
    duplicateErrors table = [] ∧ referenceErrors table = [] ∧
      (∀ d ∈ table, ∀ t ∈ d.pattern.terminals, t.program?.isSome = true) ∧
      ∀ t ∈ trivia, t.program?.isSome = true := by
  have hg := Grammar.linkedTo hlink
  obtain ⟨hwritten, hevery⟩ := Grammar.link_rules hlink
  obtain ⟨htrivia, hread⟩ := trivia_read hlink
  have hof : ∀ d ∈ table, ∃ r ∈ g.rules.toList, r.written = d := by
    rw [← hwritten]
    exact fun d hd => List.mem_map.1 hd
  refine ⟨duplicateErrors_eq_nil.2 hg.nodup, referenceErrors_eq_nil.2 ?_, ?_, ?_⟩
  · intro d hd name hname
    obtain ⟨r, hr, rfl⟩ := hof d hd
    rw [LinkedRule.written, (Pattern.contents_map ..).2] at hname
    obtain ⟨ref, href, rfl⟩ := List.mem_map.1 hname
    obtain ⟨e, he, hename⟩ := hg.named _ _ ((hevery r hr).listed.2 ref href)
    exact List.mem_map.2 ⟨e, List.mem_of_getElem? he, hename⟩
  · intro d hd t ht
    obtain ⟨r, hr, rfl⟩ := hof d hd
    rw [LinkedRule.written, (Pattern.contents_map ..).1] at ht
    obtain ⟨l, hl, rfl⟩ := List.mem_map.1 ht
    rw [(hevery r hr).listed.1 l hl]
    rfl
  · intro t ht
    rw [← htrivia] at ht
    obtain ⟨l, hl, rfl⟩ := Option.mem_map.1 ht
    rw [hread l hl]
    rfl

/-- A table is linked exactly if no name is reported as coming twice or as undefined and every
terminal can be read. What it is linked to lacks nothing, and is reported on as the table is. -/
theorem linking_complete (table : List RuleDef) (trivia : Option Terminal) :
    ((∃ g, Grammar.link table trivia = .ok g) ↔
      duplicateErrors table = [] ∧ referenceErrors table = [] ∧
        (∀ d ∈ table, ∀ t ∈ d.pattern.terminals, t.program?.isSome = true) ∧
        ∀ t ∈ trivia, t.program?.isSome = true) ∧
    ∀ g, Grammar.link table trivia = .ok g →
      Complete table trivia g ∧ ∀ roots, reportGrammar g roots = report table roots := by
  refine ⟨⟨?_, ?_⟩, fun g hlink => ⟨complete_of_link hlink, fun roots => ?_⟩⟩
  · rintro ⟨g, hlink⟩
    exact unreported_of_link hlink
  · rintro ⟨hduplicates, hreferences, hterminals, htrivia⟩
    exact Grammar.exists_link_of (duplicateErrors_eq_nil.1 hduplicates)
      (referenceErrors_eq_nil.1 hreferences) hterminals htrivia
  · obtain ⟨hwritten, hevery⟩ := Grammar.link_rules hlink
    rw [reportGrammar, ← hwritten]
    exact (report_written roots fun r hr => ⟨_, hevery r hr⟩).symm

/-- A rule may be referred to before it is defined. A name that comes twice, one that is not there
and a regex that cannot be read are not linked. -/
theorem linking_complete_forward :
    (∃ g, Grammar.link [.ofPattern "A" (.rule "B"), .ofPattern "B" .endOfInput] none = .ok g ∧
      (reportGrammar g ["A"]).errors = []) ∧
      (¬∃ g, Grammar.link [.ofPattern "A" .endOfInput, .ofPattern "A" .endOfInput] none = .ok g) ∧
      (¬∃ g, Grammar.link [.ofPattern "A" (.optional (.rule "B"))] none = .ok g) ∧
      ¬∃ g, Grammar.link [.ofPattern "A" .endOfInput] (some (.ofSource "(")) = .ok g := by
  refine ⟨?_, fun h => ?_, fun h => ?_, fun h => ?_⟩
  · obtain ⟨hiff, hlinked⟩ := linking_complete
      [.ofPattern "A" (.rule "B"), .ofPattern "B" .endOfInput] none
    obtain ⟨g, hg⟩ := hiff.2 ⟨rfl, rfl, by simp [Rule.ofPattern, Pattern.terminals], nofun⟩
    refine ⟨g, hg, ?_⟩
    rw [(hlinked g hg).2]
    rfl
  · exact absurd ((linking_complete _ none).1.1 h).1 (by decide)
  · exact absurd ((linking_complete _ none).1.1 h).2.1 (by decide)
  · have hread := ((linking_complete _ (some (.ofSource "("))).1.1 h).2.2.2 _ rfl
    exact absurd hread (by decide +kernel)

end Link

end PhpSyntax.Check
