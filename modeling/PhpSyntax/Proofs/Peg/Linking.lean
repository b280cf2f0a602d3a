import PhpSyntax.Peg.Build
import PhpSyntax.Proofs.Peg.Relation

namespace PhpSyntax.Peg

theorem bind_ok {ε α β : Type} {x : Except ε α} {f : α → Except ε β} {b : β}
    (h : x >>= f = .ok b) : ∃ a, x = .ok a ∧ f a = .ok b := by
  cases x with
  | ok a => exact ⟨a, rfl, h⟩
  | error e => cases h

theorem mapM_ok {ε α β : Type} {f : α → Except ε β} {as : List α} {bs : List β}
    (h : as.mapM f = .ok bs) : List.Forall₂ (fun a b => f a = .ok b) as bs := by
  induction as generalizing bs with
  | nil =>
    cases h
    exact .nil
  | cons a as ih =>
    rw [List.mapM_cons] at h
    obtain ⟨b, hb, h⟩ := bind_ok h
    obtain ⟨rest, hrest, h⟩ := bind_ok h
    cases h
    exact .cons hb (ih hrest)

namespace Pattern

section Map

variable {τ ρ τ' ρ' : Type} (f : τ → τ') (g : ρ → ρ')

mutual

/-- A pattern with other terminals and rules. -/
def map : Pattern τ ρ → Pattern τ' ρ'
  | .terminal t => .terminal (f t)
  | .rule r => .rule (g r)
  | .sequence components => .sequence (mapComponents components)
  | .choice alternatives => .choice (mapAll alternatives)
  | .repetition item none least trailing => .repetition (map item) none least trailing
  | .repetition item (some separator) least trailing =>
    .repetition (map item) (some (map separator)) least trailing
  | .optional p => .optional (map p)
  | .ahead negated p => .ahead negated (map p)
  | .trivia skip p => .trivia skip (map p)
  | .silent p => .silent (map p)
  | .scan s => .scan s
  | .endOfInput => .endOfInput

def mapComponents : List (Component (Pattern τ ρ)) → List (Component (Pattern τ' ρ'))
  | [] => []
  | ⟨field, capture, p⟩ :: rest => ⟨field, capture, map p⟩ :: mapComponents rest

def mapAll : List (Pattern τ ρ) → List (Pattern τ' ρ')
  | [] => []
  | p :: rest => map p :: mapAll rest

end

mutual

theorem scanners_map : (p : Pattern τ ρ) → (p.map f g).scanners = p.scanners
  | .terminal _ => rfl
  | .rule _ => rfl
  | .sequence components => componentScanners_map components
  | .choice alternatives => allScanners_map alternatives
  | .repetition item none _ _ => scanners_map item
  | .repetition item (some separator) _ _ =>
    congrArg₂ (· ++ ·) (scanners_map item) (scanners_map separator)
  | .optional p => scanners_map p
  | .ahead _ p => scanners_map p
  | .trivia _ p => scanners_map p
  | .silent p => scanners_map p
  | .scan _ => rfl
  | .endOfInput => rfl

theorem componentScanners_map : (components : List (Component (Pattern τ ρ))) →
    componentScanners (mapComponents f g components) = componentScanners components
  | [] => rfl
  | ⟨_, _, p⟩ :: rest => congrArg₂ (· ++ ·) (scanners_map p) (componentScanners_map rest)

theorem allScanners_map : (ps : List (Pattern τ ρ)) →
    allScanners (mapAll f g ps) = allScanners ps
  | [] => rfl
  | p :: rest => congrArg₂ (· ++ ·) (scanners_map p) (allScanners_map rest)

end

end Map

section Every

variable {τ ρ : Type} (P : τ → Prop) (Q : ρ → Prop)

mutual

/-- Every terminal and every rule in a pattern is such. -/
def Every : Pattern τ ρ → Prop
  | .terminal t => P t
  | .rule r => Q r
  | .sequence components => EveryComponent components
  | .choice alternatives => EveryAlternative alternatives
  | .repetition item none _ _ => Every item
  | .repetition item (some separator) _ _ => Every item ∧ Every separator
  | .optional p => Every p
  | .ahead _ p => Every p
  | .trivia _ p => Every p
  | .silent p => Every p
  | .scan _ => True
  | .endOfInput => True

def EveryComponent : List (Component (Pattern τ ρ)) → Prop
  | [] => True
  | ⟨_, _, p⟩ :: rest => Every p ∧ EveryComponent rest

def EveryAlternative : List (Pattern τ ρ) → Prop
  | [] => True
  | p :: rest => Every p ∧ EveryAlternative rest

end

end Every

section Link

variable {ε τ ρ τ' ρ' : Type} {terminal : τ → Except ε τ'} {rule : ρ → Except ε ρ'}
  {f : τ' → τ} {g : ρ' → ρ} {P : τ' → Prop} {Q : ρ' → Prop}

mutual

theorem link_ok (ht : ∀ t l, terminal t = .ok l → f l = t ∧ P l)
    (hr : ∀ r i, rule r = .ok i → g i = r ∧ Q i) :
    (p : Pattern τ ρ) → {q : Pattern τ' ρ'} → p.link terminal rule = .ok q →
    q.map f g = p ∧ q.Every P Q
  | .terminal t, q, h => by
    obtain ⟨l, hl, h⟩ := bind_ok h
    cases h
    obtain ⟨rfl, hP⟩ := ht t l hl
    exact ⟨rfl, hP⟩
  | .rule r, q, h => by
    obtain ⟨i, hi, h⟩ := bind_ok h
    cases h
    obtain ⟨rfl, hQ⟩ := hr r i hi
    exact ⟨rfl, hQ⟩
  | .sequence components, q, h => by
    obtain ⟨linked, hl, h⟩ := bind_ok h
    cases h
    obtain ⟨hmap, hall⟩ := linkComponents_ok ht hr components hl
    exact ⟨congrArg Pattern.sequence hmap, hall⟩
  | .choice alternatives, q, h => by
    obtain ⟨linked, hl, h⟩ := bind_ok h
    cases h
    obtain ⟨hmap, hall⟩ := linkAll_ok ht hr alternatives hl
    exact ⟨congrArg Pattern.choice hmap, hall⟩
  | .repetition item none least trailing, q, h => by
    obtain ⟨linked, hl, h⟩ := bind_ok h
    cases h
    obtain ⟨hmap, hall⟩ := link_ok ht hr item hl
    exact ⟨congrArg (Pattern.repetition · none least trailing) hmap, hall⟩
  | .repetition item (some separator) least trailing, q, h => by
    obtain ⟨linked, hl, h⟩ := bind_ok h
    obtain ⟨linked', hl', h⟩ := bind_ok h
    cases h
    obtain ⟨hmap, hall⟩ := link_ok ht hr item hl
    obtain ⟨hmap', hall'⟩ := link_ok ht hr separator hl'
    refine ⟨?_, hall, hall'⟩
    simp only [map, hmap, hmap']
  | .optional p, q, h => by
    obtain ⟨linked, hl, h⟩ := bind_ok h
    cases h
    obtain ⟨hmap, hall⟩ := link_ok ht hr p hl
    exact ⟨congrArg Pattern.optional hmap, hall⟩
  | .ahead negated p, q, h => by
    obtain ⟨linked, hl, h⟩ := bind_ok h
    cases h
    obtain ⟨hmap, hall⟩ := link_ok ht hr p hl
    exact ⟨congrArg (Pattern.ahead negated) hmap, hall⟩
  | .trivia skip p, q, h => by
    obtain ⟨linked, hl, h⟩ := bind_ok h
    cases h
    obtain ⟨hmap, hall⟩ := link_ok ht hr p hl
    exact ⟨congrArg (Pattern.trivia skip) hmap, hall⟩
  | .silent p, q, h => by
    obtain ⟨linked, hl, h⟩ := bind_ok h
    cases h
    obtain ⟨hmap, hall⟩ := link_ok ht hr p hl
    exact ⟨congrArg Pattern.silent hmap, hall⟩
  | .scan s, q, h => by
    cases h
    exact ⟨rfl, trivial⟩
  | .endOfInput, q, h => by
    cases h
    exact ⟨rfl, trivial⟩

theorem linkComponents_ok (ht : ∀ t l, terminal t = .ok l → f l = t ∧ P l)
    (hr : ∀ r i, rule r = .ok i → g i = r ∧ Q i) :
    (components : List (Component (Pattern τ ρ))) →
    {linked : List (Component (Pattern τ' ρ'))} →
    linkComponents terminal rule components = .ok linked →
    mapComponents f g linked = components ∧ EveryComponent P Q linked
  | [], linked, h => by
    cases h
    exact ⟨rfl, trivial⟩
  | ⟨field, capture, p⟩ :: rest, linked, h => by
    obtain ⟨first, hf, h⟩ := bind_ok h
    obtain ⟨others, ho, h⟩ := bind_ok h
    cases h
    obtain ⟨hmap, hall⟩ := link_ok ht hr p hf
    obtain ⟨hmap', hall'⟩ := linkComponents_ok ht hr rest ho
    refine ⟨?_, hall, hall'⟩
    simp only [mapComponents, hmap, hmap']

theorem linkAll_ok (ht : ∀ t l, terminal t = .ok l → f l = t ∧ P l)
    (hr : ∀ r i, rule r = .ok i → g i = r ∧ Q i) :
    (ps : List (Pattern τ ρ)) → {linked : List (Pattern τ' ρ')} →
    linkAll terminal rule ps = .ok linked →
    mapAll f g linked = ps ∧ EveryAlternative P Q linked
  | [], linked, h => by
    cases h
    exact ⟨rfl, trivial⟩
  | p :: rest, linked, h => by
    obtain ⟨first, hf, h⟩ := bind_ok h
    obtain ⟨others, ho, h⟩ := bind_ok h
    cases h
    obtain ⟨hmap, hall⟩ := link_ok ht hr p hf
    obtain ⟨hmap', hall'⟩ := linkAll_ok ht hr rest ho
    refine ⟨?_, hall, hall'⟩
    simp only [mapAll, hmap, hmap']

end

end Link

end Pattern

section Terminals

variable {τ ρ : Type}

mutual

/-- The terminals in a pattern, in writing order. -/
def Pattern.terminals : Pattern τ ρ → List τ
  | .terminal t => [t]
  | .rule _ => []
  | .sequence components => componentTerminals components
  | .choice alternatives => allTerminals alternatives
  | .repetition item none _ _ => terminals item
  | .repetition item (some separator) _ _ => terminals item ++ terminals separator
  | .optional p => terminals p
  | .ahead _ p => terminals p
  | .trivia _ p => terminals p
  | .silent p => terminals p
  | .scan _ => []
  | .endOfInput => []

def Pattern.componentTerminals : List (Component (Pattern τ ρ)) → List τ
  | [] => []
  | ⟨_, _, p⟩ :: rest => p.terminals ++ componentTerminals rest

def Pattern.allTerminals : List (Pattern τ ρ) → List τ
  | [] => []
  | p :: rest => p.terminals ++ allTerminals rest

end

end Terminals

namespace Pattern

section Linked

variable {ε τ ρ τ' ρ' : Type} {terminal : τ → Except ε τ'} {rule : ρ → Except ε ρ'}

mutual

/-- A pattern is linked where all its terminals and rules are. -/
theorem exists_link : (p : Pattern τ ρ) → (∀ t ∈ p.terminals, ∃ l, terminal t = .ok l) →
    (∀ r ∈ p.references, ∃ i, rule r = .ok i) → ∃ q, p.link terminal rule = .ok q
  | .terminal t, ht, _ => by
    obtain ⟨l, hl⟩ := ht t (List.mem_singleton.2 rfl)
    exact ⟨.terminal l, by simp only [link, hl]; rfl⟩
  | .rule r, _, hr => by
    obtain ⟨i, hi⟩ := hr r (List.mem_singleton.2 rfl)
    exact ⟨.rule i, by simp only [link, hi]; rfl⟩
  | .sequence components, ht, hr => by
    obtain ⟨ls, hls⟩ := exists_linkComponents components ht hr
    exact ⟨.sequence ls, by simp only [link, hls]; rfl⟩
  | .choice alternatives, ht, hr => by
    obtain ⟨qs, hqs⟩ := exists_linkAll alternatives ht hr
    exact ⟨.choice qs, by simp only [link, hqs]; rfl⟩
  | .repetition item none least trailing, ht, hr => by
    obtain ⟨q, hq⟩ := exists_link item ht hr
    exact ⟨.repetition q none least trailing, by simp only [link, hq]; rfl⟩
  | .repetition item (some separator) least trailing, ht, hr => by
    obtain ⟨hti, hts⟩ := List.forall_mem_append.1 ht
    obtain ⟨hri, hrs⟩ := List.forall_mem_append.1 hr
    obtain ⟨q, hq⟩ := exists_link item hti hri
    obtain ⟨q', hq'⟩ := exists_link separator hts hrs
    exact ⟨.repetition q (some q') least trailing, by simp only [link, hq, hq']; rfl⟩
  | .optional p, ht, hr => by
    obtain ⟨q, hq⟩ := exists_link p ht hr
    exact ⟨.optional q, by simp only [link, hq]; rfl⟩
  | .ahead negated p, ht, hr => by
    obtain ⟨q, hq⟩ := exists_link p ht hr
    exact ⟨.ahead negated q, by simp only [link, hq]; rfl⟩
  | .trivia skip p, ht, hr => by
    obtain ⟨q, hq⟩ := exists_link p ht hr
    exact ⟨.trivia skip q, by simp only [link, hq]; rfl⟩
  | .silent p, ht, hr => by
    obtain ⟨q, hq⟩ := exists_link p ht hr
    exact ⟨.silent q, by simp only [link, hq]; rfl⟩
  | .scan s, _, _ => ⟨.scan s, rfl⟩
  | .endOfInput, _, _ => ⟨.endOfInput, rfl⟩

theorem exists_linkComponents : (components : List (Component (Pattern τ ρ))) →
    (∀ t ∈ componentTerminals components, ∃ l, terminal t = .ok l) →
    (∀ r ∈ componentReferences components, ∃ i, rule r = .ok i) →
    ∃ ls, linkComponents terminal rule components = .ok ls
  | [], _, _ => ⟨[], rfl⟩
  | ⟨field, capture, p⟩ :: rest, ht, hr => by
    obtain ⟨htp, htr⟩ := List.forall_mem_append.1 ht
    obtain ⟨hrp, hrr⟩ := List.forall_mem_append.1 hr
    obtain ⟨q, hq⟩ := exists_link p htp hrp
    obtain ⟨ls, hls⟩ := exists_linkComponents rest htr hrr
    exact ⟨⟨field, capture, q⟩ :: ls, by simp only [linkComponents, hq, hls]; rfl⟩

theorem exists_linkAll : (ps : List (Pattern τ ρ)) →
    (∀ t ∈ allTerminals ps, ∃ l, terminal t = .ok l) →
    (∀ r ∈ allReferences ps, ∃ i, rule r = .ok i) → ∃ qs, linkAll terminal rule ps = .ok qs
  | [], _, _ => ⟨[], rfl⟩
  | p :: rest, ht, hr => by
    obtain ⟨htp, htr⟩ := List.forall_mem_append.1 ht
    obtain ⟨hrp, hrr⟩ := List.forall_mem_append.1 hr
    obtain ⟨q, hq⟩ := exists_link p htp hrp
    obtain ⟨qs, hqs⟩ := exists_linkAll rest htr hrr
    exact ⟨q :: qs, by simp only [linkAll, hq, hqs]; rfl⟩

end

end Linked

end Pattern

section Contents

variable {τ ρ τ' ρ' : Type} {P : τ → Prop} {Q : ρ → Prop} (f : τ → τ') (g : ρ → ρ')

namespace Pattern

mutual

/-- What holds of every terminal and rule holds of those that are listed. -/
theorem Every.listed : (p : Pattern τ ρ) → p.Every P Q →
    (∀ t ∈ p.terminals, P t) ∧ ∀ r ∈ p.references, Q r
  | .terminal _, h => ⟨List.forall_mem_singleton.2 h, nofun⟩
  | .rule _, h => ⟨nofun, List.forall_mem_singleton.2 h⟩
  | .sequence components, h => EveryComponent.listed components h
  | .choice alternatives, h => EveryAlternative.listed alternatives h
  | .repetition item none _ _, h => Every.listed item h
  | .repetition item (some separator) _ _, h => by
    obtain ⟨ht, hr⟩ := Every.listed item h.1
    obtain ⟨ht', hr'⟩ := Every.listed separator h.2
    exact ⟨List.forall_mem_append.2 ⟨ht, ht'⟩, List.forall_mem_append.2 ⟨hr, hr'⟩⟩
  | .optional p, h => Every.listed p h
  | .ahead _ p, h => Every.listed p h
  | .trivia _ p, h => Every.listed p h
  | .silent p, h => Every.listed p h
  | .scan _, _ => ⟨nofun, nofun⟩
  | .endOfInput, _ => ⟨nofun, nofun⟩

theorem EveryComponent.listed : (components : List (Component (Pattern τ ρ))) →
    EveryComponent P Q components →
    (∀ t ∈ componentTerminals components, P t) ∧ ∀ r ∈ componentReferences components, Q r
  | [], _ => ⟨nofun, nofun⟩
  | ⟨_, _, p⟩ :: rest, h => by
    obtain ⟨ht, hr⟩ := Every.listed p h.1
    obtain ⟨ht', hr'⟩ := EveryComponent.listed rest h.2
    exact ⟨List.forall_mem_append.2 ⟨ht, ht'⟩, List.forall_mem_append.2 ⟨hr, hr'⟩⟩

theorem EveryAlternative.listed : (ps : List (Pattern τ ρ)) → EveryAlternative P Q ps →
    (∀ t ∈ allTerminals ps, P t) ∧ ∀ r ∈ allReferences ps, Q r
  | [], _ => ⟨nofun, nofun⟩
  | p :: rest, h => by
    obtain ⟨ht, hr⟩ := Every.listed p h.1
    obtain ⟨ht', hr'⟩ := EveryAlternative.listed rest h.2
    exact ⟨List.forall_mem_append.2 ⟨ht, ht'⟩, List.forall_mem_append.2 ⟨hr, hr'⟩⟩

end

mutual

theorem contents_map : (p : Pattern τ ρ) → (p.map f g).terminals = p.terminals.map f ∧
    (p.map f g).references = p.references.map g
  | .terminal _ => ⟨rfl, rfl⟩
  | .rule _ => ⟨rfl, rfl⟩
  | .sequence components => componentContents_map components
  | .choice alternatives => allContents_map alternatives
  | .repetition item none _ _ => contents_map item
  | .repetition item (some separator) _ _ => by
    obtain ⟨ht, hr⟩ := contents_map item
    obtain ⟨ht', hr'⟩ := contents_map separator
    simp only [map, terminals, references, ht, hr, ht', hr', List.map_append, and_self]
  | .optional p => contents_map p
  | .ahead _ p => contents_map p
  | .trivia _ p => contents_map p
  | .silent p => contents_map p
  | .scan _ => ⟨rfl, rfl⟩
  | .endOfInput => ⟨rfl, rfl⟩

theorem componentContents_map : (components : List (Component (Pattern τ ρ))) →
    componentTerminals (mapComponents f g components) = (componentTerminals components).map f ∧
      componentReferences (mapComponents f g components) = (componentReferences components).map g
  | [] => ⟨rfl, rfl⟩
  | ⟨_, _, p⟩ :: rest => by
    obtain ⟨ht, hr⟩ := contents_map p
    obtain ⟨ht', hr'⟩ := componentContents_map rest
    simp only [mapComponents, componentTerminals, componentReferences, ht, hr, ht', hr',
      List.map_append, and_self]

theorem allContents_map : (ps : List (Pattern τ ρ)) →
    allTerminals (mapAll f g ps) = (allTerminals ps).map f ∧
      allReferences (mapAll f g ps) = (allReferences ps).map g
  | [] => ⟨rfl, rfl⟩
  | p :: rest => by
    obtain ⟨ht, hr⟩ := contents_map p
    obtain ⟨ht', hr'⟩ := allContents_map rest
    simp only [mapAll, allTerminals, allReferences, ht, hr, ht', hr', List.map_append, and_self]

end

end Pattern

end Contents

def LinkedRule.written (r : LinkedRule) : RuleDef :=
  ⟨r.name, r.pattern.map Lexeme.toTerminal RuleRef.name, r.captureAs, r.processor, r.ifNoMatch,
    r.pick, r.asNode⟩

def Lexeme.Read (l : Lexeme) : Prop :=
  l.toTerminal.program? = some l.program

def RuleRef.Resolved (index : Std.HashMap String Nat) (r : RuleRef) : Prop :=
  index[r.name]? = some r.id

mutual

/-- A pattern and what it was linked to. -/
inductive Links (g : Grammar) : PatternDef → LinkedPattern → Prop where
  | terminal {l : Lexeme} : l.Read → Links g (.terminal l.toTerminal) (.terminal l)
  | rule {r : RuleRef} : r.Resolved g.index → Links g (.rule r.name) (.rule r)
  | sequence {cs : List ComponentDef} {ls : List (Component LinkedPattern)} :
    LinksComponents g cs ls → Links g (.sequence cs) (.sequence ls)
  | choice {ps : List PatternDef} {qs : List LinkedPattern} :
    LinksAll g ps qs → Links g (.choice ps) (.choice qs)
  | repetition {p : PatternDef} {q : LinkedPattern} {least : Nat} {trailing : Bool} :
    Links g p q → Links g (.repetition p none least trailing) (.repetition q none least trailing)
  | separated {p separator : PatternDef} {q separator' : LinkedPattern} {least : Nat}
    {trailing : Bool} : Links g p q → Links g separator separator' →
    Links g (.repetition p (some separator) least trailing)
      (.repetition q (some separator') least trailing)
  | optional {p : PatternDef} {q : LinkedPattern} :
    Links g p q → Links g (.optional p) (.optional q)
  | ahead {negated : Bool} {p : PatternDef} {q : LinkedPattern} :
    Links g p q → Links g (.ahead negated p) (.ahead negated q)
  | trivia {skip : Bool} {p : PatternDef} {q : LinkedPattern} :
    Links g p q → Links g (.trivia skip p) (.trivia skip q)
  | silent {p : PatternDef} {q : LinkedPattern} : Links g p q → Links g (.silent p) (.silent q)
  | scan {s : Scanner} : Links g (.scan s) (.scan s)
  | endOfInput : Links g .endOfInput .endOfInput

inductive LinksComponents (g : Grammar) :
    List ComponentDef → List (Component LinkedPattern) → Prop where
  | nil : LinksComponents g [] []
  | cons {field : Option String} {capture : Capture} {p : PatternDef} {q : LinkedPattern}
    {cs : List ComponentDef} {ls : List (Component LinkedPattern)} :
    Links g p q → LinksComponents g cs ls →
    LinksComponents g (⟨field, capture, p⟩ :: cs) (⟨field, capture, q⟩ :: ls)

inductive LinksAll (g : Grammar) : List PatternDef → List LinkedPattern → Prop where
  | nil : LinksAll g [] []
  | cons {p : PatternDef} {q : LinkedPattern} {ps : List PatternDef} {qs : List LinkedPattern} :
    Links g p q → LinksAll g ps qs → LinksAll g (p :: ps) (q :: qs)

end

section Links

variable {g : Grammar}

mutual

theorem links_written : (q : LinkedPattern) →
    q.Every Lexeme.Read (RuleRef.Resolved g.index) →
    Links g (q.map Lexeme.toTerminal RuleRef.name) q
  | .terminal _, h => .terminal h
  | .rule _, h => .rule h
  | .sequence components, h => .sequence (linksComponents_written components h)
  | .choice alternatives, h => .choice (linksAll_written alternatives h)
  | .repetition item none _ _, h => .repetition (links_written item h)
  | .repetition item (some separator) _ _, h =>
    .separated (links_written item h.1) (links_written separator h.2)
  | .optional p, h => .optional (links_written p h)
  | .ahead _ p, h => .ahead (links_written p h)
  | .trivia _ p, h => .trivia (links_written p h)
  | .silent p, h => .silent (links_written p h)
  | .scan _, _ => .scan
  | .endOfInput, _ => .endOfInput

theorem linksComponents_written : (ls : List (Component LinkedPattern)) →
    Pattern.EveryComponent Lexeme.Read (RuleRef.Resolved g.index) ls →
    LinksComponents g (Pattern.mapComponents Lexeme.toTerminal RuleRef.name ls) ls
  | [], _ => .nil
  | ⟨_, _, q⟩ :: rest, h => .cons (links_written q h.1) (linksComponents_written rest h.2)

theorem linksAll_written : (qs : List LinkedPattern) →
    Pattern.EveryAlternative Lexeme.Read (RuleRef.Resolved g.index) qs →
    LinksAll g (Pattern.mapAll Lexeme.toTerminal RuleRef.name qs) qs
  | [], _ => .nil
  | q :: rest, h => .cons (links_written q h.1) (linksAll_written rest h.2)

end

end Links

namespace Grammar

theorem linkTerminal_ok {owner : String} {t : Terminal} {l : Lexeme}
    (h : linkTerminal owner t = .ok l) : l.toTerminal = t ∧ l.Read := by
  simp only [linkTerminal, Terminal.lexeme?] at h
  cases hp : t.program? with
  | none => simp only [hp, Option.map_none] at h; cases h
  | some program =>
    simp only [hp, Option.map_some] at h
    cases h
    exact ⟨rfl, hp⟩

theorem linkReference_ok {owner : String} {index : Std.HashMap String Nat} {name : String}
    {r : RuleRef} (h : linkReference owner index name = .ok r) :
    r.name = name ∧ r.Resolved index := by
  simp only [linkReference] at h
  cases hi : index[name]? with
  | none => simp only [hi] at h; cases h
  | some id =>
    simp only [hi] at h
    cases h
    exact ⟨rfl, hi⟩

theorem linkRule_ok {index : Std.HashMap String Nat} {d : RuleDef} {r : LinkedRule}
    (h : linkRule index d = .ok r) :
    r.written = d ∧ r.pattern.Every Lexeme.Read (RuleRef.Resolved index) := by
  obtain ⟨pattern, hp, h⟩ := bind_ok h
  cases h
  obtain ⟨hmap, hall⟩ := Pattern.link_ok (f := Lexeme.toTerminal) (g := RuleRef.name)
    (fun _ _ => linkTerminal_ok) (fun _ _ => linkReference_ok) d.pattern hp
  refine ⟨?_, hall⟩
  simp only [LinkedRule.written, hmap]

theorem linkRules_ok {index : Std.HashMap String Nat} {table : List RuleDef}
    {rules : List LinkedRule}
    (h : List.Forall₂ (fun d r => linkRule index d = .ok r) table rules) :
    rules.map LinkedRule.written = table ∧
      ∀ r ∈ rules, r.pattern.Every Lexeme.Read (RuleRef.Resolved index) := by
  induction h with
  | nil => exact ⟨rfl, by simp⟩
  | cons hd _ ih =>
    obtain ⟨rfl, hall⟩ := linkRule_ok hd
    obtain ⟨rfl, hrest⟩ := ih
    exact ⟨rfl, List.forall_mem_cons.2 ⟨hall, hrest⟩⟩

/-- The rules of a linked grammar are those of its table, in the same order. -/
theorem link_rules {table : List RuleDef} {trivia : Option Terminal} {g : Grammar}
    (h : link table trivia = .ok g) :
    g.rules.toList.map LinkedRule.written = table ∧
      ∀ r ∈ g.rules.toList, r.pattern.Every Lexeme.Read (RuleRef.Resolved g.index) := by
  obtain ⟨index, -, h⟩ := bind_ok h
  obtain ⟨rules, hrules, h⟩ := bind_ok h
  obtain ⟨l, -, h⟩ := bind_ok h
  cases h
  exact linkRules_ok (mapM_ok hrules)

theorem trivia_of_link {table : List RuleDef} {trivia : Terminal} {g : Grammar}
    (h : link table (some trivia) = .ok g) :
    ∃ l : Lexeme, g.trivia = some l ∧ l.toTerminal = trivia ∧ l.Read := by
  obtain ⟨index, -, h⟩ := bind_ok h
  obtain ⟨rules, -, h⟩ := bind_ok h
  obtain ⟨l, hl, h⟩ := bind_ok h
  cases h
  obtain ⟨l, hl', h⟩ := bind_ok hl
  cases h
  obtain ⟨ht, hread⟩ := linkTerminal_ok hl'
  exact ⟨l, rfl, ht, hread⟩

theorem number_ok {id : Nat} {index index' : Std.HashMap String Nat} {table : List RuleDef}
    (h : number id index table = .ok index') :
    (∀ (name : String) (i : Nat), index[name]? = some i → index'[name]? = some i) ∧
      ∀ (k : Nat) (d : RuleDef), table[k]? = some d → index'[d.name]? = some (id + k) := by
  induction table generalizing id index with
  | nil =>
    cases h
    exact ⟨fun _ _ hi => hi, fun k d hd => by simp at hd⟩
  | cons r rest ih =>
    rw [number] at h
    split at h
    · cases h
    · rename_i hnew
      obtain ⟨hold, hrest⟩ := ih h
      refine ⟨fun name i hi => hold name i ?_, fun k d hd => ?_⟩
      · rw [Std.HashMap.getElem?_insert]
        split
        · rename_i heq
          obtain rfl : r.name = name := eq_of_beq heq
          exact absurd (Std.HashMap.mem_iff_isSome_getElem?.2 (by rw [hi]; rfl)) hnew
        · exact hi
      · cases k with
        | zero =>
          obtain rfl : r = d := by simpa using hd
          exact hold _ _ Std.HashMap.getElem?_insert_self
        | succ k =>
          rw [List.getElem?_cons_succ] at hd
          rw [hrest k d hd]
          congr 1
          omega

/-- Only the names of the table have numbers. -/
theorem number_named {id : Nat} {index index' : Std.HashMap String Nat}
    {table : List RuleDef} (h : number id index table = .ok index') {name : String} {i : Nat}
    (hi : index'[name]? = some i) :
    index[name]? = some i ∨ ∃ k d, table[k]? = some d ∧ d.name = name ∧ i = id + k := by
  induction table generalizing id index with
  | nil =>
    cases h
    exact .inl hi
  | cons r rest ih =>
    rw [number] at h
    split at h
    · cases h
    · obtain hold | ⟨k, d, hd, hname, rfl⟩ := ih h
      · rw [Std.HashMap.getElem?_insert] at hold
        split at hold
        · rename_i heq
          exact .inr ⟨0, r, rfl, eq_of_beq heq, (Option.some.inj hold).symm⟩
        · exact .inl hold
      · refine .inr ⟨k + 1, d, hd, hname, ?_⟩
        omega

theorem number_nodup {id : Nat} {index index' : Std.HashMap String Nat} {table : List RuleDef}
    (h : number id index table = .ok index') : (table.map (·.name)).Nodup := by
  induction table generalizing id index with
  | nil => exact List.nodup_nil
  | cons r rest ih =>
    have hnumbers := (number_ok h).2
    have h₀ := hnumbers 0 r rfl
    rw [number] at h
    split at h
    · cases h
    · refine List.nodup_cons.2 ⟨fun hmem => ?_, ih h⟩
      obtain ⟨d, hd, hname⟩ := List.mem_map.1 hmem
      obtain ⟨k, hk⟩ := List.getElem?_of_mem hd
      have hk' := hnumbers (k + 1) d hk
      rw [hname, h₀, Option.some.injEq] at hk'
      omega

/-- A rule of the table has a number, and runs as it was written. -/
theorem rule_of_link {table : List RuleDef} {trivia : Option Terminal} {g : Grammar}
    (h : link table trivia = .ok g) {d : RuleDef} (hd : d ∈ table) :
    ∃ id r, g.index[d.name]? = some id ∧ g.rules[id]? = some r ∧ r.written = d ∧
      Links g d.pattern r.pattern := by
  obtain ⟨hrules, hevery⟩ := link_rules h
  obtain ⟨index, hindex, h⟩ := bind_ok h
  obtain ⟨rules, -, h⟩ := bind_ok h
  obtain ⟨l, -, h⟩ := bind_ok h
  cases h
  obtain ⟨k, hk⟩ := List.getElem?_of_mem hd
  have hid := (number_ok hindex).2 k d hk
  rw [Nat.zero_add] at hid
  rw [← hrules, List.getElem?_map] at hk
  obtain ⟨r, hr, rfl⟩ := Option.map_eq_some_iff.1 hk
  have hr : rules[k]? = some r := hr
  refine ⟨k, r, hid, by simpa using hr, rfl, links_written r.pattern (hevery r ?_)⟩
  exact List.mem_of_getElem? hr

theorem exists_number {id : Nat} {index : Std.HashMap String Nat} {table : List RuleDef}
    (hnew : ∀ d ∈ table, index.contains d.name = false) (hnames : (table.map (·.name)).Nodup) :
    ∃ index', number id index table = .ok index' := by
  induction table generalizing id index with
  | nil => exact ⟨index, rfl⟩
  | cons r rest ih =>
    rw [List.map_cons, List.nodup_cons] at hnames
    obtain ⟨hr, hrest⟩ := hnames
    rw [number, hnew r (List.mem_cons_self ..)]
    refine ih (fun d hd => ?_) hrest
    have hne : r.name ≠ d.name := by
      intro heq
      exact hr (heq ▸ List.mem_map_of_mem hd)
    rw [Std.HashMap.contains_insert, hnew d (List.mem_cons_of_mem _ hd)]
    simpa using hne

/-- Whether a table can be linked: no name comes twice, every name that is referred to is there,
and every terminal can be read. -/
def links (table : List RuleDef) (trivia : Terminal) : Bool :=
  let names := table.map (·.name)
  names.Nodup && trivia.program?.isSome &&
    table.all fun d => d.pattern.references.all names.contains &&
      d.pattern.terminals.all (·.program?.isSome)

theorem exists_linkTerminal {owner : String} {t : Terminal} (h : t.program?.isSome = true) :
    ∃ l, linkTerminal owner t = .ok l := by
  obtain ⟨program, hp⟩ := Option.isSome_iff_exists.1 h
  exact ⟨⟨t, program⟩, by simp only [linkTerminal, Terminal.lexeme?, hp, Option.map_some]⟩

theorem exists_mapM {ε α β : Type} {f : α → Except ε β} {as : List α}
    (h : ∀ a ∈ as, ∃ b, f a = .ok b) : ∃ bs, as.mapM f = .ok bs := by
  induction as with
  | nil => exact ⟨[], rfl⟩
  | cons a as ih =>
    obtain ⟨b, hb⟩ := h a (List.mem_cons_self ..)
    obtain ⟨bs, hbs⟩ := ih fun a ha => h a (List.mem_cons_of_mem _ ha)
    exact ⟨b :: bs, by rw [List.mapM_cons, hb, hbs]; rfl⟩

/-- A table can be linked where names come once, all that it refers to is there and all terminals
can be read. -/
theorem exists_link_of {table : List RuleDef} {trivia : Option Terminal}
    (hnames : (table.map (·.name)).Nodup)
    (hreferences : ∀ d ∈ table, ∀ name ∈ d.pattern.references, name ∈ table.map (·.name))
    (hterminals : ∀ d ∈ table, ∀ t ∈ d.pattern.terminals, t.program?.isSome = true)
    (htrivia : ∀ t ∈ trivia, t.program?.isSome = true) : ∃ g, link table trivia = .ok g := by
  obtain ⟨index, hindex⟩ : ∃ index, number 0 ∅ table = .ok index :=
    exists_number (fun d _ => Std.HashMap.contains_empty) hnames
  have hreference : ∀ owner, ∀ name ∈ table.map (·.name),
      ∃ r, linkReference owner index name = .ok r := by
    intro owner name hname
    obtain ⟨d, hd, rfl⟩ := List.mem_map.1 hname
    obtain ⟨k, hk⟩ := List.getElem?_of_mem hd
    exact ⟨⟨d.name, k⟩, by simp [linkReference, (number_ok hindex).2 k d hk]⟩
  have hrule : ∀ d ∈ table, ∃ r, linkRule index d = .ok r := by
    intro d hd
    obtain ⟨q, hq⟩ :
        ∃ q, d.pattern.link (linkTerminal d.name) (linkReference d.name index) = .ok q :=
      d.pattern.exists_link (fun t ht => exists_linkTerminal (hterminals d hd t ht))
        fun name hname => hreference _ name (hreferences d hd name hname)
    exact ⟨_, by simp only [linkRule, hq]; rfl⟩
  obtain ⟨rules, hrules⟩ := exists_mapM hrule
  obtain ⟨l, hl⟩ : ∃ l, trivia.mapM (linkTerminal "<trivia>") = .ok l := by
    cases trivia with
    | none => exact ⟨none, rfl⟩
    | some t =>
      obtain ⟨l, hl⟩ : ∃ l, linkTerminal "<trivia>" t = .ok l := exists_linkTerminal (htrivia t rfl)
      exact ⟨some l, by rw [Option.mapM_some, hl]; rfl⟩
  refine ⟨⟨rules.toArray, index, l⟩, ?_⟩
  rw [link, hindex, hl]
  show (table.mapM (linkRule index) >>= fun rules => _) = _
  rw [hrules]
  rfl

theorem exists_link {table : List RuleDef} {trivia : Terminal} (h : links table trivia = true) :
    ∃ g, link table (some trivia) = .ok g := by
  simp only [links, Bool.and_eq_true, decide_eq_true_eq, List.all_eq_true] at h
  obtain ⟨⟨hnames, htrivia⟩, htable⟩ := h
  refine exists_link_of hnames (fun d hd name hname => ?_) (fun d hd => (htable d hd).2) ?_
  · simpa using (htable d hd).1 name hname
  · rintro t ⟨⟩
    exact htrivia

end Grammar

end PhpSyntax.Peg
