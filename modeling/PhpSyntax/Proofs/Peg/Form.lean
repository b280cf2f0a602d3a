import PhpSyntax.Proofs.Peg.Keeping
import PhpSyntax.Proofs.Peg.Reading
import PhpSyntax.Proofs.Tree.Finished

namespace PhpSyntax.Peg

/-- What a captured value can be. -/
inductive Form where
  | nothing
  | null
  /-- Null, a truth value or a text. -/
  | leaf
  /-- A finished tree. -/
  | tree
  /-- A node that is a finished tree. -/
  | branch
  | list (item : Form)
  | record (entries : List (String × Form))
  /-- A node with a tag that is taken apart again before the tree is finished. -/
  | stem (tag : String) (entries : List (String × Form))
  | either (f g : Form)

namespace Form

section Has

variable (P : Node → Prop)

mutual

/-- A value has a form, where finished trees have nodes of a property. -/
def Has : Form → Value → Prop
  | .nothing, _ => False
  | .null, v => v = .null
  | .leaf, v => v.IsLeaf
  | .tree, v => v.Finished P
  | .branch, v => v.Finished P ∧ ∃ n, v = .node n
  | .list f, v => ∃ vs, v = .list vs ∧ ∀ w ∈ vs, f.Has w
  | .record es, v => ∃ fs : Captures, v = .record fs ∧ HasEntries es fs.entries
  | .stem tag es, v => ∃ n : Node, v = .node n ∧ n.name = tag ∧ HasEntries es n.fields.entries
  | .either f g, v => f.Has v ∨ g.Has v

def HasEntries : List (String × Form) → List (String × Value) → Prop
  | [], vs => vs = []
  | (k, f) :: es, vs => ∃ v rest, vs = (k, v) :: rest ∧ f.Has v ∧ HasEntries es rest

end

theorem hasEntries_iff {es : List (String × Form)} {vs : List (String × Value)} :
    HasEntries P es vs ↔ NamedRel (fun f v => f.Has P v) es vs := by
  induction es generalizing vs with
  | nil => simp [HasEntries]
  | cons e es ih =>
    obtain ⟨k, f⟩ := e
    rw [HasEntries]
    constructor
    · rintro ⟨v, rest, rfl, hv, hrest⟩
      exact .cons ⟨rfl, hv⟩ (ih.1 hrest)
    · rintro (_ | ⟨⟨hk, hv⟩, hrest⟩)
      rename_i e' rest
      obtain ⟨k', v⟩ := e'
      obtain rfl : k = k' := hk
      exact ⟨v, rest, rfl, hv, ih.2 hrest⟩

end Has

def alts : Form → List Form
  | .nothing => []
  | .either f g => f.alts ++ g.alts
  | f => [f]

def anyOf : List Form → Form
  | [] => .nothing
  | [f] => f
  | f :: fs => .either f (anyOf fs)

/-- The form of the items of a value, taken as a list. -/
def items : Form → Form
  | .null => .nothing
  | .list f => f
  | .either f g => .either f.items g.items
  | f => f

def unrecorded : Form → Bool
  | .record _ => false
  | .either f g => f.unrecorded && g.unrecorded
  | _ => true

section Fits

-- Which fields a node of a finished tree can have, by its tag.
variable (allowed : String → List String → Bool)

mutual

/-- Whether what has one form has another one. -/
def fits : Form → Form → Bool
  | .nothing, _ => true
  | .either f f', g => f.fits g && f'.fits g
  | .null, g => g.alts.any fun
    | .null | .leaf | .tree => true
    | _ => false
  | .leaf, g => g.alts.any fun
    | .leaf | .tree => true
    | _ => false
  | .tree, g => g.alts.any fun
    | .tree => true
    | _ => false
  | .branch, g => g.alts.any fun
    | .tree | .branch => true
    | _ => false
  | .list f, g => g.alts.any fun
    | .tree => f.fits .tree
    | .list h => f.fits h
    | _ => false
  | .record es, g => g.alts.any fun
    | .record hs => entriesFit es hs
    | _ => false
  | .stem tag es, g => g.alts.any fun
    | .stem tag' hs => tag == tag' && entriesFit es hs
    | .tree | .branch => allowed tag (es.map (·.1)) && entriesFinish es
    | _ => false

def entriesFit : List (String × Form) → List (String × Form) → Bool
  | [], hs => hs.isEmpty
  | (k, f) :: es, hs =>
    match hs with
    | [] => false
    | (l, h) :: hs => k == l && f.fits h && entriesFit es hs

def entriesFinish : List (String × Form) → Bool
  | [] => true
  | (_, f) :: es => f.fits .tree && entriesFinish es

end

end Fits

section Facts

variable {P : Node → Prop}

theorem has_alts {v : Value} : (f : Form) → (f.Has P v ↔ ∃ a ∈ f.alts, a.Has P v)
  | .either f g => by
    rw [Has, has_alts f, has_alts g, alts]
    simp only [List.mem_append, or_and_right, exists_or]
  | .nothing | .null | .leaf | .tree | .branch | .list _ | .record _ | .stem _ _ => by
    simp [alts, Has]

theorem either_notMem_alts {g h : Form} : (f : Form) → Form.either g h ∉ f.alts
  | .either f f' => by
    rw [alts, List.mem_append, not_or]
    exact ⟨either_notMem_alts f, either_notMem_alts f'⟩
  | .nothing | .null | .leaf | .tree | .branch | .list _ | .record _ | .stem _ _ => by
    simp [alts]

theorem has_anyOf {fs : List Form} {v : Value} : (anyOf fs).Has P v ↔ ∃ f ∈ fs, f.Has P v := by
  induction fs with
  | nil => simp [anyOf, Has]
  | cons f fs ih =>
    cases fs with
    | nil => simp [anyOf]
    | cons g gs =>
      rw [anyOf, Has, ih]
      · simp
      · exact List.cons_ne_nil _ _

theorem Has.unrecorded {v : Value} : {f : Form} → f.unrecorded = true → f.Has P v →
    ∀ fs, v ≠ .record fs
  | .nothing, _, h => h.elim
  | .record _, hf, _ => by cases hf
  | .either f g, hf, h => by
    obtain ⟨hf, hg⟩ := Bool.and_eq_true_iff.1 hf
    exact h.elim (Has.unrecorded hf) (Has.unrecorded hg)
  | .null, _, h | .leaf, _, h | .tree, _, h | .branch, _, h | .list _, _, h | .stem _ _, _, h => by
    rintro fs rfl
    simp [Has, Value.IsLeaf, Value.Finished] at h

theorem Has.items {v : Value} : {f : Form} → f.Has P v → ∀ w ∈ v.toList, f.items.Has P w
  | .null, h => by
    obtain rfl := h
    simp [Value.toList]
  | .leaf, h => by
    cases v with
    | list _ | record _ | node _ => exact h.elim
    | null => simp [Value.toList]
    | bool _ | text _ => simpa [Value.toList, Form.items] using h
  | .tree, h => Value.Finished.toList h
  | .branch, h => by
    obtain ⟨-, n, rfl⟩ := id h
    simpa [Value.toList, Form.items] using h
  | .list f, h => by
    obtain ⟨vs, rfl, hvs⟩ := h
    exact hvs
  | .record es, h => by
    obtain ⟨fs, rfl, -⟩ := id h
    simpa [Value.toList, Form.items] using h
  | .stem tag es, h => by
    obtain ⟨n, rfl, -⟩ := id h
    simpa [Value.toList, Form.items] using h
  | .either f g, h => fun w hw => h.imp (fun h => h.items w hw) fun h => h.items w hw

/-- What a form says of a captured value. -/
def captured (capture : Capture) (f : Form) : Form :=
  match capture with
  | .value => f
  | .flag => .leaf
  | .list => .list f.items

theorem Has.captured {f : Form} {v : Value} (h : f.Has P v) (capture : Capture) :
    (f.captured capture).Has P (capture.apply v) := by
  cases capture with
  | value => exact h
  | flag => trivial
  | list => exact ⟨_, rfl, h.items⟩

/-- The allowed fields are those of nodes with the property. -/
def Allows (P : Node → Prop) (allowed : String → List String → Bool) : Prop :=
  ∀ n : Node, allowed n.name n.fields.keys = true →
    (∀ e ∈ n.fields.entries, e.2.Finished P) → P n

variable {allowed : String → List String → Bool}

theorem NamedRel.keys {α β : Type} {V : α → β → Prop} {es : List (String × α)}
    {fs : List (String × β)} (h : NamedRel V es fs) : es.map (·.1) = fs.map (·.1) := by
  induction h with
  | nil => rfl
  | cons hef _ ih => rw [List.map_cons, List.map_cons, hef.1, ih]

mutual

theorem Has.fits (hallowed : Allows P allowed) {v : Value} :
    {f g : Form} → f.fits allowed g = true → f.Has P v → g.Has P v
  | .nothing, g, _, h => h.elim
  | .either f f', g, hfits, h => by
    rw [Form.fits, Bool.and_eq_true] at hfits
    exact h.elim (Has.fits hallowed hfits.1) (Has.fits hallowed hfits.2)
  | .null, g, hfits, h => by
    rw [Form.fits, List.any_eq_true] at hfits
    obtain ⟨a, ha, hfits⟩ := hfits
    obtain rfl := h
    refine (has_alts g).2 ⟨a, ha, ?_⟩
    cases a with
    | null => rfl
    | leaf | tree => trivial
    | _ => cases hfits
  | .leaf, g, hfits, h => by
    rw [Form.fits, List.any_eq_true] at hfits
    obtain ⟨a, ha, hfits⟩ := hfits
    refine (has_alts g).2 ⟨a, ha, ?_⟩
    cases a with
    | leaf => exact h
    | tree => exact Value.IsLeaf.finished h
    | _ => cases hfits
  | .tree, g, hfits, h => by
    rw [Form.fits, List.any_eq_true] at hfits
    obtain ⟨a, ha, hfits⟩ := hfits
    refine (has_alts g).2 ⟨a, ha, ?_⟩
    cases a with
    | tree => exact h
    | _ => cases hfits
  | .branch, g, hfits, h => by
    rw [Form.fits, List.any_eq_true] at hfits
    obtain ⟨a, ha, hfits⟩ := hfits
    refine (has_alts g).2 ⟨a, ha, ?_⟩
    cases a with
    | tree => exact h.1
    | branch => exact h
    | _ => cases hfits
  | .list f, g, hfits, h => by
    rw [Form.fits, List.any_eq_true] at hfits
    obtain ⟨a, ha, hfits⟩ := hfits
    obtain ⟨vs, rfl, hvs⟩ := h
    refine (has_alts g).2 ⟨a, ha, ?_⟩
    cases a with
    | tree =>
      exact Value.finished_list.2 fun w hw => Has.fits hallowed (g := .tree) hfits (hvs w hw)
    | list h => exact ⟨vs, rfl, fun w hw => Has.fits hallowed hfits (hvs w hw)⟩
    | _ => cases hfits
  | .record es, g, hfits, h => by
    rw [Form.fits, List.any_eq_true] at hfits
    obtain ⟨a, ha, hfits⟩ := hfits
    obtain ⟨fs, rfl, hfs⟩ := h
    refine (has_alts g).2 ⟨a, ha, ?_⟩
    cases a with
    | record hs => exact ⟨fs, rfl, HasEntries.fits hallowed hfits hfs⟩
    | _ => cases hfits
  | .stem tag es, g, hfits, h => by
    rw [Form.fits, List.any_eq_true] at hfits
    obtain ⟨a, ha, hfits⟩ := hfits
    obtain ⟨n, rfl, rfl, hn⟩ := h
    refine (has_alts g).2 ⟨a, ha, ?_⟩
    have htree : allowed n.name (es.map (·.1)) = true → entriesFinish allowed es = true →
        (Value.node n).Finished P := by
      intro hkeys hfinish
      have hentries := HasEntries.finish hallowed hfinish hn
      rw [NamedRel.keys ((hasEntries_iff P).1 hn)] at hkeys
      exact Value.finished_node.2 ⟨hallowed n hkeys hentries, hentries⟩
    cases a with
    | tree =>
      obtain ⟨hkeys, hfinish⟩ := Bool.and_eq_true_iff.1 hfits
      exact htree hkeys hfinish
    | branch =>
      obtain ⟨hkeys, hfinish⟩ := Bool.and_eq_true_iff.1 hfits
      exact ⟨htree hkeys hfinish, n, rfl⟩
    | stem tag' hs =>
      obtain ⟨htag, hfits⟩ := Bool.and_eq_true_iff.1 hfits
      exact ⟨n, rfl, eq_of_beq htag, HasEntries.fits hallowed hfits hn⟩
    | _ => cases hfits

theorem HasEntries.fits (hallowed : Allows P allowed) :
    {es hs : List (String × Form)} → {vs : List (String × Value)} →
    entriesFit allowed es hs = true → HasEntries P es vs → HasEntries P hs vs
  | [], hs, vs, hfits, h => by
    rw [entriesFit, List.isEmpty_iff] at hfits
    rw [hfits]
    exact h
  | (k, f) :: es, [], vs, hfits, _ => by cases hfits
  | (k, f) :: es, (l, g) :: hs, vs, hfits, h => by
    rw [entriesFit, Bool.and_eq_true, Bool.and_eq_true] at hfits
    obtain ⟨⟨hk, hf⟩, hes⟩ := hfits
    obtain ⟨v, rest, rfl, hv, hrest⟩ := h
    obtain rfl := eq_of_beq hk
    exact ⟨v, rest, rfl, Has.fits hallowed hf hv, HasEntries.fits hallowed hes hrest⟩

theorem HasEntries.finish (hallowed : Allows P allowed) :
    {es : List (String × Form)} → {vs : List (String × Value)} →
    entriesFinish allowed es = true → HasEntries P es vs → ∀ e ∈ vs, e.2.Finished P
  | [], vs, _, h => by
    obtain rfl : vs = [] := h
    simp
  | (k, f) :: es, vs, hfinish, h => by
    rw [entriesFinish, Bool.and_eq_true] at hfinish
    obtain ⟨v, rest, rfl, hv, hrest⟩ := h
    exact List.forall_mem_cons.2
      ⟨Has.fits hallowed (g := .tree) hfinish.1 hv, HasEntries.finish hallowed hfinish.2 hrest⟩

end

end Facts

end Form

/-- What the captures of a sequence can be: whether there are any, and what is in them. -/
structure Row where
  hasFields : Bool
  fields : Fields Form

namespace Row

def start : Row := ⟨false, .empty⟩

/-- The form of a sequence with these captures; without any it yields its text. -/
def form (row : Row) : Form :=
  if row.hasFields then .record row.fields.entries else .leaf

/-- The captures with those of an unnamed component in one of its forms. -/
def merge (row : Row) : Form → Row
  | .record es => ⟨true, row.fields.extend ⟨es⟩⟩
  | _ => row

/-- The captures with those of one more component. What is no record adds nothing, so that forms of
this kind count as one. -/
def push (field : Option String) (capture : Capture) (f : Form) (row : Row) : List Row :=
  match field with
  | some name => [⟨true, row.fields.insert name (f.captured capture)⟩]
  | none => f.alts.map row.merge

end Row

section Forms

variable (rules : String → Form)

mutual

/-- The form of what a pattern yields, given those of the rules that it refers to. -/
def PatternDef.form : PatternDef → Form
  | .terminal _ | .scan _ => .leaf
  | .endOfInput | .ahead _ _ | .silent _ => .null
  | .rule r => rules r
  | .sequence cs => Form.anyOf ((PatternDef.rows cs [.start]).map Row.form)
  | .choice ps => PatternDef.choiceForm ps
  | .repetition item _ _ _ => .list (PatternDef.form item)
  | .optional p => .either .null (PatternDef.form p)
  | .trivia _ p => PatternDef.form p

def PatternDef.rows : List ComponentDef → List Row → List Row
  | [], rows => rows
  | ⟨field, capture, p⟩ :: rest, rows =>
    PatternDef.rows rest (rows.flatMap (Row.push field capture (PatternDef.form p)))

def PatternDef.choiceForm : List PatternDef → Form
  | [] => .nothing
  | p :: rest => .either (PatternDef.form p) (PatternDef.choiceForm rest)

end

end Forms

def Scanner.Plain (sc : Scanner) : Prop :=
  ∀ cs n v, sc.scan cs = some (n, v) → v.IsLeaf

section Sound

variable {P : Node → Prop}

/-- The captures of a sequence are as a row says. -/
structure Row.Holds (P : Node → Prop) (row : Row) (ps : Parts) : Prop where
  hasFields : ps.hasFields = row.hasFields
  fields : NamedRel (fun f v => f.Has P v) row.fields.entries ps.fields.entries

theorem Parts.push_unnamed (ps : Parts) {m : Matched} (h : ∀ fs, m.value ≠ .record fs)
    (capture : Capture) : (ps.push none capture m).hasFields = ps.hasFields ∧
      (ps.push none capture m).fields = ps.fields := by
  obtain ⟨start, stop, v⟩ := m
  cases v with
  | record fs => exact absurd rfl (h fs)
  | _ => exact ⟨rfl, rfl⟩

theorem Row.Holds.push {row : Row} {ps : Parts} (h : row.Holds P ps) {f : Form} {m : Matched}
    (hm : f.Has P m.value) (field : Option String) (capture : Capture) :
    ∃ row' ∈ row.push field capture f, row'.Holds P (ps.push field capture m) := by
  cases field with
  | some name =>
    refine ⟨_, List.mem_singleton_self _, ?_⟩
    have hinsert := @Fields.rel_insert _ _ _ _ _ name _ _ h.fields (hm.captured capture)
    cases hv : m.value <;> simp only [Parts.push, hv] at hinsert ⊢ <;> exact ⟨rfl, hinsert⟩
  | none =>
    obtain ⟨a, ha, hma⟩ := (Form.has_alts f).1 hm
    refine ⟨row.merge a, List.mem_map_of_mem ha, ?_⟩
    cases a with
    | record es =>
      obtain ⟨fs, hv, hes⟩ := hma
      simp only [Parts.push, hv]
      exact ⟨rfl, Fields.rel_insertAll h.fields ((Form.hasEntries_iff P).1 hes)⟩
    | either g g' => exact absurd ha (Form.either_notMem_alts f)
    | _ =>
      have hrecord : ∀ fs, m.value ≠ .record fs := by
        rintro fs hv
        simp [Form.Has, hv, Value.IsLeaf, Value.Finished] at hma
      obtain ⟨hhas, hfields⟩ := ps.push_unnamed hrecord capture
      exact ⟨hhas.trans h.hasFields, hfields ▸ h.fields⟩

theorem Row.Holds.finish {row : Row} {ps : Parts} (h : row.Holds P ps) (text : Text) :
    row.form.Has P (ps.finish text).value := by
  simp only [Parts.finish, Row.form, h.hasFields]
  split
  · exact ⟨_, rfl, (Form.hasEntries_iff P).2 h.fields⟩
  · trivial

theorem Rounds.Grown.items {item : Nat → Matched → Prop}
    {separator : Option (Nat → Matched → Prop)} {offset : Nat} {rs : Rounds}
    (h : rs.Grown item separator offset) {f : Form}
    (hitem : ∀ o m, item o m → f.Has P m.value) : ∀ v ∈ rs.items, f.Has P v := by
  induction h with
  | start => simp [Rounds.startingAt]
  | more _ _ hm _ ih => exact List.forall_mem_cons.2 ⟨hitem _ _ hm, ih⟩

theorem matchesRounds_form {item : Nat → Matched → Prop}
    {separator : Option (Nat → Matched → Prop)} {least offset : Nat} {m : Matched} {f : Form}
    (hitem : ∀ o m, item o m → f.Has P m.value)
    (h : MatchesRounds item separator least offset m) : (Form.list f).Has P m.value := by
  obtain ⟨rs, stop, hgrown, -, hm⟩ := h
  have hitems := hgrown.items hitem
  simp only [Rounds.finish, Option.ite_none_left_eq_some] at hm
  obtain ⟨-, hm⟩ := hm
  obtain rfl := Option.some.inj hm
  refine ⟨_, rfl, fun v hv => hitems v ?_⟩
  rw [List.mem_reverse] at hv
  split at hv
  · split at hv
    · cases hv
    · exact hv
  · exact hv

variable {skipped : Option Lexeme} {text : Text} {calls : Calls} {rules : String → Form}

mutual

/-- What a pattern yields has its form. -/
theorem Matches.form
    (hcalls : ∀ r trivia offset m, calls r trivia offset m → (rules r).Has P m.value) :
    (p : PatternDef) → (∀ sc ∈ p.scanners, sc.Plain) → ∀ {trivia offset m},
    Matches skipped text calls p trivia offset m → (p.form rules).Has P m.value
  | .terminal t, _, trivia, offset, m, h => by
    obtain ⟨l, start, -, -, -, hm⟩ := h
    obtain ⟨r, hr, rfl⟩ := Option.map_eq_some_iff.1 hm
    obtain ⟨cs, -, hr⟩ := Option.bind_eq_some_iff.1 hr
    obtain ⟨r', -, rfl⟩ := Option.map_eq_some_iff.1 hr
    trivial
  | .scan sc, plain, trivia, offset, m, h => by
    obtain ⟨start, -, hm⟩ := h
    obtain ⟨r, hr, rfl⟩ := Option.map_eq_some_iff.1 hm
    obtain ⟨cs, -, hr⟩ := Option.bind_eq_some_iff.1 hr
    exact plain sc (List.mem_singleton_self sc) cs r.1 r.2 hr
  | .endOfInput, _, trivia, offset, m, h => by
    obtain ⟨start, -, hm⟩ := h
    rw [endFound, Option.ite_none_right_eq_some] at hm
    obtain rfl := Option.some.inj hm.2
    rfl
  | .rule r, _, trivia, offset, m, h => hcalls r trivia offset m h
  | .sequence cs, plain, trivia, offset, m, h => by
    obtain ⟨ps, hps, rfl⟩ := h
    have hstart : Row.start.Holds P (.startingAt offset) := ⟨rfl, .nil⟩
    obtain ⟨row, hrow, hholds⟩ :=
      MatchesParts.rows hcalls cs plain (List.mem_singleton_self _) hstart hps
    exact Form.has_anyOf.2 ⟨_, List.mem_map_of_mem hrow, hholds.finish text⟩
  | .choice ps, plain, trivia, offset, m, h => MatchesOne.form hcalls ps plain h
  | .repetition item none _ _, plain, trivia, offset, m, h =>
    matchesRounds_form (fun _ _ => Matches.form hcalls item plain) h
  | .repetition item (some separator) _ _, plain, trivia, offset, m, h =>
    matchesRounds_form (fun _ _ => Matches.form hcalls item (List.forall_mem_append.1 plain).1) h
  | .optional p, plain, trivia, offset, m, h => by
    obtain h | rfl := h
    · exact .inr (Matches.form hcalls p plain h)
    · exact .inl rfl
  | .ahead _ p, plain, trivia, offset, m, h => by
    obtain ⟨-, rfl⟩ := h
    rfl
  | .trivia _ p, plain, trivia, offset, m, h => Matches.form hcalls p plain h
  | .silent p, plain, trivia, offset, m, h => by
    obtain ⟨m', -, rfl⟩ := h
    rfl

theorem MatchesParts.rows
    (hcalls : ∀ r trivia offset m, calls r trivia offset m → (rules r).Has P m.value) :
    (cs : List ComponentDef) →
    (∀ sc ∈ (Pattern.sequence cs : PatternDef).scanners, sc.Plain) →
    ∀ {trivia} {ps ps' : Parts} {rows : List Row} {row : Row}, row ∈ rows → row.Holds P ps →
    MatchesParts skipped text calls cs trivia ps ps' →
    ∃ row' ∈ PatternDef.rows rules cs rows, row'.Holds P ps'
  | [], _, trivia, ps, ps', rows, row, hrow, hholds, h => by
    obtain rfl : ps' = ps := h
    exact ⟨row, hrow, hholds⟩
  | ⟨field, capture, p⟩ :: rest, plain, trivia, ps, ps', rows, row, hrow, hholds, h => by
    obtain ⟨plain, plain'⟩ := List.forall_mem_append.1 plain
    obtain ⟨m, hm, hrest⟩ := h
    obtain ⟨row', hrow', hholds'⟩ := hholds.push (Matches.form hcalls p plain hm) field capture
    exact MatchesParts.rows hcalls rest plain' (List.mem_flatMap.2 ⟨row, hrow, hrow'⟩) hholds' hrest

theorem MatchesOne.form
    (hcalls : ∀ r trivia offset m, calls r trivia offset m → (rules r).Has P m.value) :
    (ps : List PatternDef) →
    (∀ sc ∈ (Pattern.choice ps : PatternDef).scanners, sc.Plain) → ∀ {trivia offset m},
    MatchesOne skipped text calls ps trivia offset m →
    (PatternDef.choiceForm rules ps).Has P m.value
  | [], _, trivia, offset, m, h => h.elim
  | p :: rest, plain, trivia, offset, m, h => by
    obtain ⟨plain, plain'⟩ := List.forall_mem_append.1 plain
    exact h.imp (Matches.form hcalls p plain) (MatchesOne.form hcalls rest plain')

end

end Sound

section Rules

/-- The form of a field among captured ones; what is not there is null. -/
def Form.field (es : List (String × Form)) (key : String) : Form :=
  (es.lookup key).getD .leaf

namespace RuleDef

variable (rules : String → Form) (d : RuleDef)

/-- What a rule yields as it is where its component captured nothing. -/
def aside : Form :=
  match d.ifNoMatch with
  | some ⟨_, capture⟩ => Form.anyOf ((PatternDef.form rules d.pattern).alts.filterMap fun
    | .record es => some (Form.field es capture)
    | _ => none)
  | none => .nothing

/-- The picked field, if one is picked from captures. -/
def picked : Form → Form
  | .record es =>
    match d.pick with
    | some key => Form.field es key
    | none => .record es
  | f => f

/-- What is tagged by a rule, by what is not tagged yet. -/
def nodeForm : Form → Form
  | .record es => .stem d.tag es
  | .stem tag es => .stem tag es
  | .branch => .branch
  | .tree => if d.asNode then .either .tree (.stem d.tag []) else .tree
  | f => if d.asNode then .stem d.tag [] else f

def before : Form :=
  Form.anyOf ((PatternDef.form rules d.pattern).alts.flatMap fun f =>
    (d.picked f).alts.map d.nodeForm)

end RuleDef

variable {P : Node → Prop} {rules : String → Form} {d : RuleDef}

theorem Form.HasEntries.take {es : List (String × Form)} {fs : Captures}
    (h : HasEntries P es fs.entries) (key : String) : (field es key).Has P (fs.take key).1 := by
  have hget := Fields.rel_get? ((hasEntries_iff P).1 h) key
  simp only [Fields.get?] at hget
  simp only [field, Fields.take, Fields.get?]
  generalize es.lookup key = f?, fs.entries.lookup key = v? at hget ⊢
  cases hget with
  | none => trivial
  | some hv => exact hv

def RuleDef.pickFrom (d : RuleDef) (v : Value) : Value :=
  match d.pick, v with
  | some field, .record fields => (fields.take field).1
  | _, v => v

def RuleDef.makeNode (d : RuleDef) : Value → Value
  | .record fields => .node (.ofFields d.tag fields)
  | .node n => .node n
  | v => if d.asNode then .node (.ofFields d.tag .empty) else v

theorem RuleDef.tagged_eq (v : Value) : d.bare.tagged v = d.makeNode (d.pickFrom v) :=
  rfl

theorem RuleDef.nodeForm_has {f : Form} {v : Value} (hf : ∀ g h, f ≠ .either g h)
    (h : f.Has P v) : (d.nodeForm f).Has P (d.makeNode v) := by
  have hempty : (Form.stem d.tag []).Has P (.node (.ofFields d.tag .empty)) := ⟨_, rfl, rfl, rfl⟩
  cases f with
  | nothing => exact h.elim
  | null =>
    obtain rfl := h
    simp only [nodeForm, makeNode]
    split
    · exact hempty
    · rfl
  | branch =>
    obtain ⟨h, n, rfl⟩ := h
    exact ⟨h, n, rfl⟩
  | leaf =>
    cases v with
    | list _ | record _ | node _ => exact h.elim
    | null | bool _ | text _ =>
      simp only [nodeForm, makeNode]
      split
      · exact hempty
      · exact h
  | tree =>
    simp only [nodeForm, makeNode]
    cases v with
    | record _ => exact h.elim
    | node _ =>
      split
      · exact .inl h
      · exact h
    | null | bool _ | text _ | list _ =>
      split
      · exact .inr hempty
      · exact h
  | list f =>
    obtain ⟨vs, rfl, hvs⟩ := h
    simp only [nodeForm, makeNode]
    split
    · exact hempty
    · exact ⟨vs, rfl, hvs⟩
  | record es =>
    obtain ⟨fs, rfl, hfs⟩ := h
    exact ⟨_, rfl, rfl, hfs⟩
  | stem tag es =>
    obtain ⟨n, rfl, hn⟩ := h
    exact ⟨n, rfl, hn⟩
  | either g g' => exact absurd rfl (hf g g')

theorem RuleDef.picked_has {f : Form} {v : Value} (hf : ∀ g h, f ≠ .either g h)
    (h : f.Has P v) : (d.picked f).Has P (d.pickFrom v) := by
  cases f with
  | record es =>
    obtain ⟨fs, rfl, hfs⟩ := h
    simp only [picked, pickFrom]
    cases d.pick with
    | some key => exact hfs.take key
    | none => exact ⟨fs, rfl, hfs⟩
  | either g g' => exact absurd rfl (hf g g')
  | _ =>
    have hrecord : ∀ fs, v ≠ .record fs := by
      rintro fs rfl
      simp [Form.Has, Value.IsLeaf, Value.Finished] at h
    simp only [picked, pickFrom]
    split
    · exact absurd rfl (hrecord _)
    · exact h

theorem RuleDef.before_has {v : Value} (hv : (PatternDef.form rules d.pattern).Has P v) :
    (d.before rules).Has P (d.bare.tagged v) := by
  have hplain : ∀ {f a : Form}, a ∈ f.alts → ∀ g h, a ≠ .either g h := by
    rintro f a ha g h rfl
    exact Form.either_notMem_alts f ha
  obtain ⟨a, ha, hva⟩ := (Form.has_alts _).1 hv
  obtain ⟨b, hb, hvb⟩ := (Form.has_alts _).1 (picked_has (d := d) (hplain ha) hva)
  exact Form.has_anyOf.2 ⟨_, List.mem_flatMap.2 ⟨a, ha, List.mem_map_of_mem hb⟩,
    nodeForm_has (hplain hb) hvb⟩

theorem RuleDef.aside_has {v w : Value} (hv : (PatternDef.form rules d.pattern).Has P v)
    (h : d.bare.fallback? v = some w) : (d.aside rules).Has P w := by
  obtain ⟨a, ha, hva⟩ := (Form.has_alts _).1 hv
  simp only [LinkedRule.fallback?, bare] at h
  split at h
  · rename_i fields
    cases hif : d.ifNoMatch with
    | none =>
      rw [hif] at h
      cases h
    | some i =>
      obtain ⟨component, capture⟩ := i
      rw [hif] at h
      simp only [Option.ite_none_right_eq_some, Option.some.injEq] at h
      obtain ⟨-, rfl⟩ := h
      cases a with
      | record es =>
        obtain ⟨fs, hfs, hes⟩ := hva
        obtain rfl := Value.record.inj hfs
        simp only [aside, hif]
        exact Form.has_anyOf.2 ⟨_, List.mem_filterMap.2 ⟨_, ha, rfl⟩, hes.take capture⟩
      | either g g' => exact absurd ha (Form.either_notMem_alts _)
      | _ => simp [Form.Has, Value.IsLeaf, Value.Finished] at hva
  · cases h

/-- What a rule makes of a value of its pattern's form: its processor works on what has the form of
tagged captures, unless these are set aside. -/
theorem RuleDef.shape_form {v w : Value} (hv : (PatternDef.form rules d.pattern).Has P v)
    {ctx : Context} (h : RuleDef.shape d ctx v = .ok w) :
    (d.aside rules).Has P w ∨ ∃ u w', (d.before rules).Has P u ∧
      d.bare.process ctx u = .ok w' ∧ w = LinkedRule.place ctx w' := by
  rw [RuleDef.shape, LinkedRule.shape] at h
  split at h
  · rename_i hfallback
    obtain rfl := Except.ok.inj h
    exact .inl (aside_has hv hfallback)
  · obtain ⟨w', hw', h⟩ := bind_ok h
    exact .inr ⟨_, w', before_has hv, hw', (Except.ok.inj h).symm⟩

end Rules

end PhpSyntax.Peg
