import PhpSyntax.Proofs.Peg.Transparency

namespace PhpSyntax.Peg

/-- A parse under way: what it remembers, how many rule calls are on the stack, those of the parses
around it included, and how many lookaheads it is beneath. -/
structure Progress where
  memory : Memory
  depth : Nat
  lookaheads : Nat

namespace Progress

variable (σ : Progress)

/-- Under what the outcome of a call is remembered. -/
def key (rule offset : Nat) (trivia : Bool) : Call :=
  ⟨rule, offset, trivia, decide (0 < σ.lookaheads)⟩

def enter : Progress := { σ with depth := σ.depth + 1 }

def leave : Progress := { σ with depth := σ.depth - 1 }

def lookAhead : Progress := { σ with lookaheads := σ.lookaheads + 1 }

def lookBack : Progress := { σ with lookaheads := σ.lookaheads - 1 }

def storing (c : Call) (o : Except Failure (Option Matched)) : Progress :=
  { σ with memory := σ.memory.storing c o }

/-- Notes where nothing was found, unless beneath a lookahead. -/
def settle (start : Nat) : Option Matched → Progress
  | some _ => σ
  | none => if 0 < σ.lookaheads then σ else { σ with memory := σ.memory.note start }

end Progress

/-- Trivia is taken piece by piece, up to where there is none or an empty one. -/
inductive Skips (trivia : Lexeme) (text : Text) : Nat → Nat → Prop where
  | stop {offset : Nat} :
    (∀ n, (text.after? offset).bind (trivia.matchLength? · (text.size - offset)) ≠ some (n + 1)) →
    Skips trivia text offset offset
  | more {offset n stop : Nat} :
    (text.after? offset).bind (trivia.matchLength? · (text.size - offset)) = some (n + 1) →
    Skips trivia text (offset + (n + 1)) stop → Skips trivia text offset stop

/-- Where a terminal is tried. -/
inductive LeadsTo (trivia : Option Lexeme) (text : Text) : Bool → Nat → Nat → Prop where
  | raw {offset : Nat} : LeadsTo trivia text false offset offset
  | bare {offset : Nat} : trivia = none → LeadsTo trivia text true offset offset
  | skipped {t : Lexeme} {offset start : Nat} : trivia = some t → Skips t text offset start →
    LeadsTo trivia text true offset start

/-- A match of a terminal or scanner that was tried at `start`. -/
def matchedAt (start : Nat) (found : Option (Nat × Value)) : Option Matched :=
  found.map fun r => ⟨start, start + r.1, r.2⟩

def Lexeme.found (t : Lexeme) (text : Text) (start : Nat) : Option Matched :=
  matchedAt start ((text.after? start).bind fun cs =>
    (t.matchAt? cs (text.size - start)).map fun r => (r.1, .text r.2))

def Scanner.found (sc : Scanner) (text : Text) (start : Nat) : Option Matched :=
  matchedAt start ((text.after? start).bind sc.scan)

def endFound (text : Text) (start : Nat) : Option Matched :=
  if text.size ≤ start then some (.empty start) else none

@[simp] theorem Parts.push_cursor (ps : Parts) (field : Option String) (capture : Capture)
    (m : Matched) : (ps.push field capture m).cursor = m.stop := by
  simp only [push]
  split <;> rfl

/-- A repetition, and where it begins. -/
structure Repetition where
  item : LinkedPattern
  separator : Option LinkedPattern
  least : Nat
  trailing : Bool
  trivia : Bool
  offset : Nat

/-- What a parse works on. -/
inductive Job where
  | call (rule offset : Nat) (trivia : Bool)
  | evaluate (rule offset : Nat) (trivia : Bool)
  | pattern (p : LinkedPattern) (trivia : Bool) (offset : Nat)
  | components (cs : List (Component LinkedPattern)) (trivia : Bool) (ps : Parts)
  | alternatives (ps : List LinkedPattern) (trivia : Bool) (offset : Nat)
  /-- The rounds of a repetition behind those matched so far. -/
  | rounds (r : Repetition) (rs : Rounds)
  /-- A round whose item begins at an offset. -/
  | item (r : Repetition) (rs : Rounds) (next : Nat)

namespace Repetition

variable (r : Repetition) (rs : Rounds)

/-- Whether the next round comes without a separator in front of it. -/
def Leads : Prop :=
  r.separator = none ∨ rs.items = []

/-- An empty item goes on only in front of the first separator. -/
def Ends (m : Matched) : Prop :=
  m.stop = rs.cursor ∧ (rs.items ≠ [] ∨ r.separator = none)

/-- The match of the repetition after some rounds. -/
def finish : Except Failure (Option Matched) :=
  .ok (rs.finish r.offset r.least)

/-- The rounds before an item that is missing, with the separator behind them if it may be there. -/
def trailed (next : Nat) : Rounds :=
  if r.trailing && rs.cursor < next then { rs with cursor := next } else rs

end Repetition

/-- The rounds behind one more, which is empty only if it is the first. -/
def Rounds.pushed (rs : Rounds) (m : Matched) : Rounds :=
  rs.push m (rs.emptyFirst || m.stop == rs.cursor)

def Unmatched (o : Except Failure (Option Matched)) : Prop :=
  ∀ m, o ≠ .ok (some m)

/-- What a processor learns from the nested parses with some outcomes. -/
def answers (g : Grammar) (outcomes : String → String → Nat → Except Failure (Option Matched))
    (rule text : String) (offset : Nat) : Except Failure (Option Value) :=
  match g.ruleId? rule with
  | some _ => verdict (outcomes rule text offset)
  | none => .ok none

theorem answers_congr {g : Grammar}
    {outcomes outcomes' : String → String → Nat → Except Failure (Option Matched)}
    (h : ∀ rule text offset id, g.ruleId? rule = some id →
      outcomes rule text offset = outcomes' rule text offset) :
    answers g outcomes = answers g outcomes' := by
  funext rule text offset
  simp only [answers]
  cases hid : g.ruleId? rule with
  | none => rfl
  | some id => exact congrArg verdict (h rule text offset id hid)

/-- How a job goes on to its outcome, from one state of a parse to another. `P` holds of the number
of rule calls on the stack whenever one more is entered, in the parse itself and in all parses that
a processor could nest in it. -/
inductive Exec (s : Setting) (P : Nat → Prop) :
    Input → Job → Progress → Except Failure (Option Matched) → Progress → Prop where
  | recalled {input : Input} {rule offset : Nat} {trivia : Bool} {σ : Progress}
    {outcome : Option Matched} : σ.memory.memo[σ.key rule offset trivia]? = some outcome →
    Exec s P input (.call rule offset trivia) σ (.ok outcome) σ
  | tooDeep {input : Input} {rule offset : Nat} {trivia : Bool} {σ : Progress} :
    σ.memory.memo[σ.key rule offset trivia]? = none → s.limit ≤ σ.depth →
    Exec s P input (.call rule offset trivia) σ
      (.error (.tooDeep s.limit (input.base + offset))) σ
  | entered {input : Input} {rule offset : Nat} {trivia : Bool} {σ σ' : Progress}
    {o : Except Failure (Option Matched)} : σ.memory.memo[σ.key rule offset trivia]? = none →
    σ.depth < s.limit → P (σ.depth + 1) →
    Exec s P input (.evaluate rule offset trivia) σ.enter o σ' →
    Exec s P input (.call rule offset trivia) σ o (σ'.leave.storing (σ.key rule offset trivia) o)
  | unknown {input : Input} {rule offset : Nat} {trivia : Bool} {σ : Progress} :
    s.grammar.rules[rule]? = none → Exec s P input (.evaluate rule offset trivia) σ (.ok none) σ
  | unshaped {input : Input} {rule offset : Nat} {trivia : Bool} {r : LinkedRule}
    {σ σ' : Progress} {o : Except Failure (Option Matched)} :
    s.grammar.rules[rule]? = some r → Exec s P input (.pattern r.pattern trivia offset) σ o σ' →
    Unmatched o → Exec s P input (.evaluate rule offset trivia) σ o σ'
  | shaped {input : Input} {rule offset : Nat} {trivia : Bool} {r : LinkedRule}
    {σ σ' : Progress} {m : Matched}
    {outcomes : String → String → Nat → Except Failure (Option Matched)}
    {ends : String → String → Nat → Progress} :
    s.grammar.rules[rule]? = some r →
    Exec s P input (.pattern r.pattern trivia offset) σ (.ok (some m)) σ' →
    (∀ name text offset id, s.grammar.ruleId? name = some id →
      Exec s P (input.within text offset) (.call id 0 false) ⟨.empty, σ'.depth, 0⟩
        (outcomes name text offset) (ends name text offset)) →
    Exec s P input (.evaluate rule offset trivia) σ
      ((r.shape ⟨⟨m.start, m.stop⟩, input, s.lines, s.options, answers s.grammar outcomes⟩
        m.value).map fun v => some { m with value := v }) σ'
  | terminal {input : Input} {t : Lexeme} {trivia : Bool} {offset start : Nat} {σ : Progress} :
    LeadsTo s.grammar.trivia input.text trivia offset start →
    Exec s P input (.pattern (.terminal t) trivia offset) σ (.ok (t.found input.text start))
      (σ.settle start (t.found input.text start))
  | scan {input : Input} {sc : Scanner} {trivia : Bool} {offset start : Nat} {σ : Progress} :
    LeadsTo s.grammar.trivia input.text trivia offset start →
    Exec s P input (.pattern (.scan sc) trivia offset) σ (.ok (sc.found input.text start))
      (σ.settle start (sc.found input.text start))
  | endOfInput {input : Input} {trivia : Bool} {offset start : Nat} {σ : Progress} :
    LeadsTo s.grammar.trivia input.text trivia offset start →
    Exec s P input (.pattern .endOfInput trivia offset) σ (.ok (endFound input.text start))
      (σ.settle start (endFound input.text start))
  | rule {input : Input} {r : RuleRef} {trivia : Bool} {offset : Nat} {σ σ' : Progress}
    {o : Except Failure (Option Matched)} : Exec s P input (.call r.id offset trivia) σ o σ' →
    Exec s P input (.pattern (.rule r) trivia offset) σ o σ'
  | sequence {input : Input} {cs : List (Component LinkedPattern)} {trivia : Bool} {offset : Nat}
    {σ σ' : Progress} {o : Except Failure (Option Matched)} :
    Exec s P input (.components cs trivia (.startingAt offset)) σ o σ' →
    Exec s P input (.pattern (.sequence cs) trivia offset) σ o σ'
  | choice {input : Input} {ps : List LinkedPattern} {trivia : Bool} {offset : Nat}
    {σ σ' : Progress} {o : Except Failure (Option Matched)} :
    Exec s P input (.alternatives ps trivia offset) σ o σ' →
    Exec s P input (.pattern (.choice ps) trivia offset) σ o σ'
  | repetition {input : Input} {item : LinkedPattern} {separator : Option LinkedPattern}
    {least : Nat} {trailing trivia : Bool} {offset : Nat} {σ σ' : Progress}
    {o : Except Failure (Option Matched)} :
    Exec s P input (.rounds ⟨item, separator, least, trailing, trivia, offset⟩
      (.startingAt offset)) σ o σ' →
    Exec s P input (.pattern (.repetition item separator least trailing) trivia offset) σ o σ'
  | optional {input : Input} {p : LinkedPattern} {trivia : Bool} {offset : Nat}
    {σ σ' : Progress} {o : Except Failure (Option Matched)} :
    Exec s P input (.pattern p trivia offset) σ o σ' →
    Exec s P input (.pattern (.optional p) trivia offset) σ
      (o.map fun found => some (found.getD (.empty offset))) σ'
  | ahead {input : Input} {negated : Bool} {p : LinkedPattern} {trivia : Bool} {offset : Nat}
    {σ σ' : Progress} {o : Except Failure (Option Matched)} :
    Exec s P input (.pattern p trivia offset) σ.lookAhead o σ' →
    Exec s P input (.pattern (.ahead negated p) trivia offset) σ
      (o.map fun found => if found.isSome != negated then some (.empty offset) else none)
      σ'.lookBack
  | trivia {input : Input} {skip : Bool} {p : LinkedPattern} {trivia : Bool} {offset : Nat}
    {σ σ' : Progress} {o : Except Failure (Option Matched)} :
    Exec s P input (.pattern p skip offset) σ o σ' →
    Exec s P input (.pattern (.trivia skip p) trivia offset) σ o σ'
  | silent {input : Input} {p : LinkedPattern} {trivia : Bool} {offset : Nat}
    {σ σ' : Progress} {o : Except Failure (Option Matched)} :
    Exec s P input (.pattern p trivia offset) σ o σ' →
    Exec s P input (.pattern (.silent p) trivia offset) σ
      (o.map fun found => found.map fun m => { m with value := .null }) σ'
  | allParts {input : Input} {trivia : Bool} {ps : Parts} {σ : Progress} :
    Exec s P input (.components [] trivia ps) σ (.ok (some (ps.finish input.text))) σ
  | partUnmatched {input : Input} {field : Option String} {capture : Capture} {p : LinkedPattern}
    {rest : List (Component LinkedPattern)} {trivia : Bool} {ps : Parts} {σ σ' : Progress}
    {o : Except Failure (Option Matched)} : Exec s P input (.pattern p trivia ps.cursor) σ o σ' →
    Unmatched o → Exec s P input (.components (⟨field, capture, p⟩ :: rest) trivia ps) σ o σ'
  | partMatched {input : Input} {field : Option String} {capture : Capture} {p : LinkedPattern}
    {rest : List (Component LinkedPattern)} {trivia : Bool} {ps : Parts} {σ σ' σ'' : Progress}
    {m : Matched} {o : Except Failure (Option Matched)} :
    Exec s P input (.pattern p trivia ps.cursor) σ (.ok (some m)) σ' →
    Exec s P input (.components rest trivia (ps.push field capture m)) σ' o σ'' →
    Exec s P input (.components (⟨field, capture, p⟩ :: rest) trivia ps) σ o σ''
  | noAlternative {input : Input} {trivia : Bool} {offset : Nat} {σ : Progress} :
    Exec s P input (.alternatives [] trivia offset) σ (.ok none) σ
  | thisAlternative {input : Input} {p : LinkedPattern} {rest : List LinkedPattern}
    {trivia : Bool} {offset : Nat} {σ σ' : Progress} {o : Except Failure (Option Matched)} :
    Exec s P input (.pattern p trivia offset) σ o σ' → o ≠ .ok none →
    Exec s P input (.alternatives (p :: rest) trivia offset) σ o σ'
  | nextAlternative {input : Input} {p : LinkedPattern} {rest : List LinkedPattern}
    {trivia : Bool} {offset : Nat} {σ σ' σ'' : Progress} {o : Except Failure (Option Matched)} :
    Exec s P input (.pattern p trivia offset) σ (.ok none) σ' →
    Exec s P input (.alternatives rest trivia offset) σ' o σ'' →
    Exec s P input (.alternatives (p :: rest) trivia offset) σ o σ''
  | leading {input : Input} {r : Repetition} {rs : Rounds} {σ σ' : Progress}
    {o : Except Failure (Option Matched)} : r.Leads rs →
    Exec s P input (.item r rs rs.cursor) σ o σ' → Exec s P input (.rounds r rs) σ o σ'
  | separated {input : Input} {r : Repetition} {p : LinkedPattern} {rs : Rounds}
    {σ σ' σ'' : Progress} {m : Matched} {o : Except Failure (Option Matched)} :
    r.separator = some p → rs.items ≠ [] →
    Exec s P input (.pattern p r.trivia rs.cursor) σ (.ok (some m)) σ' →
    Exec s P input (.item r rs m.stop) σ' o σ'' → Exec s P input (.rounds r rs) σ o σ''
  | separatorMissing {input : Input} {r : Repetition} {p : LinkedPattern} {rs : Rounds}
    {σ σ' : Progress} : r.separator = some p → rs.items ≠ [] →
    Exec s P input (.pattern p r.trivia rs.cursor) σ (.ok none) σ' →
    Exec s P input (.rounds r rs) σ (r.finish rs) σ'
  | separatorFailed {input : Input} {r : Repetition} {p : LinkedPattern} {rs : Rounds}
    {σ σ' : Progress} {e : Failure} : r.separator = some p → rs.items ≠ [] →
    Exec s P input (.pattern p r.trivia rs.cursor) σ (.error e) σ' →
    Exec s P input (.rounds r rs) σ (.error e) σ'
  | itemFailed {input : Input} {r : Repetition} {rs : Rounds} {next : Nat} {σ σ' : Progress}
    {e : Failure} : Exec s P input (.pattern r.item r.trivia next) σ (.error e) σ' →
    Exec s P input (.item r rs next) σ (.error e) σ'
  | itemMissing {input : Input} {r : Repetition} {rs : Rounds} {next : Nat} {σ σ' : Progress} :
    Exec s P input (.pattern r.item r.trivia next) σ (.ok none) σ' →
    Exec s P input (.item r rs next) σ (r.finish (r.trailed rs next)) σ'
  | itemEmpty {input : Input} {r : Repetition} {rs : Rounds} {next : Nat} {σ σ' : Progress}
    {m : Matched} : Exec s P input (.pattern r.item r.trivia next) σ (.ok (some m)) σ' →
    r.Ends rs m → Exec s P input (.item r rs next) σ (r.finish rs) σ'
  | itemMatched {input : Input} {r : Repetition} {rs : Rounds} {next : Nat}
    {σ σ' σ'' : Progress} {m : Matched} {o : Except Failure (Option Matched)} :
    Exec s P input (.pattern r.item r.trivia next) σ (.ok (some m)) σ' → ¬r.Ends rs m →
    Exec s P input (.rounds r (rs.pushed m)) σ' o σ'' →
    Exec s P input (.item r rs next) σ o σ''

theorem Repetition.not_leads {r : Repetition} {rs : Rounds} {p : LinkedPattern}
    (hr : r.separator = some p) (hi : rs.items ≠ []) : ¬r.Leads rs := by
  rintro (h | h)
  · rw [h] at hr
    cases hr
  · exact hi h

namespace Progress

theorem settle_counters (σ : Progress) (start : Nat) (found : Option Matched) :
    (σ.settle start found).depth = σ.depth ∧ (σ.settle start found).lookaheads = σ.lookaheads := by
  cases found with
  | some m => exact ⟨rfl, rfl⟩
  | none =>
    simp only [settle]
    split <;> exact ⟨rfl, rfl⟩

end Progress

variable {s : Setting} {P Q : Nat → Prop} {input : Input} {job : Job} {σ σ' : Progress}
  {o : Except Failure (Option Matched)}

/-- However a job ends, as many calls are on the stack and lookaheads around it as when it began. -/
theorem Exec.counters (h : Exec s P input job σ o σ') :
    σ'.depth = σ.depth ∧ σ'.lookaheads = σ.lookaheads := by
  induction h with
  | entered _ _ _ _ ih =>
    simp only [Progress.enter] at ih
    simp only [Progress.storing, Progress.leave, ih, Nat.add_sub_cancel, and_self]
  | ahead _ ih =>
    simp only [Progress.lookAhead] at ih
    simp only [Progress.lookBack, ih, Nat.add_sub_cancel, and_self]
  | terminal _ => exact Progress.settle_counters _ _ _
  | scan _ => exact Progress.settle_counters _ _ _
  | endOfInput _ => exact Progress.settle_counters _ _ _
  | partMatched _ _ ih ih' => exact ⟨ih'.1.trans ih.1, ih'.2.trans ih.2⟩
  | nextAlternative _ _ ih ih' => exact ⟨ih'.1.trans ih.1, ih'.2.trans ih.2⟩
  | separated _ _ _ _ ih ih' => exact ⟨ih'.1.trans ih.1, ih'.2.trans ih.2⟩
  | itemMatched _ _ _ ih ih' => exact ⟨ih'.1.trans ih.1, ih'.2.trans ih.2⟩
  | shaped _ _ _ ih _ => exact ih
  | recalled _ => exact ⟨rfl, rfl⟩
  | tooDeep _ _ => exact ⟨rfl, rfl⟩
  | unknown _ => exact ⟨rfl, rfl⟩
  | allParts => exact ⟨rfl, rfl⟩
  | noAlternative => exact ⟨rfl, rfl⟩
  | _ => assumption

theorem Skips.unique {t : Lexeme} {text : Text} {offset stop stop' : Nat}
    (h : Skips t text offset stop) (h' : Skips t text offset stop') : stop' = stop := by
  induction h with
  | stop hnone =>
    cases h' with
    | stop => rfl
    | more hsome => exact absurd hsome (hnone _)
  | more hsome _ ih =>
    cases h' with
    | stop hnone => exact absurd hsome (hnone _)
    | more hsome' h' =>
      obtain rfl := Nat.succ.inj (Option.some.inj (hsome.symm.trans hsome'))
      exact ih h'

theorem LeadsTo.unique {t : Option Lexeme} {text : Text} {trivia : Bool} {offset start start' : Nat}
    (h : LeadsTo t text trivia offset start) (h' : LeadsTo t text trivia offset start') :
    start' = start := by
  cases h with
  | raw =>
    cases h' with
    | raw => rfl
  | bare ht =>
    cases h' with
    | bare => rfl
    | skipped ht' => cases ht.symm.trans ht'
  | skipped ht hs =>
    cases h' with
    | bare ht' => cases ht'.symm.trans ht
    | skipped ht' hs' =>
      obtain rfl := Option.some.inj (ht.symm.trans ht')
      exact hs.unique hs'

/-- A job has one execution at most. -/
theorem Exec.unique (h : Exec s P input job σ o σ') {o' : Except Failure (Option Matched)}
    {τ : Progress} (h' : Exec s Q input job σ o' τ) : o' = o ∧ τ = σ' := by
  induction h generalizing o' τ with
  | recalled hmemo =>
    cases h' with
    | recalled hmemo' =>
      obtain rfl := Option.some.inj (hmemo.symm.trans hmemo')
      exact ⟨rfl, rfl⟩
    | tooDeep hmemo' => cases hmemo.symm.trans hmemo'
    | entered hmemo' => cases hmemo.symm.trans hmemo'
  | tooDeep hmemo hdepth =>
    cases h' with
    | recalled hmemo' => cases hmemo.symm.trans hmemo'
    | tooDeep => exact ⟨rfl, rfl⟩
    | entered _ hdepth' => exact absurd hdepth (Nat.not_le_of_lt hdepth')
  | entered hmemo hdepth _ _ ih =>
    cases h' with
    | recalled hmemo' => cases hmemo.symm.trans hmemo'
    | tooDeep _ hdepth' => exact absurd hdepth' (Nat.not_le_of_lt hdepth)
    | entered _ _ _ h' =>
      obtain ⟨rfl, rfl⟩ := ih h'
      exact ⟨rfl, rfl⟩
  | unknown hr =>
    cases h' with
    | unknown => exact ⟨rfl, rfl⟩
    | unshaped hr' => cases hr.symm.trans hr'
    | shaped hr' => cases hr.symm.trans hr'
  | unshaped hr _ hnone ih =>
    cases h' with
    | unknown hr' => cases hr'.symm.trans hr
    | unshaped hr' h' =>
      obtain rfl := Option.some.inj (hr.symm.trans hr')
      exact ih h'
    | shaped hr' h' =>
      obtain rfl := Option.some.inj (hr.symm.trans hr')
      exact absurd (ih h').1.symm (hnone _)
  | shaped hr _ _ ih ihn =>
    cases h' with
    | unknown hr' => cases hr'.symm.trans hr
    | unshaped hr' h' hnone =>
      obtain rfl := Option.some.inj (hr.symm.trans hr')
      exact absurd (ih h').1 (hnone _)
    | shaped hr' h' hn' =>
      obtain rfl := Option.some.inj (hr.symm.trans hr')
      obtain ⟨hm, rfl⟩ := ih h'
      cases hm
      have hanswers := answers_congr fun name text offset id hid =>
        (ihn name text offset id hid (hn' name text offset id hid)).1
      exact ⟨by rw [hanswers], rfl⟩
  | terminal hl =>
    cases h' with
    | terminal hl' =>
      obtain rfl := hl.unique hl'
      exact ⟨rfl, rfl⟩
  | scan hl =>
    cases h' with
    | scan hl' =>
      obtain rfl := hl.unique hl'
      exact ⟨rfl, rfl⟩
  | endOfInput hl =>
    cases h' with
    | endOfInput hl' =>
      obtain rfl := hl.unique hl'
      exact ⟨rfl, rfl⟩
  | rule _ ih =>
    cases h' with
    | rule h' => exact ih h'
  | sequence _ ih =>
    cases h' with
    | sequence h' => exact ih h'
  | choice _ ih =>
    cases h' with
    | choice h' => exact ih h'
  | repetition _ ih =>
    cases h' with
    | repetition h' => exact ih h'
  | optional _ ih =>
    cases h' with
    | optional h' =>
      obtain ⟨rfl, rfl⟩ := ih h'
      exact ⟨rfl, rfl⟩
  | ahead _ ih =>
    cases h' with
    | ahead h' =>
      obtain ⟨rfl, rfl⟩ := ih h'
      exact ⟨rfl, rfl⟩
  | trivia _ ih =>
    cases h' with
    | trivia h' => exact ih h'
  | silent _ ih =>
    cases h' with
    | silent h' =>
      obtain ⟨rfl, rfl⟩ := ih h'
      exact ⟨rfl, rfl⟩
  | allParts =>
    cases h' with
    | allParts => exact ⟨rfl, rfl⟩
  | partUnmatched _ hnone ih =>
    cases h' with
    | partUnmatched h' => exact ih h'
    | partMatched h' => exact absurd (ih h').1.symm (hnone _)
  | partMatched _ _ ih ih' =>
    cases h' with
    | partUnmatched h' hnone => exact absurd (ih h').1 (hnone _)
    | partMatched h' hrest =>
      obtain ⟨hm, rfl⟩ := ih h'
      cases hm
      exact ih' hrest
  | noAlternative =>
    cases h' with
    | noAlternative => exact ⟨rfl, rfl⟩
  | thisAlternative _ hsome ih =>
    cases h' with
    | thisAlternative h' => exact ih h'
    | nextAlternative h' => exact absurd (ih h').1.symm hsome
  | nextAlternative _ _ ih ih' =>
    cases h' with
    | thisAlternative h' hsome => exact absurd (ih h').1 hsome
    | nextAlternative h' hrest =>
      obtain ⟨-, rfl⟩ := ih h'
      exact ih' hrest
  | leading hr _ ih =>
    cases h' with
    | leading _ h' => exact ih h'
    | separated hr' hi => exact absurd hr (Repetition.not_leads hr' hi)
    | separatorMissing hr' hi => exact absurd hr (Repetition.not_leads hr' hi)
    | separatorFailed hr' hi => exact absurd hr (Repetition.not_leads hr' hi)
  | separated hr hi _ _ ih ih' =>
    cases h' with
    | leading hr' => exact absurd hr' (Repetition.not_leads hr hi)
    | separated hr' _ h' hitem =>
      obtain rfl := Option.some.inj (hr.symm.trans hr')
      obtain ⟨hm, rfl⟩ := ih h'
      cases hm
      exact ih' hitem
    | separatorMissing hr' _ h' =>
      obtain rfl := Option.some.inj (hr.symm.trans hr')
      cases (ih h').1
    | separatorFailed hr' _ h' =>
      obtain rfl := Option.some.inj (hr.symm.trans hr')
      cases (ih h').1
  | separatorMissing hr hi _ ih =>
    cases h' with
    | leading hr' => exact absurd hr' (Repetition.not_leads hr hi)
    | separated hr' _ h' =>
      obtain rfl := Option.some.inj (hr.symm.trans hr')
      cases (ih h').1
    | separatorMissing hr' _ h' =>
      obtain rfl := Option.some.inj (hr.symm.trans hr')
      exact ⟨rfl, (ih h').2⟩
    | separatorFailed hr' _ h' =>
      obtain rfl := Option.some.inj (hr.symm.trans hr')
      cases (ih h').1
  | separatorFailed hr hi _ ih =>
    cases h' with
    | leading hr' => exact absurd hr' (Repetition.not_leads hr hi)
    | separated hr' _ h' =>
      obtain rfl := Option.some.inj (hr.symm.trans hr')
      cases (ih h').1
    | separatorMissing hr' _ h' =>
      obtain rfl := Option.some.inj (hr.symm.trans hr')
      cases (ih h').1
    | separatorFailed hr' _ h' =>
      obtain rfl := Option.some.inj (hr.symm.trans hr')
      obtain ⟨he, rfl⟩ := ih h'
      cases he
      exact ⟨rfl, rfl⟩
  | itemFailed _ ih =>
    cases h' with
    | itemFailed h' =>
      obtain ⟨he, rfl⟩ := ih h'
      cases he
      exact ⟨rfl, rfl⟩
    | itemMissing h' => cases (ih h').1
    | itemEmpty h' => cases (ih h').1
    | itemMatched h' => cases (ih h').1
  | itemMissing _ ih =>
    cases h' with
    | itemFailed h' => cases (ih h').1
    | itemMissing h' => exact ⟨rfl, (ih h').2⟩
    | itemEmpty h' => cases (ih h').1
    | itemMatched h' => cases (ih h').1
  | itemEmpty _ hends ih =>
    cases h' with
    | itemFailed h' => cases (ih h').1
    | itemMissing h' => cases (ih h').1
    | itemEmpty h' => exact ⟨rfl, (ih h').2⟩
    | itemMatched h' hgoes =>
      cases (ih h').1
      exact absurd hends hgoes
  | itemMatched _ hgoes _ ih ih' =>
    cases h' with
    | itemFailed h' => cases (ih h').1
    | itemMissing h' => cases (ih h').1
    | itemEmpty h' hends =>
      cases (ih h').1
      exact absurd hends hgoes
    | itemMatched h' _ hrest =>
      obtain ⟨hm, rfl⟩ := ih h'
      cases hm
      exact ih' hrest

end PhpSyntax.Peg
