import PhpSyntax.Proofs.Peg.Expansion

namespace PhpSyntax.Peg

/-- Matches one behind the other from one offset to another, each related to where it was tried. -/
inductive Chain (tried : Nat → Matched → Prop) : Nat → List Matched → Nat → Prop where
  | nil {offset : Nat} : Chain tried offset [] offset
  | cons {offset stop : Nat} {m : Matched} {ms : List Matched} : tried offset m →
    Chain tried m.stop ms stop → Chain tried offset (m :: ms) stop

theorem Chain.imp {tried tried' : Nat → Matched → Prop} {offset stop : Nat} {ms : List Matched}
    (h : Chain tried offset ms stop) (himp : ∀ o m, tried o m → tried' o m) :
    Chain tried' offset ms stop := by
  induction h with
  | nil => exact .nil
  | cons hm _ ih => exact .cons (himp _ _ hm) ih

/-- What holds where a chain begins and where each match ends holds where the chain ends. -/
theorem Chain.ends {tried : Nat → Matched → Prop} {offset stop : Nat} {ms : List Matched}
    {P : Nat → Prop} (h : Chain tried offset ms stop) (hoffset : P offset)
    (hP : ∀ o m, tried o m → P m.stop) : P stop := by
  induction h with
  | nil => exact hoffset
  | cons hm _ ih => exact ih (hP _ _ hm)

theorem Chain.isChain {tried : Nat → Matched → Prop} {offset stop : Nat} {ms : List Matched}
    {R : Matched → Matched → Prop} (h : Chain tried offset ms stop)
    (hR : ∀ o m n, tried o m → tried m.stop n → R m n) : ms.IsChain R := by
  induction h with
  | nil => exact .nil
  | @cons offset stop m ms hm hrest ih =>
    cases hrest with
    | nil => exact .singleton m
    | cons hn _ => exact .cons_cons (hR _ _ _ hm hn) ih

def Memory.Recalls (memory : Memory) (rule : Nat) (trivia quiet : Bool) (offset : Nat)
    (m : Matched) : Prop :=
  memory.memo[(⟨rule, offset, trivia, quiet⟩ : Call)]? = some (some m) ∧ m.stop ≠ offset

variable {s : Setting} {P : Nat → Prop} {input : Input} {job : Job} {σ σ' : Progress}
  {o : Except Failure (Option Matched)}

theorem Exec.called {rule offset : Nat} {trivia : Bool} {found : Option Matched}
    (h : Exec s P input (.call rule offset trivia) σ (.ok found) σ') :
    σ'.memory.memo[σ.key rule offset trivia]? = some found := by
  cases h with
  | recalled hmemo => exact hmemo
  | entered _ _ _ _ => exact Std.HashMap.getElem?_insert_self

/-- A repetition of a rule without separators. -/
structure Repetition.Plain (r : Repetition) (ref : RuleRef) : Prop where
  item : r.item = .rule ref
  separator : r.separator = none
  least : r.least = 0

/-- How a repetition in progress goes on: with calls of its rule, one behind the other. -/
def GoesOn (ref : RuleRef) (r : Repetition) (rs : Rounds) (quiet : Bool) (memory : Memory)
    (m : Matched) : Prop :=
  ∃ ms, Chain (memory.Recalls ref.id r.trivia quiet) rs.cursor ms m.stop ∧
    m.value = .list (rs.items.reverse ++ ms.map (·.value))

/-- What a job makes of a repetition of a rule. -/
def Chained (ref : RuleRef) (σ σ' : Progress) (m : Matched) : Job → Prop
  | .rounds r rs => r.Plain ref → rs.emptyFirst = false →
    GoesOn ref r rs σ.quiet σ'.memory m
  | .item r rs next => r.Plain ref → rs.emptyFirst = false → next = rs.cursor →
    GoesOn ref r rs σ.quiet σ'.memory m
  | _ => True

theorem Repetition.Plain.finish {r : Repetition} {ref : RuleRef} (h : r.Plain ref) {rs : Rounds}
    (hfirst : rs.emptyFirst = false) {m : Matched} (hm : r.finish rs = .ok (some m))
    {quiet : Bool} {memory : Memory} : GoesOn ref r rs quiet memory m := by
  obtain ⟨start, hgathers⟩ := r.finish_gathers hfirst
  rw [hm, h.least, Nat.zero_sub, if_pos rfl] at hgathers
  obtain rfl := Option.some.inj (Except.ok.inj hgathers)
  exact ⟨[], .nil, rfl⟩

theorem GoesOn.cons {ref : RuleRef} {r : Repetition} {rs : Rounds} {quiet : Bool} {memory : Memory}
    {m n : Matched} (hm : memory.Recalls ref.id r.trivia quiet rs.cursor m)
    (h : GoesOn ref r (rs.pushed m) quiet memory n) : GoesOn ref r rs quiet memory n := by
  obtain ⟨ms, hchain, hvalue⟩ := h
  refine ⟨m :: ms, .cons hm hchain, ?_⟩
  rw [hvalue]
  simp [Rounds.pushed, Rounds.push]

/-- A repetition of a rule without separators takes remembered matches of the rule, one behind the
other. -/
theorem Exec.chained (ref : RuleRef) (h : Exec s P input job σ o σ') {m : Matched}
    (ho : o = .ok (some m)) : Chained ref σ σ' m job := by
  induction h with
  | leading _ _ ih => exact fun hr hfirst => ih ho hr hfirst rfl
  | separated hp _ _ _ _ _ =>
    intro hr
    rw [hr.separator] at hp
    cases hp
  | separatorMissing hp _ _ _ =>
    intro hr
    rw [hr.separator] at hp
    cases hp
  | separatorFailed _ _ _ _ => cases ho
  | itemFailed _ _ => cases ho
  | itemMissing _ _ =>
    rintro hr hfirst rfl
    rw [Repetition.trailed_self] at ho
    exact hr.finish hfirst ho
  | itemEmpty _ _ _ => exact fun hr hfirst _ => hr.finish hfirst ho
  | @itemMatched _ r rs next σ σ₁ σ₂ first o hitem hends hrest _ ih =>
    rintro hr hfirst rfl
    rw [hr.item] at hitem
    cases hitem with
    | rule hcall =>
      have hstop : first.stop ≠ rs.cursor := fun hstop => hends ⟨hstop, .inr hr.separator⟩
      have hpushed : (rs.pushed first).emptyFirst = false := by
        simp only [Rounds.pushed, Rounds.push, hfirst, Bool.false_or, beq_eq_false_iff_ne]
        exact hstop
      have hon := ih ho hr hpushed
      rw [hcall.quiet] at hon
      exact .cons ⟨hrest.grows _ _ hcall.called, hstop⟩ hon
  | _ => trivial

theorem Exec.atEnd {offset : Nat} {m : Matched}
    (h : Exec s P input (.pattern .endOfInput false offset) σ (.ok (some m)) σ') :
    input.text.size ≤ offset ∧ m = .empty offset := by
  generalize ho : (Except.ok (some m) : Except Failure (Option Matched)) = o at h
  cases h with
  | endOfInput hlead =>
    cases hlead with
    | raw =>
      obtain ⟨hle, hm⟩ := Option.ite_none_right_eq_some.1 (Except.ok.inj ho).symm
      exact ⟨hle, (Option.some.inj hm).symm⟩

/-- A sequence of items of a rule that reach to the end of the text. -/
theorem Exec.listedParts {offset : Nat} {key : String} {ref : RuleRef} {m : Matched}
    (h : Exec s P input (.pattern (.sequence [⟨some key, .list, .repetition (.rule ref) none 0 false⟩,
      ⟨none, .value, .endOfInput⟩]) false offset) σ (.ok (some m)) σ') :
    ∃ (ms : List Matched) (stop : Nat),
      Chain (σ'.memory.Recalls ref.id false σ.quiet) offset ms stop ∧ input.text.size ≤ stop ∧
      m.value = .record ⟨[(key, .list (ms.map (·.value)))]⟩ := by
  cases h with
  | sequence h => cases h with
    | partUnmatched _ hnone => exact absurd rfl (hnone m)
    | partMatched hfirst hrest => cases hrest with
      | partUnmatched _ hnone => exact absurd rfl (hnone m)
      | partMatched hend hnil =>
        cases hnil
        cases hfirst with
        | repetition hrounds =>
          obtain ⟨ms, hchain, hvalue⟩ := hrounds.chained ref rfl ⟨rfl, rfl, rfl⟩ rfl
          obtain ⟨hle, hlast⟩ := hend.atEnd
          refine ⟨ms, _, hchain.imp fun _ _ hm => ⟨hend.grows _ _ hm.1, hm.2⟩, ?_, ?_⟩
          · rwa [Parts.push_cursor] at hle
          · simp only [hlast, Parts.finish, Parts.push, hvalue, Matched.empty]
            rfl

theorem Memory.Recalls.storing {memory : Memory} {rule offset : Nat} {trivia quiet : Bool}
    {m : Matched} (h : memory.Recalls rule trivia quiet offset m) {c : Call} (hc : c.rule ≠ rule)
    (o : Except Failure (Option Matched)) :
    (memory.storing c o).Recalls rule trivia quiet offset m := by
  cases o with
  | error e => exact h
  | ok outcome =>
    refine ⟨(Std.HashMap.getElem?_insert ..).trans ((if_neg fun hsame => ?_).trans h.1), h.2⟩
    exact hc (congrArg Call.rule (eq_of_beq hsame))

/-- The match of a rule that takes all of its text as items of another one: they are remembered,
and stand one behind the other. -/
theorem Exec.listed {r : LinkedRule} {id offset : Nat} {key : String} {ref : RuleRef}
    {found : Matched} (hr : s.grammar.rules[id]? = some r)
    (hpattern : r.pattern = .sequence [⟨some key, .list, .repetition (.rule ref) none 0 false⟩,
      ⟨none, .value, .endOfInput⟩]) (hid : id ≠ ref.id)
    (h : Exec s P input (.call id offset false) σ (.ok (some found)) σ')
    (hnew : σ.memory.memo[σ.key id offset false]? = none) :
    ∃ (ms : List Matched) (stop : Nat) (ctx : Context),
      Chain (σ'.memory.Recalls ref.id false σ.quiet) offset ms stop ∧ input.text.size ≤ stop ∧
      r.shape ctx (.record ⟨[(key, .list (ms.map (·.value)))]⟩) = .ok found.value := by
  generalize ho : (Except.ok (some found) : Except Failure (Option Matched)) = o at h
  cases h with
  | recalled hmemo => cases hnew.symm.trans hmemo
  | tooDeep => cases ho
  | entered _ _ _ h =>
    generalize ho' : o = o' at h
    cases h with
    | unknown => cases ho.trans ho'
    | unshaped _ _ hnone => exact absurd (ho.trans ho').symm (hnone found)
    | shaped hr' h =>
      obtain rfl := Option.some.inj (hr.symm.trans hr')
      rw [hpattern] at h
      obtain ⟨ms, stop, hchain, hle, hvalue⟩ := h.listedParts
      rw [hvalue] at ho'
      obtain ⟨v, hv, hfound⟩ := map_eq_ok (ho.trans ho').symm
      obtain rfl := Option.some.inj hfound
      exact ⟨ms, stop, _, hchain.imp fun o m hm => hm.storing hid _, hle, hv⟩

end PhpSyntax.Peg
