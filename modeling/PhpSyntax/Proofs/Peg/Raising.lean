import PhpSyntax.Proofs.Peg.Locating
import PhpSyntax.Proofs.Peg.Occurring

namespace PhpSyntax.Peg

/-- How a failure came up, in a part of a whole text. A refusal is the rule's own: no nested parse
of what stands in the input fails in this way. -/
inductive Raised (s : Setting) (source : Input) (whole : Text) : Failure → Prop where
  | tooDeep (offset : Nat) : Raised s source whole (.tooDeep s.limit offset)
  | refused {input : Input} {rule offset : Nat} {trivia : Bool} {r : LinkedRule}
    {σ σ' : Progress} {m : Matched} {e : Failure}
    {reparse : String → String → Nat → Except Failure (Option Value)} :
    whole.Holds input.base input.text → Occurs s source input (.evaluate rule offset trivia) σ →
    s.grammar.rules[rule]? = some r →
    Exec s (· ≤ s.limit) input (.pattern r.pattern trivia offset) σ (.ok (some m)) σ' →
    r.shape ⟨⟨m.start, m.stop⟩, input, s.lines, s.options, reparse⟩ m.value = .error e →
    (∀ name text place, input.text.Holds place (.ofString text) →
      reparse name text place ≠ .error e) → Raised s source whole e

section Raised

variable {s : Setting} {source input : Input} {whole : Text} {job : Job} {σ σ' : Progress}
  {o : Except Failure (Option Matched)} {e : Failure}

theorem map_eq_error {α β : Type} {f : α → β} {x : Except Failure α} (h : x.map f = .error e) :
    x = .error e := by
  cases x with
  | error e' => exact congrArg _ (Except.error.inj h)
  | ok a => cases h

/-- A nested parse that fails is one that is called. -/
theorem answers_error {g : Grammar}
    {outcomes : String → String → Nat → Except Failure (Option Matched)} {name text : String}
    {place : Nat} (h : answers g outcomes name text place = .error e) :
    ∃ id, g.ruleId? name = some id ∧ outcomes name text place = .error e := by
  simp only [answers] at h
  split at h
  · rename_i id hid
    refine ⟨id, hid, ?_⟩
    cases houtcome : outcomes name text place with
    | ok found =>
      rw [houtcome] at h
      cases h
    | error e' =>
      rw [houtcome, verdict] at h
      split at h
      · exact congrArg _ (Except.error.inj h)
      · cases h
  · cases h

/-- What a job in a session fails with came up in it. -/
theorem Exec.raised (h : Exec s (· ≤ s.limit) input job σ o σ') (ho : o = .error e)
    (hwhole : whole.Holds input.base input.text) (hoccurs : Occurs s source input job σ) :
    Raised s source whole e := by
  induction h with
  | recalled _ => cases ho
  | tooDeep _ _ =>
    obtain rfl := Except.error.inj ho
    exact .tooDeep _
  | entered hmemo hroom _ _ ih => exact ih ho hwhole (.part hoccurs (.evaluation hmemo hroom))
  | unknown _ => cases ho
  | unshaped hr _ _ ih => exact ih ho hwhole (.part hoccurs (.body hr))
  | @shaped input rule offset trivia r σ σ' m outcomes ends hr hexec _ _ ihn =>
    by_cases hnested : ∃ name text place, input.text.Holds place (.ofString text) ∧
        answers s.grammar outcomes name text place = .error e
    · obtain ⟨name, text, place, hholds, hanswer⟩ := hnested
      obtain ⟨id, hid, houtcome⟩ := answers_error hanswer
      exact ihn name text place id hid houtcome (hwhole.trans hholds)
        (.nested text place hoccurs hr hexec hid)
    · exact .refused hwhole hoccurs hr hexec (map_eq_error ho)
        fun name text place hholds hanswer => hnested ⟨name, text, place, hholds, hanswer⟩
  | terminal _ => cases ho
  | scan _ => cases ho
  | endOfInput _ => cases ho
  | rule _ ih => exact ih ho hwhole (.part hoccurs .rule)
  | sequence _ ih => exact ih ho hwhole (.part hoccurs .sequence)
  | choice _ ih => exact ih ho hwhole (.part hoccurs .choice)
  | repetition _ ih => exact ih ho hwhole (.part hoccurs .repetition)
  | optional _ ih => exact ih (map_eq_error ho) hwhole (.part hoccurs .optional)
  | ahead _ ih => exact ih (map_eq_error ho) hwhole (.part hoccurs .ahead)
  | trivia _ ih => exact ih ho hwhole (.part hoccurs .trivia)
  | silent _ ih => exact ih (map_eq_error ho) hwhole (.part hoccurs .silent)
  | allParts => cases ho
  | partUnmatched _ _ ih => exact ih ho hwhole (.part hoccurs .firstComponent)
  | partMatched hfirst _ _ ih => exact ih ho hwhole (.part hoccurs (.otherComponents hfirst))
  | noAlternative => cases ho
  | thisAlternative _ _ ih => exact ih ho hwhole (.part hoccurs .firstAlternative)
  | nextAlternative hfirst _ _ ih => exact ih ho hwhole (.part hoccurs (.otherAlternatives hfirst))
  | leading hr _ ih => exact ih ho hwhole (.part hoccurs (.unseparated hr))
  | separated hr hi hseparator _ _ ih =>
    exact ih ho hwhole (.part hoccurs (.separated hr hi hseparator))
  | separatorMissing _ _ _ _ => cases ho
  | separatorFailed hr hi _ ih => exact ih ho hwhole (.part hoccurs (.separator hr hi))
  | itemFailed _ ih => exact ih ho hwhole (.part hoccurs .item)
  | itemMissing _ _ => cases ho
  | itemEmpty _ _ _ => cases ho
  | itemMatched hitem hends _ _ ih => exact ih ho hwhole (.part hoccurs (.otherRounds hitem hends))

/-- A run of a session that fails comes to nothing, or its failure came up in it. -/
theorem Session.raised_of_run (hwhole : whole.Holds source.base source.text)
    (runs : List (String × Bool)) {rule : String} {skip : Bool}
    (hrun : (((Session.start s source).after Session.run runs).run rule skip).1 = .error e) :
    Raised s source whole e ∨ ∃ memory, e = mismatch source memory := by
  obtain ⟨hsetting, hinput, hsane⟩ := sane_after (.start s source) (sane_empty _) runs
  have hoccurs : ∀ id, s.grammar.ruleId? rule = some id → Occurs s source source (.call id 0 skip)
      ((Session.start s source).after Session.run runs).progress := fun id => .run runs skip
  generalize (Session.start s source).after Session.run runs = session at *
  obtain ⟨s', source', memory⟩ := session
  obtain rfl : s' = s := hsetting
  obtain rfl : source' = source := hinput
  cases hid : s'.grammar.ruleId? rule with
  | none =>
    rw [Session.run_eq (runWith_unknown hid ..)] at hrun
    exact .inr ⟨_, (Except.error.inj hrun).symm⟩
  | some id =>
    obtain ⟨o, memory', hx, -, -, hexec⟩ :=
      invoke_performs (Nat.zero_add s'.limit) source' 0 id 0 skip memory hsane
    rw [Session.run_eq (runWith_eq hid hx)] at hrun
    cases o with
    | error e' =>
      obtain rfl := Except.error.inj hrun
      exact .inl (hexec.raised rfl hwhole (hoccurs id hid))
    | ok found =>
      cases found with
      | none => exact .inr ⟨_, (Except.error.inj hrun).symm⟩
      | some m => cases hrun

end Raised

end PhpSyntax.Peg
