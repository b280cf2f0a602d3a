import PhpSyntax.Proofs.Regex.Backtracking

namespace PhpSyntax.Regex

open Program (Match)

section Tries

variable {steps : Steps} {rank rank' i : Nat} {m : Match} {found found' : List Match}

/-- What steps lead to is determined, and so is the rank. -/
theorem Tries.unique (h : Tries steps rank i m found) (h' : Tries steps rank' i m found') :
    rank = rank' ∧ found = found' := by
  induction h generalizing rank' found' with
  | take hs hrest hc _ ih =>
    cases h' with
    | take hs' hrest' _ h' =>
      obtain ⟨rfl, rfl⟩ := List.cons.inj (hrest.symm.trans hrest')
      cases hs.symm.trans hs'
      exact ⟨rfl, (ih h').2⟩
    | stuck hs' hstuck =>
      cases hs.symm.trans hs'
      simp [taking, hrest, hc] at hstuck
    | _ hs' => cases hs.symm.trans hs'
  | stuck hs hstuck =>
    cases h' with
    | take hs' hrest hc _ =>
      cases hs.symm.trans hs'
      simp [taking, hrest, hc] at hstuck
    | stuck _ _ => exact ⟨rfl, rfl⟩
    | _ hs' => cases hs.symm.trans hs'
  | fork hs _ _ ih ih' =>
    cases h' with
    | fork hs' hfirst hsecond =>
      cases hs.symm.trans hs'
      obtain ⟨rfl, rfl⟩ := ih hfirst
      obtain ⟨rfl, rfl⟩ := ih' hsecond
      exact ⟨rfl, rfl⟩
    | _ hs' => cases hs.symm.trans hs'
  | pass hs ha _ ih =>
    cases h' with
    | pass hs' _ h' =>
      cases hs.symm.trans hs'
      obtain ⟨rfl, rfl⟩ := ih h'
      exact ⟨rfl, rfl⟩
    | fail hs' ha' =>
      cases hs.symm.trans hs'
      cases ha.symm.trans ha'
    | _ hs' => cases hs.symm.trans hs'
  | fail hs ha =>
    cases h' with
    | pass hs' ha' _ =>
      cases hs.symm.trans hs'
      cases ha.symm.trans ha'
    | fail _ _ => exact ⟨rfl, rfl⟩
    | _ hs' => cases hs.symm.trans hs'
  | openGroup hs _ ih =>
    cases h' with
    | openGroup hs' h' =>
      cases hs.symm.trans hs'
      obtain ⟨rfl, rfl⟩ := ih h'
      exact ⟨rfl, rfl⟩
    | _ hs' => cases hs.symm.trans hs'
  | closeGroup hs _ ih =>
    cases h' with
    | closeGroup hs' h' =>
      cases hs.symm.trans hs'
      obtain ⟨rfl, rfl⟩ := ih h'
      exact ⟨rfl, rfl⟩
    | _ hs' => cases hs.symm.trans hs'
  | accept hs =>
    cases h' with
    | accept _ => exact ⟨rfl, rfl⟩
    | _ hs' => cases hs.symm.trans hs'

theorem taking_empty_congr {s : CharSet} {m m' : Match} (hstop : m'.stop = m.stop)
    (h : taking s m = []) : taking s m' = [] := by
  refine List.eq_nil_iff_forall_not_mem.2 fun n hn => ?_
  obtain ⟨c, cs, hrest, hc, -⟩ := mem_taking.1 hn
  rw [hstop] at hrest
  exact List.not_mem_nil (h ▸ mem_taking.2 ⟨c, cs, hrest, hc, rfl⟩)

/-- Which groups a match in progress is in has no part in where it may end. -/
theorem Tries.retrace (h : Tries steps rank i m found) {m' : Match} (hstop : m'.stop = m.stop) :
    ∃ found', Tries steps rank i m' found' ∧ (found' = [] ↔ found = []) := by
  induction h generalizing m' with
  | @take i rank next s m c cs found hs hrest hc _ ih =>
    have hnext : (m'.take c cs).stop = (m.take c cs).stop := congrArg (·.advance c cs) hstop
    obtain ⟨found', h', hempty⟩ := ih hnext
    exact ⟨found', .take hs (hstop ▸ hrest) hc h', hempty⟩
  | stuck hs hstuck => exact ⟨[], .stuck hs (taking_empty_congr hstop hstuck), Iff.rfl⟩
  | fork hs _ _ ih ih' =>
    obtain ⟨first, hfirst, hempty⟩ := ih hstop
    obtain ⟨second, hsecond, hempty'⟩ := ih' hstop
    refine ⟨first ++ second, .fork hs hfirst hsecond, ?_⟩
    rw [List.append_eq_nil_iff, List.append_eq_nil_iff, hempty, hempty']
  | pass hs ha _ ih =>
    obtain ⟨found', h', hempty⟩ := ih hstop
    exact ⟨found', .pass hs (hstop ▸ ha) h', hempty⟩
  | fail hs ha => exact ⟨[], .fail hs (hstop ▸ ha), Iff.rfl⟩
  | @openGroup i index next rank m found hs _ ih =>
    have hnext : (m'.openGroup index).stop = (m.openGroup index).stop := hstop
    obtain ⟨found', h', hempty⟩ := ih hnext
    exact ⟨found', .openGroup hs h', hempty⟩
  | @closeGroup i index next rank m found hs _ ih =>
    have hnext : (m'.closeGroup index).stop = (m.closeGroup index).stop := hstop
    obtain ⟨found', h', hempty⟩ := ih hnext
    exact ⟨found', .closeGroup hs h', hempty⟩
  | accept hs => exact ⟨[m'], .accept hs, by simp⟩

theorem Tries.left_le (h : Tries steps rank i m found) : ∀ m' ∈ found, m'.stop.left ≤ m.stop.left := by
  induction h with
  | take _ _ _ _ ih => exact fun m' hm' => (ih m' hm').trans (Nat.sub_le _ _)
  | stuck _ _ => exact fun m' hm' => absurd hm' List.not_mem_nil
  | fork _ _ _ ih ih' => exact fun m' hm' => (List.mem_append.1 hm').elim (ih m') (ih' m')
  | pass _ _ _ ih => exact ih
  | fail _ _ => exact fun m' hm' => absurd hm' List.not_mem_nil
  | openGroup _ _ ih => exact ih
  | closeGroup _ _ ih => exact ih
  | accept _ => exact fun m' hm' => (List.mem_singleton.1 hm') ▸ Nat.le_refl _

end Tries

namespace Program

variable (prog : Program) (p : Place)

/-- Trying one way after the other comes to an end behind a thread. -/
def Live (t : Thread) : Prop :=
  ∃ rank found, Tries prog.steps rank t.step ⟨t.trace, p⟩ found

/-- The matches that a thread leads to, in their order. -/
noncomputable def outcome (t : Thread) : List Match :=
  Classical.epsilon (Gives prog.steps t.step ⟨t.trace, p⟩)

noncomputable def rank (t : Thread) : Nat :=
  Classical.epsilon fun rank => ∃ found, Tries prog.steps rank t.step ⟨t.trace, p⟩ found

/-- Whether a thread counts where the anchors `known` to hold are gone through at once: one that
checks such an anchor is followed by a thread of its own for what comes behind. -/
def counts (known : Anchor → Bool) (t : Thread) : Bool :=
  match prog.steps[t.step]? with
  | some (.check a _) => !known a
  | _ => true

/-- The match that the first of some threads leads to that leads to any. -/
noncomputable def lead (known : Anchor → Bool) (ts : List Thread) : Option Match :=
  ts.findSome? fun t => if prog.counts known t then (prog.outcome p t).head? else none

noncomputable def leadAll (ts : List Thread) : Option Match :=
  ts.findSome? fun t => (prog.outcome p t).head?

variable {prog p} {t : Thread}

theorem outcome_eq {rank : Nat} {found : List Match}
    (h : Tries prog.steps rank t.step ⟨t.trace, p⟩ found) :
    prog.outcome p t = found ∧ prog.rank p t = rank := by
  obtain ⟨rank₁, h₁⟩ : Gives prog.steps t.step ⟨t.trace, p⟩ (prog.outcome p t) :=
    Classical.epsilon_spec (p := Gives prog.steps t.step ⟨t.trace, p⟩) ⟨found, rank, h⟩
  obtain ⟨found₂, h₂⟩ : ∃ found, Tries prog.steps (prog.rank p t) t.step ⟨t.trace, p⟩ found :=
    Classical.epsilon_spec (p := fun rank => ∃ found,
      Tries prog.steps rank t.step ⟨t.trace, p⟩ found) ⟨rank, found, h⟩
  exact ⟨(h₁.unique h).2, (h₂.unique h).1⟩

theorem Live.tries (h : prog.Live p t) :
    Tries prog.steps (prog.rank p t) t.step ⟨t.trace, p⟩ (prog.outcome p t) := by
  obtain ⟨rank, found, h⟩ := h
  obtain ⟨hfound, hrank⟩ := outcome_eq h
  rw [hfound, hrank]
  exact h

theorem Live.same (h : prog.Live p t) {u : Thread} (hstep : u.step = t.step) :
    prog.Live p u ∧ prog.rank p u = prog.rank p t ∧
      (prog.outcome p u = [] ↔ prog.outcome p t = []) := by
  have hstop : (⟨u.trace, p⟩ : Match).stop = p := rfl
  obtain ⟨found, hu, hempty⟩ := h.tries.retrace hstop
  rw [← hstep] at hu
  obtain ⟨hfound, hrank⟩ := outcome_eq hu
  exact ⟨⟨_, _, hu⟩, hrank, hfound ▸ hempty⟩

/-- The threads that take the place of one that takes nothing. -/
structure Becomes (prog : Program) (p : Place) (t : Thread) (ts : List Thread) : Prop where
  live : ∀ u ∈ ts, prog.Live p u
  below : ∀ u ∈ ts, prog.rank p u < prog.rank p t
  outcome : prog.outcome p t = ts.flatMap (prog.outcome p)

theorem Live.fork (h : prog.Live p t) {first second : Nat}
    (hs : prog.steps[t.step]? = some (.fork first second)) :
    Becomes prog p t [⟨first, t.trace⟩, ⟨second, t.trace⟩] := by
  obtain ⟨rank, found, h⟩ := h
  obtain ⟨hfound, hrank⟩ := outcome_eq h
  cases h with
  | fork hs' hfirst hsecond =>
    cases hs.symm.trans hs'
    obtain ⟨hfound₁, hrank₁⟩ := outcome_eq (t := ⟨first, t.trace⟩) hfirst
    obtain ⟨hfound₂, hrank₂⟩ := outcome_eq (t := ⟨second, t.trace⟩) hsecond
    refine ⟨?_, ?_, ?_⟩
    · simp only [List.forall_mem_cons]
      exact ⟨⟨_, _, hfirst⟩, ⟨_, _, hsecond⟩, by simp⟩
    · simp only [List.forall_mem_cons, hrank, hrank₁, hrank₂]
      exact ⟨by omega, by omega, by simp⟩
    · simp [hfound, hfound₁, hfound₂]
  | _ hs' => cases hs.symm.trans hs'

theorem becomes_one {u : Thread} {rank : Nat} {found : List Match}
    (ht : Tries prog.steps (rank + 1) t.step ⟨t.trace, p⟩ found)
    (hu : Tries prog.steps rank u.step ⟨u.trace, p⟩ found) : Becomes prog p t [u] := by
  obtain ⟨hfound, hrank⟩ := outcome_eq ht
  obtain ⟨hfound', hrank'⟩ := outcome_eq hu
  refine ⟨List.forall_mem_singleton.2 ⟨_, _, hu⟩, List.forall_mem_singleton.2 ?_, ?_⟩
  · omega
  · rw [List.flatMap_singleton, hfound, hfound']

theorem Live.pass (h : prog.Live p t) {a : Anchor} {next : Nat}
    (hs : prog.steps[t.step]? = some (.check a next)) (ha : p.meets a = true) :
    Becomes prog p t [⟨next, t.trace⟩] := by
  obtain ⟨rank, found, h⟩ := h
  cases h with
  | pass hs' ha' hnext =>
    cases hs.symm.trans hs'
    exact becomes_one (.pass hs ha' hnext) hnext
  | fail hs' ha' =>
    cases hs.symm.trans hs'
    cases ha.symm.trans ha'
  | _ hs' => cases hs.symm.trans hs'

theorem Live.fail (h : prog.Live p t) {a : Anchor} {next : Nat}
    (hs : prog.steps[t.step]? = some (.check a next)) (ha : p.meets a = false) :
    prog.outcome p t = [] := by
  obtain ⟨rank, found, h⟩ := h
  rw [(outcome_eq h).1]
  cases h with
  | pass hs' ha' _ =>
    cases hs.symm.trans hs'
    cases ha'.symm.trans ha
  | fail _ _ => rfl
  | _ hs' => cases hs.symm.trans hs'

theorem Live.openGroup (h : prog.Live p t) {index next : Nat}
    (hs : prog.steps[t.step]? = some (.openGroup index next)) :
    Becomes prog p t [⟨next, t.trace.openGroup index p⟩] := by
  obtain ⟨rank, found, h⟩ := h
  cases h with
  | openGroup hs' hnext =>
    cases hs.symm.trans hs'
    exact becomes_one (.openGroup hs hnext) hnext
  | _ hs' => cases hs.symm.trans hs'

theorem Live.closeGroup (h : prog.Live p t) {index next : Nat}
    (hs : prog.steps[t.step]? = some (.closeGroup index next)) :
    Becomes prog p t [⟨next, t.trace.closeGroup index p⟩] := by
  obtain ⟨rank, found, h⟩ := h
  cases h with
  | closeGroup hs' hnext =>
    cases hs.symm.trans hs'
    exact becomes_one (.closeGroup hs hnext) hnext
  | _ hs' => cases hs.symm.trans hs'

theorem outcome_accept (hs : prog.steps[t.step]? = some .accept) :
    prog.outcome p t = [⟨t.trace, p⟩] :=
  (outcome_eq (.accept hs)).1

def next? (prog : Program) (c : Char) (t : Thread) : Option Thread :=
  match prog.steps[t.step]? with
  | some (.take s next) => if s.has c then some ⟨next, t.trace⟩ else none
  | _ => none

theorem Live.take (h : prog.Live p t) {s : CharSet} {next : Nat}
    (hs : prog.steps[t.step]? = some (.take s next)) {c : Char} {cs : List Char}
    (hp : p.rest = c :: cs) :
    (∀ u ∈ prog.next? c t, prog.Live (p.advance c cs) u) ∧
      prog.outcome p t = ((prog.next? c t).map (prog.outcome (p.advance c cs))).getD [] := by
  obtain ⟨rank, found, h⟩ := h
  rw [(outcome_eq h).1]
  cases h with
  | take hs' hp' hc hnext =>
    obtain ⟨rfl, rfl⟩ := List.cons.inj (hp.symm.trans hp')
    cases hs.symm.trans hs'
    have hthread : prog.next? c t = some ⟨next, t.trace⟩ := by simp only [next?, hs, hc, if_true]
    have houtcome := (outcome_eq (t := ⟨next, t.trace⟩) hnext).1
    rw [hthread]
    refine ⟨?_, houtcome.symm⟩
    rintro u ⟨⟩
    exact ⟨_, _, hnext⟩
  | stuck hs' hstuck =>
    cases hs.symm.trans hs'
    have hc : s.has c = false := by
      by_contra hc
      simp [taking, hp, hc] at hstuck
    have hthread : prog.next? c t = none := by simp [next?, hs, hc]
    rw [hthread]
    exact ⟨fun u hu => absurd hu (Option.not_mem_none u), rfl⟩
  | _ hs' => cases hs.symm.trans hs'

theorem Live.take_end (h : prog.Live p t) {s : CharSet} {next : Nat}
    (hs : prog.steps[t.step]? = some (.take s next)) (hp : p.rest = []) :
    prog.outcome p t = [] := by
  obtain ⟨rank, found, h⟩ := h
  rw [(outcome_eq h).1]
  cases h with
  | take _ hp' _ _ => cases hp.symm.trans hp'
  | stuck _ _ => rfl
  | _ hs' => cases hs.symm.trans hs'

theorem Live.known (h : prog.Live p t) : prog.steps[t.step]? ≠ none := by
  intro hnone
  obtain ⟨rank, found, h⟩ := h
  cases h with
  | _ hs => cases hnone.symm.trans hs

section Lead

variable {known : Anchor → Bool} {ts us : List Thread}

theorem lead_append (known : Anchor → Bool) (p : Place) (ts us : List Thread) :
    prog.lead p known (ts ++ us) = (prog.lead p known ts).or (prog.lead p known us) :=
  List.findSome?_append

theorem leadAll_append (p : Place) (ts us : List Thread) :
    prog.leadAll p (ts ++ us) = (prog.leadAll p ts).or (prog.leadAll p us) :=
  List.findSome?_append

theorem leadAll_cons (p : Place) (t : Thread) (ts : List Thread) :
    prog.leadAll p (t :: ts) = (prog.outcome p t).head?.or (prog.leadAll p ts) := by
  rw [leadAll, List.findSome?_cons]
  cases (prog.outcome p t).head? <;> rfl

theorem lead_cons (known : Anchor → Bool) (p : Place) (t : Thread) (ts : List Thread) :
    prog.lead p known (t :: ts) =
      (if prog.counts known t then (prog.outcome p t).head? else none).or
        (prog.lead p known ts) := by
  rw [lead, List.findSome?_cons, ← lead]
  cases (if prog.counts known t then (prog.outcome p t).head? else none) <;> rfl

/-- Threads count alike where those that count on one side only lead to nothing. -/
theorem lead_congr {known known' : Anchor → Bool} {p : Place} {ts : List Thread}
    (h : ∀ t ∈ ts, prog.outcome p t ≠ [] → prog.counts known t = prog.counts known' t) :
    prog.lead p known ts = prog.lead p known' ts := by
  induction ts with
  | nil => rfl
  | cons t ts ih =>
    obtain ⟨ht, hts⟩ := List.forall_mem_cons.1 h
    rw [lead_cons, lead_cons, ih hts]
    by_cases hnone : prog.outcome p t = []
    · simp [hnone]
    · rw [ht hnone]

theorem lead_none (p : Place) (ts : List Thread) :
    prog.lead p (fun _ => false) ts = prog.leadAll p ts := by
  have hcounts : ∀ t, prog.counts (fun _ => false) t = true := by
    intro t
    simp only [counts]
    split <;> rfl
  simp only [lead, leadAll, hcounts, if_true]

theorem head?_flatMap (p : Place) (ts : List Thread) :
    (ts.flatMap (prog.outcome p)).head? = prog.leadAll p ts := by
  induction ts with
  | nil => rfl
  | cons t ts ih => rw [List.flatMap_cons, List.head?_append, ih, leadAll_cons]

theorem Becomes.lead (h : Becomes prog p t ts) (us : List Thread) :
    prog.leadAll p (ts ++ us) = prog.leadAll p (t :: us) := by
  rw [leadAll_append, leadAll_cons, h.outcome, head?_flatMap]

end Lead

/-- Some thread leads to a match, and in front of it there are only threads of a lower rank, as is
its own. -/
def Pending (prog : Program) (p : Place) (rank : Nat) : List Thread → Prop
  | [] => False
  | t :: ts => prog.rank p t < rank ∧ (prog.outcome p t ≠ [] ∨ Pending prog p rank ts)

/-- Steps that were seen lead to nothing, or some thread leads to a match already, or will do so
before any other of its rank is gone through. -/
def Covered (prog : Program) (p : Place) (known : Anchor → Bool) (f : Front)
    (todo : List Thread) : Prop :=
  ∀ t, f.seen.has t.step = true → prog.Live p t → prog.outcome p t ≠ [] →
    prog.lead p known f.threads.reverse ≠ none ∨ Pending prog p (prog.rank p t) todo

theorem pending_append {rank : Nat} {ts todo : List Thread} (hbelow : ∀ t ∈ ts, prog.rank p t < rank)
    (h : ts.flatMap (prog.outcome p) ≠ [] ∨ Pending prog p rank todo) :
    Pending prog p rank (ts ++ todo) := by
  induction ts with
  | nil => exact h.resolve_left fun h => h rfl
  | cons t ts ih =>
    obtain ⟨ht, hts⟩ := List.forall_mem_cons.1 hbelow
    refine ⟨ht, ?_⟩
    by_cases hnone : prog.outcome p t = []
    · refine .inr (ih hts ?_)
      rwa [List.flatMap_cons, hnone, List.nil_append] at h
    · exact .inl hnone

theorem Pending.becomes {rank : Nat} {ts todo : List Thread} (hbecomes : Becomes prog p t ts)
    (h : Pending prog p rank (t :: todo)) : Pending prog p rank (ts ++ todo) := by
  obtain ⟨hrank, h⟩ := h
  refine pending_append (fun u hu => (hbecomes.below u hu).trans hrank) ?_
  rwa [← hbecomes.outcome]

/-- Whether a thread stays at its step until there is a character. -/
def rests (prog : Program) (t : Thread) : Bool :=
  match prog.steps[t.step]? with
  | some (.take ..) => true
  | some (.check ..) => true
  | some .accept => true
  | _ => false

/-- Threads on the way through the steps that take nothing: those that have come to their end, the
steps that were seen, and the threads that are left lead to a match. -/
structure Going (prog : Program) (p : Place) (known : Anchor → Bool) (f : Front)
    (todo : List Thread) (m : Option Match) : Prop where
  live : ∀ t ∈ f.threads, prog.Live p t ∧ prog.rests t = true
  liveTodo : ∀ t ∈ todo, prog.Live p t
  covered : Covered prog p known f todo
  lead : (prog.lead p known f.threads.reverse).or (prog.leadAll p todo) = m
  valid : f.seen.Valid
  size : f.seen.stamps.size = prog.steps.size

section Going

variable {known : Anchor → Bool} {threads ts todo : List Thread} {seen : Seen} {m : Option Match}

theorem lead_push (known : Anchor → Bool) (p : Place) (t : Thread) (threads : List Thread) :
    prog.lead p known (t :: threads).reverse = (prog.lead p known threads.reverse).or
      (if prog.counts known t then (prog.outcome p t).head? else none) := by
  rw [List.reverse_cons, lead_append]
  refine congrArg _ ?_
  rw [Program.lead, List.findSome?_cons, List.findSome?_nil]
  split <;> simp_all

theorem lead_push_ne_none (t : Thread) (h : prog.lead p known threads.reverse ≠ none) :
    prog.lead p known (t :: threads).reverse ≠ none := by
  rw [lead_push]
  cases hlead : prog.lead p known threads.reverse with
  | none => exact absurd hlead h
  | some m => simp

theorem Seen.has_add {seen : Seen} {n k : Nat} (h : (seen.add n).has k = true) :
    k = n ∨ seen.has k = true := by
  by_cases hne : n = k
  · exact .inl hne.symm
  · rw [Seen.has_add_of_ne hne] at h
    exact .inr h

/-- A thread at a step that was seen leads to nothing new. -/
theorem Going.skip (h : Going prog p known ⟨threads, seen⟩ (t :: todo) m)
    (hseen : seen.has t.step = true) : Going prog p known ⟨threads, seen⟩ todo m := by
  obtain ⟨hlive, hliveTodo, hcovered, rfl, hvalid, hsize⟩ := h
  obtain ⟨ht, htodo⟩ := List.forall_mem_cons.1 hliveTodo
  have hnothing : prog.outcome p t ≠ [] → prog.lead p known threads.reverse ≠ none := by
    intro hsome
    obtain hlead | ⟨hrank, -⟩ := hcovered t hseen ht hsome
    · exact hlead
    · exact absurd hrank (Nat.lt_irrefl _)
  refine ⟨hlive, htodo, fun u hu hlu hsome => ?_, ?_, hvalid, hsize⟩
  · obtain hlead | ⟨-, hsome' | hpending⟩ := hcovered u hu hlu hsome
    · exact .inl hlead
    · exact .inl (hnothing hsome')
    · exact .inr hpending
  · rw [leadAll_cons]
    by_cases hsome : prog.outcome p t = []
    · rw [hsome, List.head?_nil, Option.none_or]
    · obtain ⟨m, hlead⟩ := Option.ne_none_iff_exists'.1 (hnothing hsome)
      rw [hlead, Option.some_or, Option.some_or]

section Fresh

variable (h : Going prog p known ⟨threads, seen⟩ (t :: todo) m)

include h

/-- A thread that takes nothing gives way to others. -/
theorem Going.descend (hbecomes : Becomes prog p t ts) :
    Going prog p known ⟨threads, seen.add t.step⟩ (ts ++ todo) m := by
  obtain ⟨hlive, hliveTodo, hcovered, rfl, hvalid, hsize⟩ := h
  obtain ⟨ht, htodo⟩ := List.forall_mem_cons.1 hliveTodo
  refine ⟨hlive, ?_, fun u hu hlu hsome => ?_, ?_, Seen.valid_add hvalid _, ?_⟩
  · exact fun u hu => (List.mem_append.1 hu).elim (hbecomes.live u) (htodo u)
  · obtain hstep | hseen := Seen.has_add hu
    · obtain ⟨-, hrank, hempty⟩ := ht.same hstep
      rw [hrank]
      refine .inr (pending_append hbecomes.below (.inl ?_))
      rw [← hbecomes.outcome]
      exact fun hnone => hsome (hempty.2 hnone)
    · exact (hcovered u hseen hlu hsome).imp_right fun hpending => hpending.becomes hbecomes
  · rw [hbecomes.lead]
  · simpa [Seen.add] using hsize

/-- A thread that counts comes to its end. -/
theorem Going.stay (hrests : prog.rests t = true) (hcounts : prog.counts known t = true) :
    Going prog p known ⟨t :: threads, seen.add t.step⟩ todo m := by
  obtain ⟨hlive, hliveTodo, hcovered, rfl, hvalid, hsize⟩ := h
  obtain ⟨ht, htodo⟩ := List.forall_mem_cons.1 hliveTodo
  have hnow : prog.outcome p t ≠ [] → prog.lead p known (t :: threads).reverse ≠ none := by
    intro hsome
    obtain ⟨first, rest, hcons⟩ := List.exists_cons_of_ne_nil hsome
    rw [lead_push, hcounts, hcons]
    cases prog.lead p known threads.reverse <;> simp
  refine ⟨List.forall_mem_cons.2 ⟨⟨ht, hrests⟩, hlive⟩, htodo, fun u hu hlu hsome => ?_, ?_,
    Seen.valid_add hvalid _, ?_⟩
  · obtain hstep | hseen := Seen.has_add hu
    · obtain ⟨-, -, hempty⟩ := ht.same hstep
      exact .inl (hnow fun hnone => hsome (hempty.2 hnone))
    · obtain hlead | ⟨-, hsome' | hpending⟩ := hcovered u hseen hlu hsome
      · exact .inl (lead_push_ne_none t hlead)
      · exact .inl (hnow hsome')
      · exact .inr hpending
  · rw [lead_push, hcounts, if_pos rfl, leadAll_cons, Option.or_assoc]
  · simpa [Seen.add] using hsize

/-- A thread that checks what holds comes to its end, and others go on behind. -/
theorem Going.goOn (hrests : prog.rests t = true) (hbecomes : Becomes prog p t ts) :
    Going prog p known ⟨t :: threads, seen.add t.step⟩ (ts ++ todo) m := by
  obtain ⟨hlive, hliveTodo, hcovered, hlead, hvalid, hsize⟩ := h.descend hbecomes
  obtain ⟨ht, -⟩ := List.forall_mem_cons.1 h.liveTodo
  refine ⟨List.forall_mem_cons.2 ⟨⟨ht, hrests⟩, hlive⟩, hliveTodo, fun u hu hlu hsome => ?_, ?_, hvalid,
    hsize⟩
  · exact (hcovered u hu hlu hsome).imp_left (lead_push_ne_none t)
  · rw [← hlead, lead_push, hbecomes.lead, leadAll_cons]
    cases prog.lead p known threads.reverse with
    | some m => simp
    | none =>
      split
      · cases (prog.outcome p t).head? <;> simp
      · simp

end Fresh

end Going

def unseen (prog : Program) (seen : Seen) : Finset Nat :=
  (Finset.range prog.steps.size).filter fun i => seen.has i = false

theorem unseen_add {seen : Seen} {i : Nat} (hi : i < prog.steps.size)
    (hsize : seen.stamps.size = prog.steps.size) (hseen : seen.has i = false) :
    (prog.unseen (seen.add i)).card < (prog.unseen seen).card := by
  refine Finset.card_lt_card ⟨fun k hk => ?_, fun hsub => ?_⟩
  · simp only [unseen, Finset.mem_filter, Finset.mem_range] at hk ⊢
    refine ⟨hk.1, ?_⟩
    by_cases hne : i = k
    · exact hne ▸ hseen
    · rw [← Seen.has_add_of_ne hne]
      exact hk.2
  · have hmem : i ∈ prog.unseen seen := by
      simp only [unseen, Finset.mem_filter, Finset.mem_range]
      exact ⟨hi, hseen⟩
    have hadded := hsub hmem
    simp only [unseen, Finset.mem_filter, Seen.add, Seen.has, Array.getD_eq_getD_getElem?] at hadded
    rw [Array.getElem?_setIfInBounds_self, if_pos (by omega)] at hadded
    simp at hadded

section Follow

variable {known holds : Anchor → Bool} (hknown : ∀ a, known a = true → holds a = true)
  (hholds : ∀ a, holds a = true → p.meets a = true)

include hknown hholds

/-- Following threads to the end changes nothing of what they lead to. -/
theorem follow_going {fuel : Nat} {todo : List Thread} {f : Front} {m : Option Match}
    (hfuel : todo.length + 2 * (prog.unseen f.seen).card ≤ fuel)
    (h : Going prog p known f todo m) :
    Going prog p known (prog.follow holds p fuel todo f) [] m := by
  induction fuel generalizing todo f with
  | zero =>
    obtain rfl : todo = [] := List.eq_nil_of_length_eq_zero (by omega)
    exact h
  | succ fuel ih =>
    cases todo with
    | nil => exact h
    | cons t todo =>
      obtain ⟨threads, seen⟩ := f
      obtain ⟨ht, -⟩ := List.forall_mem_cons.1 h.liveTodo
      rw [List.length_cons] at hfuel
      rw [follow]
      split
      · rename_i hseen
        exact ih (by omega) (h.skip hseen)
      · rename_i hseen
        have hsize : seen.stamps.size = prog.steps.size := h.size
        have hroom : ∀ {s}, prog.steps[t.step]? = some s → ∀ k ≤ 2,
            todo.length + k + 2 * (prog.unseen (seen.add t.step)).card ≤ fuel := by
          intro s hs k hk
          obtain ⟨hlt, -⟩ := Array.getElem?_eq_some_iff.1 hs
          have hless := unseen_add hlt hsize (by simpa using hseen)
          simp only at hfuel
          omega
        split
        · rename_i hs
          exact ih (hroom hs 2 (by omega)) (h.descend (ht.fork hs))
        · rename_i a next hs
          have hrests : prog.rests t = true := by simp only [rests, hs]
          split
          · rename_i ha
            exact ih (hroom hs 1 (by omega)) (h.goOn hrests (ht.pass hs (hholds a ha)))
          · rename_i ha
            refine ih (hroom hs 0 (by omega)) (h.stay hrests ?_)
            simp only [counts, hs, Bool.not_eq_true', ← Bool.not_eq_true]
            exact fun hk => ha (hknown a hk)
        · rename_i hs
          exact ih (hroom hs 1 (by omega)) (h.descend (ht.openGroup hs))
        · rename_i hs
          exact ih (hroom hs 1 (by omega)) (h.descend (ht.closeGroup hs))
        · rename_i hs
          exact ih (hroom hs 0 (by omega)) (h.stay (by simp [rests, hs]) (by simp [counts, hs]))
        · rename_i hs
          exact ih (hroom hs 0 (by omega)) (h.stay (by simp [rests, hs]) (by simp [counts, hs]))
        · rename_i hs
          exact absurd hs ht.known

theorem Going.enter {f : Front} {m : Option Match} (h : Going prog p known f [] m)
    (ht : prog.Live p t) :
    Going prog p known (prog.enter holds p f t) [] (m.or (prog.outcome p t).head?) := by
  refine follow_going hknown hholds ?_ ?_
  · have hle := Finset.card_filter_le (Finset.range prog.steps.size) fun i => f.seen.has i = false
    rw [Finset.card_range] at hle
    simp only [unseen, List.length_singleton]
    omega
  · obtain ⟨hlive, -, hcovered, rfl, hvalid, hsize⟩ := h
    refine ⟨hlive, List.forall_mem_singleton.2 ht, fun u hu hlu hsome => ?_, ?_, hvalid, hsize⟩
    · exact .inl ((hcovered u hu hlu hsome).resolve_right id)
    · simp [leadAll]

theorem Going.enterAll {ts : List Thread} {f : Front} {m : Option Match}
    (h : Going prog p known f [] m) (hts : ∀ t ∈ ts, prog.Live p t) :
    Going prog p known (ts.foldl (prog.enter holds p) f) [] (m.or (prog.leadAll p ts)) := by
  induction ts generalizing f m with
  | nil => simpa [leadAll] using h
  | cons t ts ih =>
    obtain ⟨ht, hts⟩ := List.forall_mem_cons.1 hts
    rw [List.foldl_cons, leadAll_cons, ← Option.or_assoc]
    exact ih (h.enter hknown hholds ht) hts

end Follow

/-- Threads that wait, and what they lead to, whether anchors that are known to hold have been gone
through or not. -/
structure Waiting (prog : Program) (p : Place) (known : Anchor → Bool) (f : Front)
    (m : Option Match) : Prop where
  all : Going prog p (fun _ => false) f [] m
  behind : Going prog p known f [] m

theorem Waiting.empty (known : Anchor → Bool) {seen : Seen} (hseen : ∀ n, seen.has n = false)
    (hvalid : seen.Valid) (hsize : seen.stamps.size = prog.steps.size) :
    Waiting prog p known ⟨[], seen⟩ none := by
  refine ⟨⟨nofun, nofun, ?_, rfl, hvalid, hsize⟩, ⟨nofun, nofun, ?_, rfl, hvalid, hsize⟩⟩ <;>
  · intro t ht
    rw [hseen] at ht
    cases ht

theorem Waiting.enterAll {known : Anchor → Bool} (hknown : ∀ a, known a = true → p.meets a = true)
    {ts : List Thread} {f : Front} {m : Option Match} (h : Waiting prog p known f m)
    (hts : ∀ t ∈ ts, prog.Live p t) :
    Waiting prog p known (ts.foldl (prog.enter known p) f) (m.or (prog.leadAll p ts)) :=
  ⟨h.all.enterAll (by simp) hknown hts, h.behind.enterAll (fun _ h => h) hknown hts⟩

/-- What is known without looking ahead holds. -/
theorem meets_of_known {ahead : Bool} {a : Anchor} (h : Program.known ahead p a = true) :
    p.meets a = true := by
  cases ahead with
  | true => exact h
  | false =>
    cases a with
    | textStart => exact h
    | textEnd => cases h
    | lineStart returns =>
      have h : p.before.all (· == '\n') = true := h
      simp [Place.meets, h]
    | lineEnd returns => cases h
    | word ascii edge =>
      cases edge with
      | startHalf => exact h
      | _ => cases h

/-- Threads of which those that check something have been gone through as far as they hold. -/
structure Settled (prog : Program) (p : Place) (f : Front) (m : Option Match) : Prop where
  live : ∀ t ∈ f.threads, prog.Live p t ∧ prog.rests t = true
  lead : prog.lead p (fun _ => true) f.threads.reverse = m
  valid : f.seen.Valid
  size : f.seen.stamps.size = prog.steps.size

theorem settled_of_going {known : Anchor → Bool} {f : Front} {m : Option Match}
    (h : Going prog p known f [] m) (hmeets : ∀ t ∈ f.threads, ∀ a next,
      prog.steps[t.step]? = some (.check a next) → p.meets a = true → known a = true) :
    Settled prog p f m := by
  obtain ⟨hlive, -, -, hlead, hvalid, hsize⟩ := h
  refine ⟨hlive, ?_, hvalid, hsize⟩
  rw [← hlead, show prog.leadAll p [] = none from rfl, Option.or_none]
  refine lead_congr fun t ht hsome => ?_
  have ht := List.mem_reverse.1 ht
  cases hs : prog.steps[t.step]? with
  | none => simp only [counts, hs]
  | some s =>
    cases s with
    | check a next =>
      cases ha : p.meets a with
      | true => simp only [counts, hs, hmeets t ht a next hs ha]
      | false => exact absurd ((hlive t ht).1.fail hs ha) hsome
    | _ => simp only [counts, hs]

theorem Waiting.settle {ahead : Bool} {f : Front} {m : Option Match}
    (h : Waiting prog p (Program.known ahead p) f m) :
    Settled prog p (prog.settle ahead p f) m := by
  simp only [Program.settle]
  split
  · have hempty : Waiting prog p p.meets ⟨[], f.seen.clear⟩ none :=
      .empty p.meets (Seen.has_clear h.all.valid) (Seen.valid_clear h.all.valid) h.all.size
    have hlive : ∀ t ∈ f.threads.reverse, prog.Live p t :=
      fun t ht => (h.all.live t (List.mem_reverse.1 ht)).1
    have hagain := hempty.enterAll (fun _ h => h) hlive
    have hlead := h.all.lead
    rw [show prog.leadAll p [] = none from rfl, Option.or_none, lead_none] at hlead
    rw [hlead, Option.none_or] at hagain
    exact settled_of_going hagain.behind fun _ _ _ _ _ ha => ha
  · rename_i hwaits
    refine settled_of_going h.behind fun t ht a next hs ha => ?_
    cases ahead with
    | true => exact ha
    | false =>
      by_contra hearly
      refine hwaits ?_
      simp only [Bool.not_false, Bool.true_and, List.any_eq_true]
      refine ⟨t, ht, ?_⟩
      simp only [hs, ha, Bool.true_and, Bool.not_eq_true']
      simpa [Program.known] using hearly

theorem accepted_lead (ts : List Thread) :
    prog.lead p (fun _ => true) ts = (prog.lead p (fun _ => true) (prog.accepted ts).1).or
      ((prog.accepted ts).2.map fun t => ⟨t.trace, p⟩) := by
  induction ts with
  | nil => rfl
  | cons t ts ih =>
    rw [accepted]
    split
    · rename_i hs
      simp [lead, counts, hs, outcome_accept hs]
    · rw [lead_cons, ih, lead_cons, Option.or_assoc]

theorem accepted_reads (ts : List Thread) :
    ∀ t ∈ (prog.accepted ts).1, prog.steps[t.step]? ≠ some .accept := by
  induction ts with
  | nil => exact fun t ht => absurd ht List.not_mem_nil
  | cons t ts ih =>
    rw [accepted]
    split
    · exact fun u hu => absurd hu List.not_mem_nil
    · rename_i hs
      exact List.forall_mem_cons.2 ⟨hs, ih⟩

/-- The threads behind a character lead to what those in front of it led to. -/
theorem lead_next {ts : List Thread} (hts : ∀ t ∈ ts, prog.Live p t ∧ prog.rests t = true)
    (haccept : ∀ t ∈ ts, prog.steps[t.step]? ≠ some .accept) {c : Char} {cs : List Char}
    (hp : p.rest = c :: cs) :
    (∀ t ∈ ts.filterMap (prog.next? c), prog.Live (p.advance c cs) t) ∧
      prog.leadAll (p.advance c cs) (ts.filterMap (prog.next? c)) =
        prog.lead p (fun _ => true) ts := by
  induction ts with
  | nil => exact ⟨nofun, rfl⟩
  | cons t ts ih =>
    obtain ⟨⟨ht, hrests⟩, hts⟩ := List.forall_mem_cons.1 hts
    obtain ⟨hta, haccept⟩ := List.forall_mem_cons.1 haccept
    obtain ⟨hlive, hlead⟩ := ih hts haccept
    rw [lead_cons, ← hlead]
    cases hs : prog.steps[t.step]? with
    | none => exact absurd hs ht.known
    | some s =>
      cases s with
      | accept => exact absurd hs hta
      | take s next =>
        obtain ⟨hlivet, houtcome⟩ := ht.take hs hp
        simp only [counts, hs, if_true, houtcome]
        cases hnext : prog.next? c t with
        | none =>
          rw [List.filterMap_cons_none hnext]
          exact ⟨hlive, rfl⟩
        | some u =>
          rw [List.filterMap_cons_some hnext, leadAll_cons]
          exact ⟨List.forall_mem_cons.2 ⟨hlivet u hnext, hlive⟩, rfl⟩
      | check a next =>
        have hnext : prog.next? c t = none := by simp only [next?, hs]
        rw [List.filterMap_cons_none hnext]
        exact ⟨hlive, by simp [counts, hs]⟩
      | _ => simp [rests, hs] at hrests

theorem advance_eq (ahead : Bool) (c : Char) (q : Place) (ts : List Thread) (seen : Seen) :
    prog.advance ahead c q ts seen =
      (ts.filterMap (prog.next? c)).foldl (prog.enter (Program.known ahead q) q) ⟨[], seen⟩ := by
  simp only [advance]
  generalize (⟨[], seen⟩ : Front) = f
  induction ts generalizing f with
  | nil => rfl
  | cons t ts ih =>
    rw [List.foldl_cons, ih]
    cases hs : prog.steps[t.step]? with
    | none => rw [List.filterMap_cons_none (by simp only [next?, hs])]
    | some s =>
      cases s with
      | take s next =>
        by_cases hc : s.has c = true
        · have hnext : prog.next? c t = some ⟨next, t.trace⟩ := by simp only [next?, hs, hc, if_true]
          rw [List.filterMap_cons_some hnext, List.foldl_cons]
          simp only [hc, if_true]
        · rw [List.filterMap_cons_none (by simp only [next?, hs, hc, Bool.false_eq_true, if_false])]
          simp only [hc, Bool.false_eq_true, if_false]
      | _ => rw [List.filterMap_cons_none (by simp only [next?, hs])]

/-- A thread that takes a character ends behind it. -/
theorem lead_left_lt {ts : List Thread} (hts : ∀ t ∈ ts, prog.Live p t ∧ prog.rests t = true)
    (haccept : ∀ t ∈ ts, prog.steps[t.step]? ≠ some .accept) {c : Char} {cs : List Char}
    (hp : p.rest = c :: cs) (hleft : p.left = byteLength (c :: cs)) {m : Match}
    (h : prog.lead p (fun _ => true) ts = some m) : m.stop.left < p.left := by
  obtain ⟨hlive, hlead⟩ := lead_next hts haccept hp
  rw [← hlead, leadAll, List.findSome?_eq_some_iff] at h
  obtain ⟨front, t, behind, hsplit, hm, -⟩ := h
  have ht : t ∈ ts.filterMap (prog.next? c) := by
    rw [hsplit]
    exact List.mem_append_right _ List.mem_cons_self
  have hle := (hlive t ht).tries.left_le m (List.mem_of_mem_head? hm)
  have hc := utf8Size_pos c
  simp only [Place.advance, hleft, byteLength] at hle ⊢
  omega

theorem lead_end {ts : List Thread} (hts : ∀ t ∈ ts, prog.Live p t ∧ prog.rests t = true)
    (haccept : ∀ t ∈ ts, prog.steps[t.step]? ≠ some .accept) (hp : p.rest = []) :
    prog.lead p (fun _ => true) ts = none := by
  rw [lead, List.findSome?_eq_none_iff]
  intro t ht
  obtain ⟨hlive, hrests⟩ := hts t ht
  cases hs : prog.steps[t.step]? with
  | none => exact absurd hs hlive.known
  | some s =>
    cases s with
    | accept => exact absurd hs (haccept t ht)
    | take s next => simp [hlive.take_end hs hp]
    | check a next => simp [counts, hs]
    | _ => simp [rests, hs] at hrests

/-- Reading on finds what the threads lead to first, if that ends with at least `left` bytes left. -/
theorem read_eq {ahead : Bool} {left : Nat} {cs : List Char} {f : Front} {m best : Option Match}
    (hp : p.rest = cs) (hleft : p.left = byteLength cs)
    (h : Waiting prog p (Program.known ahead p) f m) (hstop : ∀ n, m = some n → left ≤ n.stop.left) :
    prog.read ahead false left cs p f best = .done (m.or best) ∨
      (ahead = false ∧ prog.read ahead false left cs p f best = .undecided) := by
  induction cs generalizing p f m best with
  | nil =>
    obtain ⟨hlive, hlead, -, -⟩ := h.settle
    have hfront := lead_end
      (fun t ht => hlive t (List.mem_reverse.1 (accepted_fst _ t ht))) (accepted_reads _) hp
    rw [accepted_lead, hfront, Option.none_or] at hlead
    rw [← hlead, read]
    cases prog.accepted (prog.settle ahead p f).threads.reverse with
    | mk front found => cases found <;> exact .inl rfl
  | cons c cs ih =>
    obtain ⟨hlive, hlead, hvalid, hsize⟩ := h.settle
    rw [read]
    generalize prog.settle ahead p f = g at hlive hlead hvalid hsize ⊢
    obtain ⟨threads, seen⟩ := g
    have haccepted : ∀ t ∈ (prog.accepted threads.reverse).1, prog.steps[t.step]? ≠ some .accept :=
      accepted_reads threads.reverse
    have hends : ∀ t ∈ (prog.accepted threads.reverse).1, prog.Live p t ∧ prog.rests t = true :=
      fun t ht => hlive t (List.mem_reverse.1 (accepted_fst _ t ht))
    rw [accepted_lead] at hlead
    split
    · rename_i hempty
      have hall := h.all.lead
      have hnone : f.threads = [] := by simpa using hempty
      rw [hnone] at hall
      rw [← hall]
      exact .inl rfl
    · split
      · rename_i hwords
        simp only [Bool.and_eq_true, Bool.not_eq_true'] at hwords
        exact .inr ⟨hwords.1.1, rfl⟩
      · simp only
        generalize prog.accepted threads.reverse = r at haccepted hends hlead ⊢
        obtain ⟨front, found⟩ := r
        simp only [Bool.false_and, Bool.false_eq_true, if_false]
        rw [← hlead, Option.or_assoc]
        have hgoOn : ∀ b : Option Match,
            (if p.left ≤ left then Outcome.done b else prog.read ahead false left cs
              (p.advance c cs) (prog.advance ahead c (p.advance c cs) front seen.clear) b) =
              .done ((prog.lead p (fun _ => true) front).or b) ∨
            (ahead = false ∧ (if p.left ≤ left then Outcome.done b else prog.read ahead false left cs
              (p.advance c cs) (prog.advance ahead c (p.advance c cs) front seen.clear) b) =
              .undecided) := by
          intro b
          split
          · rename_i hdone
            have hnone : prog.lead p (fun _ => true) front = none := by
              by_contra hsome
              obtain ⟨n, hn⟩ := Option.ne_none_iff_exists'.1 hsome
              have hlt := lead_left_lt hends haccepted hp hleft hn
              have hle := hstop n (by rw [← hlead, hn, Option.some_or])
              omega
            rw [hnone, Option.none_or]
            exact .inl rfl
          · obtain ⟨hnext, hleads⟩ := lead_next hends haccepted hp
            rw [advance_eq]
            have hwaiting : Waiting prog (p.advance c cs) (Program.known ahead (p.advance c cs))
                ⟨[], seen.clear⟩ none :=
              .empty _ (Seen.has_clear hvalid) (Seen.valid_clear hvalid) hsize
            have hentered := hwaiting.enterAll (fun _ h => meets_of_known h) hnext
            rw [hleads, Option.none_or] at hentered
            refine ih rfl ?_ hentered fun n hn => hstop n ?_
            · simp only [Place.advance, hleft, byteLength, Nat.add_sub_cancel_left]
            · rw [← hlead, hn, Option.some_or]
        cases found with
        | none => exact hgoOn best
        | some t => exact hgoOn (some ⟨t.trace, p⟩)

/-- A search from a place on finds the first of the matches that the steps lead to from there. -/
theorem searchFrom_eq {ahead : Bool} {left : Nat} (hleft : p.left = byteLength p.rest)
    {found : List Match} (h : Gives prog.steps prog.start ⟨.startingAt p, p⟩ found)
    (hstop : ∀ n, found.head? = some n → left ≤ n.stop.left) :
    prog.searchFrom ahead false left p = .done found.head? ∨
      (ahead = false ∧ prog.searchFrom ahead false left p = .undecided) := by
  obtain ⟨rank, h⟩ := h
  let t : Thread := ⟨prog.start, .startingAt p⟩
  have hlive : prog.Live p t := ⟨rank, found, h⟩
  have houtcome : prog.outcome p t = found := (outcome_eq h).1
  have hempty : Waiting prog p (Program.known ahead p) ⟨[], .none prog.steps.size⟩ none :=
    .empty _ (Seen.has_none _) (Seen.valid_none _) (by simp [Seen.none])
  have hentered := hempty.enterAll (fun _ h => meets_of_known h) (List.forall_mem_singleton.2 hlive)
  rw [Option.none_or, leadAll_cons, houtcome, show prog.leadAll p [] = none from rfl,
    Option.or_none] at hentered
  have hread : prog.read ahead false left p.rest p _ none = .done (found.head?.or none) ∨
      (ahead = false ∧ prog.read ahead false left p.rest p _ none = .undecided) :=
    read_eq rfl hleft hentered hstop
  rwa [Option.or_none] at hread

/-- At the start of a text the program of a regex finds the match that the regex prefers. -/
theorem find?_eq {r : Regex} (hproductive : r.productive = true) (hstarts : r.startsText = true)
    (groups : Bool) (cs : List Char) :
    (ofRegex r).find? groups cs (byteLength cs) = foundIn (byteLength cs)
      (.done (r.explore ⟨.startingAt (.start cs (byteLength cs)), .start cs (byteLength cs)⟩).head?) := by
  let p := Place.start cs (byteLength cs)
  have hgives : Gives (ofRegex r).steps (ofRegex r).start ⟨.startingAt p, p⟩
      (r.explore ⟨.startingAt p, p⟩) := by
    have hemit := (emit_explores r hproductive).gives 0 #[.accept] (ofRegex r).steps
      (fun i _ _ => rfl) ⟨.startingAt p, p⟩ (fun m => [m]) fun m _ => ⟨0, .accept ?_⟩
    · rwa [List.flatMap_singleton'] at hemit
    · exact (emit_explores r hproductive).same 0 #[.accept] 0 (Nat.zero_lt_one)
  have hstarts : (ofRegex r).startsText = true := hstarts
  have horigin : ∀ m ∈ r.explore ⟨.startingAt p, p⟩, m.trace.origin = p := by
    intro m hm
    obtain ⟨_, -, hon⟩ := takenFrom_explore r _ m hm
    exact hon.origin
  generalize r.explore ⟨.startingAt p, p⟩ = found at hgives horigin ⊢
  have hahead : ∀ left, (∀ n, found.head? = some n → left ≤ n.stop.left) →
      (ofRegex r).searchFrom true false left p = .done found.head? := fun left hstop =>
    (searchFrom_eq rfl hgives hstop).resolve_right nofun
  have hagain : (!(ofRegex r).startsText) = false := by rw [hstarts]; rfl
  rw [find?, hagain]
  have hquick : (ofRegex r).searchFrom false false 0 p = .done found.head? ∨
      (false = false ∧ (ofRegex r).searchFrom false false 0 p = .undecided) :=
    searchFrom_eq rfl hgives fun _ _ => Nat.zero_le _
  obtain hsearch | ⟨-, hsearch⟩ := hquick
  · rw [hsearch]
    cases hfound : found.head? with
    | none => rfl
    | some m =>
      simp only [horigin m (List.mem_of_mem_head? hfound)]
      rw [hahead m.stop.left, hfound]
      · split <;> rfl
      · rw [hfound]
        rintro n ⟨⟩
        exact Nat.le_refl _
  · rw [hsearch]
    exact congrArg (foundIn (byteLength cs)) (hahead 0 fun _ _ => Nat.zero_le _)

end Program

end PhpSyntax.Regex
