import Mathlib.Data.List.Forall2
import PhpSyntax.Proofs.Source.Text
import PhpSyntax.Regex.Match

namespace PhpSyntax.Regex

namespace Place

/-- A place between two characters of a text, or at one of its ends. -/
structure Along (cs : List Char) (p : Place) : Prop where
  suffix : p.rest <:+ cs
  left : p.left = byteLength p.rest

variable {cs : List Char} {p : Place}

theorem along_start (cs : List Char) : (start cs (byteLength cs)).Along cs :=
  ⟨List.suffix_refl cs, rfl⟩

theorem Along.advance (h : p.Along cs) {c : Char} {rest : List Char} (hp : p.rest = c :: rest) :
    (p.advance c rest).Along cs := by
  obtain ⟨hsuffix, hleft⟩ := h
  rw [hp] at hsuffix hleft
  refine ⟨(List.suffix_cons c rest).trans hsuffix, ?_⟩
  simp only [Place.advance, hleft, byteLength, Nat.add_sub_cancel_left]

theorem Along.advance_lt (h : p.Along cs) {c : Char} {rest : List Char}
    (hp : p.rest = c :: rest) : (p.advance c rest).left < p.left := by
  have hc := utf8Size_pos c
  have hleft := h.left
  rw [hp, byteLength] at hleft
  simp only [Place.advance]
  omega

/-- What stands in front of a place takes the bytes that are not left behind it. -/
theorem Along.front (h : p.Along cs) :
    ∃ front, cs = front ++ p.rest ∧ byteLength cs - p.left = byteLength front := by
  obtain ⟨⟨front, rfl⟩, hleft⟩ := h
  refine ⟨front, rfl, ?_⟩
  rw [hleft, byteLength_append, Nat.add_sub_cancel]

end Place

namespace Program

variable {prog : Program} {S : Place → Prop} {p : Place} {t : Thread}

/-- A thread at a place that steps lead to from a start at one of the places `S`. Whether what they
check holds is left open. -/
inductive Reached (prog : Program) (S : Place → Prop) : Place → Thread → Prop where
  | start {p : Place} : S p → Reached prog S p ⟨prog.start, .startingAt p⟩
  | first {p : Place} {t : Thread} {first second : Nat} : Reached prog S p t →
    prog.steps[t.step]? = some (.fork first second) → Reached prog S p ⟨first, t.trace⟩
  | second {p : Place} {t : Thread} {first second : Nat} : Reached prog S p t →
    prog.steps[t.step]? = some (.fork first second) → Reached prog S p ⟨second, t.trace⟩
  | check {p : Place} {t : Thread} {a : Anchor} {next : Nat} : Reached prog S p t →
    prog.steps[t.step]? = some (.check a next) → Reached prog S p ⟨next, t.trace⟩
  | openGroup {p : Place} {t : Thread} {index next : Nat} : Reached prog S p t →
    prog.steps[t.step]? = some (.openGroup index next) →
    Reached prog S p ⟨next, t.trace.openGroup index p⟩
  | closeGroup {p : Place} {t : Thread} {index next : Nat} : Reached prog S p t →
    prog.steps[t.step]? = some (.closeGroup index next) →
    Reached prog S p ⟨next, t.trace.closeGroup index p⟩
  | take {p : Place} {t : Thread} {s : CharSet} {next : Nat} {c : Char} {cs : List Char} :
    Reached prog S p t → prog.steps[t.step]? = some (.take s next) → s.has c = true →
    p.rest = c :: cs → Reached prog S (p.advance c cs) ⟨next, t.trace⟩

def Accepts (prog : Program) (S : Place → Prop) (m : Match) : Prop :=
  ∃ step, Reached prog S m.stop ⟨step, m.trace⟩ ∧ prog.steps[step]? = some .accept

theorem follow_reached (holds : Anchor → Bool) (fuel : Nat) {todo : List Thread} {f : Front}
    (htodo : ∀ t ∈ todo, Reached prog S p t) (hf : ∀ t ∈ f.threads, Reached prog S p t) :
    ∀ t ∈ (prog.follow holds p fuel todo f).threads, Reached prog S p t := by
  induction fuel generalizing todo f with
  | zero => exact hf
  | succ fuel ih =>
    cases todo with
    | nil => exact hf
    | cons t todo =>
      obtain ⟨ht, htodo⟩ := List.forall_mem_cons.1 htodo
      obtain ⟨threads, seen⟩ := f
      have hstay : ∀ u ∈ t :: threads, Reached prog S p u := List.forall_mem_cons.2 ⟨ht, hf⟩
      rw [follow]
      split
      · exact ih htodo hf
      · split
        · rename_i hs
          exact ih (List.forall_mem_cons.2 ⟨ht.first hs, List.forall_mem_cons.2
            ⟨ht.second hs, htodo⟩⟩) hf
        · rename_i hs
          refine ih ?_ hstay
          split
          · exact List.forall_mem_cons.2 ⟨ht.check hs, htodo⟩
          · exact htodo
        · rename_i hs
          exact ih (List.forall_mem_cons.2 ⟨ht.openGroup hs, htodo⟩) hf
        · rename_i hs
          exact ih (List.forall_mem_cons.2 ⟨ht.closeGroup hs, htodo⟩) hf
        · exact ih htodo hstay
        · exact ih htodo hstay
        · exact ih htodo hf

theorem enter_reached (holds : Anchor → Bool) {f : Front} (ht : Reached prog S p t)
    (hf : ∀ t ∈ f.threads, Reached prog S p t) :
    ∀ u ∈ (prog.enter holds p f t).threads, Reached prog S p u :=
  follow_reached holds _ (List.forall_mem_singleton.2 ht) hf

/-- A new thread may begin behind those that were reached. -/
theorem restart_reached (ahead : Bool) {b : Bool} (hS : b = true → S p) {f : Front}
    (hf : ∀ t ∈ f.threads, Reached prog S p t) :
    ∀ t ∈ (if b then prog.enter (known ahead p) p f ⟨prog.start, .startingAt p⟩ else f).threads,
      Reached prog S p t := by
  split
  · rename_i hb
    exact enter_reached _ (.start (hS hb)) hf
  · exact hf

theorem settle_reached (ahead : Bool) {f : Front} (hf : ∀ t ∈ f.threads, Reached prog S p t) :
    ∀ t ∈ (prog.settle ahead p f).threads, Reached prog S p t := by
  simp only [settle]
  split
  · refine List.foldlRecOn (motive := fun g : Front => ∀ t ∈ g.threads, Reached prog S p t) _ _
      (fun t ht => absurd ht List.not_mem_nil) fun g hg t ht => ?_
    exact enter_reached _ (hf t (List.mem_reverse.1 ht)) hg
  · exact hf

theorem advance_reached (ahead : Bool) {c : Char} {cs : List Char} (hp : p.rest = c :: cs)
    {threads : List Thread} (h : ∀ t ∈ threads, Reached prog S p t) (seen : Seen) :
    ∀ t ∈ (prog.advance ahead c (p.advance c cs) threads seen).threads,
      Reached prog S (p.advance c cs) t := by
  refine List.foldlRecOn (motive := fun g : Front => ∀ t ∈ g.threads, Reached prog S (p.advance c cs) t)
    _ _ (fun t ht => absurd ht List.not_mem_nil) fun g hg t ht => ?_
  split
  · rename_i hs
    split
    · rename_i hc
      exact enter_reached _ ((h t ht).take hs hc hp) hg
    · exact hg
  · exact hg

theorem accepted_fst (threads : List Thread) :
    ∀ t ∈ (prog.accepted threads).1, t ∈ threads := by
  induction threads with
  | nil => exact fun t ht => absurd ht List.not_mem_nil
  | cons u threads ih =>
    intro t ht
    rw [accepted] at ht
    split at ht
    · cases ht
    · obtain rfl | ht := List.mem_cons.1 ht
      · exact List.mem_cons_self
      · exact List.mem_cons_of_mem u (ih t ht)

theorem accepted_snd {threads : List Thread} (h : (prog.accepted threads).2 = some t) :
    t ∈ threads ∧ prog.steps[t.step]? = some .accept := by
  induction threads with
  | nil => cases h
  | cons u threads ih =>
    rw [accepted] at h
    split at h
    · rename_i hs
      cases h
      exact ⟨List.mem_cons_self, hs⟩
    · obtain ⟨ht, hs⟩ := ih h
      exact ⟨List.mem_cons_of_mem u ht, hs⟩

/-- Reading on ends with a match that was reached, if new threads begin at places `S` only. -/
theorem read_accepts {text : List Char} {ahead again : Bool} {left : Nat}
    (hS : again = true → ∀ q : Place, q.Along text → S q) {cs : List Char} {f : Front}
    {best : Option Match} {m : Match} (hp : p.Along text) (hcs : p.rest = cs)
    (hf : ∀ t ∈ f.threads, Reached prog S p t) (hbest : ∀ b, best = some b → Accepts prog S b)
    (h : prog.read ahead again left cs p f best = .done (some m)) : Accepts prog S m := by
  have hfound : ∀ {p : Place} {f : Front}, (∀ t ∈ f.threads, Reached prog S p t) →
      ∀ t, (prog.accepted f.threads.reverse).2 = some t → Accepts prog S ⟨t.trace, p⟩ := by
    intro p f hf t ht
    obtain ⟨hmem, haccept⟩ := accepted_snd ht
    exact ⟨t.step, hf t (List.mem_reverse.1 hmem), haccept⟩
  induction cs generalizing p f best with
  | nil =>
    rw [read] at h
    split at h
    · rename_i t ht
      cases h
      exact hfound (settle_reached ahead hf) t (congrArg Prod.snd ht)
    · cases h
      exact hbest m rfl
  | cons c cs ih =>
    rw [read] at h
    have hsettled := settle_reached ahead hf
    generalize prog.settle ahead p f = g at h hsettled
    obtain ⟨threads, seen⟩ := g
    split at h
    · cases h
      exact hbest m rfl
    · split at h
      · cases h
      · simp only at h
        have hkept : ∀ t ∈ (prog.accepted threads.reverse).1, Reached prog S p t :=
          fun t ht => hsettled t (List.mem_reverse.1 (accepted_fst _ t ht))
        have hadvanced := advance_reached ahead hcs hkept seen.clear
        have hagain : ∀ b : Bool, (again && b) = true → S (p.advance c cs) := by
          intro b hb
          exact hS (Bool.and_eq_true_iff.1 hb).1 _ (hp.advance hcs)
        cases haccepted : (prog.accepted threads.reverse).2 with
        | some t =>
          have hnext : ∀ b, some ⟨t.trace, p⟩ = some b → Accepts prog S b := by
            rintro b ⟨⟩
            exact hfound hsettled t haccepted
          simp only [haccepted] at h
          split at h
          · exact hnext m (Outcome.done.inj h)
          · exact ih (hp.advance hcs) rfl (restart_reached ahead (hagain _) hadvanced) hnext h
        | none =>
          simp only [haccepted] at h
          split at h
          · exact hbest m (Outcome.done.inj h)
          · exact ih (hp.advance hcs) rfl (restart_reached ahead (hagain _) hadvanced) hbest h

theorem searchFrom_accepts {text : List Char} {ahead again : Bool} {left : Nat}
    (hS : again = true → ∀ q : Place, q.Along text → S q) {m : Match} (hp : p.Along text)
    (hstart : S p) (h : prog.searchFrom ahead again left p = .done (some m)) :
    Accepts prog S m := by
  refine read_accepts hS hp rfl ?_ (fun b hb => absurd hb (by simp)) h
  exact enter_reached _ (.start hstart) fun t ht => absurd ht List.not_mem_nil

theorem Reached.origin (h : Reached prog S p t) : S t.trace.origin := by
  induction h with
  | start hp => exact hp
  | closeGroup _ _ ih =>
    simp only [Trace.closeGroup]
    split <;> exact ih
  | _ => assumption

theorem Reached.along {text : List Char} (hS : ∀ p : Place, S p → p.Along text)
    (h : Reached prog S p t) : p.Along text := by
  induction h with
  | start hp => exact hS _ hp
  | take _ _ _ hp ih => exact ih.advance hp
  | _ => assumption

/-- Where the threads of a search begin: at the start of the text, if no match begins elsewhere. -/
def Begins (prog : Program) (cs : List Char) (p : Place) : Prop :=
  if prog.startsText then p = .start cs (byteLength cs) else p.Along cs

theorem begins_of_startsText (h : prog.startsText = true) {cs : List Char} :
    prog.Begins cs = (· = .start cs (byteLength cs)) := by
  funext p
  rw [Begins, if_pos h]

theorem begins_start (prog : Program) (cs : List Char) :
    prog.Begins cs (.start cs (byteLength cs)) := by
  unfold Begins
  split
  · rfl
  · exact Place.along_start cs

theorem Begins.along {cs : List Char} (h : prog.Begins cs p) : p.Along cs := by
  unfold Begins at h
  split at h
  · rw [h]
    exact Place.along_start cs
  · exact h

theorem Begins.again {cs : List Char} (h : (!prog.startsText) = true) (q : Place)
    (hq : q.Along cs) : prog.Begins cs q := by
  rw [Begins, if_neg (by simpa using h)]
  exact hq

theorem foundIn_some {size : Nat} {o : Outcome} {f : Found} (h : foundIn size o = some f) :
    ∃ m, o = .done (some m) ∧
      f = ⟨size - m.stop.left, m.trace.origin.upTo m.stop, m.trace.closed⟩ := by
  unfold foundIn at h
  split at h
  · cases h
    exact ⟨_, rfl, rfl⟩
  · cases h

/-- Whatever is found was reached. -/
theorem find?_accepts {groups : Bool} {cs : List Char} {f : Found}
    (h : prog.find? groups cs (byteLength cs) = some f) :
    ∃ m : Match, Accepts prog (prog.Begins cs) m ∧
      f = ⟨byteLength cs - m.stop.left, m.trace.origin.upTo m.stop, m.trace.closed⟩ := by
  have hstart := begins_start prog cs
  rw [find?] at h
  split at h
  · obtain ⟨m, hm, rfl⟩ := foundIn_some h
    exact ⟨m, searchFrom_accepts Begins.again (Place.along_start cs) hstart hm, rfl⟩
  · rename_i m hm
    have haccepts := searchFrom_accepts Begins.again (Place.along_start cs) hstart hm
    split at h
    · obtain ⟨m', hm', rfl⟩ := foundIn_some h
      obtain ⟨step, hreached, -⟩ := haccepts
      have horigin := hreached.origin
      exact ⟨m', searchFrom_accepts nofun horigin.along horigin hm', rfl⟩
    · obtain ⟨m', hm', rfl⟩ := foundIn_some h
      cases hm'
      exact ⟨m, haccepts, rfl⟩
  · cases h

theorem find?_stop {groups : Bool} {cs : List Char} {f : Found}
    (h : prog.find? groups cs (byteLength cs) = some f) :
    ∃ front rest, cs = front ++ rest ∧ f.stop = byteLength front := by
  obtain ⟨m, ⟨step, hreached, -⟩, rfl⟩ := find?_accepts h
  obtain ⟨front, hcs, hsize⟩ := (hreached.along fun p hp => Begins.along hp).front
  exact ⟨front, _, hcs, hsize⟩

end Program

def Step.accepts : Step → Bool
  | .accept => true
  | _ => false

/-- The steps that may come next without a character between. -/
def Step.idle : Step → List Nat
  | .take .. => []
  | .fork first second => [first, second]
  | .check _ next => [next]
  | .openGroup _ next => [next]
  | .closeGroup _ next => [next]
  | .accept => []

namespace Program

variable {prog : Program} {S : Place → Prop} {p : Place} {t : Thread}

section Early

/-- The steps that are reached before a first character is taken; `fuel` bounds their number. -/
def early (prog : Program) : Nat → List Nat → List Nat → List Nat
  | 0, _, seen => seen
  | _ + 1, [], seen => seen
  | fuel + 1, i :: todo, seen =>
    if seen.contains i then early prog fuel todo seen
    else early prog fuel (((prog.steps[i]?).map Step.idle).getD [] ++ todo) (i :: seen)

/-- Whether some steps are all those that come before a first character, and none of them accepts. -/
def HoldsBack (prog : Program) (steps : List Nat) : Prop :=
  prog.start ∈ steps ∧ ∀ i ∈ steps, ∀ s ∈ prog.steps[i]?, s.accepts = false ∧ s.idle ⊆ steps

instance (prog : Program) (steps : List Nat) : Decidable (prog.HoldsBack steps) :=
  inferInstanceAs (Decidable (_ ∧ _))

/-- Whether every match of a program takes a character. -/
def takesSome (prog : Program) : Bool :=
  prog.startsText && decide (prog.HoldsBack (prog.early (3 * prog.steps.size + 3) [prog.start] []))

theorem HoldsBack.reached {steps : List Nat} (h : prog.HoldsBack steps) {cs : List Char}
    (ht : Reached prog (· = .start cs (byteLength cs)) p t) :
    t.step ∈ steps ∨ p.left < byteLength cs := by
  obtain ⟨hstart, hclosed⟩ := h
  have hnext : ∀ {i next : Nat} {s : Step}, prog.steps[i]? = some s → next ∈ s.idle →
      i ∈ steps → next ∈ steps := by
    intro i next s hs hnext hi
    exact (hclosed i hi s hs).2 hnext
  induction ht with
  | start hp => exact .inl hstart
  | first _ hs ih => exact ih.imp_left (hnext hs (by simp [Step.idle]))
  | second _ hs ih => exact ih.imp_left (hnext hs (by simp [Step.idle]))
  | check _ hs ih => exact ih.imp_left (hnext hs (by simp [Step.idle]))
  | openGroup _ hs ih => exact ih.imp_left (hnext hs (by simp [Step.idle]))
  | closeGroup _ hs ih => exact ih.imp_left (hnext hs (by simp [Step.idle]))
  | take ht _ _ hp _ =>
    have halong := ht.along fun q hq => by
      rw [hq]
      exact Place.along_start cs
    have hlt := halong.advance_lt hp
    obtain ⟨front, rfl, hsize⟩ := halong.front
    have hleft := halong.left
    rw [byteLength_append]
    right
    omega

theorem find?_takesSome (h : prog.takesSome = true) {groups : Bool} {cs : List Char} {f : Found}
    (hf : prog.find? groups cs (byteLength cs) = some f) : 0 < f.stop := by
  simp only [takesSome, Bool.and_eq_true, decide_eq_true_eq] at h
  obtain ⟨hstarts, hback⟩ := h
  obtain ⟨m, ⟨step, hreached, haccept⟩, rfl⟩ := find?_accepts hf
  rw [begins_of_startsText hstarts] at hreached
  obtain hstep | hlt := hback.reached hreached
  · exact absurd (hback.2 step hstep _ haccept).1 (by simp [Step.accepts])
  · exact Nat.sub_pos_of_lt hlt

end Early

section Spelling

/-- The sets of the characters that are taken from a step on, one after the other, where the program
leaves no choice. -/
def spelling? (prog : Program) : Nat → Nat → Option (List CharSet)
  | 0, _ => none
  | fuel + 1, i =>
    match prog.steps[i]? with
    | some (.take s next) => (prog.spelling? fuel next).map (s :: ·)
    | some (.check _ next) => prog.spelling? fuel next
    | some (.openGroup _ next) => prog.spelling? fuel next
    | some (.closeGroup _ next) => prog.spelling? fuel next
    | some .accept => some []
    | some (.fork ..) => none
    | none => none

/-- Characters taken so far spell the sets that are left over from those of the whole program. -/
def Spelled (prog : Program) (sets : List CharSet) (cs : List Char) (p : Place) (t : Thread) :
    Prop :=
  ∃ fuel front taken rest, prog.spelling? fuel t.step = some rest ∧ sets = taken ++ rest ∧
    List.Forall₂ (fun s c => CharSet.has s c = true) taken front ∧ cs = front ++ p.rest

theorem Reached.spelled {fuel : Nat} {sets : List CharSet}
    (h : prog.spelling? fuel prog.start = some sets) {cs : List Char}
    (ht : Reached prog (· = .start cs (byteLength cs)) p t) : prog.Spelled sets cs p t := by
  have hfork : ∀ {fuel first second : Nat} {t : Thread} {rest : List CharSet},
      prog.steps[t.step]? = some (.fork first second) → prog.spelling? fuel t.step ≠ some rest := by
    intro fuel first second t rest hs hsome
    cases fuel with
    | zero => cases hsome
    | succ fuel =>
      simp only [spelling?, hs] at hsome
      cases hsome
  have hkeep : ∀ {p : Place} {t u : Thread}, (∀ fuel, prog.spelling? (fuel + 1) t.step =
      prog.spelling? fuel u.step) → prog.Spelled sets cs p t → prog.Spelled sets cs p u := by
    rintro p t u hsame ⟨fuel, front, taken, rest, hrest, hsplit⟩
    cases fuel with
    | zero => cases hrest
    | succ fuel => exact ⟨fuel, front, taken, rest, hsame fuel ▸ hrest, hsplit⟩
  induction ht with
  | start hp => exact ⟨fuel, [], [], sets, h, rfl, .nil, by rw [hp]; rfl⟩
  | first _ hs ih =>
    obtain ⟨_, _, _, _, hrest, -⟩ := ih
    exact absurd hrest (hfork hs)
  | second _ hs ih =>
    obtain ⟨_, _, _, _, hrest, -⟩ := ih
    exact absurd hrest (hfork hs)
  | check _ hs ih => exact hkeep (fun fuel => by simp only [spelling?, hs]) ih
  | openGroup _ hs ih => exact hkeep (fun fuel => by simp only [spelling?, hs]) ih
  | closeGroup _ hs ih => exact hkeep (fun fuel => by simp only [spelling?, hs]) ih
  | @take p t s next c cs' _ hs hc hp ih =>
    obtain ⟨fuel, front, taken, rest, hrest, rfl, htaken, rfl⟩ := ih
    cases fuel with
    | zero => cases hrest
    | succ fuel =>
      simp only [spelling?, hs] at hrest
      obtain ⟨rest, hnext, rfl⟩ := Option.map_eq_some_iff.1 hrest
      have htaken : List.Forall₂ (fun s c => CharSet.has s c = true) (taken ++ [s]) (front ++ [c]) :=
        List.rel_append htaken (.cons hc .nil)
      refine ⟨fuel, front ++ [c], taken ++ [s], rest, hnext, ?_, htaken, ?_⟩
      · rw [List.append_assoc, List.singleton_append]
      · rw [hp, List.append_assoc, List.singleton_append]
        rfl

/-- A program that leaves no choice finds characters of its sets. -/
theorem find?_spelled (hstarts : prog.startsText = true) {fuel : Nat} {sets : List CharSet}
    (h : prog.spelling? fuel prog.start = some sets) {groups : Bool} {cs : List Char} {f : Found}
    (hf : prog.find? groups cs (byteLength cs) = some f) :
    ∃ front rest, cs = front ++ rest ∧ f.stop = byteLength front ∧
      List.Forall₂ (fun s c => CharSet.has s c = true) sets front := by
  obtain ⟨m, ⟨step, hreached, haccept⟩, rfl⟩ := find?_accepts hf
  obtain ⟨front, hcs, hsize⟩ := (hreached.along fun p hp => Begins.along hp).front
  rw [begins_of_startsText hstarts] at hreached
  obtain ⟨fuel, front', taken, rest, hrest, rfl, htaken, hcs'⟩ := hreached.spelled h
  obtain rfl : front = front' := List.append_cancel_right (hcs.symm.trans hcs')
  cases fuel with
  | zero => cases hrest
  | succ fuel =>
    simp only [spelling?, haccept] at hrest
    obtain rfl := Option.some.inj hrest
    exact ⟨front, _, hcs, hsize, by simpa using htaken⟩

end Spelling

end Program

end PhpSyntax.Regex
