import Mathlib
import PhpSyntax.Proofs.Regex.Reached
import PhpSyntax.Proofs.Regex.Stepping

namespace PhpSyntax.Regex

open scoped Computability

/-- The texts that a regex describes, whatever its anchors ask of the places between. -/
def language : Regex → Language Char
  | .empty => 1
  | .text cs => {cs}
  | .set s => {cs | ∃ c, s.has c = true ∧ cs = [c]}
  | .anchor _ => 1
  | .seq a b => a.language * b.language
  | .alt a b => a.language + b.language
  | .rounds least none _ body => body.language ^ least * body.language∗
  | .rounds least (some most) _ body => body.language ^ least * (1 + body.language) ^ (most - least)
  | .group _ body => body.language

theorem mem_language_run {s : CharSet} {greedy : Bool} {cs : List Char}
    (h : cs ∈ (rounds 1 none greedy (.set s)).language) :
    cs ≠ [] ∧ ∀ c ∈ cs, s.has c = true := by
  rw [language, pow_one] at h
  obtain ⟨_, ⟨c, hc, rfl⟩, _, ⟨runs, rfl, hruns⟩, rfl⟩ := h
  refine ⟨List.cons_ne_nil c _, fun d hd => ?_⟩
  obtain rfl | hd := List.mem_cons.1 hd
  · exact hc
  · obtain ⟨run, hrun, hd⟩ := List.mem_flatten.1 hd
    obtain ⟨e, he, rfl⟩ := hruns run hrun
    rw [List.mem_singleton.1 hd]
    exact he

/-- Every word of a step is one of a language, if those of the steps that may follow it are given. -/
def Step.Reads (words : Nat → Language Char) (l : Language Char) : Step → Prop
  | .take s next => language (.set s) * words next ≤ l
  | .fork first second => words first ≤ l ∧ words second ≤ l
  | .check _ next | .openGroup _ next | .closeGroup _ next => words next ≤ l
  | .accept => 1 ≤ l

theorem Step.Reads.mono {s : Step} {words words' : Nat → Language Char} {l : Language Char}
    (h : s.Reads words l) (hle : ∀ i, words' i ≤ words i) : s.Reads words' l := by
  cases s with
  | take s next => exact (mul_le_mul_right (hle next) _).trans h
  | fork first second => exact h.imp (hle first).trans (hle second).trans
  | check a next => exact (hle next).trans h
  | openGroup index next => exact (hle next).trans h
  | closeGroup index next => exact (hle next).trans h
  | accept => exact h

/-- The words that can be taken from each of some steps on. -/
structure Reads (steps : Steps) (words : Nat → Language Char) : Prop where
  step : ∀ (i : Nat) (s : Step), steps[i]? = some s → s.Reads words (words i)
  beyond : ∀ i, steps.size ≤ i → words i = ⊤

/-- There are more steps; from the old ones on, the same words can be taken as before. -/
structure Extends (steps steps' : Steps) (words words' : Nat → Language Char) : Prop where
  reads : Reads steps' words'
  size : steps.size ≤ steps'.size
  same : ∀ i < steps.size, words' i = words i

section Extends

variable {steps steps' steps'' : Steps} {words words' words'' : Nat → Language Char}

theorem Extends.refl (h : Reads steps words) : Extends steps steps words words :=
  ⟨h, Nat.le_refl _, fun _ _ => rfl⟩

theorem Extends.trans (h : Extends steps steps' words words')
    (h' : Extends steps' steps'' words' words'') : Extends steps steps'' words words'' where
  reads := h'.reads
  size := h.size.trans h'.size
  same i hi := (h'.same i (hi.trans_le h.size)).trans (h.same i hi)

theorem Extends.le (h : Extends steps steps' words words') (hreads : Reads steps words) (i : Nat) :
    words' i ≤ words i := by
  by_cases hi : i < steps.size
  · exact (h.same i hi).le
  · rw [hreads.beyond i (Nat.not_lt.1 hi)]
    exact le_top

end Extends

namespace Emit

/-- What adds steps adds some that take words of a language in front of what follows. -/
def Takes (e : Emit) (l : Language Char) : Prop :=
  ∀ next steps words, Reads steps words → ∃ words', Extends steps (e next steps).2 words words' ∧
    words' (e next steps).1 ≤ l * words next

/-- One more step, with the words that can be taken from there on. -/
theorem step_extends {s : Step} {steps : Steps} {words : Nat → Language Char} {l : Language Char}
    (hs : s.Reads words l) (h : Reads steps words) :
    ∃ words', Extends steps (step s steps).2 words words' ∧ words' (step s steps).1 = l := by
  have hsame : ∀ i < steps.size, Function.update words steps.size l i = words i :=
    fun i hi => Function.update_of_ne hi.ne _ _
  have hle : ∀ i, Function.update words steps.size l i ≤ words i := by
    intro i
    by_cases hi : i = steps.size
    · rw [hi, h.beyond _ (Nat.le_refl _)]
      exact le_top
    · rw [Function.update_of_ne hi]
  refine ⟨Function.update words steps.size l, ⟨⟨fun i s' hi => ?_, fun i hi => ?_⟩, ?_, hsame⟩,
    Function.update_self ..⟩
  · simp only [step, Array.getElem?_push] at hi
    split at hi
    · rename_i heq
      obtain rfl := Option.some.inj hi
      rw [heq, Function.update_self]
      exact hs.mono hle
    · obtain ⟨hlt, -⟩ := Array.getElem?_eq_some_iff.1 hi
      rw [hsame i hlt]
      exact (h.step i s' hi).mono hle
  · simp only [step, Array.size_push] at hi
    rw [Function.update_of_ne (by omega)]
    exact h.beyond i (by omega)
  · simp only [step, Array.size_push]
    omega

theorem idle_takes {s : Nat → Step} (hs : ∀ words next, (s next).Reads words (words next)) :
    Takes (fun next steps => step (s next) steps) 1 := by
  intro next steps words hreads
  obtain ⟨words', h, heq⟩ := step_extends (hs words next) hreads
  exact ⟨words', h, by rw [heq, one_mul]⟩

theorem take_takes (s : CharSet) :
    Takes (fun next steps => step (.take s next) steps) (language (.set s)) := by
  intro next steps words hreads
  obtain ⟨words', h, heq⟩ := step_extends (s := .take s next) (le_refl _) hreads
  exact ⟨words', h, heq.le⟩

theorem Takes.trans {e e' : Emit} {l l' : Language Char} (h : e.Takes l) (h' : e'.Takes l') :
    Takes (fun next steps => e (e' next steps).1 (e' next steps).2) (l * l') := by
  intro next steps words hreads
  obtain ⟨words₁, h₁, hle₁⟩ := h' next steps words hreads
  obtain ⟨words₂, h₂, hle₂⟩ := h (e' next steps).1 _ words₁ h₁.reads
  refine ⟨words₂, h₁.trans h₂, hle₂.trans ?_⟩
  rw [mul_assoc]
  exact mul_le_mul_right hle₁ l

theorem Takes.mono {e : Emit} {l l' : Language Char} (h : e.Takes l) (hle : l ≤ l') :
    e.Takes l' := by
  intro next steps words hreads
  obtain ⟨words', hextends, hwords⟩ := h next steps words hreads
  exact ⟨words', hextends, hwords.trans (mul_le_mul_left hle _)⟩

theorem nothing_takes : Takes (fun next steps => (next, steps)) 1 :=
  fun next steps words hreads => ⟨words, .refl hreads, by rw [one_mul]⟩

theorem text_cons (c : Char) (cs : List Char) :
    text (c :: cs) = fun next steps =>
      step (.take (.single c) (text cs next steps).1) (text cs next steps).2 := by
  funext next steps
  simp only [text, List.reverse_cons, List.foldl_append, List.foldl_cons, List.foldl_nil]

theorem text_takes (cs : List Char) : (text cs).Takes (language (.text cs)) := by
  induction cs with
  | nil => exact nothing_takes
  | cons c cs ih =>
    rw [text_cons]
    refine ((take_takes (.single c)).trans ih).mono ?_
    rintro _ ⟨_, ⟨d, hd, rfl⟩, _, rfl, rfl⟩
    rw [single_has, decide_eq_true_eq] at hd
    rw [hd]
    rfl

theorem fork_reads {greedy : Bool} {first next : Nat} {words : Nat → Language Char}
    {l : Language Char} (hfirst : words first ≤ l) (hnext : words next ≤ l) :
    (fork greedy first next).Reads words l := by
  cases greedy
  · exact ⟨hnext, hfirst⟩
  · exact ⟨hfirst, hnext⟩

section Body

variable {body : Emit} {l : Language Char} (hbody : body.Takes l)

include hbody

theorem times_takes (n : Nat) : (times body n).Takes (l ^ n) := by
  induction n with
  | zero =>
    rw [pow_zero]
    exact nothing_takes
  | succ n ih =>
    rw [pow_succ]
    exact ih.trans hbody

/-- At most `n` rounds in front of an entry that stands for some already. -/
theorem upTo_takes (greedy : Bool) {next : Nat} {bound : Language Char} (n done : Nat)
    {entry : Nat} {steps : Steps} {words : Nat → Language Char} (hreads : Reads steps words)
    (hnext : words next ≤ bound) (hentry : words entry ≤ (1 + l) ^ done * bound) :
    ∃ words', Extends steps (upTo body greedy next n entry steps).2 words words' ∧
      words' (upTo body greedy next n entry steps).1 ≤ (1 + l) ^ (n + done) * bound := by
  induction n generalizing entry steps words done with
  | zero => exact ⟨words, .refl hreads, by rwa [Nat.zero_add]⟩
  | succ n ih =>
    obtain ⟨words₁, h₁, hround⟩ := hbody entry steps words hreads
    have hone : 1 ≤ 1 + l := le_self_add
    have hfirst : words₁ (body entry steps).1 ≤ (1 + l) ^ (done + 1) * bound := by
      refine hround.trans ((mul_le_mul_right hentry l).trans ?_)
      rw [← mul_assoc, pow_succ', add_mul, one_mul]
      exact mul_le_mul_left le_add_self _
    have hlast : words₁ next ≤ (1 + l) ^ (done + 1) * bound :=
      ((h₁.le hreads next).trans hnext).trans (le_mul_of_one_le_left' (Left.one_le_pow_of_le hone _))
    obtain ⟨words₂, h₂, hfork⟩ := step_extends (s := fork greedy (body entry steps).1 next)
      (fork_reads hfirst hlast) h₁.reads
    have h := h₁.trans h₂
    obtain ⟨words₃, h₃, hle⟩ := ih (done + 1) h₂.reads ((h.le hreads next).trans hnext) hfork.le
    refine ⟨words₃, h.trans h₃, hle.trans_eq ?_⟩
    rw [Nat.add_right_comm, Nat.add_assoc]

/-- A loop: what is taken from the step that decides on a further round, and what from the first
step of one. -/
theorem loop_takes (greedy : Bool) (next : Nat) {steps : Steps} {words : Nat → Language Char}
    (hreads : Reads steps words) :
    ∃ words', Extends steps (loop body greedy next steps).2.2 words words' ∧
      words' (loop body greedy next steps).1 ≤ l∗ * words next ∧
      words' (loop body greedy next steps).2.1 ≤ l * l∗ * words next := by
  have hnone : words next ≤ l∗ * words next := le_mul_of_one_le_left' one_le_kstar
  obtain ⟨words₁, h₁, hagain⟩ := step_extends (s := .fork next next) ⟨hnone, hnone⟩ hreads
  obtain ⟨words₂, h₂, hround⟩ := hbody (step (.fork next next) steps).1 _ words₁ h₁.reads
  have h := h₁.trans h₂
  have hsame : words₂ (step (.fork next next) steps).1 = l∗ * words next :=
    (h₂.same _ (by simp [step])).trans hagain
  rw [hagain, ← mul_assoc] at hround
  simp only [loop]
  refine ⟨words₂, ⟨⟨fun i s hi => ?_, fun i hi => ?_⟩, ?_, h.same⟩, hsame.le, hround⟩
  · rw [Array.getElem?_setIfInBounds] at hi
    split at hi
    · rename_i heq
      split at hi
      · obtain rfl := Option.some.inj hi
        rw [← heq, hsame]
        exact fork_reads (hround.trans (mul_le_mul_left mul_kstar_le_kstar _))
          ((h.le hreads next).trans hnone)
      · cases hi
    · exact h₂.reads.step i s hi
  · rw [Array.size_setIfInBounds] at hi
    exact h₂.reads.beyond i hi
  · rw [Array.size_setIfInBounds]
    exact h.size

end Body

end Emit

/-- The steps of a regex take words of its language. -/
theorem emit_takes : (r : Regex) → Emit.Takes r.emit r.language
  | .empty => Emit.nothing_takes
  | .text cs => Emit.text_takes cs
  | .set s => Emit.take_takes s
  | .anchor a => Emit.idle_takes fun _ _ => le_refl _
  | .seq a b => (emit_takes a).trans (emit_takes b)
  | .alt a b => by
    have ha := (emit_takes a).mono (le_self_add : a.language ≤ a.language + b.language)
    have hb := (emit_takes b).mono (le_add_self : b.language ≤ a.language + b.language)
    intro next steps words hreads
    obtain ⟨words₁, h₁, hfirst⟩ := ha next steps words hreads
    obtain ⟨words₂, h₂, hsecond⟩ := hb next _ words₁ h₁.reads
    have hleft := (h₂.le h₁.reads (a.emit next steps).1).trans hfirst
    have hright := hsecond.trans (mul_le_mul_right (h₁.le hreads next) _)
    obtain ⟨words₃, h₃, hfork⟩ := Emit.step_extends
      (s := .fork (a.emit next steps).1 (b.emit next (a.emit next steps).2).1) ⟨hleft, hright⟩
      h₂.reads
    exact ⟨words₃, (h₁.trans h₂).trans h₃, hfork.le⟩
  | .rounds 0 none greedy body => by
    intro next steps words hreads
    obtain ⟨words₁, h₁, hagain, hfirst⟩ := Emit.loop_takes (emit_takes body) greedy next hreads
    simp only [emit, language, pow_zero, one_mul]
    split
    · exact ⟨words₁, h₁, hagain⟩
    · have hround := hfirst.trans (mul_le_mul_left mul_kstar_le_kstar _)
      have hnone : words₁ next ≤ body.language∗ * words next :=
        (h₁.le hreads next).trans (le_mul_of_one_le_left' one_le_kstar)
      obtain ⟨words₂, h₂, hfork⟩ := Emit.step_extends
        (s := Emit.fork greedy (Emit.loop body.emit greedy next steps).2.1 next)
        (Emit.fork_reads hround hnone) h₁.reads
      exact ⟨words₂, h₁.trans h₂, hfork.le⟩
  | .rounds (least + 1) none greedy body => by
    intro next steps words hreads
    obtain ⟨words₁, h₁, -, hfirst⟩ := Emit.loop_takes (emit_takes body) greedy next hreads
    obtain ⟨words₂, h₂, hle⟩ := Emit.times_takes (emit_takes body) least
      (Emit.loop body.emit greedy next steps).2.1 _ words₁ h₁.reads
    refine ⟨words₂, h₁.trans h₂, hle.trans ?_⟩
    rw [language, pow_succ, mul_assoc, mul_assoc, ← mul_assoc body.language]
    exact mul_le_mul_right hfirst _
  | .rounds least (some most) greedy body => by
    intro next steps words hreads
    obtain ⟨words₁, h₁, hentry⟩ := Emit.upTo_takes (emit_takes body) greedy (most - least) 0
      hreads (le_refl (words next)) (by rw [pow_zero, one_mul])
    obtain ⟨words₂, h₂, hle⟩ := Emit.times_takes (emit_takes body) least
      (Emit.upTo body.emit greedy next (most - least) next steps).1 _ words₁ h₁.reads
    rw [emit]
    refine ⟨words₂, h₁.trans h₂, hle.trans ?_⟩
    rw [language, mul_assoc]
    exact mul_le_mul_right hentry _
  | .group index body => by
    have hclose := Emit.idle_takes (s := .closeGroup index) fun _ _ => le_refl _
    have hopen := Emit.idle_takes (s := .openGroup index) fun _ _ => le_refl _
    have h := (hopen.trans (emit_takes body)).trans hclose
    rwa [one_mul, mul_one] at h

theorem le_length_of_mem_pow {l : Language Char} {k : Nat} (h : ∀ cs ∈ l, k ≤ cs.length) (n : Nat) :
    ∀ cs ∈ l ^ n, k * n ≤ cs.length := by
  induction n with
  | zero => exact fun cs _ => Nat.zero_le _
  | succ n ih =>
    rw [pow_succ]
    rintro _ ⟨front, hfront, rest, hrest, rfl⟩
    have hleast := Nat.add_le_add (ih front hfront) (h rest hrest)
    rwa [Nat.mul_succ, List.length_append]

/-- No word is shorter than the lower bound on what a regex matches. -/
theorem shortest_le_length : (r : Regex) → ∀ {k}, r.shortest? = some k → ∀ cs ∈ r.language,
    k ≤ cs.length
  | .empty, k, h, cs, _ => by
    obtain rfl := Option.some.inj h
    exact Nat.zero_le _
  | .text cs, k, h, _, rfl => (Option.some.inj h).ge
  | .set s, k, h, _, ⟨c, _, rfl⟩ => by
    rw [shortest?, Option.ite_none_left_eq_some] at h
    exact (Option.some.inj h.2).ge
  | .anchor a, k, h, cs, _ => by
    obtain rfl := Option.some.inj h
    exact Nat.zero_le _
  | .seq a b, k, h, _, ⟨front, hfront, rest, hrest, rfl⟩ => by
    simp only [shortest?, Option.bind_eq_bind, Option.bind_eq_some_iff, pure, Option.some.injEq] at h
    obtain ⟨i, hi, j, hj, rfl⟩ := h
    rw [List.length_append]
    exact Nat.add_le_add (shortest_le_length a hi front hfront) (shortest_le_length b hj rest hrest)
  | .alt a b, k, h, cs, hcs => by
    simp only [shortest?, Option.bind_eq_bind, Option.bind_eq_some_iff, pure, Option.some.injEq] at h
    obtain ⟨i, hi, j, hj, rfl⟩ := h
    obtain hcs | hcs := (Language.mem_add _ _ _).1 hcs
    · exact (Nat.min_le_left i j).trans (shortest_le_length a hi cs hcs)
    · exact (Nat.min_le_right i j).trans (shortest_le_length b hj cs hcs)
  | .rounds least none _ body, k, h, _, ⟨front, hfront, rest, _, rfl⟩ => by
    obtain ⟨j, hj, rfl⟩ := Option.map_eq_some_iff.1 h
    have hleast := le_length_of_mem_pow (shortest_le_length body hj) least front hfront
    rw [List.length_append]
    omega
  | .rounds least (some most) _ body, k, h, _, ⟨front, hfront, rest, _, rfl⟩ => by
    obtain ⟨j, hj, rfl⟩ := Option.map_eq_some_iff.1 h
    have hleast := le_length_of_mem_pow (shortest_le_length body hj) least front hfront
    rw [List.length_append]
    omega
  | .group _ body, k, h, cs, hcs => shortest_le_length body h cs hcs

namespace Program

@[simp] theorem origin_closeGroup (t : Trace) (index : Nat) (p : Place) :
    (t.closeGroup index p).origin = t.origin := by
  simp only [Trace.closeGroup]
  split <;> rfl

/-- What was taken since a thread began, followed by any word of its step, is a word of the start. -/
def Continues (prog : Program) (words : Nat → Language Char) (p : Place) (t : Thread) : Prop :=
  ∃ taken, t.trace.origin.rest = taken ++ p.rest ∧
    ∀ cs ∈ words t.step, taken ++ cs ∈ words prog.start

section Continues

variable {prog : Program} {words : Nat → Language Char} {S : Place → Prop} {p : Place} {t : Thread}

theorem Continues.idle (h : prog.Continues words p t) {u : Thread} (hle : words u.step ≤ words t.step)
    (horigin : u.trace.origin = t.trace.origin) : prog.Continues words p u := by
  obtain ⟨taken, hrest, hwords⟩ := h
  rw [← horigin] at hrest
  exact ⟨taken, hrest, fun cs hcs => hwords cs (hle hcs)⟩

theorem Continues.take (h : prog.Continues words p t) {s : CharSet} {next : Nat} {c : Char}
    {behind : List Char} (hle : language (.set s) * words next ≤ words t.step)
    (hc : s.has c = true) (hp : p.rest = c :: behind) :
    prog.Continues words (p.advance c behind) ⟨next, t.trace⟩ := by
  obtain ⟨taken, hrest, hwords⟩ := h
  refine ⟨taken ++ [c], ?_, fun cs hcs => ?_⟩
  · rw [hrest, hp, List.append_assoc, List.singleton_append]
    rfl
  · rw [List.append_assoc]
    exact hwords _ (hle (Language.append_mem_mul ⟨c, hc, rfl⟩ hcs))

theorem Reached.continues (hreads : Reads prog.steps words) (ht : Reached prog S p t) :
    prog.Continues words p t := by
  induction ht with
  | start hp => exact ⟨[], rfl, fun cs hcs => hcs⟩
  | first _ hs ih => exact ih.idle (hreads.step _ _ hs).1 rfl
  | second _ hs ih => exact ih.idle (hreads.step _ _ hs).2 rfl
  | check _ hs ih => exact ih.idle (hreads.step _ _ hs) rfl
  | openGroup _ hs ih => exact ih.idle (hreads.step _ _ hs) rfl
  | closeGroup _ hs ih =>
    refine ih.idle (hreads.step _ _ hs) ?_
    simp only [Trace.closeGroup]
    split <;> rfl
  | take _ hs hc hp ih => exact ih.take (hreads.step _ _ hs) hc hp

end Continues

/-- What the program of a regex matches is a word of its language. -/
theorem find?_language {r : Regex} {groups : Bool} {cs : List Char} {f : Found}
    (hf : (ofRegex r).find? groups cs (byteLength cs) = some f) :
    ∃ front taken rest, cs = front ++ (taken ++ rest) ∧ taken ∈ r.language ∧
      f.stop = byteLength (front ++ taken) ∧ (r.startsText = true → front = []) := by
  have haccept : Reads #[.accept] (Function.update ⊤ 0 1) := by
    refine ⟨fun i s hi => ?_, fun i hi => Function.update_of_ne (Nat.pos_iff_ne_zero.1 hi) _ _⟩
    obtain ⟨hlt, rfl⟩ := Array.getElem?_eq_some_iff.1 hi
    obtain rfl : i = 0 := Nat.lt_one_iff.1 hlt
    exact le_refl _
  obtain ⟨words, ⟨hreads, -, -⟩, hstart⟩ := emit_takes r 0 #[.accept] _ haccept
  rw [Function.update_self, mul_one] at hstart
  obtain ⟨m, ⟨step, hreached, hs⟩, rfl⟩ := find?_accepts hf
  have hprogram : Reads (ofRegex r).steps words := hreads
  obtain ⟨taken, hrest, hwords⟩ := Reached.continues hprogram hreached
  have hbegins := hreached.origin
  obtain ⟨front, hcs, -⟩ := (Begins.along hbegins).front
  obtain ⟨before, hcs', hstop⟩ := (hreached.along fun p hp => Begins.along hp).front
  rw [hrest] at hcs
  have hbefore : before = front ++ taken := by
    rw [hcs, ← List.append_assoc] at hcs'
    exact (List.append_cancel_right hcs').symm
  have htaken : taken ∈ words (ofRegex r).start := by
    simpa only [List.append_nil] using hwords [] (hreads.step _ _ hs Language.nil_mem_one)
  refine ⟨front, taken, m.stop.rest, hcs, hstart htaken, hbefore ▸ hstop, fun hstarts => ?_⟩
  have hprogram : (ofRegex r).startsText = true := hstarts
  rw [begins_of_startsText hprogram] at hbegins
  rw [hbegins] at hrest
  rw [← hrest] at hcs
  exact List.append_left_eq_self.1 hcs.symm

/-- A match of the program of a regex takes at least as many bytes as the regex needs characters. -/
theorem find?_shortest {r : Regex} {k : Nat} (hk : r.shortest? = some k) {groups : Bool}
    {cs : List Char} {f : Found} (hf : (ofRegex r).find? groups cs (byteLength cs) = some f) :
    k ≤ f.stop := by
  obtain ⟨front, taken, rest, -, htaken, hstop, -⟩ := find?_language hf
  have hlength := shortest_le_length r hk taken htaken
  have hbytes := length_le_byteLength taken
  rw [hstop, byteLength_append]
  omega

end Program

end PhpSyntax.Regex
