import PhpSyntax.Proofs.Peg.Exploring
import PhpSyntax.Proofs.Peg.Termination

namespace PhpSyntax.Peg

open Regex
open Regex.Program (Match)

theorem leading_of_skips {t : Lexeme} {text : Text} {offset stop : Nat}
    (h : Skips t text offset stop) (quiet : Bool) :
    leading (some t) text ⟨true, quiet⟩ offset = stop :=
  (LeadsTo.skipped rfl h).unique (leading_leadsTo (some t) ⟨true, quiet⟩ offset).1

theorem skips_leading (t : Lexeme) (text : Text) (quiet : Bool) (offset : Nat) :
    Skips t text offset (leading (some t) text ⟨true, quiet⟩ offset) := by
  have hleads : LeadsTo (some t) text true offset _ :=
    (leading_leadsTo (some t) ⟨true, quiet⟩ offset).1
  generalize leading (some t) text ⟨true, quiet⟩ offset = stop at hleads ⊢
  cases hleads with
  | bare ht => cases ht
  | skipped ht hskips =>
    obtain rfl := Option.some.inj ht
    exact hskips

/-- A terminal that repeats a regex which takes something and looks ahead only. -/
structure Lexeme.Repeats (t : Lexeme) (round : Regex) : Prop where
  program : t.program = .ofRegex (.seq (.anchor .textStart) (.rounds 1 none true round))
  takes : round.takesSome = true
  productive : round.productive = true
  forward : round.forward = true

namespace Lexeme.Repeats

variable {t : Lexeme} {round : Regex} (h : t.Repeats round) {front more rest cs : List Char}

include h

theorem rounds_productive : (Regex.rounds 1 none true round).productive = true :=
  Bool.and_eq_true_iff.2 ⟨h.takes, h.productive⟩

theorem shorter (m : Match) : ∀ m' ∈ round.explore m, m'.stop.rest.length < m.stop.rest.length :=
  fun _ hm' => explore_shorter h.takes hm'

theorem matchLength?_none (hfails : Fails round.explore cs) :
    t.matchLength? cs (byteLength cs) = none := by
  refine Lexeme.matchLength?_none h.program h.rounds_productive ?_
  rw [explore_rounds_one]
  exact hfails.bind _ rfl

/-- Rounds behind a first one. -/
theorem matchLength?_rounds (hround : Prefers round.explore front (more ++ rest))
    (hmore : Prefers (Regex.many round.explore true) more rest) :
    t.matchLength? (front ++ more ++ rest) (byteLength (front ++ more ++ rest)) =
      some (byteLength (front ++ more)) := by
  obtain ⟨m, hm, hon⟩ := hround.bind hmore (.starting (front ++ more ++ rest)) rfl
  refine Lexeme.matchLength?_head h.program h.rounds_productive ?_ hon
  rw [explore_rounds_one]
  exact hm

theorem nonempty (hround : Prefers round.explore front rest) : front ≠ [] := by
  rintro rfl
  obtain ⟨m, hm, hon⟩ := hround (.starting rest) rfl
  have hlt := h.shorter _ m (List.mem_of_mem_head? hm)
  rw [hon.rest] at hlt
  exact Nat.lt_irrefl _ hlt

theorem matchLength?_many (hmore : Prefers (Regex.many round.explore true) more rest) (hne : more ≠ []) :
    t.matchLength? (more ++ rest) (byteLength (more ++ rest)) = some (byteLength more) := by
  obtain ⟨m, hm, hon⟩ := hmore (.starting (more ++ rest)) rfl
  refine Lexeme.matchLength?_head h.program h.rounds_productive ?_ hon
  rw [explore_rounds_one]
  rw [many_eq h.shorter, if_pos rfl, List.head?_append] at hm
  cases hrounds : (round.explore (.starting (more ++ rest))).flatMap (Regex.many round.explore true) with
  | nil =>
    rw [hrounds] at hm
    obtain rfl := Option.some.inj hm
    exact absurd (List.append_left_eq_self.1 hon.rest.symm) hne
  | cons n ns =>
    rw [hrounds] at hm
    simpa only [hrounds, List.head?_cons, Option.some_or] using hm

theorem skips_stop {text : Text} {offset : Nat} (hcs : text.Has offset cs)
    (hfails : Fails round.explore cs) : Skips t text offset offset := by
  refine .stop fun n => ?_
  rw [hcs.after?, hcs.left, Option.bind_some, h.matchLength?_none hfails]
  nofun

theorem prefers_many (cs : List Char) : ∃ more rest, cs = more ++ rest ∧
    Prefers (Regex.many round.explore true) more rest := by
  have htaken := takenFrom_explore (.rounds 0 none true round)
  rw [explore_rounds] at htaken
  have hmany := (alike_explore round h.forward).many true
  obtain hfails | hprefers := hmany.prefers_or_fails htaken (.starting cs)
  · have hself := self_mem_atMost round.explore true cs.length (.starting cs)
    rw [show atMost round.explore true cs.length (.starting cs) = [] from hfails _ rfl] at hself
    cases hself
  · exact hprefers

/-- Skipping passes over a round, and goes on from there as it would have begun there. -/
theorem skips_round {text : Text} {offset stop : Nat} (hcs : text.Has offset (front ++ rest))
    (hround : Prefers round.explore front rest)
    (hskips : Skips t text (offset + byteLength front) stop) : Skips t text offset stop := by
  obtain ⟨more, left, rfl, hmore⟩ := h.prefers_many rest
  have hlong : ∀ cs : List Char, cs ≠ [] → ∃ n, byteLength cs = n + 1 := by
    intro cs hne
    obtain ⟨c, cs, rfl⟩ := List.exists_cons_of_ne_nil hne
    have hpos := utf8Size_pos c
    exact ⟨byteLength (c :: cs) - 1, by rw [byteLength]; omega⟩
  have hne : front ++ more ≠ [] := fun hnil => h.nonempty hround (List.append_eq_nil_iff.1 hnil).1
  obtain ⟨n, hn⟩ := hlong _ hne
  rw [← List.append_assoc] at hcs
  have hmatch := h.matchLength?_rounds hround hmore
  rw [hn] at hmatch
  refine .more (n := n) (by rw [hcs.after?, hcs.left]; exact hmatch) ?_
  have hrest : text.Has (offset + byteLength front) (more ++ left) := by
    rw [List.append_assoc] at hcs
    exact hcs.move
  rw [← hn, byteLength_append, ← Nat.add_assoc]
  cases more with
  | nil => exact hskips
  | cons c more =>
    have hmatch := h.matchLength?_many hmore (List.cons_ne_nil c more)
    obtain ⟨k, hk⟩ := hlong _ (List.cons_ne_nil c more)
    cases hskips with
    | stop hnone =>
      rw [hrest.after?, hrest.left, Option.bind_some, hmatch, hk] at hnone
      exact absurd rfl (hnone k)
    | more hsome hskips =>
      rw [hrest.after?, hrest.left, Option.bind_some, hmatch] at hsome
      rw [Option.some.inj hsome]
      exact hskips

end Lexeme.Repeats

end PhpSyntax.Peg
