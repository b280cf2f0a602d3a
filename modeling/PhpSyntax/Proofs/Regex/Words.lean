import PhpSyntax.Proofs.Regex.Preferred

namespace PhpSyntax.Regex

open Program (Match)
open scoped Computability

/-- Whether a regex has no anchors. -/
def anchorless : Regex → Bool
  | .empty => true
  | .text _ => true
  | .set _ => true
  | .anchor _ => false
  | .seq a b => a.anchorless && b.anchorless
  | .alt a b => a.anchorless && b.anchorless
  | .rounds _ _ _ body => body.anchorless
  | .group _ body => body.anchorless

/-- Every word of a language that stands there is gone on with. -/
def GoesOn (l : Language Char) (f : Match → List Match) : Prop :=
  ∀ m, ∀ front ∈ l, ∀ rest, m.stop.rest = front ++ rest → ∃ m' ∈ f m, Onward m front m'

theorem goesOn_bind {l l' : Language Char} {f g : Match → List Match} (hf : GoesOn l f)
    (hg : GoesOn l' g) : GoesOn (l * l') fun m => (f m).flatMap g := by
  rintro m _ ⟨front, hfront, behind, hbehind, rfl⟩ rest hrest
  rw [List.append_assoc] at hrest
  obtain ⟨m', hm', hon⟩ := hf m front hfront (behind ++ rest) hrest
  have hleft : m'.stop.rest = behind ++ rest := List.append_cancel_left (hon.rest.symm.trans hrest)
  obtain ⟨m'', hm'', hon'⟩ := hg m' behind hbehind rest hleft
  exact ⟨m'', List.mem_flatMap.2 ⟨m', hm', hm''⟩, hon.trans hon'⟩

theorem goesOn_one : GoesOn 1 fun m : Match => [m] := by
  rintro m _ rfl rest -
  exact ⟨m, List.mem_singleton.2 rfl, .refl m⟩

theorem goesOn_taking (s : CharSet) : GoesOn (language (.set s)) (taking s) := by
  rintro m _ ⟨c, hc, rfl⟩ rest hrest
  exact ⟨m.take c rest, mem_taking.2 ⟨c, rest, hrest, hc, rfl⟩, onward_take hrest⟩

theorem goesOn_spelling (cs : List Char) : GoesOn {cs} (spelling cs) := by
  induction cs with
  | nil => exact goesOn_one
  | cons c cs ih =>
    rintro m _ rfl rest hrest
    refine goesOn_bind (goesOn_taking (.single c)) ih m (c :: cs) ?_ rest hrest
    exact ⟨[c], ⟨c, by rw [single_has, decide_eq_true_eq], rfl⟩, cs, rfl, rfl⟩

section Rounds

variable {l : Language Char} {round : Match → List Match} (h : GoesOn l round)

include h

theorem goesOn_exactly (n : Nat) : GoesOn (l ^ n) (exactly round n) := by
  induction n with
  | zero => exact goesOn_one
  | succ n ih =>
    rw [pow_succ']
    exact goesOn_bind h ih

/-- Words one behind the other, no more of them than there may be rounds. -/
theorem goesOn_flatten (greedy : Bool) {n : Nat} {words : List (List Char)} (hwords : ∀ w ∈ words, w ∈ l)
    (hn : words.length ≤ n) {m : Match} {rest : List Char}
    (hrest : m.stop.rest = words.flatten ++ rest) :
    ∃ m' ∈ atMost round greedy n m, Onward m words.flatten m' := by
  induction words generalizing n m with
  | nil => exact ⟨m, self_mem_atMost round greedy n m, .refl m⟩
  | cons w words ih =>
    obtain ⟨hw, hwords⟩ := List.forall_mem_cons.1 hwords
    obtain ⟨n, rfl⟩ : ∃ k, n = k + 1 := ⟨n - 1, by simp at hn; omega⟩
    rw [List.flatten_cons, List.append_assoc] at hrest
    obtain ⟨m', hm', hon⟩ := h m w hw _ hrest
    have hleft := List.append_cancel_left (hon.rest.symm.trans hrest)
    obtain ⟨m'', hm'', hon'⟩ := ih hwords (by simpa using hn) hleft
    exact ⟨m'', mem_atMost_succ.2 (.inl (List.mem_flatMap.2 ⟨m', hm', hm''⟩)), hon.trans hon'⟩

theorem goesOn_atMost (greedy : Bool) (n : Nat) : GoesOn ((1 + l) ^ n) (atMost round greedy n) := by
  intro m front hfront rest hrest
  obtain ⟨words, hlength, hwords, rfl⟩ : ∃ words : List (List Char), words.length ≤ n ∧
      (∀ w ∈ words, w ∈ l) ∧ front = words.flatten := by
    clear hrest
    induction n generalizing front with
    | zero => exact ⟨[], Nat.le_refl _, nofun, hfront⟩
    | succ n ih =>
      rw [pow_succ'] at hfront
      obtain ⟨w, hw, behind, hbehind, rfl⟩ := hfront
      obtain ⟨words, hlength, hwords, rfl⟩ := ih behind hbehind
      obtain rfl | hw := (Language.mem_add _ _ _).1 hw
      · exact ⟨words, hlength.trans (Nat.le_succ n), hwords, rfl⟩
      · exact ⟨w :: words, Nat.succ_le_succ hlength, List.forall_mem_cons.2 ⟨hw, hwords⟩, rfl⟩
  exact goesOn_flatten h greedy hwords hlength hrest

theorem goesOn_many (greedy : Bool) : GoesOn l∗ (many round greedy) := by
  intro m front hfront rest hrest
  obtain ⟨words, rfl, hwords⟩ := Language.mem_kstar_iff_exists_nonempty.1 hfront
  refine goesOn_flatten h greedy (fun w hw => (hwords w hw).1) ?_ hrest
  have hlength : words.length ≤ words.flatten.length := by
    clear hrest hfront
    induction words with
    | nil => exact Nat.le_refl _
    | cons w words ih =>
      obtain ⟨⟨-, hw⟩, hwords⟩ := List.forall_mem_cons.1 hwords
      have hpos := List.length_pos_of_ne_nil hw
      have := ih hwords
      simp only [List.length_cons, List.flatten_cons, List.length_append]
      omega
  rw [hrest, List.length_append]
  omega

end Rounds

/-- A regex without anchors goes on with every word of its language. -/
theorem goesOn_explore : (r : Regex) → r.anchorless = true → GoesOn r.language r.explore
  | .empty, _ => goesOn_one
  | .text cs, _ => goesOn_spelling cs
  | .set s, _ => goesOn_taking s
  | .seq a b, h => by
    obtain ⟨ha, hb⟩ := Bool.and_eq_true_iff.1 h
    exact goesOn_bind (goesOn_explore a ha) (goesOn_explore b hb)
  | .alt a b, h => by
    obtain ⟨ha, hb⟩ := Bool.and_eq_true_iff.1 h
    intro m front hfront rest hrest
    obtain hfront | hfront := (Language.mem_add _ _ _).1 hfront
    · obtain ⟨m', hm', hon⟩ := goesOn_explore a ha m front hfront rest hrest
      exact ⟨m', List.mem_append_left _ hm', hon⟩
    · obtain ⟨m', hm', hon⟩ := goesOn_explore b hb m front hfront rest hrest
      exact ⟨m', List.mem_append_right _ hm', hon⟩
  | .rounds least none greedy body, h =>
    have hbody := goesOn_explore body h
    goesOn_bind (goesOn_exactly hbody least) (goesOn_many hbody greedy)
  | .rounds least (some most) greedy body, h =>
    have hbody := goesOn_explore body h
    goesOn_bind (goesOn_exactly hbody least) (goesOn_atMost hbody greedy (most - least))
  | .group index body, h => by
    intro m front hfront rest hrest
    obtain ⟨m', hm', hon⟩ := goesOn_explore body h (m.openGroup index) front hfront rest hrest
    have horigin := Program.origin_closeGroup m'.trace index m'.stop
    exact ⟨m'.closeGroup index, List.mem_map_of_mem hm', hon.rest, hon.stop,
      horigin.trans hon.origin⟩

section Languages

theorem language_seqOf (rs : List Regex) : (seqOf rs).language = (rs.map language).prod := by
  match rs with
  | [] => rfl
  | [r] => simp [seqOf]
  | r :: r' :: rs =>
    have ih := language_seqOf (r' :: rs)
    rw [List.map_cons, List.prod_cons, ← ih]
    rfl

theorem mem_language_altOf {rs : List Regex} {cs : List Char} :
    cs ∈ (altOf rs).language ↔ ∃ r ∈ rs, cs ∈ r.language := by
  match rs with
  | [] =>
    refine ⟨?_, by simp⟩
    rintro ⟨c, hc, -⟩
    cases hc
  | [r] => simp [altOf]
  | r :: r' :: rs =>
    have ih : cs ∈ (altOf (r' :: rs)).language ↔ ∃ r ∈ r' :: rs, cs ∈ r.language :=
      mem_language_altOf
    rw [List.exists_mem_cons_iff, ← ih]
    exact Language.mem_add _ _ _

theorem language_parts (r : Regex) : (r.parts.map language).prod = r.language := by
  induction r with
  | seq a b _ ih =>
    rw [parts, List.map_cons, List.prod_cons, ih]
    rfl
  | _ => simp [parts]

theorem language_text_append (cs ds : List Char) :
    language (.text (cs ++ ds)) = language (.text cs) * language (.text ds) := by
  ext w
  refine ⟨?_, ?_⟩
  · rintro rfl
    exact ⟨cs, rfl, ds, rfl, rfl⟩
  · rintro ⟨_, rfl, _, rfl, rfl⟩
    rfl

theorem language_joinTexts (rs : List Regex) :
    ((joinTexts rs).map language).prod = (rs.map language).prod := by
  induction rs with
  | nil => rfl
  | cons r rs ih =>
    rw [List.map_cons, List.prod_cons, ← ih]
    cases r with
    | text cs =>
      rw [joinTexts]
      split
      · rename_i ds rest heq
        rw [heq, List.map_cons, List.prod_cons, List.map_cons, List.prod_cons, language_text_append,
          mul_assoc]
      · rw [List.map_cons, List.prod_cons]
    | _ => rfl

/-- Regexes one behind the other match words one behind the other. -/
theorem language_sequence (rs : List Regex) : (sequence rs).language = (rs.map language).prod := by
  rw [sequence, language_seqOf, language_joinTexts]
  induction rs with
  | nil => rfl
  | cons r rs ih =>
    have hfilter : ∀ ps : List Regex,
        ((ps.filter (· != .empty)).map language).prod = (ps.map language).prod := by
      intro ps
      induction ps with
      | nil => rfl
      | cons p ps ih =>
        by_cases hp : p = .empty
        · rw [hp, List.filter_cons_of_neg (by simp), ih, List.map_cons, List.prod_cons]
          exact (one_mul _).symm
        · rw [List.filter_cons_of_pos (by simpa using hp), List.map_cons, List.prod_cons, ih,
            List.map_cons, List.prod_cons]
    rw [hfilter] at ih ⊢
    rw [List.flatMap_cons, List.map_append, List.prod_append, language_parts, ih, List.map_cons,
      List.prod_cons]

end Languages

end PhpSyntax.Regex
