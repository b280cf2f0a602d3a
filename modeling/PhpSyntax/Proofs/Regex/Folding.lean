import PhpSyntax.Proofs.Regex.Words

namespace PhpSyntax

namespace CharSet

/-- In the order of their starts. -/
abbrev Earlier (q r : Unicode.Range) : Prop :=
  q.1 ≤ r.1

theorem sorted_eq (ranges : List Unicode.Range) : sorted ranges = ranges.insertionSort Earlier := by
  have hplace : ∀ r rs, place r rs = List.orderedInsert Earlier r rs := by
    intro r rs
    induction rs with
    | nil => rfl
    | cons q rs ih => rw [place, List.orderedInsert_cons, ih]
  induction ranges with
  | nil => rfl
  | cons r ranges ih =>
    rw [List.insertionSort_cons, ← ih, ← hplace]
    rfl

theorem covers_cons (r : Unicode.Range) (rs : List Unicode.Range) (n : Nat) :
    Unicode.covers (r :: rs) n = true ↔ (r.1 ≤ n ∧ n ≤ r.2) ∨ Unicode.covers rs n = true := by
  simp [Unicode.covers]

theorem covers_joinFrom (r : Unicode.Range) {rs : List Unicode.Range}
    (hrs : (r :: rs).Pairwise Earlier) (n : Nat) :
    Unicode.covers (join.joinFrom r rs) n = Unicode.covers (r :: rs) n := by
  induction rs generalizing r with
  | nil => rfl
  | cons q rs ih =>
    obtain ⟨hr, hq⟩ := List.pairwise_cons.1 hrs
    obtain ⟨hqs, hrest⟩ := List.pairwise_cons.1 hq
    have hrq : r.1 ≤ q.1 := hr q List.mem_cons_self
    rw [join.joinFrom, Bool.eq_iff_iff]
    split
    · have hjoined : ((r.1, max r.2 q.2) :: rs).Pairwise Earlier :=
        List.pairwise_cons.2 ⟨fun p hp => hr p (List.mem_cons_of_mem q hp), hrest⟩
      rw [ih (r.1, max r.2 q.2) hjoined]
      simp only [covers_cons]
      rw [← or_assoc]
      refine or_congr_left ?_
      omega
    · rw [covers_cons, ih q hq, covers_cons r]

/-- Sorting ranges and joining them keeps what they cover. -/
theorem ofRanges_has (ranges : List Unicode.Range) (c : Char) :
    (ofRanges ranges).has c = Unicode.covers ranges c.toNat := by
  have hsorted : (sorted ranges).Pairwise Earlier := by
    rw [sorted_eq]
    exact List.pairwise_insertionSort Earlier ranges
  have hperm : (sorted ranges).Perm ranges := by
    rw [sorted_eq]
    exact List.perm_insertionSort Earlier ranges
  have hcovers : Unicode.covers (sorted ranges) c.toNat = Unicode.covers ranges c.toNat :=
    hperm.any_eq
  rw [← hcovers]
  simp only [has, ofRanges]
  cases hs : sorted ranges with
  | nil => rfl
  | cons r rs => exact covers_joinFrom r (hs ▸ hsorted) c.toNat

theorem orbit_has (c d : Char) : (orbit c).has d = decide (d ∈ Unicode.caseOrbit c) := by
  rw [orbit, ofRanges_has, Bool.eq_iff_iff, decide_eq_true_eq]
  simp only [Unicode.covers, List.any_map, List.any_eq_true, Function.comp_apply, Bool.and_eq_true,
    decide_eq_true_eq]
  refine ⟨?_, fun h => ⟨d, h, Nat.le_refl _, Nat.le_refl _⟩⟩
  rintro ⟨e, he, hle, hge⟩
  have heq : e = d := Char.toNat_inj.1 (Nat.le_antisymm hle hge)
  exact heq ▸ he

/-- The only member of a set is the only one that it has. -/
theorem has_of_member? {s : CharSet} {c d e : Char} (h : s.member? = some d) (hc : s.has c = true) :
    d = c ∧ (s.has e = true ↔ e = c) := by
  simp only [member?] at h
  split at h
  · rename_i lo hi heq
    rw [Option.ite_none_right_eq_some] at h
    obtain ⟨rfl, h⟩ := h
    have hhas : ∀ e : Char, s.has e = true ↔ e.toNat = lo := by
      intro e
      simp only [has, Unicode.covers, heq, List.any_cons, List.any_nil, Bool.or_false,
        Bool.and_eq_true, decide_eq_true_eq]
      omega
    obtain rfl := (hhas c).1 hc
    rw [Char.ofNat_toNat, Option.some.injEq] at h
    exact ⟨h.symm, (hhas e).trans Char.toNat_inj⟩
  · cases h

end CharSet

namespace Unicode

theorem mem_caseOrbit (c : Char) : c ∈ caseOrbit c := by
  unfold caseOrbit
  split
  · rename_i group hgroup
    have hc := List.find?_some hgroup
    rw [List.contains_iff_mem] at hc
    exact List.mem_map.2 ⟨c.toNat, hc, Char.ofNat_toNat c⟩
  · split
    · split
      · exact List.mem_cons_self
      · split <;> exact List.mem_cons_self
    · split <;> exact List.mem_cons_self

/-- Among the characters of ASCII, folding tells apart what lower case does. -/
theorem mem_caseOrbit_ascii {c d : Char} (hc : c.toNat < 128) (hlower : c.isUpper = false)
    (hd : d.toNat < 128) : d ∈ caseOrbit c ↔ d.toLower = c := by
  have hmembers : ((List.range 128).all fun n => (Char.ofNat n).isUpper ||
      (caseOrbit (Char.ofNat n)).all fun d => 128 ≤ d.toNat || d.toLower == Char.ofNat n) = true := by
    decide +kernel
  have hself : ((List.range 128).all fun n =>
      (caseOrbit (Char.ofNat n).toLower).contains (Char.ofNat n)) = true := by
    decide +kernel
  simp only [List.all_eq_true, List.mem_range, Bool.or_eq_true, decide_eq_true_eq, beq_iff_eq,
    List.contains_eq_mem] at hmembers hself
  refine ⟨fun h => ?_, ?_⟩
  · have h' := hmembers c.toNat hc
    rw [Char.ofNat_toNat, hlower] at h'
    exact ((h'.resolve_left nofun) d h).resolve_left (by omega)
  · rintro rfl
    have h' := hself d.toNat hd
    rwa [Char.ofNat_toNat] at h'

end Unicode

namespace Regex

theorem language_ofSet {s : CharSet} {c : Char} (hc : s.has c = true) :
    (ofSet s).language = language (.set s) := by
  rw [ofSet]
  split
  · rename_i d hd
    ext w
    refine ⟨?_, ?_⟩
    · rintro rfl
      obtain ⟨rfl, -⟩ := CharSet.has_of_member? (e := c) hd hc
      exact ⟨d, hc, rfl⟩
    · rintro ⟨e, he, rfl⟩
      obtain ⟨rfl, hmember⟩ := CharSet.has_of_member? hd hc
      rw [hmember.1 he]
      rfl
  · rfl

def spelled (w : List Char) : Regex :=
  sequence (w.map fun c => ofSet (.orbit c))

/-- Simple case folding does not tell a text from a word. -/
def FoldsTo (w cs : List Char) : Prop :=
  List.Forall₂ (fun c d => d ∈ Unicode.caseOrbit c) w cs

theorem mem_language_spelled {w cs : List Char} : cs ∈ (spelled w).language ↔ FoldsTo w cs := by
  rw [spelled, language_sequence, List.map_map]
  induction w generalizing cs with
  | nil =>
    rw [List.map_nil, List.prod_nil, Language.mem_one, FoldsTo, List.forall₂_nil_left_iff]
  | cons c w ih =>
    have hset : ((language ∘ fun c => ofSet (.orbit c)) c) = language (.set (.orbit c)) := by
      refine language_ofSet (c := c) ?_
      rw [CharSet.orbit_has, decide_eq_true_eq]
      exact Unicode.mem_caseOrbit c
    rw [List.map_cons, List.prod_cons, hset, FoldsTo, List.forall₂_cons_left_iff]
    refine ⟨?_, ?_⟩
    · rintro ⟨_, ⟨d, hd, rfl⟩, rest, hrest, rfl⟩
      rw [CharSet.orbit_has, decide_eq_true_eq] at hd
      exact ⟨d, rest, hd, ih.1 hrest, rfl⟩
    · rintro ⟨d, rest, hd, hrest, rfl⟩
      refine ⟨[d], ⟨d, ?_, rfl⟩, rest, ih.2 hrest, rfl⟩
      rw [CharSet.orbit_has, decide_eq_true_eq]
      exact hd

/-- A word of ASCII in lower case is what texts of ASCII fold to that spell it in any case. -/
theorem foldsTo_ascii {w cs : List Char} (hw : ∀ c ∈ w, c.toNat < 128 ∧ c.isUpper = false)
    (hcs : ∀ c ∈ cs, c.toNat < 128) : FoldsTo w cs ↔ cs.map Char.toLower = w := by
  induction w generalizing cs with
  | nil => rw [FoldsTo, List.forall₂_nil_left_iff, List.map_eq_nil_iff]
  | cons c w ih =>
    obtain ⟨hc, hw⟩ := List.forall_mem_cons.1 hw
    rw [FoldsTo, List.forall₂_cons_left_iff, List.map_eq_cons_iff]
    refine exists₂_congr fun d rest => ?_
    refine ⟨?_, ?_⟩
    · rintro ⟨hd, hrest, rfl⟩
      obtain ⟨hdc, hcs⟩ := List.forall_mem_cons.1 hcs
      exact ⟨rfl, (Unicode.mem_caseOrbit_ascii hc.1 hc.2 hdc).1 hd, (ih hw hcs).1 hrest⟩
    · rintro ⟨rfl, hd, hrest⟩
      obtain ⟨hdc, hcs⟩ := List.forall_mem_cons.1 hcs
      exact ⟨(Unicode.mem_caseOrbit_ascii hc.1 hc.2 hdc).2 hd, (ih hw hcs).2 hrest, rfl⟩

end Regex

end PhpSyntax
