import PhpSyntax.Php.Name
import PhpSyntax.Proofs.Peg.Reading
import PhpSyntax.Proofs.Regex.Stepping

namespace PhpSyntax.Php

open Peg Regex

/-- The characters that an identifier begins with. -/
def identStarts : CharSet :=
  ⟨[(65, 90), (95, 95), (97, 122), (128, 0x10FFFF)]⟩

/-- The characters that an identifier goes on with. -/
def identChars : CharSet :=
  ⟨[(48, 57), (65, 90), (95, 95), (97, 122), (128, 0x10FFFF)]⟩

theorem isAlpha_iff (c : Char) : c.isAlpha = true ↔
    65 ≤ c.toNat ∧ c.toNat ≤ 90 ∨ 97 ≤ c.toNat ∧ c.toNat ≤ 122 := by
  simp only [Char.isAlpha, Char.isUpper, Char.isLower, Bool.or_eq_true, Bool.and_eq_true,
    decide_eq_true_eq, UInt32.le_iff_toNat_le, ge_iff_le]
  rfl

theorem isDigit_iff (c : Char) : c.isDigit = true ↔ 48 ≤ c.toNat ∧ c.toNat ≤ 57 := by
  simp only [Char.isDigit, Bool.and_eq_true, decide_eq_true_eq, UInt32.le_iff_toNat_le, ge_iff_le]
  rfl

theorem underscore_iff (c : Char) : c = '_' ↔ c.toNat = 95 := by
  rw [Char.ext_iff, UInt32.ext_iff]
  rfl

theorem identStarts_has (c : Char) : identStarts.has c = isIdentStart c := by
  have hc := toNat_le_greatest c
  rw [Bool.eq_iff_iff]
  simp only [CharSet.has, Unicode.covers, identStarts, isIdentStart, List.any_cons, List.any_nil,
    Bool.or_false, Bool.or_eq_true, Bool.and_eq_true, decide_eq_true_eq, beq_iff_eq, isAlpha_iff,
    underscore_iff]
  omega

theorem identChars_has (c : Char) : identChars.has c = isIdentChar c := by
  have hc := toNat_le_greatest c
  rw [Bool.eq_iff_iff]
  simp only [CharSet.has, Unicode.covers, identChars, isIdentChar, Char.isAlphanum, List.any_cons,
    List.any_nil, Bool.or_false, Bool.or_eq_true, Bool.and_eq_true, decide_eq_true_eq, beq_iff_eq,
    isAlpha_iff, isDigit_iff, underscore_iff]
  omega

def variableProgram : Program :=
  ⟨#[.accept, .closeGroup 1 0, .fork 3 1, .take identChars 2, .take identStarts 2, .openGroup 1 4,
    .take (.single '$') 5, .check .textStart 6], 7, true, false, true⟩

theorem variableName_program : variableName.program? = some variableProgram := by
  decide +kernel

/-- Behind an identifier that began at `origin`: the thread that ends here, behind the one that
reads on. -/
def nameThreads (origin start p : Place) : List Thread :=
  [⟨0, ⟨origin, [], [(1, start.upTo p)]⟩⟩, ⟨3, ⟨origin, [(1, start)], []⟩⟩]

theorem enter_name (holds : Anchor → Bool) (origin start p : Place) {seen : Seen}
    (hseen : ∀ n, seen.has n = false) (hvalid : seen.Valid) :
    ∃ seen', seen'.Valid ∧
      variableProgram.enter holds p ⟨[], seen⟩ ⟨2, ⟨origin, [(1, start)], []⟩⟩ =
      ⟨nameThreads origin start p, seen'⟩ := by
  refine ⟨(((seen.add 2).add 3).add 1).add 0, ?_, ?_⟩
  · exact Seen.valid_add (Seen.valid_add (Seen.valid_add (Seen.valid_add hvalid 2) 3) 1) 0
  · simp [Program.enter, variableProgram, Program.follow, hseen, Seen.has_add_of_ne,
      Trace.closeGroup, nameThreads]

theorem enter_start (ahead : Bool) (cs : List Char) (size : Nat) :
    ∃ seen, seen.Valid ∧ variableProgram.enter (Program.known ahead (.start cs size))
      (.start cs size) ⟨[], .none 8⟩ ⟨7, .startingAt (.start cs size)⟩ =
      ⟨[⟨6, .startingAt (.start cs size)⟩, ⟨7, .startingAt (.start cs size)⟩], seen⟩ := by
  refine ⟨((Seen.none 8).add 7).add 6, ?_, ?_⟩
  · exact Seen.valid_add (Seen.valid_add (Seen.valid_none 8) 7) 6
  · have hstart : Program.known ahead (.start cs size) .textStart = true := by
      cases ahead <;> rfl
    simp [Program.enter, variableProgram, Program.follow, Seen.has_none, Seen.has_add_of_ne, hstart]

theorem enter_open (holds : Anchor → Bool) (origin p : Place) {seen : Seen}
    (hseen : ∀ n, seen.has n = false) (hvalid : seen.Valid) :
    ∃ seen', seen'.Valid ∧ variableProgram.enter holds p ⟨[], seen⟩ ⟨5, .startingAt origin⟩ =
      ⟨[⟨4, ⟨origin, [(1, p)], []⟩⟩], seen'⟩ := by
  refine ⟨(seen.add 5).add 4, Seen.valid_add (Seen.valid_add hvalid 5) 4, ?_⟩
  simp [Program.enter, variableProgram, Program.follow, hseen, Seen.has_add_of_ne,
    Trace.openGroup, Trace.startingAt]

/-- Reading on to the end of the identifier. -/
theorem read_name (origin start : Place) (ahead : Bool) {left : Nat} {more follow : List Char}
    (hmore : ∀ c ∈ more, isIdentChar c = true)
    (hfollow : follow.head?.any isIdentChar = false) (hleft : left ≤ byteLength follow) {p : Place}
    (hp : p.left = byteLength (more ++ follow)) {seen : Seen} (hvalid : seen.Valid)
    (best : Option Program.Match) :
    ∃ stop : Place, stop.left = byteLength follow ∧
      variableProgram.read ahead false left (more ++ follow) p
        ⟨nameThreads origin start p, seen⟩ best =
      .done (some ⟨⟨origin, [], [(1, start.upTo stop)]⟩, stop⟩) := by
  have hsettle : ∀ p seen, variableProgram.settle ahead p ⟨nameThreads origin start p, seen⟩ =
      ⟨nameThreads origin start p, seen⟩ :=
    fun p seen => variableProgram.settle_of_checks (by rfl) ahead p
  have haccepted : ∀ p, variableProgram.accepted (nameThreads origin start p).reverse =
      ([⟨3, ⟨origin, [(1, start)], []⟩⟩],
        some ⟨0, ⟨origin, [], [(1, start.upTo p)]⟩⟩) := fun _ => rfl
  have hstep : ∀ c cs p seen best, variableProgram.read ahead false left (c :: cs) p
      ⟨nameThreads origin start p, seen⟩ best =
      if p.left ≤ left then .done (some ⟨⟨origin, [], [(1, start.upTo p)]⟩, p⟩)
      else variableProgram.read ahead false left cs (p.advance c cs)
        (variableProgram.advance ahead c (p.advance c cs) [⟨3, ⟨origin, [(1, start)], []⟩⟩]
          seen.clear) (some ⟨⟨origin, [], [(1, start.upTo p)]⟩, p⟩) := by
    intro c cs p seen best
    have hwords : variableProgram.seesWords = false := rfl
    have hempty : (nameThreads origin start p).isEmpty = false := rfl
    simp only [Program.read, hempty, hwords, hsettle, haccepted, Bool.false_and, Bool.and_false,
      Bool.false_eq_true, if_false]
  induction more generalizing p seen best with
  | nil =>
    refine ⟨p, hp, ?_⟩
    cases follow with
    | nil => simp only [List.nil_append, Program.read, hsettle, haccepted]
    | cons c follow =>
      have hc : identChars.has c = false := by
        rw [identChars_has]
        simpa using hfollow
      have hadvance : ∀ p' seen', variableProgram.advance ahead c p'
          [⟨3, ⟨origin, [(1, start)], []⟩⟩] seen' = ⟨[], seen'⟩ := by
        intro p' seen'
        simp [Program.advance, variableProgram, hc]
      rw [List.nil_append, hstep, hadvance]
      split
      · rfl
      · exact variableProgram.read_of_empty rfl _ _ _ _ _
  | cons c more ih =>
    have hpos := utf8Size_pos c
    obtain ⟨hc, hmore⟩ := List.forall_mem_cons.1 hmore
    rw [← identChars_has] at hc
    have hleft' : ¬p.left ≤ left := by
      rw [hp, List.cons_append, byteLength, byteLength_append]
      omega
    obtain ⟨seen', hvalid', henter⟩ :=
      enter_name (Program.known ahead (p.advance c (more ++ follow)))
      origin start (p.advance c (more ++ follow)) (Seen.has_clear hvalid) (Seen.valid_clear hvalid)
    have hadvance : variableProgram.advance ahead c (p.advance c (more ++ follow))
        [⟨3, ⟨origin, [(1, start)], []⟩⟩] seen.clear =
        ⟨nameThreads origin start (p.advance c (more ++ follow)), seen'⟩ := by
      rw [← henter]
      simp [Program.advance, variableProgram, hc]
    obtain ⟨stop, hstop, hread⟩ := ih hmore (p := p.advance c (more ++ follow)) (by
      simp only [Place.advance, hp, List.cons_append, byteLength]
      omega) hvalid' (some ⟨⟨origin, [], [(1, start.upTo p)]⟩, p⟩)
    refine ⟨stop, hstop, ?_⟩
    rw [List.cons_append, hstep, if_neg hleft', hadvance]
    exact hread

/-- The terminal for variables takes a dollar sign and all of the identifier behind it. -/
theorem search_variable (ahead : Bool) {left : Nat} {first : Char} {more follow : List Char}
    (hfirst : isIdentStart first = true) (hmore : ∀ c ∈ more, isIdentChar c = true)
    (hfollow : follow.head?.any isIdentChar = false) (hleft : left ≤ byteLength follow) :
    let cs := '$' :: (first :: more) ++ follow
    let p := Place.start cs (byteLength cs)
    ∃ stop : Place, stop.left = byteLength follow ∧
      variableProgram.searchFrom ahead false left p =
      .done (some ⟨⟨p, [], [(1, ⟨(first :: more) ++ follow, byteLength (first :: more)⟩)]⟩,
        stop⟩) := by
  intro cs p
  let p₁ := p.advance '$' ((first :: more) ++ follow)
  let p₂ := p₁.advance first (more ++ follow)
  let inside : Trace := ⟨p, [(1, p₁)], []⟩
  rw [← identStarts_has] at hfirst
  have hdollar := utf8Size_pos '$'
  have hpos := utf8Size_pos first
  have hsize : p.left = '$'.utf8Size + (first.utf8Size + byteLength (more ++ follow)) := rfl
  have hsize₁ : p₁.left = first.utf8Size + byteLength (more ++ follow) :=
    Nat.add_sub_cancel_left ..
  have hsize₂ : p₂.left = byteLength (more ++ follow) := by
    show p₁.left - _ = _
    rw [hsize₁, Nat.add_sub_cancel_left]
  have hleft₁ : ¬p₁.left ≤ left := by
    rw [hsize₁, byteLength_append]
    omega
  have hleft₀ : ¬p.left ≤ left := by
    rw [hsize, byteLength_append]
    omega
  obtain ⟨seen₀, hvalid₀, henter₀⟩ := enter_start ahead cs (byteLength cs)
  obtain ⟨seen₁, hvalid₁, henter₁⟩ := enter_open (Program.known ahead p₁) p p₁
    (Seen.has_clear hvalid₀) (Seen.valid_clear hvalid₀)
  have hadvance₁ : variableProgram.advance ahead '$' p₁
      [⟨7, .startingAt p⟩, ⟨6, .startingAt p⟩] seen₀.clear = ⟨[⟨4, inside⟩], seen₁⟩ := by
    have hhas : (CharSet.single '$').has '$' = true := by decide
    rw [← henter₁]
    simp [Program.advance, variableProgram, hhas]
  obtain ⟨seen₂, hvalid₂, henter₂⟩ := enter_name (Program.known ahead p₂) p p₁ p₂
    (Seen.has_clear hvalid₁) (Seen.valid_clear hvalid₁)
  have hadvance₂ : variableProgram.advance ahead first p₂ [⟨4, inside⟩] seen₁.clear =
      ⟨nameThreads p p₁ p₂, seen₂⟩ := by
    rw [← henter₂]
    simp [Program.advance, variableProgram, hfirst, inside]
  obtain ⟨stop, hstop, hread⟩ := read_name p p₁ ahead hmore hfollow hleft hsize₂ hvalid₂ none
  refine ⟨stop, hstop, ?_⟩
  have hsettle₀ : variableProgram.settle ahead p
      ⟨[⟨6, .startingAt p⟩, ⟨7, .startingAt p⟩], seen₀⟩ =
      ⟨[⟨6, .startingAt p⟩, ⟨7, .startingAt p⟩], seen₀⟩ := by
    simp only [Program.settle]
    rw [if_neg]
    simp [variableProgram, Place.meets, Place.meetsEarly]
  have hsettle₁ : variableProgram.settle ahead p₁ ⟨[⟨4, inside⟩], seen₁⟩ =
      ⟨[⟨4, inside⟩], seen₁⟩ := variableProgram.settle_of_checks (by rfl) ahead p₁
  have hcovered : p₁.upTo stop = ⟨(first :: more) ++ follow, byteLength (first :: more)⟩ := by
    simp only [Place.upTo, hsize₁, hstop, byteLength_append, byteLength]
    congr 1
    omega
  calc variableProgram.searchFrom ahead false left p
    _ = variableProgram.read ahead false left cs p
        ⟨[⟨6, .startingAt p⟩, ⟨7, .startingAt p⟩], seen₀⟩ none := by
      rw [← henter₀]
      rfl
    _ = variableProgram.read ahead false left ((first :: more) ++ follow) p₁
        ⟨[⟨4, inside⟩], seen₁⟩ none := by
      rw [← hadvance₁]
      exact Program.read_on rfl none rfl hsettle₀ rfl hleft₀
    _ = variableProgram.read ahead false left (more ++ follow) p₂
        ⟨nameThreads p p₁ p₂, seen₂⟩ none := by
      rw [← hadvance₂]
      exact Program.read_on rfl none rfl hsettle₁ rfl hleft₁
    _ = _ := by rw [hread, hcovered]

/-- A name that a variable can have. -/
structure Ident where
  first : Char
  more : List Char
  starts : isIdentStart first = true
  goesOn : ∀ c ∈ more, isIdentChar c = true

def Ident.chars (x : Ident) : List Char :=
  x.first :: x.more

theorem variableName_takes (x : Ident) {follow : List Char}
    (hfollow : follow.head?.any isIdentChar = false) :
    variableName.Takes ('$' :: x.chars ++ follow)
      (some (byteLength ('$' :: x.chars), String.ofList x.chars)) := by
  rintro ⟨t, program⟩ hl ht
  obtain rfl : t = variableName := ht
  obtain rfl : program = variableProgram :=
    Option.some.inj (hl.symm.trans variableName_program)
  have hsearch : ∀ ahead left, left ≤ byteLength follow → ∃ stop : Place,
      stop.left = byteLength follow ∧ variableProgram.searchFrom ahead false left
        (.start ('$' :: x.chars ++ follow) (byteLength ('$' :: x.chars ++ follow))) =
      .done (some ⟨⟨_, [], [(1, ⟨x.chars ++ follow, byteLength x.chars⟩)]⟩, stop⟩) :=
    fun ahead left => search_variable ahead x.starts x.goesOn hfollow
  obtain ⟨whole, hfind⟩ := Program.find?_of_searches rfl rfl hsearch
  show (variableProgram.find? true _ _).map _ = _
  rw [hfind, ← pushBytes_append x.chars follow]
  rfl

end PhpSyntax.Php
