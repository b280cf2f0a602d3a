import PhpSyntax.Proofs.Regex.Framed
import PhpSyntax.Proofs.Regex.Stepping

namespace PhpSyntax.Regex

/-- A text with a backslash in front of the characters that are special in it. -/
def escaped (special : List Char) : List Char → List Char
  | [] => []
  | c :: cs => (if c ∈ special then ['\\', c] else [c]) ++ escaped special cs

section Escaped

variable {special : List Char} {c : Char} (cs : List Char)

theorem escaped_special (hc : c ∈ special) :
    escaped special (c :: cs) = '\\' :: c :: escaped special cs := by
  simp [escaped, hc]

theorem escaped_plain (hc : c ∉ special) :
    escaped special (c :: cs) = c :: escaped special cs := by
  simp [escaped, hc]

theorem escaped_of_plain {cs : List Char} (h : ∀ c ∈ cs, c ∉ special) :
    escaped special cs = cs := by
  induction cs with
  | nil => rfl
  | cons c cs ih =>
    obtain ⟨hc, hcs⟩ := List.forall_mem_cons.1 h
    rw [escaped_plain cs hc, ih hcs]

end Escaped

/-- The characters that stand for themselves between two quotes. -/
def unquoted (q : Char) : CharSet :=
  ⟨[(0, q.toNat - 1), (q.toNat + 1, 91), (93, 0x10FFFF)]⟩

def anything : CharSet :=
  ⟨[(0, 0x10FFFF)]⟩

theorem anything_has (c : Char) : anything.has c = true := by
  have hc := toNat_le_greatest c
  simp only [CharSet.has, Unicode.covers, anything, List.any_cons, List.any_nil, Bool.or_false,
    Bool.and_eq_true, decide_eq_true_eq]
  omega

def quotes : List Char :=
  ['\x27', '\x22']

variable {q : Char} (hq : q ∈ quotes)

include hq

theorem quotes_toNat : 0 < q.toNat ∧ q.toNat < 91 := by
  have hall : ∀ q ∈ quotes, 0 < q.toNat ∧ q.toNat < 91 := by simp [quotes]
  exact hall q hq

theorem unquoted_has (c : Char) : (unquoted q).has c = decide (c ≠ q ∧ c ≠ '\\') := by
  have hc := toNat_le_greatest c
  obtain ⟨hpos, hlt⟩ := quotes_toNat hq
  have hbackslash : '\\'.toNat = 92 := rfl
  rw [Bool.eq_iff_iff]
  simp only [CharSet.has, Unicode.covers, unquoted, List.any_cons, List.any_nil, Bool.or_false,
    Bool.or_eq_true, Bool.and_eq_true, decide_eq_true_eq, ne_eq, ← Char.toNat_inj, hbackslash]
  omega

theorem quotes_ne : q ≠ '\\' := by
  have hall : ∀ q ∈ quotes, q ≠ '\\' := by simp [quotes]
  exact hall q hq

omit hq

/-- The program of the terminal for a text between two quotes. -/
def quotedProgram (q : Char) : Program :=
  ⟨#[.accept, .take (.single q) 0, .closeGroup 1 1, .fork 7 2, .take (unquoted q) 3,
    .take anything 3, .take (.single '\\') 5, .fork 4 6, .openGroup 1 3, .take (.single q) 8,
    .check .textStart 9], 10, true, false, true⟩

/-- Behind characters between the quotes: the threads that read on, and the one for the end. -/
def quotedThreads (origin start p : Place) : List Thread :=
  [⟨1, ⟨origin, [], [(1, start.upTo p)]⟩⟩, ⟨6, ⟨origin, [(1, start)], []⟩⟩,
    ⟨4, ⟨origin, [(1, start)], []⟩⟩]

theorem enter_quoted (holds : Anchor → Bool) (origin start p : Place) {seen : Seen}
    (hseen : ∀ n, seen.has n = false) (hvalid : seen.Valid) :
    ∃ seen', seen'.Valid ∧
      (quotedProgram q).enter holds p ⟨[], seen⟩ ⟨3, ⟨origin, [(1, start)], []⟩⟩ =
      ⟨quotedThreads origin start p, seen'⟩ := by
  refine ⟨((((((seen.add 3).add 7).add 4).add 6).add 2).add 1), ?_, ?_⟩
  · exact Seen.valid_add (Seen.valid_add (Seen.valid_add (Seen.valid_add (Seen.valid_add
      (Seen.valid_add hvalid 3) 7) 4) 6) 2) 1
  · simp [Program.enter, quotedProgram, Program.follow, hseen, Seen.has_add_of_ne,
      Trace.closeGroup, quotedThreads]

theorem enter_open (holds : Anchor → Bool) (origin p : Place) {seen : Seen}
    (hseen : ∀ n, seen.has n = false) (hvalid : seen.Valid) :
    ∃ seen', seen'.Valid ∧ (quotedProgram q).enter holds p ⟨[], seen⟩ ⟨8, .startingAt origin⟩ =
      ⟨quotedThreads origin p p, seen'⟩ := by
  refine ⟨(((((((seen.add 8).add 3).add 7).add 4).add 6).add 2).add 1), ?_, ?_⟩
  · exact Seen.valid_add (Seen.valid_add (Seen.valid_add (Seen.valid_add (Seen.valid_add
      (Seen.valid_add (Seen.valid_add hvalid 8) 3) 7) 4) 6) 2) 1
  · simp [Program.enter, quotedProgram, Program.follow, hseen, Seen.has_add_of_ne,
      Trace.openGroup, Trace.closeGroup, Trace.startingAt, quotedThreads]

theorem enter_start (ahead : Bool) (cs : List Char) (size : Nat) :
    ∃ seen, seen.Valid ∧ (quotedProgram q).enter (Program.known ahead (.start cs size))
      (.start cs size) ⟨[], .none 11⟩ ⟨10, .startingAt (.start cs size)⟩ =
      ⟨[⟨9, .startingAt (.start cs size)⟩, ⟨10, .startingAt (.start cs size)⟩], seen⟩ := by
  refine ⟨((Seen.none 11).add 10).add 9, ?_, ?_⟩
  · exact Seen.valid_add (Seen.valid_add (Seen.valid_none 11) 10) 9
  · have hstart : Program.known ahead (.start cs size) .textStart = true := by
      cases ahead <;> rfl
    simp [Program.enter, quotedProgram, Program.follow, Seen.has_none, Seen.has_add_of_ne, hstart]

theorem enter_backslash (holds : Anchor → Bool) (trace : Trace) (p : Place) {seen : Seen}
    (hseen : ∀ n, seen.has n = false) (hvalid : seen.Valid) :
    ∃ seen', seen'.Valid ∧ (quotedProgram q).enter holds p ⟨[], seen⟩ ⟨5, trace⟩ =
      ⟨[⟨5, trace⟩], seen'⟩ := by
  refine ⟨seen.add 5, Seen.valid_add hvalid 5, ?_⟩
  simp [Program.enter, quotedProgram, Program.follow, hseen]

theorem enter_end (holds : Anchor → Bool) (trace : Trace) (p : Place) {seen : Seen}
    (hseen : ∀ n, seen.has n = false) (hvalid : seen.Valid) :
    ∃ seen', seen'.Valid ∧ (quotedProgram q).enter holds p ⟨[], seen⟩ ⟨0, trace⟩ =
      ⟨[⟨0, trace⟩], seen'⟩ := by
  refine ⟨seen.add 0, Seen.valid_add hvalid 0, ?_⟩
  simp [Program.enter, quotedProgram, Program.follow, hseen]

section Advance

variable (hq : q ∈ quotes) (ahead : Bool) (origin start p : Place) {seen : Seen}
  (hvalid : seen.Valid)

include hvalid

theorem advance_taken (c : Char) : ∃ seen', seen'.Valid ∧
    (quotedProgram q).advance ahead c p [⟨5, ⟨origin, [(1, start)], []⟩⟩] seen.clear =
      ⟨quotedThreads origin start p, seen'⟩ := by
  obtain ⟨seen', hvalid', henter⟩ := enter_quoted (q := q) (Program.known ahead p) origin start p
    (Seen.has_clear hvalid) (Seen.valid_clear hvalid)
  refine ⟨seen', hvalid', ?_⟩
  rw [← henter]
  simp [Program.advance, quotedProgram, anything_has]

include hq

theorem advance_plain (before : Place) {c : Char} (hc : c ≠ q ∧ c ≠ '\\') :
    ∃ seen', seen'.Valid ∧ (quotedProgram q).advance ahead c p
      (quotedThreads origin start before).reverse seen.clear =
        ⟨quotedThreads origin start p, seen'⟩ := by
  obtain ⟨seen', hvalid', henter⟩ := enter_quoted (q := q) (Program.known ahead p) origin start p
    (Seen.has_clear hvalid) (Seen.valid_clear hvalid)
  refine ⟨seen', hvalid', ?_⟩
  rw [← henter]
  simp [Program.advance, quotedProgram, quotedThreads, unquoted_has hq, single_has, hc]

theorem advance_backslash (before : Place) : ∃ seen', seen'.Valid ∧
    (quotedProgram q).advance ahead '\\' p (quotedThreads origin start before).reverse seen.clear =
      ⟨[⟨5, ⟨origin, [(1, start)], []⟩⟩], seen'⟩ := by
  have hne := (quotes_ne hq).symm
  obtain ⟨seen', hvalid', henter⟩ := enter_backslash (q := q) (Program.known ahead p)
    ⟨origin, [(1, start)], []⟩ p (Seen.has_clear hvalid) (Seen.valid_clear hvalid)
  refine ⟨seen', hvalid', ?_⟩
  rw [← henter]
  simp [Program.advance, quotedProgram, quotedThreads, unquoted_has hq, single_has, hne]

theorem advance_quote (before : Place) : ∃ seen', seen'.Valid ∧
    (quotedProgram q).advance ahead q p (quotedThreads origin start before).reverse seen.clear =
      ⟨[⟨0, ⟨origin, [], [(1, start.upTo before)]⟩⟩], seen'⟩ := by
  have hne := quotes_ne hq
  obtain ⟨seen', hvalid', henter⟩ := enter_end (q := q) (Program.known ahead p)
    ⟨origin, [], [(1, start.upTo before)]⟩ p (Seen.has_clear hvalid) (Seen.valid_clear hvalid)
  refine ⟨seen', hvalid', ?_⟩
  rw [← henter]
  simp [Program.advance, quotedProgram, quotedThreads, unquoted_has hq, single_has, hne]

end Advance

section Read

variable (hq : q ∈ quotes) (ahead : Bool) {left : Nat} {follow : List Char}
  (hleft : left ≤ byteLength follow)

/-- Behind the closing quote the text is matched. -/
theorem read_end (trace : Trace) (p : Place) (seen : Seen) (follow : List Char) :
    (quotedProgram q).read ahead false left follow p ⟨[⟨0, trace⟩], seen⟩ none =
      .done (some ⟨trace, p⟩) := by
  have hsettle : (quotedProgram q).settle ahead p ⟨[⟨0, trace⟩], seen⟩ = ⟨[⟨0, trace⟩], seen⟩ :=
    (quotedProgram q).settle_of_checks (by rfl) ahead p
  have haccepted : (quotedProgram q).accepted [⟨0, trace⟩] = ([], some ⟨0, trace⟩) := rfl
  cases follow with
  | nil => simp only [Program.read, hsettle, List.reverse_singleton, haccepted]
  | cons c follow =>
    have hwords : (quotedProgram q).seesWords = false := rfl
    simp only [Program.read, hsettle, List.reverse_singleton, haccepted, hwords,
      Program.advance_nil, List.isEmpty_cons, Bool.false_and, Bool.and_false, Bool.false_eq_true,
      if_false]
    split
    · rfl
    · exact (quotedProgram q).read_of_empty rfl _ _ _ _ _

/-- Reading on behind characters between the quotes. -/
theorem read_inside (origin start p : Place) (seen : Seen) (c : Char) (cs : List Char)
    (hp : ¬p.left ≤ left) :
    (quotedProgram q).read ahead false left (c :: cs) p ⟨quotedThreads origin start p, seen⟩ none =
      (quotedProgram q).read ahead false left cs (p.advance c cs)
        ((quotedProgram q).advance ahead c (p.advance c cs)
          (quotedThreads origin start p).reverse seen.clear) none :=
  Program.read_on rfl none rfl ((quotedProgram q).settle_of_checks (by rfl) ahead p) rfl hp

include hq hleft

/-- Reading on to the closing quote. -/
theorem read_escaped {special : List Char} (hbackslash : '\\' ∈ special) (hquote : q ∈ special)
    (origin start : Place) (cs : List Char) {p : Place}
    (hp : p.left = byteLength (escaped special cs ++ q :: follow)) {seen : Seen}
    (hvalid : seen.Valid) :
    ∃ close stop : Place, close.left = byteLength (q :: follow) ∧ stop.left = byteLength follow ∧
      (quotedProgram q).read ahead false left (escaped special cs ++ q :: follow) p
        ⟨quotedThreads origin start p, seen⟩ none =
      .done (some ⟨⟨origin, [], [(1, start.upTo close)]⟩, stop⟩) := by
  induction cs generalizing p seen with
  | nil =>
    have hpos := utf8Size_pos q
    have hp : p.left = q.utf8Size + byteLength follow := hp
    obtain ⟨seen', -, hadvance⟩ := advance_quote hq ahead origin start (p.advance q follow) hvalid p
    refine ⟨p, p.advance q follow, hp, ?_, ?_⟩
    · simp only [Place.advance, hp, Nat.add_sub_cancel_left]
    · show (quotedProgram q).read ahead false left (q :: follow) p _ none = _
      rw [read_inside ahead origin start p seen q follow (by omega), hadvance, read_end]
  | cons c cs ih =>
    have hpos := utf8Size_pos c
    let tail := escaped special cs ++ q :: follow
    have htail : left < byteLength tail := by
      have hquote := utf8Size_pos q
      simp only [tail, byteLength_append, byteLength]
      omega
    by_cases hc : c ∈ special
    · rw [escaped_special cs hc] at hp ⊢
      have hpos' := utf8Size_pos '\\'
      let p₁ := p.advance '\\' (c :: tail)
      let p₂ := p₁.advance c tail
      have hp : p.left = '\\'.utf8Size + (c.utf8Size + byteLength tail) := hp
      have hp₁ : p₁.left = c.utf8Size + byteLength tail := by
        simp only [p₁, Place.advance, hp, Nat.add_sub_cancel_left]
      have hp₂ : p₂.left = byteLength tail := by
        simp only [p₂, Place.advance, hp₁, Nat.add_sub_cancel_left]
      obtain ⟨seen₁, hvalid₁, hadvance₁⟩ := advance_backslash hq ahead origin start p₁ hvalid p
      obtain ⟨seen₂, hvalid₂, hadvance₂⟩ := advance_taken (q := q) ahead origin start p₂ hvalid₁ c
      obtain ⟨close, stop, hclose, hstop, hread⟩ := ih hp₂ hvalid₂
      refine ⟨close, stop, hclose, hstop, ?_⟩
      have hescape : (quotedProgram q).read ahead false left (c :: tail) p₁
          ⟨[⟨5, ⟨origin, [(1, start)], []⟩⟩], seen₁⟩ none =
          (quotedProgram q).read ahead false left tail p₂
            ⟨quotedThreads origin start p₂, seen₂⟩ none := by
        rw [← hadvance₂]
        exact Program.read_on rfl none rfl
          ((quotedProgram q).settle_of_checks (by rfl) ahead p₁) rfl (by omega)
      show (quotedProgram q).read ahead false left ('\\' :: c :: tail) p _ none = _
      rw [read_inside ahead origin start p seen '\\' (c :: tail) (by omega), hadvance₁, hescape,
        hread]
    · rw [escaped_plain cs hc] at hp ⊢
      have hne : c ≠ q ∧ c ≠ '\\' := by
        refine ⟨?_, ?_⟩ <;> rintro rfl
        · exact hc hquote
        · exact hc hbackslash
      let p₁ := p.advance c tail
      have hp : p.left = c.utf8Size + byteLength tail := hp
      have hp₁ : p₁.left = byteLength tail := by
        simp only [p₁, Place.advance, hp, Nat.add_sub_cancel_left]
      obtain ⟨seen₁, hvalid₁, hadvance₁⟩ := advance_plain hq ahead origin start p₁ hvalid p hne
      obtain ⟨close, stop, hclose, hstop, hread⟩ := ih hp₁ hvalid₁
      refine ⟨close, stop, hclose, hstop, ?_⟩
      show (quotedProgram q).read ahead false left (c :: tail) p _ none = _
      rw [read_inside ahead origin start p seen c tail (by omega), hadvance₁, hread]

/-- The start of the search: the opening quote, and the group behind it. -/
theorem search_quoted {special : List Char} (hbackslash : '\\' ∈ special) (hquote : q ∈ special)
    (cs : List Char) :
    let text := q :: (escaped special cs ++ q :: follow)
    let body : Capture := ⟨escaped special cs ++ q :: follow, byteLength (escaped special cs)⟩
    ∃ stop : Place, stop.left = byteLength follow ∧
      (quotedProgram q).searchFrom ahead false left (.start text (byteLength text)) =
        .done (some ⟨⟨.start text (byteLength text), [], [(1, body)]⟩, stop⟩) := by
  intro text body
  let p := Place.start text (byteLength text)
  let rest := escaped special cs ++ q :: follow
  let p₁ := p.advance q rest
  have hpos := utf8Size_pos q
  have hsize : p.left = q.utf8Size + byteLength rest := rfl
  have hsize₁ : p₁.left = byteLength rest := by
    simp only [p₁, Place.advance, hsize, Nat.add_sub_cancel_left]
  have hlong : left < byteLength rest := by
    simp only [rest, byteLength_append, byteLength]
    omega
  obtain ⟨seen₀, hvalid₀, henter₀⟩ := enter_start (q := q) ahead text (byteLength text)
  obtain ⟨seen₁, hvalid₁, henter₁⟩ := enter_open (q := q) (Program.known ahead p₁) p p₁
    (Seen.has_clear hvalid₀) (Seen.valid_clear hvalid₀)
  have hadvance : (quotedProgram q).advance ahead q p₁
      [⟨10, .startingAt p⟩, ⟨9, .startingAt p⟩] seen₀.clear = ⟨quotedThreads p p₁ p₁, seen₁⟩ := by
    rw [← henter₁]
    simp [Program.advance, quotedProgram, single_has]
  have hsettle : (quotedProgram q).settle ahead p
      ⟨[⟨9, .startingAt p⟩, ⟨10, .startingAt p⟩], seen₀⟩ =
      ⟨[⟨9, .startingAt p⟩, ⟨10, .startingAt p⟩], seen₀⟩ := by
    simp only [Program.settle]
    rw [if_neg]
    simp [quotedProgram, Place.meets, Place.meetsEarly]
  obtain ⟨close, stop, hclose, hstop, hread⟩ :=
    read_escaped hq ahead hleft hbackslash hquote p p₁ cs hsize₁ hvalid₁
  have hbody : p₁.upTo close = body := by
    simp only [Place.upTo, hsize₁, hclose, rest, byteLength_append, Nat.add_sub_cancel_right]
    rfl
  refine ⟨stop, hstop, ?_⟩
  calc (quotedProgram q).searchFrom ahead false left p
    _ = (quotedProgram q).read ahead false left text p
        ⟨[⟨9, .startingAt p⟩, ⟨10, .startingAt p⟩], seen₀⟩ none := by
      rw [← henter₀]
      rfl
    _ = (quotedProgram q).read ahead false left rest p₁ ⟨quotedThreads p p₁ p₁, seen₁⟩ none := by
      rw [← hadvance]
      exact Program.read_on rfl none rfl hsettle rfl (by omega)
    _ = _ := by rw [hread, hbody]

omit hleft in
/-- The program finds the text between the quotes, whatever is behind it. -/
theorem find?_quoted {special : List Char} (hbackslash : '\\' ∈ special) (hquote : q ∈ special)
    (cs follow : List Char) :
    let front := q :: (escaped special cs ++ [q])
    let body : Capture := ⟨escaped special cs ++ q :: follow, byteLength (escaped special cs)⟩
    ∃ whole, (quotedProgram q).find? true (front ++ follow) (byteLength (front ++ follow)) =
      some ⟨byteLength front, whole, [(1, body)]⟩ := by
  intro front body
  have htext : front ++ follow = q :: (escaped special cs ++ q :: follow) := by simp [front]
  refine Program.find?_of_searches rfl rfl fun ahead left hleft => ?_
  rw [htext]
  exact search_quoted hq ahead hleft hbackslash hquote cs

end Read

end PhpSyntax.Regex
