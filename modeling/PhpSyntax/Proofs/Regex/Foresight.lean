import PhpSyntax.Proofs.Source.Text
import PhpSyntax.Regex.Match

namespace PhpSyntax.Regex

section Extend

/-- The same place where more text is behind it. -/
def Place.extend (tail : List Char) (p : Place) : Place :=
  ⟨p.before, p.rest ++ tail, p.left + byteLength tail⟩

def Capture.extend (tail : List Char) (c : Capture) : Capture :=
  ⟨c.rest ++ tail, c.length⟩

def Trace.extend (tail : List Char) (t : Trace) : Trace :=
  ⟨t.origin.extend tail, t.opened.map fun (i, p) => (i, p.extend tail),
    t.closed.map fun (i, c) => (i, c.extend tail)⟩

def Thread.extend (tail : List Char) (t : Thread) : Thread :=
  ⟨t.step, t.trace.extend tail⟩

def Front.extend (tail : List Char) (f : Front) : Front :=
  ⟨f.threads.map (·.extend tail), f.seen⟩

def Program.Match.extend (tail : List Char) (m : Program.Match) : Program.Match :=
  ⟨m.trace.extend tail, m.stop.extend tail⟩

variable (tail : List Char)

theorem lookup_map {α β : Type} (f : α → β) (entries : List (Nat × α)) (index : Nat) :
    (entries.map fun (i, a) => (i, f a)).lookup index = (entries.lookup index).map f := by
  induction entries with
  | nil => rfl
  | cons e entries ih =>
    obtain ⟨i, a⟩ := e
    rw [List.map_cons, List.lookup_cons, List.lookup_cons]
    split
    · rfl
    · exact ih

theorem filter_map {α β : Type} (f : α → β) (entries : List (Nat × α)) (index : Nat) :
    (entries.map fun (i, a) => (i, f a)).filter (·.1 != index) =
      (entries.filter (·.1 != index)).map fun (i, a) => (i, f a) := by
  rw [List.filter_map]
  rfl

theorem Place.upTo_extend (p q : Place) :
    (p.extend tail).upTo (q.extend tail) = (p.upTo q).extend tail := by
  simp only [upTo, extend, Capture.extend, Nat.add_sub_add_right]

theorem Trace.closeGroup_extend (t : Trace) (index : Nat) (p : Place) :
    (t.extend tail).closeGroup index (p.extend tail) = (t.closeGroup index p).extend tail := by
  simp only [closeGroup, extend, lookup_map, filter_map]
  cases t.opened.lookup index with
  | none => rfl
  | some origin => simp only [Option.map_some, Place.upTo_extend, List.map_cons]

namespace Program

variable (prog : Program)

theorem follow_extend (holds : Anchor → Bool) (p : Place) (fuel : Nat) (todo : List Thread)
    (f : Front) :
    prog.follow holds (p.extend tail) fuel (todo.map (·.extend tail)) (f.extend tail) =
      (prog.follow holds p fuel todo f).extend tail := by
  induction fuel generalizing todo f with
  | zero => rfl
  | succ fuel ih =>
    cases todo with
    | nil => rfl
    | cons t todo =>
      obtain ⟨step, trace⟩ := t
      obtain ⟨threads, seen⟩ := f
      simp only [List.map_cons, Thread.extend, Front.extend, follow]
      split
      · exact ih todo ⟨threads, seen⟩
      · split
        · exact ih (⟨_, trace⟩ :: ⟨_, trace⟩ :: todo) ⟨threads, seen.add step⟩
        · split
          · exact ih (⟨_, trace⟩ :: todo) ⟨⟨step, trace⟩ :: threads, seen.add step⟩
          · exact ih todo ⟨⟨step, trace⟩ :: threads, seen.add step⟩
        · exact ih (⟨_, trace.openGroup _ p⟩ :: todo) ⟨threads, seen.add step⟩
        · rw [Trace.closeGroup_extend]
          exact ih (⟨_, trace.closeGroup _ p⟩ :: todo) ⟨threads, seen.add step⟩
        · exact ih todo ⟨⟨step, trace⟩ :: threads, seen.add step⟩
        · exact ih todo ⟨⟨step, trace⟩ :: threads, seen.add step⟩
        · exact ih todo ⟨threads, seen.add step⟩

theorem enter_extend (holds : Anchor → Bool) (p : Place) (f : Front) (t : Thread) :
    prog.enter holds (p.extend tail) (f.extend tail) (t.extend tail) =
      (prog.enter holds p f t).extend tail :=
  prog.follow_extend tail holds p _ [t] f

theorem known_extend (p : Place) : known false (p.extend tail) = known false p := by
  funext a
  cases a <;> rfl

/-- What holds at a place depends on the text only as far as the next character. -/
theorem meets_extend {p : Place} {c : Char} {cs : List Char} (hp : p.rest = c :: cs) :
    (p.extend tail).meets = p.meets := by
  funext a
  obtain ⟨before, rest, left⟩ := p
  cases hp
  cases a <;> rfl

theorem foldl_extend {step step' : Front → Thread → Front}
    (h : ∀ f t, step (f.extend tail) (t.extend tail) = (step' f t).extend tail)
    (threads : List Thread) (f : Front) :
    (threads.map (·.extend tail)).foldl step (f.extend tail) =
      (threads.foldl step' f).extend tail := by
  induction threads generalizing f with
  | nil => rfl
  | cons t threads ih => rw [List.map_cons, List.foldl_cons, List.foldl_cons, h, ih]

theorem advance_extend (c : Char) (p : Place) (threads : List Thread) (seen : Seen) :
    prog.advance false c (p.extend tail) (threads.map (·.extend tail)) seen =
      (prog.advance false c p threads seen).extend tail := by
  simp only [advance, known_extend]
  refine foldl_extend tail (fun f t => ?_) threads ⟨[], seen⟩
  simp only [Thread.extend]
  split
  · split
    · exact prog.enter_extend tail _ p f ⟨_, t.trace⟩
    · rfl
  · rfl

theorem settle_extend {p : Place} {c : Char} {cs : List Char} (hp : p.rest = c :: cs)
    (f : Front) :
    prog.settle false (p.extend tail) (f.extend tail) = (prog.settle false p f).extend tail := by
  have hearly : (p.extend tail).meetsEarly = p.meetsEarly := known_extend tail p
  simp only [settle, meets_extend tail hp, hearly, Front.extend, List.any_map, Function.comp_def,
    Thread.extend]
  split
  · rw [← List.map_reverse]
    exact foldl_extend tail (fun f t => prog.enter_extend tail _ p f t) _ ⟨[], f.seen.clear⟩
  · rfl

theorem accepted_extend (threads : List Thread) :
    prog.accepted (threads.map (·.extend tail)) =
      ((prog.accepted threads).1.map (·.extend tail),
        (prog.accepted threads).2.map (·.extend tail)) := by
  induction threads with
  | nil => rfl
  | cons t threads ih =>
    obtain ⟨step, trace⟩ := t
    simp only [List.map_cons, Thread.extend, accepted]
    split
    · rfl
    · simp only [Thread.extend] at ih
      rw [ih]
      rfl

end Program

end Extend

namespace Program

variable (prog : Program)

def checks (t : Thread) : Bool :=
  match prog.steps[t.step]? with
  | some (.check ..) => true
  | _ => false

/-- Lets threads read on as long as characters are known. Tells the match, or that there is none,
where it is the same for every text that goes on from there. -/
def foresee : List Char → Place → Front → Option Match → Option (Option Match)
  | [], p, f, best =>
    let (front, found) := prog.accepted f.threads.reverse
    if f.threads.isEmpty then some best
    else if prog.seesWords || f.threads.any prog.checks || !front.isEmpty then none
    else found.map fun t => some ⟨t.trace, p⟩
  | c :: cs, p, f, best =>
    if f.threads.isEmpty then some best
    else if prog.seesWords && 0x7F < c.toNat then none
    else
      let ⟨threads, seen⟩ := prog.settle false p f
      let (threads, found) := prog.accepted threads.reverse
      let best := (found.map fun t => ⟨t.trace, p⟩).or best
      let p := p.advance c cs
      foresee cs p (prog.advance false c p threads seen.clear) best

theorem settle_of_checks {f : Front} (h : f.threads.any prog.checks = false) (ahead : Bool)
    (p : Place) : prog.settle ahead p f = f := by
  have hwaits : ∀ t ∈ f.threads, prog.checks t = false := by simpa using h
  simp only [settle]
  split
  · rename_i hany
    simp only [Bool.and_eq_true, List.any_eq_true] at hany
    obtain ⟨-, t, ht, hw⟩ := hany
    have hc := hwaits t ht
    simp only [checks] at hc
    split at hw
    · rename_i hs
      simp [hs] at hc
    · cases hw
  · rfl

theorem read_of_empty {f : Front} (h : f.threads = []) (ahead : Bool) (left : Nat)
    (cs : List Char) (p : Place) (best : Option Match) :
    prog.read ahead false left cs p f best = .done best := by
  cases cs with
  | nil =>
    have hs : prog.settle ahead p f = f := prog.settle_of_checks (by simp [h]) ahead p
    simp only [read, hs, h, List.reverse_nil, accepted]
  | cons c cs => simp [read, h]

theorem advance_nil (ahead : Bool) (c : Char) (p : Place) (seen : Seen) :
    prog.advance ahead c p [] seen = ⟨[], seen⟩ :=
  rfl

/-- What is foreseen comes true. -/
theorem read_of_foresee {cs : List Char} {p : Place} {f : Front} {best b : Option Match}
    (hp : p.rest = cs) (hleft : byteLength cs ≤ p.left) (h : prog.foresee cs p f best = some b)
    (tail : List Char) :
    prog.read false false 0 (cs ++ tail) (p.extend tail) (f.extend tail)
      (best.map (·.extend tail)) = .done (b.map (·.extend tail)) := by
  induction cs generalizing p f best with
  | nil =>
    simp only [foresee] at h
    split at h
    · rename_i hempty
      cases h
      exact prog.read_of_empty (by simpa [Front.extend] using hempty) _ _ _ _ _
    · rename_i hne
      split at h
      · cases h
      · rename_i hcond
        simp only [Bool.or_eq_true, not_or, Bool.not_eq_true, Bool.not_eq_false'] at hcond
        obtain ⟨⟨hwords, hchecks⟩, hfront⟩ := hcond
        obtain ⟨t, ht, h⟩ := Option.map_eq_some_iff.1 h
        cases h
        have hany : (f.extend tail).threads.any prog.checks = false := by
          simpa [Front.extend, Thread.extend, checks, List.any_map, Function.comp_def] using
            hchecks
        have haccepted : prog.accepted (f.extend tail).threads.reverse =
            ([], some (t.extend tail)) := by
          simp only [Front.extend]
          rw [← List.map_reverse, accepted_extend, ht, List.isEmpty_iff.1 hfront]
          rfl
        cases tail with
        | nil =>
          simp only [List.append_nil, read, prog.settle_of_checks hany, haccepted]
          rfl
        | cons c tail =>
          have hne' : (f.extend (c :: tail)).threads.isEmpty = false := by
            simpa [Front.extend] using hne
          simp only [List.nil_append, read, hne', hwords, prog.settle_of_checks hany, haccepted,
            advance_nil, Bool.false_and, Bool.and_false, Bool.not_false, Bool.false_eq_true,
            if_false]
          split
          · rfl
          · exact prog.read_of_empty rfl _ _ _ _ _
  | cons c cs ih =>
    have hc := utf8Size_pos c
    simp only [byteLength] at hleft
    simp only [foresee] at h
    split at h
    · rename_i hempty
      cases h
      exact prog.read_of_empty (by simpa [Front.extend] using hempty) _ _ _ _ _
    · rename_i hne
      split at h
      · cases h
      · rename_i hwords
        have hempty : (f.extend tail).threads.isEmpty = false := by
          simpa [Front.extend] using hne
        have hwords : (prog.seesWords && decide (0x7F < c.toNat)) = false := by
          simpa using hwords
        have hplace : (p.extend tail).advance c (cs ++ tail) = (p.advance c cs).extend tail := by
          simp only [Place.advance, Place.extend, Place.mk.injEq, true_and]
          omega
        have hbest : ∀ found : Option Thread,
            ((found.map (·.extend tail)).map fun t => (⟨t.trace, p.extend tail⟩ : Match)).or
                (best.map (·.extend tail)) =
              ((found.map fun t => (⟨t.trace, p⟩ : Match)).or best).map (·.extend tail) := by
          intro found
          cases found <;> rfl
        have hread := ih rfl (by simp only [Place.advance]; omega) h
        rw [← hbest] at hread
        have hleft' : ¬(p.extend tail).left ≤ 0 := by
          simp only [Place.extend]
          omega
        simp only [List.cons_append, read, hempty, hwords, settle_extend tail prog hp,
          Bool.false_and, Bool.not_false, Bool.true_and, Bool.false_eq_true, if_false, hleft',
          hplace]
        have haccepted : ∀ g : Front, prog.accepted (g.extend tail).threads.reverse =
            ((prog.accepted g.threads.reverse).1.map (·.extend tail),
              (prog.accepted g.threads.reverse).2.map (·.extend tail)) := by
          intro g
          simp only [Front.extend]
          rw [← List.map_reverse, accepted_extend]
        rw [haccepted, advance_extend]
        generalize (prog.accepted (prog.settle false p f).threads.reverse).2 = found at hread ⊢
        cases found with
        | none => exact hread
        | some t => exact hread

def Found.extend (tail : List Char) (f : Found) : Found :=
  ⟨f.stop, f.whole.extend tail, f.groups.map fun (i, c) => (i, c.extend tail)⟩

theorem foundIn_extend (tail : List Char) (size : Nat) (b : Option Match) :
    foundIn (size + byteLength tail) (.done (b.map (·.extend tail))) =
      (foundIn size (.done b)).map (·.extend tail) := by
  cases b with
  | none => rfl
  | some m =>
    simp only [Option.map_some, foundIn, Match.extend, Found.extend, Trace.extend,
      Place.upTo_extend]
    simp only [Place.extend, Nat.add_sub_add_right]

/-- What is found at the front of every text that begins with some characters, if these tell. -/
def foreseen? (cs : List Char) : Option (Option Found) :=
  let p := Place.start cs (byteLength cs)
  let f := prog.enter (known false p) p ⟨[], .none prog.steps.size⟩ ⟨prog.start, .startingAt p⟩
  if prog.startsText then
    (prog.foresee cs p f none).map fun m => foundIn (byteLength cs) (.done m)
  else none

variable {prog}

theorem find?_of_foreseen {cs : List Char} {found : Option Found}
    (h : prog.foreseen? cs = some found) {groups : Bool} (hgroups : groups = false ∨ found = none)
    (tail : List Char) :
    prog.find? groups (cs ++ tail) (byteLength (cs ++ tail)) = found.map (·.extend tail) := by
  simp only [foreseen?] at h
  split at h
  · rename_i hstarts
    obtain ⟨b, hb, rfl⟩ := Option.map_eq_some_iff.1 h
    have hread := prog.read_of_foresee (p := .start cs (byteLength cs)) rfl (Nat.le_refl _) hb tail
    rw [← enter_extend, ← known_extend tail] at hread
    have hplace : (Place.start cs (byteLength cs)).extend tail =
        .start (cs ++ tail) (byteLength (cs ++ tail)) := by
      simp only [Place.start, Place.extend, byteLength_append]
    have hsearch : prog.searchFrom false false 0 (.start (cs ++ tail) (byteLength (cs ++ tail))) =
        .done (b.map (·.extend tail)) := by
      rw [← hplace]
      exact hread
    have hextend := foundIn_extend tail (byteLength cs) b
    rw [← byteLength_append] at hextend
    cases b with
    | none => simp only [find?, hstarts, Bool.not_true, hsearch, Option.map_none, foundIn]
    | some m =>
      have hgroups : groups = false := by simpa [foundIn] using hgroups
      simp only [find?, hstarts, Bool.not_true, hsearch, hgroups, Option.map_some,
        Bool.false_and, Bool.false_eq_true, if_false]
      exact hextend
  · cases h

end Program

end PhpSyntax.Regex
