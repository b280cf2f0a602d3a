import Mathlib.Data.ENat.Basic
import PhpSyntax.Proofs.Peg.Linking
import PhpSyntax.Proofs.Peg.Recall
import PhpSyntax.Proofs.Peg.Run
import PhpSyntax.Proofs.Source.Text

namespace PhpSyntax.Peg

/-- A step yields a result with room for `depth` nested calls; where that is not bounded, with room
enough. -/
def Yields {α : Type} (depth : ℕ∞) (x : Nat → Eval α) (a : α) : Prop :=
  ∃ enough : Nat, enough ≤ depth ∧ ∀ room, enough ≤ room → ∀ m, ∃ m', x room m = .ok a m'

namespace Yields

variable {α β : Type} {depth : ℕ∞} {x : Nat → Eval α} {f : Nat → α → Eval β} {a : α} {b : β}

theorem pure (a : α) : Yields depth (fun _ => Pure.pure a) a :=
  ⟨0, zero_le, fun _ _ m => ⟨m, rfl⟩⟩

theorem bind (hx : Yields depth x a) (hf : Yields depth (fun room => f room a) b) :
    Yields depth (fun room => x room >>= f room) b := by
  obtain ⟨enough, hle, hx⟩ := hx
  obtain ⟨more, hle', hf⟩ := hf
  refine ⟨max enough more, ?_, fun room hroom m => ?_⟩
  · rw [Nat.mono_cast.map_max]
    exact max_le hle hle'
  · obtain ⟨m', hx⟩ := hx room (by omega) m
    obtain ⟨m'', hf⟩ := hf room (by omega) m'
    refine ⟨m'', ?_⟩
    simp only [Bind.bind, EStateM.bind, hx]
    exact hf

theorem mono (h : Yields depth x a) {deeper : ℕ∞} (hle : depth ≤ deeper) : Yields deeper x a := by
  obtain ⟨enough, hdepth, h⟩ := h
  exact ⟨enough, hdepth.trans hle, h⟩

theorem note (offset : Nat) :
    Yields depth (fun _ => (modify (·.note offset) : Eval PUnit)) ⟨⟩ :=
  ⟨0, zero_le, fun _ _ m => ⟨m.note offset, rfl⟩⟩

theorem miss (mode : Mode) (offset : Nat) :
    Yields depth (fun _ => Peg.miss mode offset) none := by
  obtain ⟨trivia, quiet⟩ := mode
  cases quiet with
  | true => exact Yields.pure none
  | false => exact Yields.bind (note offset) (Yields.pure none)

theorem leaf (mode : Mode) (start : Nat) (found : Option (Nat × Value)) :
    Yields depth (fun _ => Peg.leaf mode start found)
      (found.map fun (n, v) => ⟨start, start + n, v⟩) := by
  cases found with
  | none => exact miss mode start
  | some r => exact Yields.pure _

end Yields

section Reads

/-- What a match leaves of what stood in front of it: its value and the rest of the text. -/
inductive Leaves (t : Text) : Option (List Char × Value) → Option Matched → Prop where
  | none : Leaves t none none
  | some {rest : List Char} {start stop : Nat} {v : Value} :
    t.Has stop rest → Leaves t (some (rest, v)) (some ⟨start, stop, v⟩)

variable (s : Setting)

/-- What a pattern makes of the characters in front of it: it reads some and leaves the rest, or
does not match. Calls nest no deeper than `depth` for that. -/
def Reads (depth : ℕ∞) (p : PatternDef) (trivia : Bool) (cs : List Char)
    (o : Option (List Char × Value)) : Prop :=
  ∀ q, Links s.grammar p q → ∀ input quiet offset, input.text.Has offset cs →
    ∃ m, Leaves input.text o m ∧ Yields depth (fun room => matchPattern s.grammar.trivia input.text
      (afresh s room input) q ⟨trivia, quiet⟩ offset) m

/-- Trivia that is skipped, if trivia is skipped at all. -/
def Leads (trivia : Bool) (cs mid : List Char) : Prop :=
  ∀ (text : Text) (offset : Nat), text.Has offset cs → ∀ quiet,
    text.Has (leading s.grammar.trivia text ⟨trivia, quiet⟩ offset) mid

/-- What a terminal matches at the start of a text. -/
def Terminal.Takes (t : Terminal) (cs : List Char) (o : Option (Nat × String)) : Prop :=
  ∀ l : Lexeme, l.Read → l.toTerminal = t → l.matchAt? cs (byteLength cs) = o

variable {s} {depth : ℕ∞} {trivia : Bool} {cs mid rest : List Char} {p : PatternDef} {v : Value}

theorem Reads.mono {o : Option (List Char × Value)} (h : Reads s depth p trivia cs o)
    {deeper : ℕ∞} (hle : depth ≤ deeper) : Reads s deeper p trivia cs o := by
  intro q hq input quiet offset hcs
  obtain ⟨m, hm, hy⟩ := h q hq input quiet offset hcs
  exact ⟨m, hm, hy.mono hle⟩

theorem leads_raw (s : Setting) (cs : List Char) : Leads s false cs cs :=
  fun _ _ h _ => h

theorem reads_terminal {t : Terminal} {str : String} (hlead : Leads s trivia cs (mid ++ rest))
    (ht : t.Takes (mid ++ rest) (some (byteLength mid, str))) :
    Reads s depth (.terminal t) trivia cs (some (rest, .text str)) := by
  rintro q hq input quiet offset hcs
  cases hq with
  | @terminal l hl =>
    have hmid := hlead _ _ hcs quiet
    refine ⟨some ⟨leading s.grammar.trivia input.text ⟨trivia, quiet⟩ offset, _, _⟩,
      .some hmid.move, ?_⟩
    simp only [matchPattern, hmid.after?, hmid.left, Option.bind_some, ht l hl rfl]
    exact .leaf _ _ _

theorem reads_terminal_none {t : Terminal} (hlead : Leads s trivia cs mid)
    (ht : t.Takes mid none) : Reads s depth (.terminal t) trivia cs none := by
  rintro q hq input quiet offset hcs
  cases hq with
  | @terminal l hl =>
    have hmid := hlead _ _ hcs quiet
    refine ⟨_, .none, ?_⟩
    simp only [matchPattern, hmid.after?, hmid.left, Option.bind_some, ht l hl rfl]
    exact .leaf _ _ _

theorem reads_scan {sc : Scanner} (hlead : Leads s trivia cs (mid ++ rest))
    (hs : sc.scan (mid ++ rest) = some (byteLength mid, v)) :
    Reads s depth (.scan sc) trivia cs (some (rest, v)) := by
  rintro q hq input quiet offset hcs
  cases hq with
  | scan =>
    have hmid := hlead _ _ hcs quiet
    refine ⟨some ⟨leading s.grammar.trivia input.text ⟨trivia, quiet⟩ offset, _, _⟩,
      .some hmid.move, ?_⟩
    simp only [matchPattern, hmid.after?, Option.bind_some, hs]
    exact .leaf _ _ _

theorem reads_scan_none {sc : Scanner} (hlead : Leads s trivia cs mid) (hs : sc.scan mid = none) :
    Reads s depth (.scan sc) trivia cs none := by
  rintro q hq input quiet offset hcs
  cases hq with
  | scan =>
    have hmid := hlead _ _ hcs quiet
    refine ⟨_, .none, ?_⟩
    simp only [matchPattern, hmid.after?, Option.bind_some, hs]
    exact .leaf _ _ _

theorem reads_endOfInput (hlead : Leads s trivia cs []) :
    Reads s depth .endOfInput trivia cs (some ([], .null)) := by
  rintro q hq input quiet offset hcs
  cases hq with
  | endOfInput =>
    have hend := hlead _ _ hcs quiet
    refine ⟨some ⟨leading s.grammar.trivia input.text ⟨trivia, quiet⟩ offset, _, _⟩, .some hend,
      ?_⟩
    have hsize := hend.size
    simp only [byteLength, Nat.add_zero] at hsize
    simp only [matchPattern, hsize, Nat.le_refl, if_true]
    exact .pure _

theorem reads_choice_nil : Reads s depth (.choice []) trivia cs none := by
  rintro q hq input quiet offset hcs
  cases hq with
  | choice hq =>
    cases hq
    exact ⟨none, .none, .pure none⟩

theorem reads_choice_here {ps : List PatternDef} (hp : Reads s depth p trivia cs (some (rest, v))) :
    Reads s depth (.choice (p :: ps)) trivia cs (some (rest, v)) := by
  rintro q hq input quiet offset hcs
  cases hq with
  | choice hq =>
    cases hq with
    | cons hq hqs =>
      obtain ⟨m, hm, hy⟩ := hp _ hq input quiet offset hcs
      refine ⟨m, hm, ?_⟩
      cases hm with
      | some hrest =>
        simp only [matchPattern, matchFirst]
        exact hy.bind (.pure _)

theorem reads_choice_next {ps : List PatternDef} {o : Option (List Char × Value)}
    (hp : Reads s depth p trivia cs none) (hps : Reads s depth (.choice ps) trivia cs o) :
    Reads s depth (.choice (p :: ps)) trivia cs o := by
  rintro q hq input quiet offset hcs
  cases hq with
  | choice hq =>
    cases hq with
    | cons hq hqs =>
      obtain ⟨m, hm, hy⟩ := hp _ hq input quiet offset hcs
      cases hm with
      | none =>
        obtain ⟨m, hm, hys⟩ := hps _ (.choice hqs) input quiet offset hcs
        refine ⟨m, hm, ?_⟩
        simp only [matchPattern, matchFirst]
        simp only [matchPattern] at hys
        exact hy.bind hys

theorem reads_choice_last {o : Option (List Char × Value)} (hp : Reads s depth p trivia cs o) :
    Reads s depth (.choice [p]) trivia cs o := by
  cases o with
  | none => exact reads_choice_next hp reads_choice_nil
  | some taken => exact reads_choice_here hp

theorem reads_choice_past {ps qs : List PatternDef} {o : Option (List Char × Value)}
    (hps : ∀ p ∈ ps, Reads s depth p trivia cs none) (hqs : Reads s depth (.choice qs) trivia cs o) :
    Reads s depth (.choice (ps ++ qs)) trivia cs o := by
  induction ps with
  | nil => exact hqs
  | cons p ps ih =>
    have hrest := ih fun q hq => hps q (List.mem_cons_of_mem p hq)
    exact reads_choice_next (hps p List.mem_cons_self) hrest

theorem reads_optional_some (hp : Reads s depth p trivia cs (some (rest, v))) :
    Reads s depth (.optional p) trivia cs (some (rest, v)) := by
  rintro q hq input quiet offset hcs
  cases hq with
  | optional hq =>
    obtain ⟨m, hm, hy⟩ := hp _ hq input quiet offset hcs
    refine ⟨m, hm, ?_⟩
    cases hm with
    | some hrest =>
      simp only [matchPattern]
      exact hy.bind (.pure _)

theorem reads_optional_none (hp : Reads s depth p trivia cs none) :
    Reads s depth (.optional p) trivia cs (some (cs, .null)) := by
  rintro q hq input quiet offset hcs
  cases hq with
  | optional hq =>
    obtain ⟨m, hm, hy⟩ := hp _ hq input quiet offset hcs
    cases hm with
    | none =>
      refine ⟨some (.empty offset), .some hcs, ?_⟩
      simp only [matchPattern]
      exact hy.bind (.pure _)

theorem reads_ahead {negated : Bool} {o : Option (List Char × Value)}
    (hp : Reads s depth p trivia cs o) :
    Reads s depth (.ahead negated p) trivia cs
      (if o.isSome != negated then some (cs, .null) else none) := by
  rintro q hq input quiet offset hcs
  cases hq with
  | ahead hq =>
    obtain ⟨m, hm, hy⟩ := hp _ hq input true offset hcs
    have hsome : m.isSome = o.isSome := by cases hm <;> rfl
    refine ⟨if o.isSome != negated then some (.empty offset) else none, ?_, ?_⟩
    · split
      · exact .some hcs
      · exact .none
    · simp only [matchPattern]
      refine hy.bind ?_
      rw [hsome]
      exact .pure _

theorem reads_trivia {skip : Bool} {o : Option (List Char × Value)} (hp : Reads s depth p skip cs o)
    (trivia : Bool) : Reads s depth (.trivia skip p) trivia cs o := by
  rintro q hq input quiet offset hcs
  cases hq with
  | trivia hq =>
    obtain ⟨m, hm, hy⟩ := hp _ hq input quiet offset hcs
    refine ⟨m, hm, ?_⟩
    simp only [matchPattern]
    exact hy

theorem reads_silent {o : Option (List Char × Value)} (hp : Reads s depth p trivia cs o) :
    Reads s depth (.silent p) trivia cs (o.map fun (rest, _) => (rest, .null)) := by
  rintro q hq input quiet offset hcs
  cases hq with
  | silent hq =>
    obtain ⟨m, hm, hy⟩ := hp _ hq input quiet offset hcs
    refine ⟨m.map fun m => { m with value := .null }, ?_, ?_⟩
    · cases hm with
      | none => exact .none
      | some hrest => exact .some hrest
    · simp only [matchPattern]
      exact hy.bind (.pure _)

end Reads

section Parts

/-- Parts of a sequence: what stands behind them, and the fields that they keep, if any. -/
structure Parts.Keeps (t : Text) (ps : Parts) (cs : List Char) (fields : Captures)
    (kept : Bool) : Prop where
  cursor : t.Has ps.cursor cs
  fields : ps.fields = fields
  kept : ps.hasFields = kept

/-- What the match of components leaves: the rest, and the fields that are kept, if any. -/
inductive Parts.Leaves (t : Text) : Option (List Char × Captures × Bool) → Option Parts → Prop where
  | none : Leaves t none none
  | some {rest : List Char} {fields : Captures} {kept : Bool} {ps : Parts} :
    ps.Keeps t rest fields kept → Leaves t (some (rest, fields, kept)) (some ps)

variable (s : Setting)

/-- What components make of the characters in front of them, behind parts that keep some fields:
they leave a rest and keep more fields, or do not match. -/
def ReadsParts (depth : ℕ∞) (components : List ComponentDef) (trivia : Bool) (cs : List Char)
    (fields : Captures) (kept : Bool) (o : Option (List Char × Captures × Bool)) : Prop :=
  ∀ ls, LinksComponents s.grammar components ls → ∀ input quiet ps,
    Parts.Keeps input.text ps cs fields kept → ∃ r, Parts.Leaves input.text o r ∧
      Yields depth (fun room => matchComponents s.grammar.trivia input.text (afresh s room input) ls
        ⟨trivia, quiet⟩ ps) r

variable {s} {depth : ℕ∞} {trivia : Bool} {cs mid rest : List Char} {p : PatternDef} {v : Value}
  {components : List ComponentDef} {fields : Captures} {kept : Bool}
  {o : Option (List Char × Captures × Bool)}

theorem readsParts_nil : ReadsParts s depth [] trivia cs fields kept (some (cs, fields, kept)) := by
  rintro ls hls input quiet ps hps
  cases hls
  exact ⟨some ps, .some hps, .pure _⟩

theorem readsParts_none {field : Option String} {capture : Capture}
    (hp : Reads s depth p trivia cs none) :
    ReadsParts s depth (⟨field, capture, p⟩ :: components) trivia cs fields kept none := by
  rintro ls hls input quiet ps hps
  cases hls with
  | cons hq hls =>
    obtain ⟨m, hm, hy⟩ := hp _ hq input quiet _ hps.cursor
    cases hm with
    | none =>
      refine ⟨none, .none, ?_⟩
      simp only [matchComponents]
      exact hy.bind (.pure _)

theorem readsParts_field {name : String} {capture : Capture}
    (hp : Reads s depth p trivia cs (some (mid, v)))
    (hrest : ReadsParts s depth components trivia mid (fields.insert name (capture.apply v)) true o) :
    ReadsParts s depth (⟨some name, capture, p⟩ :: components) trivia cs fields kept o := by
  rintro ls hls input quiet ps hps
  cases hls with
  | cons hq hls =>
    obtain ⟨m, hm, hy⟩ := hp _ hq input quiet _ hps.cursor
    cases hm with
    | @some rest start stop v hstop =>
      obtain ⟨r, hr, hyr⟩ := hrest _ hls input quiet
        (ps.push (some name) capture ⟨start, stop, v⟩)
        ⟨hstop, congrArg (Fields.insert · name (capture.apply v)) hps.fields, rfl⟩
      refine ⟨r, hr, ?_⟩
      simp only [matchComponents]
      exact hy.bind hyr

theorem readsParts_record {capture : Capture} {inner : Captures}
    (hp : Reads s depth p trivia cs (some (mid, .record inner)))
    (hrest : ReadsParts s depth components trivia mid (fields.extend inner) true o) :
    ReadsParts s depth (⟨none, capture, p⟩ :: components) trivia cs fields kept o := by
  rintro ls hls input quiet ps hps
  cases hls with
  | cons hq hls =>
    obtain ⟨m, hm, hy⟩ := hp _ hq input quiet _ hps.cursor
    cases hm with
    | @some rest start stop v hstop =>
      obtain ⟨r, hr, hyr⟩ := hrest _ hls input quiet
        (ps.push none capture ⟨start, stop, .record inner⟩)
        ⟨hstop, congrArg (Fields.extend · inner) hps.fields, rfl⟩
      refine ⟨r, hr, ?_⟩
      simp only [matchComponents]
      exact hy.bind hyr

/-- Whether a value is a record, whose fields a sequence takes over. -/
def Value.isRecord : Value → Bool
  | .record _ => true
  | _ => false

theorem readsParts_plain {capture : Capture} (hp : Reads s depth p trivia cs (some (mid, v)))
    (hv : Value.isRecord v = false)
    (hrest : ReadsParts s depth components trivia mid fields kept o) :
    ReadsParts s depth (⟨none, capture, p⟩ :: components) trivia cs fields kept o := by
  rintro ls hls input quiet ps hps
  cases hls with
  | cons hq hls =>
    obtain ⟨m, hm, hy⟩ := hp _ hq input quiet _ hps.cursor
    cases hm with
    | @some rest start stop v hstop =>
      have hpush : (ps.push none capture ⟨start, stop, v⟩).Keeps input.text mid fields kept := by
        cases v with
        | record inner => cases hv
        | _ => exact ⟨hstop, hps.fields, hps.kept⟩
      obtain ⟨r, hr, hyr⟩ := hrest _ hls input quiet _ hpush
      refine ⟨r, hr, ?_⟩
      simp only [matchComponents]
      exact hy.bind hyr

/-- A sequence does not match where its later components never do. -/
theorem readsParts_later {component : ComponentDef}
    (hp : Reads s depth component.pattern trivia cs (some (mid, v)))
    (hrest : ∀ fields kept, ReadsParts s depth components trivia mid fields kept none) :
    ReadsParts s depth (component :: components) trivia cs fields kept none := by
  obtain ⟨field, capture, p⟩ := component
  cases field with
  | some name => exact readsParts_field hp (hrest _ _)
  | none =>
    cases hv : Value.isRecord v with
    | false => exact readsParts_plain hp hv (hrest _ _)
    | true =>
      cases v with
      | record inner => exact readsParts_record hp (hrest _ _)
      | _ => cases hv

theorem reads_sequence
    (h : ReadsParts s depth components trivia cs .empty false (some (rest, fields, true))) :
    Reads s depth (.sequence components) trivia cs (some (rest, .record fields)) := by
  rintro q hq input quiet offset hcs
  cases hq with
  | sequence hls =>
    obtain ⟨r, hr, hy⟩ := h _ hls input quiet (.startingAt offset) ⟨hcs, rfl, rfl⟩
    cases hr with
    | @some _ _ _ ps hps =>
      obtain ⟨hcursor, rfl, hkept⟩ := hps
      refine ⟨some ⟨ps.start.getD ps.cursor, ps.cursor, .record ps.fields⟩, .some hcursor, ?_⟩
      simp only [matchPattern]
      refine hy.bind ?_
      simp only [Option.map_some, Parts.finish, hkept, if_true]
      exact .pure _

theorem reads_sequence_none (h : ReadsParts s depth components trivia cs .empty false none) :
    Reads s depth (.sequence components) trivia cs none := by
  rintro q hq input quiet offset hcs
  cases hq with
  | sequence hls =>
    obtain ⟨r, hr, hy⟩ := h _ hls input quiet (.startingAt offset) ⟨hcs, rfl, rfl⟩
    cases hr with
    | none =>
      refine ⟨none, .none, ?_⟩
      simp only [matchPattern]
      exact hy.bind (.pure _)

end Parts

section Rounds

variable {s : Setting} {depth : ℕ∞} {trivia : Bool} {cs mid rest : List Char} {item : PatternDef} {v : Value}
  {vs : List Value}

/-- Items read one after the other, each of them something, up to where none is read. -/
inductive ReadsAll (s : Setting) (depth : ℕ∞) (item : PatternDef) (trivia : Bool) :
    List Char → List Char → List Value → Prop where
  | nil {rest : List Char} : Reads s depth item trivia rest none → ReadsAll s depth item trivia rest rest []
  | cons {cs mid rest : List Char} {v : Value} {vs : List Value} :
    Reads s depth item trivia cs (some (mid, v)) → byteLength mid < byteLength cs →
    ReadsAll s depth item trivia mid rest vs → ReadsAll s depth item trivia cs rest (v :: vs)

theorem ReadsAll.length_le (h : ReadsAll s depth item trivia cs rest vs) :
    vs.length ≤ byteLength cs := by
  induction h with
  | nil => exact Nat.zero_le _
  | cons _ hlt _ ih =>
    rw [List.length_cons]
    omega

theorem ReadsAll.rounds (h : ReadsAll s depth item trivia cs rest vs) {q : LinkedPattern}
    (hq : Links s.grammar item q) (input : Input) (quiet trailing : Bool) (fuel : Nat)
    (hfuel : vs.length < fuel) (rs : Rounds) (hrs : input.text.Has rs.cursor cs)
    (hfirst : rs.emptyFirst = false) :
    ∃ rs' : Rounds, input.text.Has rs'.cursor rest ∧ rs'.items = vs.reverse ++ rs.items ∧
      rs'.emptyFirst = false ∧
      Yields depth (fun room => repeatFrom (matchPattern s.grammar.trivia input.text
        (afresh s room input) q ⟨trivia, quiet⟩) none trailing fuel rs) rs' := by
  induction h generalizing fuel rs with
  | nil hitem =>
    obtain ⟨fuel, rfl⟩ : ∃ n, fuel = n + 1 := ⟨fuel - 1, by omega⟩
    obtain ⟨m, hm, hy⟩ := hitem q hq input quiet _ hrs
    cases hm with
    | none =>
      refine ⟨rs, hrs, rfl, hfirst, ?_⟩
      simp only [repeatFrom, nextItem, pure_bind]
      refine hy.bind ?_
      simp only [Nat.lt_irrefl, decide_false, Bool.and_false, Bool.false_eq_true, if_false]
      exact .pure _
  | @cons cs mid rest v vs hitem hlt _ ih =>
    rw [List.length_cons] at hfuel
    obtain ⟨fuel, rfl⟩ : ∃ n, fuel = n + 1 := ⟨fuel - 1, by omega⟩
    obtain ⟨m, hm, hy⟩ := hitem q hq input quiet _ hrs
    cases hm with
    | @some _ start stop _ hstop =>
      have hne : stop ≠ rs.cursor := by
        have hsize := hstop.size
        have hsize' := hrs.size
        omega
      obtain ⟨rs', hcursor, hitems, hempty, hys⟩ := ih fuel (by omega)
        (rs.push ⟨start, stop, v⟩ rs.emptyFirst) hstop hfirst
      refine ⟨rs', hcursor, ?_, hempty, ?_⟩
      · rw [hitems]
        simp [Rounds.push]
      · simp only [repeatFrom, nextItem, pure_bind]
        refine hy.bind ?_
        simp only [hne, if_false]
        exact hys

theorem reads_repetition {least : Nat} {trailing : Bool}
    (h : ReadsAll s depth item trivia cs rest vs) (hleast : least ≤ vs.length) :
    Reads s depth (.repetition item none least trailing) trivia cs (some (rest, .list vs)) := by
  rintro q hq input quiet offset hcs
  cases hq with
  | repetition hq =>
    have hlength := h.length_le
    have hsize := hcs.size
    obtain ⟨rs, hcursor, hitems, hempty, hy⟩ := h.rounds hq input quiet trailing
      (input.text.size + 3) (by omega) (.startingAt offset) hcs rfl
    have hitems : rs.items = vs.reverse := by simpa [Rounds.startingAt] using hitems
    refine ⟨some ⟨rs.start.getD offset, rs.cursor, .list vs⟩, .some hcursor, ?_⟩
    simp only [matchPattern]
    refine hy.bind ?_
    have hfinish : rs.finish offset least = some ⟨rs.start.getD offset, rs.cursor, .list vs⟩ := by
      simp only [Rounds.finish, hitems, hempty, Bool.false_eq_true, if_false]
      split <;> rw [if_neg (by rw [List.length_reverse]; omega), List.reverse_reverse]
    rw [hfinish]
    exact .pure _

/-- A repetition whose first item is not there. -/
theorem reads_repetition_none {separator : Option PatternDef} {trailing : Bool} {least : Nat}
    (h : Reads s depth item trivia cs none) :
    Reads s depth (.repetition item separator least trailing) trivia cs
      (if least = 0 then some (cs, .list []) else none) := by
  rintro q hq input quiet offset hcs
  have hrounds : ∀ (q : LinkedPattern) (separator : Nat → Option Matcher),
      Links s.grammar item q →
      Yields depth (fun room => repeatFrom (matchPattern s.grammar.trivia input.text
        (afresh s room input) q ⟨trivia, quiet⟩) (separator room) trailing (input.text.size + 3)
        (.startingAt offset)) (.startingAt offset) := by
    intro q separator hq
    obtain ⟨m, hm, hy⟩ := h q hq input quiet offset hcs
    cases hm with
    | none =>
      have hnext : ∀ room, nextItem (separator room) (.startingAt offset) =
          pure (some offset) := by
        intro room
        simp only [nextItem]
        cases separator room <;> rfl
      simp only [repeatFrom, hnext, pure_bind]
      refine hy.bind ?_
      simp only [Rounds.startingAt, Nat.lt_irrefl, decide_false, Bool.and_false,
        Bool.false_eq_true, if_false]
      exact .pure _
  refine ⟨(Rounds.startingAt offset).finish offset least, ?_, ?_⟩
  · by_cases hleast : least = 0
    · subst hleast
      exact .some hcs
    · rw [if_neg hleast]
      simp only [Rounds.finish, Rounds.startingAt, List.length_nil, Nat.pos_of_ne_zero hleast,
        if_true]
      exact .none
  · cases hq with
    | repetition hq =>
      simp only [matchPattern]
      exact (hrounds _ (fun _ => none) hq).bind (.pure _)
    | separated hq _ =>
      simp only [matchPattern]
      exact (hrounds _ (fun room => some _) hq).bind (.pure _)

end Rounds

section Rules

/-- What a rule makes of the value of its pattern where places are not recorded. -/
def RuleDef.Makes (d : RuleDef) (v w : Value) : Prop :=
  ∀ r : LinkedRule, r.written = d → ∀ ctx : Context, ctx.options = .off → r.shape ctx v = .ok w

/-- What it makes of it given the value that a nested parse finds which it asks for. -/
def RuleDef.MakesAsking (d : RuleDef) (rule text : String) (answer v w : Value) : Prop :=
  ∀ r : LinkedRule, r.written = d → ∀ ctx : Context, ctx.options = .off →
    (∀ offset, ctx.reparse rule text offset = .ok (some answer)) → r.shape ctx v = .ok w

def RuleDef.bare (d : RuleDef) : LinkedRule :=
  ⟨d.name, .endOfInput, d.captureAs, d.processor, d.ifNoMatch, d.pick, d.asNode⟩

section Makes

variable {d : RuleDef} {v w : Value}

theorem RuleDef.makes_fallback (h : d.bare.fallback? v = some w) : d.Makes v w := by
  rintro r rfl ctx -
  have hr : r.fallback? v = some w := h
  simp only [LinkedRule.shape, hr]

theorem RuleDef.makes_same (hp : d.processor = none) (hpick : d.pick = none)
    (hnode : d.asNode = false) (hv : Value.isRecord v = false) : d.Makes v v := by
  rintro r rfl ctx hoff
  have hp : r.processor = none := hp
  have hpick : r.pick = none := hpick
  have hnode : r.asNode = false := hnode
  have hsame : LinkedRule.place ctx v = v := LinkedRule.place_off hoff v
  cases v with
  | record fields => cases hv
  | _ =>
    simp only [LinkedRule.shape, LinkedRule.fallback?, LinkedRule.process, hp, LinkedRule.tagged,
      hpick, hnode, Bool.false_eq_true, if_false]
    exact congrArg Except.ok hsame

theorem RuleDef.makes_tagged (h : d.bare.fallback? v = none) (hp : d.processor = none) :
    d.Makes v (d.bare.tagged v) := by
  rintro r rfl ctx hoff
  have hr : r.fallback? v = none := h
  have hp : r.processor = none := hp
  simp only [LinkedRule.shape, hr, LinkedRule.process, hp]
  exact congrArg Except.ok (LinkedRule.place_off hoff _)

theorem RuleDef.makes_processed {p : Processor} (h : d.bare.fallback? v = none)
    (hp : d.processor = some p)
    (hw : ∀ ctx : Context, ctx.options = .off → p (d.bare.tagged v) ctx = .ok w) :
    d.Makes v w := by
  rintro r rfl ctx hoff
  have hr : r.fallback? v = none := h
  have hp : r.processor = some p := hp
  have hw : p (r.tagged v) ctx = .ok w := hw ctx hoff
  simp only [LinkedRule.shape, hr, LinkedRule.process, hp, hw]
  exact congrArg Except.ok (LinkedRule.place_off hoff w)

theorem RuleDef.makes_asking {p : Processor} {rule text : String} {answer : Value}
    (h : d.bare.fallback? v = none) (hp : d.processor = some p)
    (hw : ∀ ctx : Context, ctx.options = .off →
      (∀ offset, ctx.reparse rule text offset = .ok (some answer)) →
      p (d.bare.tagged v) ctx = .ok w) : d.MakesAsking rule text answer v w := by
  rintro r rfl ctx hoff hanswer
  have hr : r.fallback? v = none := h
  have hp : r.processor = some p := hp
  have hw : p (r.tagged v) ctx = .ok w := hw ctx hoff hanswer
  simp only [LinkedRule.shape, hr, LinkedRule.process, hp, hw]
  exact congrArg Except.ok (LinkedRule.place_off hoff w)

end Makes

variable {s : Setting} {table : List RuleDef} {skipped : Option Terminal}
  (hg : Grammar.link table skipped = .ok s.grammar) {d : RuleDef} (hd : d ∈ table)
  {depth : ℕ∞} {trivia : Bool} {cs rest : List Char} {v w : Value}

theorem Yields.afresh {input : Input} {c : Call} {o : Option Matched}
    (h : Yields depth (fun room => evaluate s (Peg.afresh s room) input c) o) :
    Yields (depth + 1) (fun room => Peg.afresh s room input c) o := by
  obtain ⟨enough, hle, h⟩ := h
  refine ⟨enough + 1, ?_, fun room hroom => ?_⟩
  · push_cast
    exact add_le_add_left hle 1
  · obtain ⟨room, rfl⟩ : ∃ n, room = n + 1 := ⟨room - 1, by omega⟩
    exact h room (by omega)

/-- What the call of a rule finds that reads something. -/
theorem Reads.called {name : String} {id : Nat} (hid : s.grammar.ruleId? name = some id)
    (h : Reads s depth (.rule name) trivia cs (some (rest, v))) {input : Input} {offset : Nat}
    (hcs : input.text.Has offset cs) (quiet : Bool) :
    ∃ start stop, Yields depth (fun room => afresh s room input ⟨id, offset, trivia, quiet⟩)
      (some ⟨start, stop, v⟩) := by
  obtain ⟨found, hfound, hyields⟩ :=
    h (.rule ⟨name, id⟩) (.rule (r := ⟨name, id⟩) hid) input quiet offset hcs
  cases hfound with
  | @some _ start stop _ hstop => exact ⟨start, stop, hyields⟩

include hg hd

/-- A rule reads what its pattern does, with what shaping makes of the value. -/
theorem reads_shaped (hp : Reads s depth d.pattern trivia cs (some (rest, v)))
    (hshape : ∀ r : LinkedRule, r.written = d → ∀ input span, ∃ enough : Nat, enough ≤ depth ∧
      ∀ room, enough ≤ room → r.shape ⟨span, input, s.lines, s.options,
        reparseWith s.grammar (afresh s room) input⟩ v = .ok w) :
    Reads s (depth + 1) (.rule d.name) trivia cs (some (rest, w)) := by
  rintro q hq input quiet offset hcs
  generalize hname : d.name = name at hq
  cases hq with
  | @rule ref href =>
    obtain ⟨id, r, hid, hr, hwritten, hlinks⟩ := Grammar.rule_of_link hg hd
    rw [hname] at hid
    obtain rfl : id = ref.id := Option.some.inj (hid.symm.trans href)
    obtain ⟨m, hm, hy⟩ := hp _ hlinks input quiet offset hcs
    cases hm with
    | @some _ start stop _ hstop =>
      refine ⟨some ⟨start, stop, w⟩, .some hstop, ?_⟩
      simp only [matchPattern]
      refine .afresh ?_
      simp only [evaluate_of_some (c := ⟨ref.id, offset, trivia, quiet⟩) hr]
      obtain ⟨enough, hle, hshape⟩ := hshape r hwritten input ⟨start, stop⟩
      refine hy.bind ⟨enough, hle, fun room hroom m' => ⟨m', ?_⟩⟩
      simp only [conclude, hshape room hroom]
      rfl

theorem reads_rule (hoff : s.options = .off) (hm : d.Makes v w)
    (hp : Reads s depth d.pattern trivia cs (some (rest, v))) :
    Reads s (depth + 1) (.rule d.name) trivia cs (some (rest, w)) :=
  reads_shaped hg hd hp fun r hr _ _ => ⟨0, zero_le, fun _ _ => hm r hr _ hoff⟩

omit hd in
/-- A nested parse finds what its start rule reads. -/
theorem reparse_of_reads {depth : Nat} {asked : RuleDef} (hasked : asked ∈ table) {text : String}
    (h : Reads s depth (.rule asked.name) false text.toList (some (rest, v))) {room : Nat}
    (hroom : depth ≤ room) (input : Input) (offset : Nat) :
    reparseWith s.grammar (afresh s room) input asked.name text offset = .ok (some v) := by
  obtain ⟨id, -, hid, -⟩ := Grammar.rule_of_link hg hasked
  have htext : (input.within text offset).text.Has 0 text.toList := Text.has_start _
  obtain ⟨start, stop, enough, hle, hyields⟩ := h.called hid htext false
  obtain ⟨m, hm⟩ := hyields room ((Nat.cast_le.1 hle).trans hroom) .empty
  have hcall : afresh s room (input.within text offset) ⟨id, 0, false, false⟩ .empty =
      ending (.ok (some ⟨start, stop, v⟩)) m := hm
  exact reparse_eq_verdict _ _ _ _ _ _ hid hcall

/-- A rule whose processor asks for a nested parse. -/
theorem reads_rule_asking (hoff : s.options = .off) {depth : Nat} {asked : RuleDef}
    (hasked : asked ∈ table) {text : String} {left : List Char} {answer : Value}
    (hm : d.MakesAsking asked.name text answer v w)
    (hanswer : Reads s depth (.rule asked.name) false text.toList (some (left, answer)))
    (hp : Reads s depth d.pattern trivia cs (some (rest, v))) :
    Reads s (depth + 1) (.rule d.name) trivia cs (some (rest, w)) :=
  reads_shaped hg hd hp fun r hr input _ => ⟨depth, le_rfl, fun _ hroom =>
    hm r hr _ hoff (reparse_of_reads hg hasked hanswer hroom input)⟩

theorem reads_rule_none (hp : Reads s depth d.pattern trivia cs none) :
    Reads s (depth + 1) (.rule d.name) trivia cs none := by
  rintro q hq input quiet offset hcs
  generalize hname : d.name = name at hq
  cases hq with
  | @rule ref href =>
    obtain ⟨id, r, hid, hr, hwritten, hlinks⟩ := Grammar.rule_of_link hg hd
    rw [hname] at hid
    obtain rfl : id = ref.id := Option.some.inj (hid.symm.trans href)
    obtain ⟨m, hm, hy⟩ := hp _ hlinks input quiet offset hcs
    cases hm with
    | none =>
      refine ⟨none, .none, ?_⟩
      simp only [matchPattern]
      refine .afresh ?_
      simp only [evaluate_of_some (c := ⟨ref.id, offset, trivia, quiet⟩) hr]
      exact hy.bind (.pure _)

end Rules

section Runs

variable {s : Setting} (hg : s.grammar.Planned) {name : String} {id : Nat}
  (hid : s.grammar.ruleId? name = some id) {depth : ℕ∞} {trivia : Bool} {cs rest : List Char}
  {v : Value} (hr : Reads s depth (.rule name) trivia cs (some (rest, v))) {input : Input}
  (hcs : input.text.Has 0 cs)

include hg hid hr hcs

/-- A run finds what its start rule reads, unless it nests too deep. -/
theorem Session.run_of_reads : ((start s input).run name trivia).1 = .ok v ∨
    ∃ e : Failure, e.isTooDeep ∧ ((start s input).run name trivia).1 = .error e := by
  obtain ⟨o, p, m, hy, ho, -, -, hbig, -⟩ :=
    invoke_recalls hg s.limit input ⟨id, 0, trivia, false⟩ .empty (sound_empty s input)
  obtain rfl := ho.eq
  have hrun := Session.run_eq (s := start s input) (runWith_eq hid hy)
  rw [hrun]
  by_cases hd : Deep o
  · cases o with
    | ok found => exact hd.elim
    | error e => exact .inr ⟨e, hd, rfl⟩
  · left
    obtain ⟨enough, hsettles⟩ := hbig hd
    obtain ⟨start, stop, more, -, hyields⟩ := hr.called hid hcs false
    obtain ⟨m', hfresh⟩ := hyields (max enough more) (Nat.le_max_right _ _) .empty
    have hgives := hsettles (max enough more) (Nat.le_max_left _ _) ∅
    obtain ⟨rfl, -⟩ := ending_inj (hgives.symm.trans
      (show _ = ending (.ok (some ⟨start, stop, v⟩)) m' from hfresh))
    rfl

omit hr hcs in
/-- A run ends as the call of its start rule does if calls may nest as deep as that takes. -/
theorem Session.run_of_yields {o : Option Matched} (hdepth : depth ≤ s.limit)
    (h : Yields depth (fun room => afresh s room input ⟨id, 0, trivia, false⟩) o) :
    ∃ m, ((start s input).run name trivia).1 = conclusion input m (.ok o) := by
  obtain ⟨o', p, m, hy, ho, -, -, -, hsame⟩ :=
    invoke_recalls hg s.limit input ⟨id, 0, trivia, false⟩ .empty (sound_empty s input)
  obtain rfl := ho.eq
  obtain ⟨enough, hle, hyields⟩ := h
  obtain ⟨m', hfresh⟩ := hyields s.limit (Nat.cast_le.1 (hle.trans hdepth)) .empty
  obtain ⟨q, n, hq, hsame⟩ := hsame ∅
  obtain ⟨rfl, -⟩ := ending_inj (hq.symm.trans (show _ = ending (.ok o) m' from hfresh))
  obtain ⟨rfl, -⟩ := hsame.resolve_left not_false
  exact ⟨m, congrArg Prod.fst (Session.run_eq (s := start s input) (runWith_eq hid hy))⟩

/-- A run finds what its start rule reads if calls may nest as deep as that takes. -/
theorem Session.run_of_reads_within (hdepth : depth ≤ s.limit) :
    ((start s input).run name trivia).1 = .ok v := by
  obtain ⟨start, stop, hyields⟩ := hr.called hid hcs false
  obtain ⟨m, hrun⟩ := Session.run_of_yields hg hid hdepth hyields
  exact hrun

omit hr in
theorem Session.run_of_reads_none (hr : Reads s depth (.rule name) trivia cs none)
    (hdepth : depth ≤ s.limit) :
    ∃ m, ((start s input).run name trivia).1 = .error (mismatch input m) := by
  obtain ⟨found, hfound, hyields⟩ :=
    hr (.rule ⟨name, id⟩) (.rule (r := ⟨name, id⟩) hid) input false 0 hcs
  cases hfound with
  | none => exact Session.run_of_yields hg hid hdepth hyields

end Runs

end PhpSyntax.Peg
