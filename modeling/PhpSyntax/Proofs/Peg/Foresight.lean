import PhpSyntax.Proofs.Peg.Reading
import PhpSyntax.Proofs.Regex.Foresight

namespace PhpSyntax.Peg

/-- What a terminal matches at the start of every text that begins with some characters, if these
tell; `ends` says that nothing comes behind them. -/
def Terminal.foresee? (t : Terminal) (ends : Bool) (cs : List Char) :
    Option (Option (Nat × String)) :=
  match t.program? with
  | none => none
  | some program =>
    if ends then some (Lexeme.matchAt? ⟨t, program⟩ cs (byteLength cs))
    else
      match program.foreseen? cs with
      | some none => some none
      | some (some f) =>
        if t.group = 0 ∧ f.whole.length ≤ byteLength f.whole.rest then
          some (some (f.stop, t.transform.apply f.whole.text))
        else none
      | none => none

theorem Terminal.takes_of_foresee {t : Terminal} {ends : Bool} {cs : List Char}
    {o : Option (Nat × String)} (h : t.foresee? ends cs = some o) {tail : List Char}
    (htail : ends = true → tail = []) : t.Takes (cs ++ tail) o := by
  rintro ⟨t, program⟩ hl rfl
  simp only [foresee?, show t.program? = some program from hl] at h
  split at h
  · rename_i hends
    obtain rfl := htail hends
    rw [List.append_nil]
    exact Option.some.inj h
  · split at h
    · rename_i hf
      cases h
      simp only [Lexeme.matchAt?, Regex.Program.find?_of_foreseen hf (.inr rfl) tail,
        Option.map_none]
    · rename_i f hf
      split at h
      · rename_i hgroup
        obtain ⟨hgroup, hlength⟩ := hgroup
        cases h
        have hfind : program.find? (t.group != 0) (cs ++ tail) (byteLength (cs ++ tail)) =
            some (f.extend tail) :=
          Regex.Program.find?_of_foreseen hf (.inl (by simp [hgroup])) tail
        have htext : (f.extend tail).text t.group = f.whole.text := by
          simp only [Regex.Program.Found.text, hgroup, if_true]
          exact pushBytes_of_le hlength tail ""
        show (program.find? (t.group != 0) (cs ++ tail) (byteLength (cs ++ tail))).map _ = _
        rw [hfind, Option.map_some, htext]
        rfl
      · cases h
    · cases h

/-- The characters behind skipped trivia, if the known ones tell. -/
def foreskip (trivia : Terminal) (ends : Bool) : Nat → List Char → Option (List Char)
  | 0, _ => none
  | fuel + 1, cs =>
    match trivia.foresee? ends cs with
    | some (some (n + 1, _)) => (dropBytes? (n + 1) cs).bind (foreskip trivia ends fuel)
    | some _ => some cs
    | none => none

/-- A verdict on a pattern in front of some characters. -/
inductive Verdict where
  | fails
  | takes (rest : List Char)
  | unclear
  deriving DecidableEq

section Foretell

variable (table : List RuleDef) (skipped : Terminal) (ends : Bool)

def foreLead (trivia : Bool) (cs : List Char) : Option (List Char) :=
  if trivia then foreskip skipped ends (byteLength cs + 1) cs else some cs

def foretellTerminal (t : Terminal) (cs : List Char) : Verdict :=
  match t.foresee? ends cs with
  | some none => .fails
  | some (some (n, _)) =>
    match dropBytes? n cs with
    | some rest => .takes rest
    | none => .unclear
  | none => .unclear

/-- Whether a component only looks ahead, for a rule that is a terminal by another name. -/
def isGuard (component : ComponentDef) : Bool :=
  match component with
  | ⟨none, _, .ahead _ (.rule name)⟩ =>
    match table.find? (·.name == name) with
    | some ⟨_, .terminal _, _, none, _, _, _⟩ => true
    | _ => false
  | _ => false

/-- Whether components do not match. What a guard makes of the characters does not matter where the
components behind it do not match anyway. -/
def partsFail (f : PatternDef → List Char → Verdict) : List ComponentDef → List Char → Bool
  | [], _ => false
  | component :: rest, cs =>
    if isGuard table component && partsFail f rest cs then true
    else
      match f component.pattern cs with
      | .fails => true
      | .takes mid => partsFail f rest mid
      | .unclear => false

def foretellFirst (f : PatternDef → List Char → Verdict) : List PatternDef → List Char → Verdict
  | [], _ => .fails
  | p :: rest, cs =>
    match f p cs with
    | .fails => foretellFirst f rest cs
    | verdict => verdict

/-- Goes through a pattern over the known characters. A rule that matches is unclear, for its value
is not computed; `fuel` bounds the nesting of patterns and rules. -/
def foretell : Nat → Bool → PatternDef → List Char → Verdict
  | 0, _, _, _ => .unclear
  | fuel + 1, trivia, p, cs =>
    match p with
    | .terminal t =>
      match foreLead skipped ends trivia cs with
      | some mid => foretellTerminal ends t mid
      | none => .unclear
    | .rule name =>
      match table.find? (·.name == name) with
      | some d =>
        match foretell fuel trivia d.pattern cs with
        | .fails => .fails
        | _ => .unclear
      | none => .unclear
    | .sequence components =>
      if partsFail table (foretell fuel trivia) components cs then .fails else .unclear
    | .choice alternatives => foretellFirst (foretell fuel trivia) alternatives cs
    | .repetition item _ least _ =>
      match foretell fuel trivia item cs with
      | .fails => if least = 0 then .takes cs else .fails
      | _ => .unclear
    | .optional p =>
      match foretell fuel trivia p cs with
      | .fails => .takes cs
      | verdict => verdict
    | .ahead negated p =>
      match foretell fuel trivia p cs with
      | .fails => if negated then .takes cs else .fails
      | .takes _ => if negated then .fails else .takes cs
      | .unclear => .unclear
    | .trivia skip p => foretell fuel skip p cs
    | .silent p => foretell fuel trivia p cs
    | .scan s =>
      match foreLead skipped ends trivia cs with
      | some mid => if ends && (s.scan mid).isNone then .fails else .unclear
      | none => .unclear
    | .endOfInput => .unclear

end Foretell

section Soundness

variable {s : Setting} {depth : ℕ∞} {table : List RuleDef} {skipped : Terminal} {ends : Bool}
  (hg : Grammar.link table (some skipped) = .ok s.grammar) (hgroup : skipped.group = 0)
  {tail : List Char} (htail : ends = true → tail = [])

/-- What a verdict says about a text that goes on with `tail`. -/
def Verdict.Holds (s : Setting) (depth : ℕ∞) (p : PatternDef) (trivia : Bool)
    (cs tail : List Char) : Verdict → Prop
  | .fails => Reads s depth p trivia (cs ++ tail) none
  | .takes rest => ∃ v, Reads s depth p trivia (cs ++ tail) (some (rest ++ tail, v))
  | .unclear => True

theorem Verdict.Holds.mono {deeper : ℕ∞} {p : PatternDef} {trivia : Bool} {cs : List Char}
    {verdict : Verdict} (h : verdict.Holds s depth p trivia cs tail) (hle : depth ≤ deeper) :
    verdict.Holds s deeper p trivia cs tail := by
  cases verdict with
  | fails => exact Reads.mono h hle
  | takes rest => exact h.imp fun v hv => hv.mono hle
  | unclear => trivial

theorem holds_first {f : PatternDef → List Char → Verdict} {trivia : Bool}
    (hf : ∀ p cs, (f p cs).Holds s depth p trivia cs tail) (ps : List PatternDef) (cs : List Char) :
    (foretellFirst f ps cs).Holds s depth (.choice ps) trivia cs tail := by
  induction ps with
  | nil => exact reads_choice_nil
  | cons p ps ih =>
    have hp := hf p cs
    simp only [foretellFirst]
    cases hv : f p cs with
    | fails =>
      rw [hv] at hp
      cases hvs : foretellFirst f ps cs with
      | fails =>
        rw [hvs] at ih
        exact reads_choice_next hp ih
      | takes rest =>
        rw [hvs] at ih
        obtain ⟨v, ih⟩ := ih
        exact ⟨v, reads_choice_next hp ih⟩
      | unclear => trivial
    | takes rest =>
      rw [hv] at hp
      obtain ⟨v, hp⟩ := hp
      exact ⟨v, reads_choice_here hp⟩
    | unclear => trivial

theorem Lexeme.matchLength?_eq {l : Lexeme} (hgroup : l.group = 0) (cs : List Char) (size : Nat) :
    l.matchLength? cs size = (l.matchAt? cs size).map (·.1) := by
  simp only [matchLength?, matchAt?, hgroup, Option.map_map]
  rfl

theorem LinkedRule.shape_of_none {r : LinkedRule} (hr : r.processor = none) (ctx : Context)
    (v : Value) : r.shape ctx v = .ok ((r.fallback? v).getD (place ctx (r.tagged v))) := by
  simp only [shape, process, hr]
  cases r.fallback? v <;> rfl

/-- A rule that is a terminal by another name comes to an end everywhere. -/
theorem yields_token (hg : Grammar.link table (some skipped) = .ok s.grammar) {d : RuleDef}
    (hd : d ∈ table) {t : Terminal} (hp : d.pattern = .terminal t) (hproc : d.processor = none)
    {ref : RuleRef} (href : ref.Resolved s.grammar.index) (hname : d.name = ref.name)
    (input : Input) (offset : Nat) (trivia quiet : Bool) :
    ∃ m, Yields 1 (fun room => afresh s room input ⟨ref.id, offset, trivia, quiet⟩) m := by
  obtain ⟨id, r, hid, hr, rfl, hlinks⟩ := Grammar.rule_of_link hg hd
  rw [hname] at hid
  obtain rfl : id = ref.id := Option.some.inj (hid.symm.trans href)
  rw [hp] at hlinks
  generalize hq : r.pattern = q at hlinks
  cases hlinks with
  | @terminal l hl =>
    let shaped (m : Matched) : Matched :=
      let ctx : Context :=
        ⟨⟨m.start, m.stop⟩, input, s.lines, s.options, fun _ _ _ => .ok none⟩
      { m with value := (r.fallback? m.value).getD (LinkedRule.place ctx (r.tagged m.value)) }
    let start := leading s.grammar.trivia input.text ⟨trivia, quiet⟩ offset
    let found := (input.text.after? start).bind fun cs =>
      (l.matchAt? cs (input.text.size - start)).map fun f => (f.1, Value.text f.2)
    refine ⟨(found.map fun f => ⟨start, start + f.1, f.2⟩).map shaped,
      Yields.mono (.afresh ?_) (zero_add 1).le⟩
    simp only [evaluate_of_some (c := ⟨ref.id, offset, trivia, quiet⟩) hr, hq, matchPattern]
    refine Yields.bind (.leaf ⟨trivia, quiet⟩ start found) ?_
    cases found with
    | none => exact .pure none
    | some f =>
      have hplace : ∀ room, LinkedRule.place ⟨⟨start, start + f.1⟩, input, s.lines, s.options,
          reparseWith s.grammar (afresh s room) input⟩ (r.tagged f.2) =
          LinkedRule.place ⟨⟨start, start + f.1⟩, input, s.lines, s.options,
            fun _ _ _ => .ok none⟩ (r.tagged f.2) := by
        intro room
        cases r.tagged f.2 <;> rfl
      simp only [Option.map_some, conclude, LinkedRule.shape_of_none hproc, hplace]
      exact .pure _

/-- A guard can be passed over, or not, but it never takes anything. -/
theorem readsParts_guard (hg : Grammar.link table (some skipped) = .ok s.grammar)
    (hdepth : 1 ≤ depth) {component : ComponentDef} {components : List ComponentDef} {trivia : Bool} {cs : List Char}
    (hguard : isGuard table component = true)
    (hrest : ∀ fields kept, ReadsParts s depth components trivia cs fields kept none)
    (fields : Captures) (kept : Bool) :
    ReadsParts s depth (component :: components) trivia cs fields kept none := by
  rintro ls hls input quiet ps hps
  simp only [isGuard] at hguard
  split at hguard
  · rename_i capture negated name
    split at hguard
    · rename_i n t captureAs ifNoMatch pick asNode hd
      have hmem := List.mem_of_find?_eq_some hd
      obtain rfl : n = name := by simpa using List.find?_some hd
      cases hls with
      | @cons _ _ _ _ _ ls hq hls =>
        cases hq with
        | ahead hq =>
          cases hq with
          | @rule ref href =>
            obtain ⟨m, hy⟩ := yields_token hg hmem rfl rfl href rfl input ps.cursor trivia true
            obtain ⟨r, hr, hyr⟩ := hrest fields kept _ hls input quiet
              (ps.push none capture (.empty ps.cursor)) ⟨hps.cursor, hps.fields, hps.kept⟩
            refine ⟨r, hr, ?_⟩
            cases hr with
            | none =>
              simp only [matchComponents, matchPattern, bind_assoc, pure_bind]
              refine (hy.mono hdepth).bind ?_
              cases m.isSome != negated with
              | true => exact hyr
              | false => exact .pure none
    · cases hguard
  · cases hguard

theorem readsParts_of_partsFail (hg : Grammar.link table (some skipped) = .ok s.grammar)
    (hdepth : 1 ≤ depth) {f : PatternDef → List Char → Verdict} {trivia : Bool}
    (hf : ∀ p cs, (f p cs).Holds s depth p trivia cs tail) {components : List ComponentDef}
    {cs : List Char} (h : partsFail table f components cs = true) (fields : Captures)
    (kept : Bool) : ReadsParts s depth components trivia (cs ++ tail) fields kept none := by
  induction components generalizing cs fields kept with
  | nil => cases h
  | cons component components ih =>
    have hp := hf component.pattern cs
    simp only [partsFail] at h
    split at h
    · rename_i hcond
      simp only [Bool.and_eq_true] at hcond
      obtain ⟨hguard, hrest⟩ := hcond
      exact readsParts_guard hg hdepth hguard (ih hrest) fields kept
    · split at h
      · rename_i hv
        rw [hv] at hp
        exact readsParts_none hp
      · rename_i mid hv
        rw [hv] at hp
        obtain ⟨v, hp⟩ := hp
        exact readsParts_later hp (ih h)
      · cases h

include htail

theorem skipFrom_of_foreskip {l : Lexeme} (hl : l.Read) (hgroup : l.group = 0) {fuel : Nat}
    {cs mid : List Char} (h : foreskip l.toTerminal ends fuel cs = some mid) {text : Text}
    {offset : Nat} (hcs : text.Has offset (cs ++ tail)) {more : Nat}
    (hmore : byteLength (cs ++ tail) < more) :
    text.Has (skipFrom l text more offset) (mid ++ tail) := by
  induction fuel generalizing cs offset more with
  | zero => cases h
  | succ fuel ih =>
    obtain ⟨more, rfl⟩ : ∃ n, more = n + 1 := ⟨more - 1, by omega⟩
    rw [foreskip] at h
    simp only [skipFrom, hcs.after?, hcs.left, Option.bind_some, Lexeme.matchLength?_eq hgroup]
    split at h
    · rename_i n str hf
      obtain ⟨rest, hdrop, hrest⟩ := Option.bind_eq_some_iff.1 h
      obtain ⟨front, rfl, hfront⟩ := dropBytes?_eq_some.1 hdrop
      rw [Terminal.takes_of_foresee hf htail l hl rfl]
      rw [List.append_assoc] at hcs hmore
      have hmove := hcs.move
      rw [← hfront] at hmove
      rw [byteLength_append] at hmore
      exact ih hrest hmove (by omega)
    · rename_i r hnot hf
      cases h
      rw [Terminal.takes_of_foresee hf htail l hl rfl]
      split
      · rename_i n hr
        obtain ⟨⟨_, str⟩, rfl, rfl⟩ := Option.map_eq_some_iff.1 hr
        exact (hnot n str rfl).elim
      · exact hcs
    · cases h

include hg hgroup

theorem leads_of_foreLead {trivia : Bool} {cs mid : List Char}
    (h : foreLead skipped ends trivia cs = some mid) :
    Leads s trivia (cs ++ tail) (mid ++ tail) := by
  intro text offset hcs quiet
  cases trivia with
  | false =>
    cases h
    exact hcs
  | true =>
    obtain ⟨l, hl, rfl, hread⟩ := Grammar.trivia_of_link hg
    have hsize := hcs.size
    simp only [leading, hl, skipTrivia, if_true]
    exact skipFrom_of_foreskip htail hread hgroup h hcs (by omega)

theorem holds_terminal {t : Terminal} {trivia : Bool} {cs mid : List Char}
    (hlead : foreLead skipped ends trivia cs = some mid) :
    (foretellTerminal ends t mid).Holds s depth (.terminal t) trivia cs tail := by
  have hlead := leads_of_foreLead hg hgroup htail hlead
  simp only [foretellTerminal]
  split
  · rename_i hf
    exact reads_terminal_none hlead (Terminal.takes_of_foresee hf htail)
  · rename_i n str hf
    split
    · rename_i rest hdrop
      obtain ⟨front, rfl, rfl⟩ := dropBytes?_eq_some.1 hdrop
      have htakes := Terminal.takes_of_foresee hf htail
      rw [List.append_assoc] at hlead htakes
      exact ⟨_, reads_terminal hlead htakes⟩
    · trivial
  · trivial

/-- What is foretold comes true. -/
theorem foretell_holds (fuel : Nat) (trivia : Bool) (p : PatternDef) (cs : List Char) :
    (foretell table skipped ends fuel trivia p cs).Holds s fuel p trivia cs tail := by
  induction fuel generalizing trivia p cs with
  | zero => trivial
  | succ fuel ih =>
    have hup : ∀ trivia p cs, (foretell table skipped ends fuel trivia p cs).Holds s
        (fuel + 1 : Nat) p trivia cs tail :=
      fun trivia p cs => (ih trivia p cs).mono (Nat.cast_le.2 (Nat.le_succ fuel))
    cases p with
    | terminal t =>
      simp only [foretell]
      split
      · rename_i hlead
        exact holds_terminal hg hgroup htail hlead
      · trivial
    | rule name =>
      simp only [foretell]
      split
      · rename_i d hd
        have hmem := List.mem_of_find?_eq_some hd
        obtain rfl : d.name = name := by simpa using List.find?_some hd
        split
        · rename_i hv
          have hp := ih trivia d.pattern cs
          rw [hv] at hp
          exact reads_rule_none hg hmem hp
        · trivial
      · trivial
    | sequence components =>
      simp only [foretell]
      split
      · rename_i h
        exact reads_sequence_none (readsParts_of_partsFail hg
          (Nat.one_le_cast.2 (Nat.succ_pos fuel)) (fun p cs => hup trivia p cs) h _ _)
      · trivial
    | choice alternatives =>
      simp only [foretell]
      exact holds_first (fun p cs => hup trivia p cs) alternatives cs
    | repetition item separator least trailing =>
      simp only [foretell]
      split
      · rename_i hv
        have hp := hup trivia item cs
        rw [hv] at hp
        have hr : Reads s (fuel + 1 : Nat) (.repetition item separator least trailing) trivia (cs ++ tail) _ :=
          reads_repetition_none hp
        split
        · rename_i hleast
          rw [if_pos hleast] at hr
          exact ⟨_, hr⟩
        · rename_i hleast
          rw [if_neg hleast] at hr
          exact hr
      · trivial
    | optional p =>
      have hp := hup trivia p cs
      simp only [foretell]
      cases hv : foretell table skipped ends fuel trivia p cs with
      | fails =>
        rw [hv] at hp
        exact ⟨_, reads_optional_none hp⟩
      | takes rest =>
        rw [hv] at hp
        obtain ⟨v, hp⟩ := hp
        exact ⟨v, reads_optional_some hp⟩
      | unclear => trivial
    | ahead negated p =>
      have hp := hup trivia p cs
      simp only [foretell]
      cases hv : foretell table skipped ends fuel trivia p cs with
      | fails =>
        rw [hv] at hp
        have ha : Reads s (fuel + 1 : Nat) (.ahead negated p) trivia (cs ++ tail) _ := reads_ahead hp
        cases negated with
        | true => exact ⟨_, ha⟩
        | false => exact ha
      | takes rest =>
        rw [hv] at hp
        obtain ⟨v, hp⟩ := hp
        have ha : Reads s (fuel + 1 : Nat) (.ahead negated p) trivia (cs ++ tail) _ := reads_ahead hp
        cases negated with
        | true => exact ha
        | false => exact ⟨_, ha⟩
      | unclear => trivial
    | trivia skip p =>
      have hp := hup skip p cs
      simp only [foretell]
      cases hv : foretell table skipped ends fuel skip p cs with
      | fails =>
        rw [hv] at hp
        exact reads_trivia hp trivia
      | takes rest =>
        rw [hv] at hp
        obtain ⟨v, hp⟩ := hp
        exact ⟨v, reads_trivia hp trivia⟩
      | unclear => trivial
    | silent p =>
      have hp := hup trivia p cs
      simp only [foretell]
      cases hv : foretell table skipped ends fuel trivia p cs with
      | fails =>
        rw [hv] at hp
        exact reads_silent hp
      | takes rest =>
        rw [hv] at hp
        obtain ⟨v, hp⟩ := hp
        exact ⟨_, reads_silent hp⟩
      | unclear => trivial
    | scan sc =>
      simp only [foretell]
      split
      · rename_i mid hlead
        split
        · rename_i h
          simp only [Bool.and_eq_true, Option.isNone_iff_eq_none] at h
          obtain ⟨hends, hscan⟩ := h
          have hlead := leads_of_foreLead hg hgroup htail hlead
          obtain rfl := htail hends
          rw [List.append_nil mid] at hlead
          exact reads_scan_none hlead hscan
        · trivial
      · trivial
    | endOfInput => trivial

theorem reads_of_fails {fuel : Nat} {trivia : Bool} {p : PatternDef} {cs : List Char}
    (h : foretell table skipped ends fuel trivia p cs = .fails) :
    Reads s fuel p trivia (cs ++ tail) none := by
  have hholds := foretell_holds hg hgroup htail fuel trivia p cs
  rwa [h] at hholds

end Soundness

section Token

/-- The characters that a terminal takes, those behind them, and the text that it yields. -/
def Terminal.forecast? (t : Terminal) (ends : Bool) (cs : List Char) :
    Option (List Char × List Char × String) :=
  match t.foresee? ends cs with
  | some (some (n, str)) => (dropBytes? n cs).map fun rest => (takeBytes n cs, rest, str)
  | _ => none

/-- A terminal that stands for an operator, and what may not follow it. -/
structure Token where
  terminal : Terminal
  next : Option Terminal

def Token.pattern (t : Token) : PatternDef :=
  match t.next with
  | none => .terminal t.terminal
  | some u => seq [t.terminal, notAhead (raw u)]

/-- What a token leaves of some characters, and the text that it yields. -/
def Token.foretell (skipped : Terminal) (ends : Bool) (t : Token) (cs : List Char) :
    Option (List Char × String) :=
  match foreLead skipped ends true cs with
  | some mid =>
    match t.terminal.forecast? ends mid with
    | some (front, rest, str) =>
      match t.next with
      | none => some (rest, str)
      | some u =>
        if u.foresee? ends rest = some none ∧ front ≠ [] then some (rest, String.ofList front)
        else none
    | none => none
  | none => none

variable {s : Setting} {depth : ℕ∞} {table : List RuleDef} {skipped : Terminal} {ends : Bool}
  (hg : Grammar.link table (some skipped) = .ok s.grammar) (hgroup : skipped.group = 0)
  {tail : List Char} (htail : ends = true → tail = [])

include htail in
theorem Terminal.takes_of_forecast {t : Terminal} {cs front rest : List Char} {str : String}
    (h : t.forecast? ends cs = some (front, rest, str)) :
    cs = front ++ rest ∧
      t.Takes (front ++ (rest ++ tail)) (some (byteLength front, str)) := by
  simp only [forecast?] at h
  split at h
  · rename_i n str' hf
    obtain ⟨rest', hdrop, h⟩ := Option.map_eq_some_iff.1 h
    obtain ⟨front', rfl, rfl⟩ := dropBytes?_eq_some.1 hdrop
    rw [takeBytes_append] at h
    cases h
    refine ⟨rfl, ?_⟩
    rw [← List.append_assoc]
    exact takes_of_foresee hf htail
  · cases h

/-- A terminal that no text of another terminal follows yields the text that it takes. -/
theorem reads_guarded {t u : Terminal} {trivia : Bool} {cs front rest : List Char} {str : String}
    (hlead : Leads s trivia cs (front ++ rest))
    (ht : t.Takes (front ++ rest) (some (byteLength front, str))) (hfront : front ≠ [])
    (hu : u.Takes rest none) :
    Reads s depth (seq [t, notAhead (raw u)]) trivia cs
      (some (rest, .text (String.ofList front))) := by
  rintro q hq input quiet offset hcs
  have hpos := byteLength_pos hfront
  have hmid := hlead _ _ hcs quiet
  have hstop := hmid.move
  have hguard : Reads s depth (notAhead (raw u)) trivia rest (some (rest, .null)) :=
    reads_ahead (reads_trivia (reads_terminal_none (leads_raw s rest) hu) trivia)
  cases hq with
  | sequence hls =>
    cases hls with
    | cons hq hls =>
      cases hq with
      | @terminal l hl =>
        cases hls with
        | cons hq hls =>
          cases hls
          let start := leading s.grammar.trivia input.text ⟨trivia, quiet⟩ offset
          obtain ⟨m, hm, hy⟩ := hguard _ hq input quiet _ hstop
          cases hm with
          | @some _ start' stop _ hrest =>
            obtain rfl : stop = start + byteLength front := by
              have hsize := hrest.size
              have hsize' := hstop.size
              omega
            let parts : Parts := ⟨start + byteLength front, some start, .empty, false⟩
            have hpush : (Parts.startingAt offset).push none .value
                ⟨start, start + byteLength front, .text str⟩ = parts := by
              simp [Parts.push, Parts.startingAt, Matched.consumed, hpos, parts]
            refine ⟨some (parts.finish input.text), ?_, ?_⟩
            · have hfinish : parts.finish input.text =
                  ⟨start, start + byteLength front, .text (String.ofList front)⟩ := by
                rw [← hmid.cut]
                rfl
              rw [hfinish]
              exact .some hstop
            · have hcursor : (Parts.startingAt offset).cursor = offset := rfl
              simp only [matchPattern, matchComponents, hcursor, hmid.after?, hmid.left,
                Option.bind_some, ht l hl rfl, bind_assoc]
              refine Yields.bind (.leaf _ _ _) ?_
              simp only [Option.map_some]
              rw [hpush]
              simp only [bind_assoc]
              refine Yields.bind hy ?_
              exact .pure _

include hg hgroup htail in
theorem Token.reads_of_foretell {t : Token} {cs rest : List Char} {str : String}
    (h : t.foretell skipped ends cs = some (rest, str)) :
    Reads s depth t.pattern true (cs ++ tail) (some (rest ++ tail, .text str)) := by
  obtain ⟨t, next⟩ := t
  simp only [foretell] at h
  split at h
  · rename_i mid hlead
    have hlead := leads_of_foreLead hg hgroup htail hlead
    split at h
    · rename_i front rest' str' hf
      obtain ⟨rfl, htakes⟩ := Terminal.takes_of_forecast htail hf
      rw [List.append_assoc] at hlead
      cases next with
      | none =>
        cases h
        exact reads_terminal hlead htakes
      | some u =>
        simp only at h
        split at h
        · rename_i hcond
          obtain ⟨hu, hfront⟩ := hcond
          cases h
          exact reads_guarded hlead htakes hfront (Terminal.takes_of_foresee hu htail)
        · cases h
    · cases h
  · cases h

end Token

end PhpSyntax.Peg
