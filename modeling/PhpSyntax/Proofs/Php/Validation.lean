import PhpSyntax.Proofs.Check.Agreement
import PhpSyntax.Proofs.Check.Nullable
import PhpSyntax.Proofs.Peg.Laying
import PhpSyntax.Proofs.Php.Locating
import PhpSyntax.Proofs.Regex.Language

namespace PhpSyntax.Php

open Peg Check

section Scanners

theorem markupScanner_evenly : markupScanner.Evenly := fun _ _ _ => rfl

theorem restScanner_evenly : restScanner.Evenly := fun _ _ _ => rfl

theorem scanDoc_evenly (name : String) (kind : DocKind) : Scanner.Evenly ⟨name, scanDoc kind⟩ := by
  intro cs v h
  obtain ⟨head, body, newline, label, rest, hne, -, -, hn, -⟩ := scanDoc_some h
  obtain ⟨c, head, rfl⟩ := List.exists_cons_of_ne_nil hne
  have hpos := byteLength_cons_pos c (head ++ (body ++ (newline ++ label)))
  rw [List.cons_append] at hn
  omega

theorem scanLiteralRun_evenly (name : String) (set : Literal.EscapeSet) :
    Scanner.Evenly ⟨name, scanLiteralRun set⟩ := by
  intro cs v h
  simp only [scanLiteralRun] at h
  split at h
  · cases h
  · rename_i hne
    obtain ⟨hn, -⟩ := Prod.mk.inj (Option.some.inj h)
    obtain ⟨c, run, hrun⟩ := List.exists_cons_of_ne_nil hne
    have hpos := byteLength_cons_pos c run
    rw [hrun] at hn
    omega

theorem rules_evenly : ∀ sc ∈ rules.flatMap (·.pattern.scanners), sc.Evenly := by
  rw [rules_scanners]
  simp only [List.forall_mem_cons]
  exact ⟨markupScanner_evenly, restScanner_evenly, markupScanner_evenly, scanDoc_evenly _ _,
    scanDoc_evenly _ _, scanLiteralRun_evenly _ _, scanLiteralRun_evenly _ _, by simp⟩

end Scanners

/-- A program that always takes a character belongs to a terminal that is never empty. -/
theorem evenly_of_takesSome {t : Terminal} (h : t.program?.all (·.takesSome) = true) :
    t.Evenly := by
  intro l hl cs yielded hmatch
  obtain ⟨program, hprogram, rfl⟩ := Option.map_eq_some_iff.1 hl
  rw [hprogram] at h
  obtain ⟨f, hf, heq⟩ := Option.map_eq_some_iff.1 hmatch
  have hpos := Regex.Program.find?_takesSome h hf
  have hstop : f.stop = 0 := congrArg Prod.fst heq
  omega

/-- A regex that matches no empty text belongs to a terminal that takes something. -/
theorem grasps_of_takesSome {t : Terminal} (h : t.regex?.all (·.takesSome) = true) :
    t.Grasps := by
  intro l hl cs n yielded hmatch
  rw [Terminal.lexeme?, Terminal.program?_eq, Option.map_map] at hl
  obtain ⟨r, hr, rfl⟩ := Option.map_eq_some_iff.1 hl
  obtain ⟨f, hf, ⟨⟩⟩ := Option.map_eq_some_iff.1 hmatch
  rw [hr, Option.all_some, Regex.takesSome, Option.any_eq_true] at h
  obtain ⟨k, hk, hpos⟩ := h
  exact (of_decide_eq_true hpos).trans_le (Regex.Program.find?_shortest hk hf)

section Clean

variable {table : List RuleDef} {roots : List String}

/-- Matches of roots end at the end of input, and matches that take nothing are those of rules that
can match nothing. -/
def fullReads (table : List RuleDef) (roots : List String) : Invariant where
  good _ := True
  holds input name _ offset m := (name ∈ roots → m.stop = input.text.size) ∧
    (m.stop = offset → name ∈ nullableRules table)
  fails _ := True

/-- What a clean report says of a table. -/
structure Clean (table : List RuleDef) (roots : List String) : Prop where
  nodup : (table.map (·.name)).Nodup
  ends : ∀ d ∈ table, d.name ∈ roots → endsAtEnd d.pattern = true
  advances : ∀ d ∈ table, repeatsNullable (nullableRules table) d.pattern = false

theorem clean_of_report (herrors : (report table roots).errors = [])
    (hwarnings : (report table roots).warnings = []) : Clean table roots := by
  simp only [report, List.append_eq_nil_iff] at herrors hwarnings
  obtain ⟨⟨⟨hduplicates, -⟩, -⟩, hnullable⟩ := herrors
  obtain ⟨hopen, -⟩ := hwarnings
  have hnodup := duplicateErrors_eq_nil.1 hduplicates
  refine ⟨hnodup, fun d hd hroot => ?_, fun d hd => ?_⟩
  · rw [openRootWarnings, List.map_eq_nil_iff, List.filter_eq_nil_iff] at hopen
    have hd' := hopen d.name hroot
    cases hfound : table.find? (·.name == d.name) with
    | none =>
      have := List.find?_eq_none.1 hfound d hd
      simp at this
    | some found =>
      have hname : found.name = d.name := by simpa using List.find?_some hfound
      rw [hfound, List.inj_on_of_nodup_map hnodup (List.mem_of_find?_eq_some hfound) hd hname] at hd'
      simpa using hd'
  · rw [nullableErrors, List.map_eq_nil_iff, List.filter_eq_nil_iff] at hnullable
    simpa using hnullable d hd

/-- Terminals and scanners that match the empty text if they match nothing of any. -/
structure Even (table : List RuleDef) : Prop where
  terminals : ∀ t ∈ table.flatMap (·.pattern.terminals), t.Evenly
  scanners : ∀ sc ∈ table.flatMap (·.pattern.scanners), sc.Honest ∧ sc.Evenly

theorem Even.of_mem (h : Even table) {d : RuleDef} (hd : d ∈ table) :
    (∀ t ∈ d.pattern.terminals, t.Evenly) ∧ ∀ sc ∈ d.pattern.scanners, sc.Honest ∧ sc.Evenly :=
  ⟨fun t ht => h.terminals t (List.mem_flatMap.2 ⟨d, hd, ht⟩),
    fun sc hsc => h.scanners sc (List.mem_flatMap.2 ⟨d, hd, hsc⟩)⟩

theorem fullReads_closed (s : Setting) (hclean : Clean table roots) (heven : Even table) :
    (fullReads table roots).Closed s table where
  deep _ _ _ _ := trivial
  shape input _ d hd skip offset m hb hplaced hm reparse _ := by
    obtain ⟨hterminals, hscanners⟩ := heven.of_mem hd
    have hcalls : ∀ r skip offset m, input.text.Boundary offset →
        (fullReads table roots).calls input r skip offset m → m.Placed input.text offset :=
      fun _ _ _ _ _ h => h.1
    refine ⟨fun v _ => ⟨fun hroot => ?_, fun hstop => ?_⟩, fun _ _ => trivial⟩
    · have hend : m.stop = input.text.size := stop_of_endsAtEnd hcalls d.pattern
        (fun sc hsc => (hscanners sc hsc).1) (hclean.ends d hd hroot) hb hm
      exact hend
    · exact mem_nullableRules hd (isNullable_of_matches hcalls
        (fun r skip offset m h hstop => h.2.2 hstop) d.pattern hterminals hscanners hb hm hstop)

/-- Patterns beneath which no repetition without separators has an item that can match nothing. -/
theorem repeats_hereditary (nullable : List String) :
    Hereditary fun q => repeatsNullable nullable q.written = false where
  component {cs} h := by
    have h : componentsRepeatNullable nullable
        (Pattern.mapComponents Lexeme.toTerminal RuleRef.name cs) = false := h
    induction cs with
    | nil => exact nofun
    | cons c rest ih =>
      obtain ⟨hc, hrest⟩ := Bool.or_eq_false_iff.1 h
      exact List.forall_mem_cons.2 ⟨hc, ih hrest hrest⟩
  alternative {ps} h := by
    have h : someRepeatsNullable nullable
        (Pattern.mapAll Lexeme.toTerminal RuleRef.name ps) = false := h
    induction ps with
    | nil => exact nofun
    | cons p rest ih =>
      obtain ⟨hp, hrest⟩ := Bool.or_eq_false_iff.1 h
      exact List.forall_mem_cons.2 ⟨hp, ih hrest hrest⟩
  item {_ separator _ _} h := by
    cases separator with
    | none => exact (Bool.or_eq_false_iff.1 h).2
    | some separator => exact (Bool.or_eq_false_iff.1 h).1
  separator h := (Bool.or_eq_false_iff.1 h).2
  optional h := h
  ahead h := h
  trivia h := h
  silent h := h

variable {skipped : Option Terminal} {g : Grammar} {s : Setting} {source input : Input}

section Occurring

variable (hl : s.grammar.Lists table) (hclean : Clean table roots) (heven : Even table)
  (hstart : source.text.Boundary 0)

include hl hclean heven hstart

/-- Wherever a session is at, a pattern that matches and takes nothing can match nothing. -/
theorem nullable_of_occurs {q : LinkedPattern} {skip : Bool} {offset : Nat} {σ σ' : Progress}
    (h : Occurs s source input (.pattern q skip offset) σ) {m : Matched}
    (hexec : Exec s (· ≤ s.limit) input (.pattern q skip offset) σ (.ok (some m)) σ')
    (hstop : m.stop = offset) : isNullable (nullableRules table) q.written = true := by
  have hclosed := fullReads_closed s hclean heven
  have hunderway := h.underway hclosed hl trivial hstart fun _ _ _ _ => trivial
  obtain ⟨hfit, hb⟩ := hunderway.before
  have hmatches : Matches s.grammar.trivia input.text ((fullReads table roots).calls input)
      q.written skip offset m := (hexec.kept hclosed hl hunderway).found m rfl
  have hterminals : ∀ l ∈ q.terminals, l.toTerminal.Evenly := by
    refine h.has (terminals_hereditary fun l => l.toTerminal.Evenly) fun id r hr l hl' => ?_
    refine (heven.of_mem (hl.written id r hr).1).1 _ ?_
    rw [LinkedRule.written, (Pattern.contents_map ..).1]
    exact List.mem_map_of_mem hl'
  have hscanners : ∀ sc ∈ q.scanners, sc.Evenly := by
    refine h.has (scanners_hereditary Scanner.Evenly) fun id r hr sc hsc => ?_
    refine ((heven.of_mem (hl.written id r hr).1).2 sc ?_).2
    rw [LinkedRule.written, Pattern.scanners_map]
    exact hsc
  refine isNullable_of_matches (fun _ _ _ _ _ h => h.1) (fun _ _ _ _ h hstop => h.2.2 hstop)
    q.written ?_ ?_ hb hmatches hstop
  · rw [LinkedPattern.written, (Pattern.contents_map ..).1]
    exact List.forall_mem_map.2 hterminals
  · rw [LinkedPattern.written, Pattern.scanners_map]
    exact fun sc hsc => ⟨hfit.2 sc hsc, hscanners sc hsc⟩

/-- Wherever a session is at, an item of a repetition without separators takes something. -/
theorem advances_of_occurs {r : Repetition} {rs : Rounds} {next : Nat} {σ σ' : Progress}
    (h : Occurs s source input (.item r rs next) σ) (hr : r.separator = none) {m : Matched}
    (hexec : Exec s (· ≤ s.limit) input (.pattern r.item r.trivia next) σ (.ok (some m)) σ') :
    m.stop ≠ rs.cursor := by
  intro hstop
  have hunderway := h.underway (fullReads_closed s hclean heven) hl trivial hstart
    fun _ _ _ _ => trivial
  obtain ⟨-, -, hnext⟩ := hunderway.before
  have hhere : next = rs.cursor := by
    rw [hr] at hnext
    cases hnext with
    | leading _ => rfl
    | separated hp _ _ => cases hp
  have hnullable : isNullable (nullableRules table) r.item.written = true :=
    nullable_of_occurs hl hclean heven hstart (.part h .item) hexec (hstop.trans hhere.symm)
  have hrepeats : repeatsNullable (nullableRules table) r.pattern.written = false := by
    refine h.has (repeats_hereditary (nullableRules table)) fun id d hd => ?_
    exact hclean.advances _ (hl.written id d hd).1
  rw [Repetition.pattern, hr] at hrepeats
  exact absurd hnullable (by simpa using (Bool.or_eq_false_iff.1 hrepeats).1)

/-- What a run from a root matches ends at the end of input. -/
theorem run_reads_all (runs : List (String × Bool)) {rule : String} (hrule : rule ∈ roots)
    (skip : Bool) {v : Value}
    (hrun : (((Session.start s source).after Session.run runs).run rule skip).1 = .ok v) :
    ∃ id m memory, s.grammar.ruleId? rule = some id ∧
      invoke s s.limit source ⟨id, 0, skip, false⟩
        ((Session.start s source).after Session.run runs).memory = .ok (some m) memory ∧
      m.value = v ∧ m.stop = source.text.size := by
  have hclosed := fullReads_closed s hclean heven
  obtain ⟨hsetting, hinput, hsane⟩ := sane_after (.start s source) (sane_empty _) runs
  have hremembers : (fullReads table roots).Remembers s source
      ((Session.start s source).after Session.run runs).memory :=
    (fullReads table roots).remembers_after hclosed hl trivial hstart runs
  generalize (Session.start s source).after Session.run runs = session at *
  obtain ⟨s', source', memory⟩ := session
  obtain rfl : s' = s := hsetting
  obtain rfl : source' = source := hinput
  cases hid : s'.grammar.ruleId? rule with
  | none =>
    rw [Session.run_eq (runWith_unknown hid ..)] at hrun
    cases hrun
  | some id =>
    obtain ⟨o, memory', hx, -, -, hexec⟩ :=
      invoke_performs (Nat.zero_add s'.limit) source' 0 id 0 skip memory hsane
    rw [Session.run_eq (runWith_eq hid hx)] at hrun
    cases o with
    | error e => cases hrun
    | ok found =>
      cases found with
      | none => cases hrun
      | some m =>
        obtain ⟨r, hr, rfl⟩ := hl.named _ _ hid
        have hkept := (hexec.keeps hclosed hl trivial hremembers hstart).found m rfl r hr
        exact ⟨id, m, memory', rfl, hx, Except.ok.inj hrun, hkept.2.1 hrule⟩

end Occurring

/-- A table of which no error and no warning is reported, linked with any trivia: whatever is run
before, a run from a root that succeeds matches up to the end of input; and whatever is run, a
pattern that matches and takes nothing is one that is said to match nothing, so that no repetition
without separators ends because its item took nothing. -/
theorem clean_report_holds (hlink : Grammar.link table skipped = .ok g)
    (herrors : (report table roots).errors = []) (hwarnings : (report table roots).warnings = [])
    (hscanners : ∀ sc ∈ table.flatMap (·.pattern.scanners), sc ∈ rules.flatMap (·.pattern.scanners))
    (hterminals : ∀ t ∈ table.flatMap (·.pattern.terminals), t.Evenly)
    (lines : Lines) (options : Options) (limit : Nat) (text : String) (base : Nat) :
    let s : Setting := ⟨g, lines, options, limit⟩
    let source : Input := ⟨.ofString text, base⟩
    (∀ runs, ∀ rule ∈ roots, ∀ skip v,
      (((Session.start s source).after Session.run runs).run rule skip).1 = .ok v →
        ∃ id m memory, g.ruleId? rule = some id ∧
          invoke s limit source ⟨id, 0, skip, false⟩
            ((Session.start s source).after Session.run runs).memory = .ok (some m) memory ∧
          m.value = v ∧ m.stop = source.text.size) ∧
    (∀ input q skip offset σ m σ', Occurs s source input (.pattern q skip offset) σ →
      Exec s (· ≤ limit) input (.pattern q skip offset) σ (.ok (some m)) σ' → m.stop = offset →
        isNullable (nullableRules table) q.written = true) ∧
    ∀ input r rs next σ m σ', Occurs s source input (.item r rs next) σ → r.separator = none →
      Exec s (· ≤ limit) input (.pattern r.item r.trivia next) σ (.ok (some m)) σ' →
        m.stop ≠ rs.cursor := by
  intro s source
  have honest : ∀ sc ∈ table.flatMap (·.pattern.scanners), sc.Honest :=
    fun sc hsc => rules_honest sc (hscanners sc hsc)
  have hl : s.grammar.Lists table := Grammar.lists_of_link hlink honest
  have hclean := clean_of_report herrors hwarnings
  have heven : Even table :=
    ⟨hterminals, fun sc hsc => ⟨honest sc hsc, rules_evenly sc (hscanners sc hsc)⟩⟩
  have hstart : source.text.Boundary 0 := ⟨_, Text.has_start _⟩
  refine ⟨fun runs rule hrule skip v hrun => ?_, fun input q skip offset σ m σ' h hexec hstop => ?_,
    fun input r rs next σ m σ' h hr hexec => ?_⟩
  · exact run_reads_all hl hclean heven hstart runs hrule skip hrun
  · exact nullable_of_occurs hl hclean heven hstart h hexec hstop
  · exact advances_of_occurs hl hclean heven hstart h hr hexec

/-- Sums of signed digits in parentheses. -/
def sums : List RuleDef :=
  [.ofPattern "Sum" (seq ["Terms", atEnd]),
    .ofPattern "Terms" (list1 "Term" (lit "+")),
    .ofPattern "Term" (seq ["Sign", oneOf [many1 (re "[0-9]"), seq [lit "(", "Terms", lit ")"]]]),
    .ofPattern "Sign" (opt (lit "-"))]

/-- Nothing is reported of sums, so what is read of them as a sum is read to its end. Only signs
are ever read without taking anything, and every digit takes something. -/
theorem clean_report_holds_sums :
    (report sums ["Sum"]).errors = [] ∧ (report sums ["Sum"]).warnings = [] ∧
      nullableRules sums = ["Sign"] ∧
      ∃ g, Grammar.link sums (some (re " ")) = .ok g ∧ ∀ text : String,
        let s : Setting := ⟨g, .ofText (.ofString text), .off, 100⟩
        let source : Input := ⟨.ofString text, 0⟩
        (∀ v, ((Session.start s source).run "Sum" true).1 = .ok v →
          ∃ id m memory, g.ruleId? "Sum" = some id ∧
            invoke s 100 source ⟨id, 0, true, false⟩ .empty = .ok (some m) memory ∧
            m.value = v ∧ m.stop = source.text.size) ∧
        (∀ input q skip offset σ m σ', Occurs s source input (.pattern q skip offset) σ →
          Exec s (· ≤ 100) input (.pattern q skip offset) σ (.ok (some m)) σ' → m.stop = offset →
            isNullable ["Sign"] q.written = true) ∧
        ∀ input r rs next σ m σ', Occurs s source input (.item r rs next) σ →
          r.separator = none →
          Exec s (· ≤ 100) input (.pattern r.item r.trivia next) σ (.ok (some m)) σ' →
            m.stop ≠ rs.cursor := by
  have herrors : (report sums ["Sum"]).errors = [] := by decide +kernel
  have hwarnings : (report sums ["Sum"]).warnings = [] := by decide +kernel
  have hnullable : nullableRules sums = ["Sign"] := by decide +kernel
  have hscanners : sums.flatMap (·.pattern.scanners) = [] := rfl
  have hterminals : ∀ t ∈ sums.flatMap (·.pattern.terminals),
      t.program?.all (·.takesSome) = true := by
    have hall : (sums.flatMap (·.pattern.terminals)).all
        (·.program?.all (·.takesSome)) = true := by decide +kernel
    exact List.all_eq_true.1 hall
  obtain ⟨g, hg⟩ := Grammar.exists_link
    (show Grammar.links sums (re " ") = true by decide +kernel)
  refine ⟨herrors, hwarnings, hnullable, g, hg, fun text => ?_⟩
  obtain ⟨hreads, hempty, hadvances⟩ := clean_report_holds hg herrors hwarnings
    (by rw [hscanners]; simp) (fun t ht => evenly_of_takesSome (hterminals t ht))
    (.ofText (.ofString text)) .off 100 text 0
  rw [hnullable] at hempty
  exact ⟨hreads [] "Sum" (List.mem_singleton.2 rfl) true, hempty, hadvances⟩

end Clean

end PhpSyntax.Php
