import PhpSyntax.Cli.Run
import PhpSyntax.Proofs.Php.Page
import PhpSyntax.Proofs.Php.Ranges
import PhpSyntax.Proofs.Render.Yaml

namespace PhpSyntax.Cli

section Trimming

variable {s : String}

theorem trimEnd_toList : (trimEnd s).toList = s.toList.rdropWhile Unicode.isSpace := by
  rw [trimEnd, String.toList_ofList]
  rfl

theorem trimEnd_visible {c : Char} (hc : Unicode.isSpace c = false) (h : [c] <:+ s.toList) :
    trimEnd s = s := by
  obtain ⟨front, hs⟩ := h
  rw [← String.toList_inj, trimEnd_toList, ← hs, List.rdropWhile_concat_neg _ _ _ (by simp [hc])]

/-- Only one line break is trimmed, if and only if a visible character stands in front of it. -/
theorem trimEnd_iff {a b : Char} (h : [a, b] <:+ s.toList) :
    trimEnd s ++ "\n" = s ↔ b = '\n' ∧ Unicode.isSpace a = false := by
  obtain ⟨front, hs⟩ := h
  have hsplit : s.toList = (front ++ [a]) ++ [b] := by
    rw [← hs, List.append_assoc]
    rfl
  rw [← String.toList_inj, String.toList_append, trimEnd_toList]
  constructor
  · intro htrim
    obtain ⟨hfront, hlast⟩ := List.append_inj' (htrim.trans hsplit) rfl
    have hvisible := List.rdropWhile_last_not Unicode.isSpace s.toList (by simp [hfront])
    refine ⟨(List.singleton_inj.1 hlast).symm, ?_⟩
    simpa [hfront] using hvisible
  · rintro ⟨rfl, ha⟩
    have hbreak : Unicode.isSpace '\n' = true := by decide
    rw [hsplit, List.rdropWhile_concat_pos _ _ _ hbreak,
      List.rdropWhile_concat_neg _ _ _ (by simp [ha])]
    rfl

end Trimming

theorem printed_json (n : Node) : printed .json n = render .json n ++ "\n" := by
  have hends : ['\x7d'] <:+ (render .json n).toList := by
    obtain ⟨name, ⟨es⟩, bounds, extent⟩ := n
    refine ⟨("\x7b\n" ++ Json.prettyMembers 1 (("name", .text name) :: (Document.ofEntries es ++
      Document.placeMembers bounds extent)) ++ "\n" ++ Json.indent 0).toList, ?_⟩
    simp [render, Document.ofNode, Document.ofValue, Json.pretty]
  rw [printed, trimEnd_visible (by decide) hends]

/-- YAML is printed as it is rendered if and only if the text that it ends with shows its end. -/
theorem printed_yaml_iff (n : Node) : printed .yaml n = render .yaml n ↔
    ∀ s ∈ Yaml.lastText? (.ofNode n), Yaml.Shown s := by
  obtain ⟨a, b, hends, hshown⟩ := Yaml.write_closes 0 (.ofNode n)
  rw [← hshown, printed, trimEnd_iff]
  rw [render, Yaml.render, String.toList_ofList]
  exact hends

/-- Nothing but a line break is trimmed behind a tree. -/
def ShowsEnd (n : Node) : Format → Prop
  | .json => True
  | .yaml => ∀ s ∈ Yaml.lastText? (.ofNode n), Yaml.Shown s

/-- Trees that show their ends are told apart by what is printed if they are by their renderings. -/
theorem printed_tells {m n : Node} {format : Format} (hm : ShowsEnd m format)
    (hn : ShowsEnd n format) (h : printed format m = printed format n) :
    render format m = render format n := by
  cases format with
  | json =>
    rw [printed_json, printed_json] at h
    exact (String.append_left_inj "\n").1 h
  | yaml =>
    rw [(printed_yaml_iff m).2 hm, (printed_yaml_iff n).2 hn] at h
    exact h

section Places

theorem lastMemberText?_append (ms : List (String × Document)) {ns : List (String × Document)}
    (h : ns ≠ []) : Yaml.lastMemberText? (ms ++ ns) = Yaml.lastMemberText? ns := by
  induction ms with
  | nil => rfl
  | cons m ms ih =>
    obtain ⟨m', ms', hcons⟩ := List.exists_cons_of_ne_nil (List.append_ne_nil_of_right_ne_nil ms h)
    rw [← ih, List.cons_append, hcons, Yaml.lastMemberText?]

theorem lastText?_placed {n : Node} (h : n.isInstrumented = true) :
    Yaml.lastText? (.ofNode n) = none := by
  obtain ⟨name, ⟨es⟩, bounds, extent⟩ := n
  have hplace : Document.placeMembers bounds extent ≠ [] := by
    cases bounds <;> cases extent <;> simp_all [Document.placeMembers, NodeOf.isInstrumented]
  rw [Document.ofNode, Document.ofValue, Yaml.lastText?, lastMemberText?_append _ hplace]
  cases bounds <;> cases extent <;> simp_all [NodeOf.isInstrumented] <;> rfl

end Places

/-- A program that is parsed with places shows its end. -/
theorem showsEnd_of_parse {p : Parser} (hon : p.options.instruments = true) {source : String}
    {n : Node} (h : p.parse source = .ok n) (format : Format) : ShowsEnd n format := by
  have hwhole : (Text.ofString source).Holds 0 (.ofString source) := by
    refine ⟨source.toList, [], rfl, ?_⟩
    rw [List.append_nil]
    exact Text.has_start _
  obtain ⟨start, stop, hstands⟩ :=
    Php.session_stands hon hwhole ⟨_, Text.has_start _⟩ (Parser.run_of_parse h)
  have hplaced : n.isInstrumented = true := by
    have hnests := nests_of_stands hon hstands
    rw [NodeOf.isInstrumented, hnests.bounds, hnests.extent]
    exact hon
  cases format with
  | json => trivial
  | yaml =>
    intro s hs
    rw [lastText?_placed hplaced] at hs
    cases hs

/-- Two pages that differ by the number of line breaks at their end: they are rendered in different
ways, and printed alike. -/
theorem printed_conflates : ∃ m n, Parser.standard.parse "a\n\n" = .ok m ∧
    Parser.standard.parse "a\n\n\n" = .ok n ∧ render .yaml m ≠ render .yaml n ∧
      printed .yaml m = printed .yaml n := by
  have hparse : ∀ source, ¬Php.HasTag source.toList →
      Parser.standard.parse (Php.page source []) = .ok (Php.pageTree source []) := by
    intro source hsource
    have hsources : ∀ m ∈ [source], ¬Php.HasTag m.toList := by simpa using hsource
    obtain ⟨n, hn, -, hoff⟩ := Parser.parse_of_run (run_page hsources) .standard
    rw [hn, hoff rfl]
  have htwo : Php.page "a\n\n" [] = "a\n\n" := by decide +kernel
  have hthree : Php.page "a\n\n\n" [] = "a\n\n\n" := by decide +kernel
  exact ⟨_, _, htwo ▸ hparse "a\n\n" (by decide +kernel),
    hthree ▸ hparse "a\n\n\n" (by decide +kernel), by decide +kernel, by decide +kernel⟩

end PhpSyntax.Cli
