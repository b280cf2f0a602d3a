import PhpSyntax.Cli.Run
import PhpSyntax.Proofs.Php.WellFormed
import PhpSyntax.Proofs.Render.Json
import PhpSyntax.Proofs.Render.Tree

namespace PhpSyntax

namespace Document

def keys : Document → List String
  | .object ms => ms.map (·.1)
  | _ => []

theorem keys_ofNode (n : Node) : (ofNode n).keys =
    "name" :: (n.fields.keys ++ (placeMembers n.bounds n.extent).map (·.1)) := by
  obtain ⟨name, ⟨es⟩, bounds, extent⟩ := n
  have hentries : (ofEntries es).map (·.1) = es.map (·.1) := by
    induction es with
    | nil => rfl
    | cons e es ih => rw [ofEntries, List.map_cons, List.map_cons, ih]
  simp only [ofNode, ofValue, keys, List.cons_append, List.map_cons, List.map_append, hentries,
    Fields.keys]

end Document

namespace Php

theorem Keyed.unplaced_members {n : Node} (h : Keyed n) : n.fields.keys.Disjoint
    ((Document.placeMembers n.bounds n.extent).map (·.1)) := by
  intro key hkey hplace
  simp only [Document.placeMembers, List.map_append, List.mem_append, List.mem_map,
    Option.mem_toList, Option.map_eq_some_iff] at hplace
  obtain ⟨_, ⟨_, _, rfl⟩, rfl⟩ | ⟨_, ⟨_, _, rfl⟩, rfl⟩ := hplace
  · exact h.unplaced.1 hkey
  · exact h.unplaced.2 hkey

theorem placeMembers_nodup (bounds : Option Bounds) (extent : Option Extent) :
    ((Document.placeMembers bounds extent).map (·.1)).Nodup ∧
      "name" ∉ (Document.placeMembers bounds extent).map (·.1) := by
  cases bounds <;> cases extent <;> simp [Document.placeMembers]

/-- No key comes twice in the map of a node, except that of the tag. -/
structure Unambiguous (n : Node) : Prop where
  behindTag : (Document.ofNode n).keys.tail.Nodup
  distinct : n.name ∉ named → (Document.ofNode n).keys.Nodup

theorem Keyed.unambiguous {n : Node} (h : Keyed n) : Unambiguous n := by
  obtain ⟨hplace, hname⟩ := placeMembers_nodup n.bounds n.extent
  have hrest := List.nodup_append'.2 ⟨h.distinct, hplace, h.unplaced_members⟩
  refine ⟨?_, fun hnamed => ?_⟩
  · rw [Document.keys_ofNode]
    exact hrest
  · rw [Document.keys_ofNode]
    refine List.nodup_cons.2 ⟨?_, hrest⟩
    rw [List.mem_append, not_or]
    exact ⟨fun hkey => hnamed (h.named hkey), hname⟩

theorem WellFormed.keyed {n : Node} (h : WellFormed n) : (Value.node n).Finished Keyed := by
  obtain ⟨-, vs, hentries, hfront, hlast⟩ := h
  have hsound : ∀ v : Value, v.Finished Sound → v.Finished Keyed := fun v hv =>
    hv.imp fun _ hn => hn.toKeyed
  have hhalt : ∀ v, Halts v → v.Finished Keyed := by
    rintro v ⟨m, data, rfl, -, hdata, hfinished⟩
    have hkeys : m.fields.keys = ["data"] := by
      rw [Fields.keys, hdata]
      rfl
    refine Value.finished_node.2 ⟨keyed_of_keys hkeys (by decide), ?_⟩
    rw [hdata]
    simpa using hsound data hfinished
  have hstatements : ∀ v ∈ vs, v.Finished Keyed := by
    intro v hv
    obtain rfl | hne := eq_or_ne vs []
    · cases hv
    rw [← List.dropLast_append_getLast hne, List.mem_append, List.mem_singleton] at hv
    obtain hv | rfl := hv
    · exact hsound v (hfront v hv)
    · exact (hlast _ (List.getLast?_eq_getLast_of_ne_nil hne)).elim (hsound _) (hhalt _)
  have hkeys : n.fields.keys = ["statements"] := by
    rw [Fields.keys, hentries]
    rfl
  refine Value.finished_node.2 ⟨keyed_of_keys hkeys (by decide), ?_⟩
  rw [hentries]
  simpa using hstatements

/-- In what is written of an accepted source, the key of the tag comes again where a namespace or
the clause of an import has a name; no other key comes twice in a map. -/
theorem rendered_unambiguous {p : Parser} {source : String} {n : Node} (h : p.parse source = .ok n) :
    (Value.node n).Finished Unambiguous :=
  (wellFormed_of_parse h).keyed.imp fun _ hm => hm.unambiguous

end Php

/-- The JSON of an accepted source's tree, on one line or indented, is the same document, and the
tree can be read from it. -/
theorem rendered_lossless (p : Parser) (source : String) (n : Node) (h : p.parse source = .ok n) :
    ∃ d, Json.read? (Cli.render .json n) = some d ∧ Json.read? (Json.compact (.ofNode n)) = some d ∧
      d.value? = some (.node n) :=
  ⟨.ofNode n, Json.read?_pretty 0 _, Json.read?_compact _,
    Document.value?_ofValue _ ((Php.wellFormed_of_parse h).keyed.imp fun _ hm => hm.unplaced)⟩

theorem rendered_lossless_literal : ∃ n d,
    Parser.standard.parse (Php.Quoting.single.source "a") = .ok n ∧
      Json.read? (Cli.render .json n) = some d ∧ d.value? = some (.node n) := by
  obtain ⟨n, hn, -⟩ := Parser.parse_of_run (run_literal .single "a") .standard
  obtain ⟨d, hpretty, -, hvalue⟩ := rendered_lossless _ _ n hn
  exact ⟨n, d, hn, hpretty, hvalue⟩

end PhpSyntax
