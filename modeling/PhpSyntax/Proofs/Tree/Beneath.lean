import Mathlib.Logic.Relation
import PhpSyntax.Proofs.Tree.Laid

namespace PhpSyntax

namespace Value

mutual

/-- The outermost nodes of a value, in the order of fields and lists. -/
def nodes : Value → List Node
  | .null | .bool _ | .text _ => []
  | .list vs => allNodes vs
  | .record ⟨es⟩ => entryNodes es
  | .node n => [n]

def allNodes : List Value → List Node
  | [] => []
  | v :: vs => v.nodes ++ allNodes vs

def entryNodes : List (String × Value) → List Node
  | [] => []
  | (_, v) :: es => v.nodes ++ entryNodes es

end

end Value

namespace NodeOf

def children (n : Node) : List Node :=
  Value.entryNodes n.fields.entries

/-- A node is in the tree of another one: it is that node itself, or beneath it. -/
def Bears : Node → Node → Prop :=
  Relation.ReflTransGen fun n c => c ∈ n.children

end NodeOf

namespace Value

variable {P : Node → Nat → Nat → Prop} {a b start stop : Nat}

mutual

theorem Laid.nodes : {v : Value} → {a b : Nat} → v.Laid P a b → AllLaid P (v.nodes.map .node) a b
  | .null, _, _, h | .bool _, _, _, h | .text _, _, _, h => h
  | .list _, _, _, h => AllLaid.nodes h
  | .record _, _, _, h => EntriesLaid.nodes h
  | .node _, _, _, h => allLaid_singleton.2 h

theorem AllLaid.nodes : {vs : List Value} → {a b : Nat} → AllLaid P vs a b →
    AllLaid P ((allNodes vs).map .node) a b
  | [], _, _, h => h
  | _ :: _, _, _, ⟨c, hv, hvs⟩ => by
    rw [allNodes, List.map_append, allLaid_append]
    exact ⟨c, Laid.nodes hv, AllLaid.nodes hvs⟩

theorem EntriesLaid.nodes : {es : List (String × Value)} → {a b : Nat} → EntriesLaid P es a b →
    AllLaid P ((entryNodes es).map .node) a b
  | [], _, _, h => h
  | _ :: _, _, _, ⟨c, hv, hes⟩ => by
    rw [entryNodes, List.map_append, allLaid_append]
    exact ⟨c, Laid.nodes hv, EntriesLaid.nodes hes⟩

end

/-- Each of some nodes that are laid out ends where the next one begins, or before. -/
theorem AllLaid.pairwise {ns : List Node} (h : AllLaid P (ns.map .node) a b) :
    ns.Pairwise fun n n' => ∃ s stop start t, stop ≤ start ∧ (Value.node n).Stands P s stop ∧
      (Value.node n').Stands P start t := by
  induction ns generalizing a with
  | nil => exact .nil
  | cons n ns ih =>
    obtain ⟨c, hn, hns⟩ := h
    refine List.pairwise_cons.2 ⟨fun n' hn' => ?_, ih hns⟩
    obtain ⟨s, stop, -, hstop, hstands⟩ := hn.stands
    obtain ⟨start, t, hstart, -, hstands'⟩ := (hns.mem (List.mem_map_of_mem hn')).stands
    exact ⟨s, stop, start, t, Nat.le_trans hstop hstart, hstands, hstands'⟩

/-- The nodes right beneath one that stands somewhere stand one behind the other. -/
theorem Stands.pairwise {n : Node} (h : (Value.node n).Stands P start stop) :
    n.children.Pairwise fun c c' => ∃ s stop start t, stop ≤ start ∧
      (Value.node c).Stands P s stop ∧ (Value.node c').Stands P start t := by
  obtain ⟨_, ⟨⟩, -, hentries⟩ := h
  exact hentries.nodes.pairwise

theorem Stands.bears {n x : Node} (h : (Value.node n).Stands P start stop) (hx : n.Bears x) :
    ∃ start' stop', start ≤ start' ∧ stop' ≤ stop ∧ (Value.node x).Stands P start' stop' := by
  induction hx with
  | refl => exact ⟨start, stop, Nat.le_refl _, Nat.le_refl _, h⟩
  | @tail c x _ hmem ih =>
    obtain ⟨start', stop', hstart, hstop, _, ⟨⟩, -, hentries⟩ := ih
    have hchild := hentries.nodes.mem (List.mem_map_of_mem hmem)
    obtain ⟨s, t, hs, ht, hstands⟩ := hchild.stands
    exact ⟨s, t, Nat.le_trans hstart hs, Nat.le_trans ht hstop, hstands⟩

end Value

end PhpSyntax
