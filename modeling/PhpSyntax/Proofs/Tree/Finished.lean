import PhpSyntax.Tree.Value

namespace PhpSyntax

namespace Value

def IsLeaf : Value → Prop
  | .null | .bool _ | .text _ => True
  | _ => False

section Finished

variable (P : Node → Prop)

mutual

/-- There is no record in a value, and all of its nodes have the property. -/
def Finished : Value → Prop
  | .null | .bool _ | .text _ => True
  | .list vs => AllFinished vs
  | .record _ => False
  | .node ⟨name, ⟨es⟩, bounds, extent⟩ => P ⟨name, ⟨es⟩, bounds, extent⟩ ∧ EntriesFinished es

def AllFinished : List Value → Prop
  | [] => True
  | v :: vs => v.Finished ∧ AllFinished vs

def EntriesFinished : List (String × Value) → Prop
  | [] => True
  | (_, v) :: es => v.Finished ∧ EntriesFinished es

end

variable {P}

theorem allFinished_iff {vs : List Value} : AllFinished P vs ↔ ∀ v ∈ vs, v.Finished P := by
  induction vs with
  | nil => simp [AllFinished]
  | cons v vs ih => simp [AllFinished, ih]

theorem entriesFinished_iff {es : List (String × Value)} :
    EntriesFinished P es ↔ ∀ e ∈ es, e.2.Finished P := by
  induction es with
  | nil => simp [EntriesFinished]
  | cons e es ih => simp [EntriesFinished, ih]

@[simp]
theorem finished_list {vs : List Value} : (Value.list vs).Finished P ↔ ∀ v ∈ vs, v.Finished P :=
  allFinished_iff

@[simp]
theorem finished_node {n : Node} :
    (Value.node n).Finished P ↔ P n ∧ ∀ e ∈ n.fields.entries, e.2.Finished P :=
  and_congr_right fun _ => entriesFinished_iff

theorem IsLeaf.finished {v : Value} (h : v.IsLeaf) : v.Finished P := by
  cases v <;> trivial

theorem Finished.toList {v : Value} (h : v.Finished P) : ∀ w ∈ v.toList, w.Finished P := by
  cases v with
  | list vs => exact finished_list.1 h
  | null => simp [Value.toList]
  | _ => simpa [Value.toList] using h

end Finished

section Imp

variable {P Q : Node → Prop}

mutual

/-- What has a property of nodes has another one that follows from it. -/
theorem Finished.imp (h : ∀ n, P n → Q n) : {v : Value} → v.Finished P → v.Finished Q
  | .null, _ | .bool _, _ | .text _, _ => trivial
  | .list _, hv => AllFinished.imp h hv
  | .record _, hv => hv.elim
  | .node _, ⟨hn, hes⟩ => ⟨h _ hn, EntriesFinished.imp h hes⟩

theorem AllFinished.imp (h : ∀ n, P n → Q n) :
    {vs : List Value} → AllFinished P vs → AllFinished Q vs
  | [], _ => trivial
  | _ :: _, ⟨hv, hvs⟩ => ⟨Finished.imp h hv, AllFinished.imp h hvs⟩

theorem EntriesFinished.imp (h : ∀ n, P n → Q n) :
    {es : List (String × Value)} → EntriesFinished P es →
    EntriesFinished Q es
  | [], _ => trivial
  | _ :: _, ⟨hv, hes⟩ => ⟨Finished.imp h hv, EntriesFinished.imp h hes⟩

end

end Imp

end Value

end PhpSyntax
