import PhpSyntax.Proofs.Tree.Finished

namespace PhpSyntax

namespace Value

section Laid

-- What it means that a node has the place between two offsets.
variable (P : Node → Nat → Nat → Prop)

mutual

/-- A value is laid out between two offsets. Values without nodes are laid out wherever there is no
way back. -/
def Laid : Value → Nat → Nat → Prop
  | .null, a, b | .bool _, a, b | .text _, a, b => a ≤ b
  | .list vs, a, b => AllLaid vs a b
  | .record ⟨es⟩, a, b => EntriesLaid es a b
  | .node ⟨name, ⟨es⟩, bounds, extent⟩, a, b => ∃ start stop, a ≤ start ∧ stop ≤ b ∧
    P ⟨name, ⟨es⟩, bounds, extent⟩ start stop ∧ EntriesLaid es start stop

def AllLaid : List Value → Nat → Nat → Prop
  | [], a, b => a ≤ b
  | v :: vs, a, b => ∃ c, v.Laid a c ∧ AllLaid vs c b

def EntriesLaid : List (String × Value) → Nat → Nat → Prop
  | [], a, b => a ≤ b
  | (_, v) :: es, a, b => ∃ c, v.Laid a c ∧ EntriesLaid es c b

end

/-- A node with a place, beneath which others are laid out. -/
def Stands (v : Value) (start stop : Nat) : Prop :=
  ∃ n : Node, v = .node n ∧ P n start stop ∧ EntriesLaid P n.fields.entries start stop

/-- Laid out everywhere: there are no nodes in it. -/
def Bare (v : Value) : Prop :=
  ∀ a, v.Laid P a a

end Laid

variable {P : Node → Nat → Nat → Prop} {v : Value} {vs ws : List Value}
  {es : List (String × Value)} {a b c start stop : Nat}

theorem entriesLaid_iff : EntriesLaid P es a b ↔ AllLaid P (es.map (·.2)) a b := by
  induction es generalizing a with
  | nil => rfl
  | cons e es ih => simp only [EntriesLaid, List.map_cons, AllLaid, ih]

theorem laid_list : (Value.list vs).Laid P a b ↔ AllLaid P vs a b :=
  Iff.rfl

theorem laid_node {n : Node} : (Value.node n).Laid P a b ↔ ∃ start stop, a ≤ start ∧ stop ≤ b ∧
    P n start stop ∧ EntriesLaid P n.fields.entries start stop :=
  Iff.rfl

theorem IsLeaf.laid_iff (h : v.IsLeaf) : v.Laid P a b ↔ a ≤ b := by
  cases v with
  | null | bool _ | text _ => exact Iff.rfl
  | list _ | record _ | node _ => exact h.elim

theorem IsLeaf.bare (h : v.IsLeaf) : v.Bare P :=
  fun a => h.laid_iff.2 (Nat.le_refl a)

mutual

theorem Laid.le : {v : Value} → {a b : Nat} → v.Laid P a b → a ≤ b
  | .null, _, _, h | .bool _, _, _, h | .text _, _, _, h => h
  | .list _, _, _, h => AllLaid.le h
  | .record _, _, _, h => EntriesLaid.le h
  | .node _, _, _, ⟨_, _, ha, hb, _, h⟩ => Nat.le_trans (Nat.le_trans ha (EntriesLaid.le h)) hb

theorem AllLaid.le : {vs : List Value} → {a b : Nat} → AllLaid P vs a b → a ≤ b
  | [], _, _, h => h
  | _ :: _, _, _, ⟨_, hv, hvs⟩ => Nat.le_trans (Laid.le hv) (AllLaid.le hvs)

theorem EntriesLaid.le : {es : List (String × Value)} → {a b : Nat} → EntriesLaid P es a b → a ≤ b
  | [], _, _, h => h
  | _ :: _, _, _, ⟨_, hv, hes⟩ => Nat.le_trans (Laid.le hv) (EntriesLaid.le hes)

end

mutual

theorem Laid.mono : {v : Value} → {a b a' b' : Nat} → v.Laid P a b → a' ≤ a → b ≤ b' →
    v.Laid P a' b'
  | .null, _, _, _, _, h, ha, hb | .bool _, _, _, _, _, h, ha, hb | .text _, _, _, _, _, h, ha, hb =>
    Nat.le_trans (Nat.le_trans ha h) hb
  | .list _, _, _, _, _, h, ha, hb => AllLaid.mono h ha hb
  | .record _, _, _, _, _, h, ha, hb => EntriesLaid.mono h ha hb
  | .node _, _, _, _, _, ⟨start, stop, hstart, hstop, h⟩, ha, hb =>
    ⟨start, stop, Nat.le_trans ha hstart, Nat.le_trans hstop hb, h⟩

theorem AllLaid.mono : {vs : List Value} → {a b a' b' : Nat} → AllLaid P vs a b → a' ≤ a →
    b ≤ b' → AllLaid P vs a' b'
  | [], _, _, _, _, h, ha, hb => Nat.le_trans (Nat.le_trans ha h) hb
  | _ :: _, _, _, _, _, ⟨c, hv, hvs⟩, ha, hb =>
    ⟨c, Laid.mono hv ha (Nat.le_refl c), AllLaid.mono hvs (Nat.le_refl c) hb⟩

theorem EntriesLaid.mono : {es : List (String × Value)} → {a b a' b' : Nat} →
    EntriesLaid P es a b → a' ≤ a → b ≤ b' → EntriesLaid P es a' b'
  | [], _, _, _, _, h, ha, hb => Nat.le_trans (Nat.le_trans ha h) hb
  | _ :: _, _, _, _, _, ⟨c, hv, hes⟩, ha, hb =>
    ⟨c, Laid.mono hv ha (Nat.le_refl c), EntriesLaid.mono hes (Nat.le_refl c) hb⟩

end

theorem Bare.laid (h : v.Bare P) (hle : a ≤ b) : v.Laid P a b :=
  (h a).mono (Nat.le_refl a) hle

theorem allLaid_append : AllLaid P (vs ++ ws) a b ↔ ∃ c, AllLaid P vs a c ∧ AllLaid P ws c b := by
  induction vs generalizing a with
  | nil =>
    refine ⟨fun h => ⟨a, Nat.le_refl a, h⟩, ?_⟩
    rintro ⟨c, hle, h⟩
    exact h.mono hle (Nat.le_refl b)
  | cons v vs ih =>
    simp only [List.cons_append, AllLaid, ih]
    constructor
    · rintro ⟨c, hv, d, hvs, hws⟩
      exact ⟨d, ⟨c, hv, hvs⟩, hws⟩
    · rintro ⟨d, ⟨c, hv, hvs⟩, hws⟩
      exact ⟨c, hv, d, hvs, hws⟩

theorem allLaid_singleton : AllLaid P [v] a b ↔ v.Laid P a b := by
  refine ⟨?_, fun h => ⟨b, h, Nat.le_refl b⟩⟩
  rintro ⟨c, hv, hle⟩
  exact hv.mono (Nat.le_refl a) hle

theorem AllLaid.sublist (h : AllLaid P vs a b) (hsub : ws.Sublist vs) : AllLaid P ws a b := by
  induction hsub generalizing a with
  | slnil => exact h
  | cons v _ ih =>
    obtain ⟨c, hv, hvs⟩ := h
    exact (ih hvs).mono hv.le (Nat.le_refl b)
  | cons_cons v _ ih =>
    obtain ⟨c, hv, hvs⟩ := h
    exact ⟨c, hv, ih hvs⟩

theorem AllLaid.mem (h : AllLaid P vs a b) (hv : v ∈ vs) : v.Laid P a b :=
  allLaid_singleton.1 (h.sublist (List.singleton_sublist.2 hv))

theorem allLaid_bare (h : ∀ v ∈ vs, v.Bare P) : AllLaid P vs a a := by
  induction vs with
  | nil => exact Nat.le_refl a
  | cons v vs ih =>
    obtain ⟨hv, hvs⟩ := List.forall_mem_cons.1 h
    exact ⟨a, hv a, ih hvs⟩

theorem Laid.toList (h : v.Laid P a b) : AllLaid P v.toList a b := by
  cases v with
  | null => exact h
  | list vs => exact h
  | _ => exact allLaid_singleton.2 h

theorem Stands.laid (h : v.Stands P start stop) (ha : a ≤ start) (hb : stop ≤ b) :
    v.Laid P a b := by
  obtain ⟨n, rfl, hn, hes⟩ := h
  exact ⟨start, stop, ha, hb, hn, hes⟩

theorem Stands.le (h : v.Stands P start stop) : start ≤ stop :=
  (h.laid (Nat.le_refl _) (Nat.le_refl _)).le

theorem Laid.stands {n : Node} (h : (Value.node n).Laid P a b) :
    ∃ start stop, a ≤ start ∧ stop ≤ b ∧ (Value.node n).Stands P start stop := by
  obtain ⟨start, stop, ha, hb, hn, hes⟩ := h
  exact ⟨start, stop, ha, hb, n, rfl, hn, hes⟩

/-- The last of some values is a node: they are laid out up to its end. -/
theorem AllLaid.last {n : Node} (h : AllLaid P (vs ++ [.node n]) a b) :
    ∃ start stop, stop ≤ b ∧ (Value.node n).Stands P start stop ∧
      AllLaid P (vs ++ [.node n]) a stop := by
  obtain ⟨c, hvs, hn⟩ := allLaid_append.1 h
  obtain ⟨start, stop, hstart, hstop, hstands⟩ := (allLaid_singleton.1 hn).stands
  have hlaid := hstands.laid hstart (Nat.le_refl stop)
  exact ⟨start, stop, hstop, hstands, allLaid_append.2 ⟨c, hvs, allLaid_singleton.2 hlaid⟩⟩

end Value

end PhpSyntax
