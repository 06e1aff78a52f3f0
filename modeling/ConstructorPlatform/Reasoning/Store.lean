import Mathlib.Data.List.Induction
import Mathlib.Data.Set.Basic

/-!
# Store — values that stand for trees in a store of cells

A store is a list of cells.  A value is a leaf or the address of a cell, and a cell holds values.
Values may share cells, and a value whose cells do not run in a circle stands for a tree:
`Denotes`.  A place is a list of positions, and `StandsAt` says at which places below a value a
cell stands.

What a write to one cell does to the trees depends only on those places: `Denotes.write_agree`.
`Owned` describes a part of the store that is itself a tree, where a cell stands at one place.
-/

namespace Reasoning

variable {V O T : Type*}

/-- How values, cells and trees fit together. -/
structure Layout (V O T : Type*) where
  addr? : V → Option Nat
  values : O → List V
  /-- The tree of a value that is not an address. -/
  leaf : V → T
  /-- The tree of a cell, given the trees of its values. -/
  node : O → List T → T
  size : T → Nat
  size_lt : ∀ o ts t, ts.length = (values o).length → t ∈ ts → size t < size (node o ts)
  leaf_ne_node : ∀ v o ts, leaf v ≠ node o ts
  node_inj : ∀ o ts o' ts', ts.length = (values o).length → ts'.length = (values o').length →
    node o ts = node o' ts' →
      ts = ts' ∧ ∀ us : List T, us.length = ts.length → node o us = node o' us

theorem exists_list_of_forall_lt {P : Nat → T → Prop} {n : Nat} (h : ∀ i < n, ∃ u, P i u) :
    ∃ us : List T, us.length = n ∧ ∀ i u, us[i]? = some u → P i u := by
  induction n with
  | zero => exact ⟨[], rfl, by simp⟩
  | succ n ih =>
      obtain ⟨us, hlen, hus⟩ := ih fun i hi => h i (Nat.lt_succ_of_lt hi)
      obtain ⟨u, hu⟩ := h n (Nat.lt_succ_self n)
      refine ⟨us ++ [u], by simp [hlen], fun i x hx => ?_⟩
      rcases Nat.lt_or_ge i us.length with hi | hi
      · rw [List.getElem?_append_left hi] at hx
        exact hus i x hx
      · rw [List.getElem?_append_right hi, List.getElem?_singleton] at hx
        split at hx
        · cases hx
          have hin : i = n := by omega
          exact hin ▸ hu
        · cases hx

namespace Layout

variable (L : Layout V O T)

/-! ## 1. Places -/

/-- The value at position `i` of the cell of `v`. -/
def child (heap : List O) (v : V) (i : Nat) : Option V :=
  (L.addr? v).bind fun a => heap[a]?.bind fun o => (L.values o)[i]?

def follow (heap : List O) : V → List Nat → Option V
  | v, [] => some v
  | v, i :: place => (L.child heap v i).bind fun w => follow heap w place

/-- Below `v`, the cell at address `a` stands at this place. -/
def StandsAt (heap : List O) (v : V) (a : Nat) (place : List Nat) : Prop :=
  (L.follow heap v place).bind L.addr? = some a

/-- The cell at address `a` is part of `v`. -/
def Holds (heap : List O) (v : V) (a : Nat) : Prop := ∃ place, L.StandsAt heap v a place

/-- Position `i` of the cell at address `b` holds the address `a`. -/
def Refers (heap : List O) (b i a : Nat) : Prop :=
  ∃ o v, heap[b]? = some o ∧ (L.values o)[i]? = some v ∧ L.addr? v = some a

/-- Two stores differ at no cell of the first one except `a`. -/
def AgreeOff (heap heap' : List O) (a : Nat) : Prop :=
  ∀ b < heap.length, b ≠ a → heap'[b]? = heap[b]?

variable {L} {heap heap' : List O} {v w : V} {a b i : Nat} {place : List Nat}

theorem child_eq_some_iff :
    L.child heap v i = some w ↔
      ∃ b o, L.addr? v = some b ∧ heap[b]? = some o ∧ (L.values o)[i]? = some w := by
  simp only [child, Option.bind_eq_some_iff]
  constructor
  · rintro ⟨b, hb, o, ho, hw⟩
    exact ⟨b, o, hb, ho, hw⟩
  · rintro ⟨b, o, hb, ho, hw⟩
    exact ⟨b, hb, o, ho, hw⟩

theorem standsAt_nil : L.StandsAt heap v a [] ↔ L.addr? v = some a := by
  simp [StandsAt, follow]

theorem standsAt_cons :
    L.StandsAt heap v a (i :: place) ↔
      ∃ w, L.child heap v i = some w ∧ L.StandsAt heap w a place := by
  simp only [StandsAt, follow, Option.bind_assoc, Option.bind_eq_some_iff]

theorem follow_append (v : V) (place place' : List Nat) :
    L.follow heap v (place ++ place') =
      (L.follow heap v place).bind fun w => L.follow heap w place' := by
  induction place generalizing v with
  | nil => rfl
  | cons i place ih =>
      rw [List.cons_append, follow, follow, Option.bind_assoc]
      exact Option.bind_congr fun w _ => ih w

theorem standsAt_snoc :
    L.StandsAt heap v a (place ++ [i]) ↔ ∃ b, L.StandsAt heap v b place ∧ L.Refers heap b i a := by
  simp only [StandsAt, follow_append, follow, Option.bind_assoc, Option.bind_eq_some_iff,
    Option.bind_some]
  constructor
  · rintro ⟨w, hw, u, hu, ha⟩
    obtain ⟨b, o, hb, ho, hi⟩ := child_eq_some_iff.mp hu
    exact ⟨b, ⟨w, hw, hb⟩, o, u, ho, hi, ha⟩
  · rintro ⟨b, ⟨w, hw, hb⟩, o, u, ho, hi, ha⟩
    exact ⟨w, hw, u, child_eq_some_iff.mpr ⟨b, o, hb, ho, hi⟩, ha⟩

theorem Holds.self (h : L.addr? v = some a) : L.Holds heap v a := ⟨[], standsAt_nil.mpr h⟩

theorem Holds.of_child (hchild : L.child heap v i = some w) (h : L.Holds heap w a) :
    L.Holds heap v a := by
  obtain ⟨place, hplace⟩ := h
  exact ⟨i :: place, standsAt_cons.mpr ⟨w, hchild, hplace⟩⟩

-- A step of a path is taken in both stores unless it starts at the cell where they differ.
theorem AgreeOff.child (hoff : AgreeOff heap heap' a) (hv : L.addr? v ≠ some a)
    (hchild : L.child heap v i = some w) : L.child heap' v i = some w := by
  obtain ⟨b, o, hb, ho, hw⟩ := child_eq_some_iff.mp hchild
  have hne : b ≠ a := fun h => hv (h ▸ hb)
  rw [child_eq_some_iff]
  exact ⟨b, o, hb, (hoff b (List.getElem?_eq_some_iff.mp ho).1 hne).trans ho, hw⟩

-- The first arrival at the changed cell is a path of the second store.
theorem AgreeOff.holds (hoff : AgreeOff heap heap' a) (h : L.Holds heap v a) :
    L.Holds heap' v a := by
  obtain ⟨place, hplace⟩ := h
  induction place generalizing v with
  | nil => exact Holds.self (standsAt_nil.mp hplace)
  | cons i place ih =>
      obtain ⟨w, hchild, hw⟩ := standsAt_cons.mp hplace
      by_cases hv : L.addr? v = some a
      · exact Holds.self hv
      · exact Holds.of_child (hoff.child hv hchild) (ih hw)

/-! ## 2. The tree of a value -/

variable (L) in
/-- In the store `heap`, the value stands for the tree. -/
inductive Denotes (heap : List O) : V → T → Prop where
  | leaf {v : V} : L.addr? v = none → Denotes heap v (L.leaf v)
  | node {v : V} {a : Nat} {o : O} {ts : List T} : L.addr? v = some a → heap[a]? = some o →
      ts.length = (L.values o).length →
      (∀ (i : Nat) (w : V) (t : T), (L.values o)[i]? = some w → ts[i]? = some t →
        Denotes heap w t) →
      Denotes heap v (L.node o ts)

variable {t t' u : T}

theorem Denotes.of_addr (hv : L.addr? v = some a) (hw : L.addr? w = some a)
    (h : L.Denotes heap v t) : L.Denotes heap w t := by
  cases h with
  | leaf hnone => rw [hnone] at hv; cases hv
  | node hb ho hlen hts =>
      obtain rfl := Option.some.inj (hb.symm.trans hv)
      exact .node hw ho hlen hts

theorem Denotes.unique (h : L.Denotes heap v t) (h' : L.Denotes heap v t') : t = t' := by
  induction h generalizing t' with
  | leaf hnone =>
      cases h' with
      | leaf => rfl
      | node hb => rw [hnone] at hb; cases hb
  | @node v a o ts ha ho hlen _ ih =>
      cases h' with
      | leaf hnone => rw [hnone] at ha; cases ha
      | @node _ b o' ts' hb ho' hlen' hts' =>
          obtain rfl := Option.some.inj (hb.symm.trans ha)
          obtain rfl := Option.some.inj (ho'.symm.trans ho)
          have heq : ts = ts' := by
            apply List.ext_getElem (hlen.trans hlen'.symm)
            intro i hi hi'
            have hv : i < (L.values o').length := hlen ▸ hi
            exact ih i _ _ (List.getElem?_eq_getElem hv) (List.getElem?_eq_getElem hi)
              (hts' i _ _ (List.getElem?_eq_getElem hv) (List.getElem?_eq_getElem hi'))
          rw [heq]

theorem Denotes.child (h : L.Denotes heap v t) (hchild : L.child heap v i = some w) :
    ∃ u, L.Denotes heap w u ∧ L.size u < L.size t := by
  obtain ⟨b, o, hb, ho, hw⟩ := child_eq_some_iff.mp hchild
  cases h with
  | leaf hnone => rw [hnone] at hb; cases hb
  | @node _ a o' ts ha ho' hlen hts =>
      obtain rfl := Option.some.inj (ha.symm.trans hb)
      obtain rfl := Option.some.inj (ho'.symm.trans ho)
      have hi : i < ts.length := hlen ▸ (List.getElem?_eq_some_iff.mp hw).1
      exact ⟨ts[i], hts i w ts[i] hw (List.getElem?_eq_getElem hi),
        L.size_lt o' ts ts[i] hlen (List.getElem_mem hi)⟩

-- A cell that is part of a value with a tree has a tree, and a smaller one further down.
theorem Denotes.standsAt (h : L.Denotes heap v t) (hplace : L.StandsAt heap v a place)
    (hw : L.addr? w = some a) :
    ∃ u, L.Denotes heap w u ∧ L.size u + place.length ≤ L.size t := by
  induction place generalizing v t with
  | nil => exact ⟨t, h.of_addr (standsAt_nil.mp hplace) hw, Nat.le_refl _⟩
  | cons i place ih =>
      obtain ⟨x, hchild, hx⟩ := standsAt_cons.mp hplace
      obtain ⟨s, hs, hlt⟩ := h.child hchild
      obtain ⟨u, hu, hle⟩ := ih hs hx
      refine ⟨u, hu, ?_⟩
      rw [List.length_cons]
      omega

/-- The cells of a value with a tree do not run in a circle. -/
theorem Denotes.place_eq_nil (h : L.Denotes heap v t) (hv : L.addr? v = some a)
    (hplace : L.StandsAt heap v a place) : place = [] := by
  obtain ⟨u, hu, hle⟩ := h.standsAt hplace hv
  rw [h.unique hu] at hle
  exact List.eq_nil_of_length_eq_zero (by omega)

theorem Denotes.not_holds_child (h : L.Denotes heap v t) (hv : L.addr? v = some a)
    (hchild : L.child heap v i = some w) : ¬ L.Holds heap w a := by
  rintro ⟨place, hplace⟩
  cases h.place_eq_nil hv (standsAt_cons.mpr ⟨w, hchild, hplace⟩)

theorem Denotes.lt_length (h : L.Denotes heap v t) (ha : L.Holds heap v a) : a < heap.length := by
  obtain ⟨place, hplace⟩ := ha
  obtain ⟨w, hw, haddr⟩ := Option.bind_eq_some_iff.mp hplace
  obtain ⟨u, hu, -⟩ := h.standsAt hplace haddr
  cases hu with
  | leaf hnone => rw [hnone] at haddr; cases haddr
  | node hb ho =>
      obtain rfl := Option.some.inj (hb.symm.trans haddr)
      exact (List.getElem?_eq_some_iff.mp ho).1

/-! ## 3. Frames -/

/-- A change that keeps the tree of each cell it touches keeps all trees. -/
theorem Denotes.of_cells (h : L.Denotes heap v t)
    (hcells : ∀ a, L.Holds heap v a → heap'[a]? = heap[a]? ∨
      ∀ w u, L.addr? w = some a → L.Denotes heap w u → L.Denotes heap' w u) :
    L.Denotes heap' v t := by
  induction h with
  | leaf hnone => exact .leaf hnone
  | @node v a o ts ha ho hlen hts ih =>
      rcases hcells a (Holds.self ha) with hsame | hkeep
      · refine .node ha (hsame.trans ho) hlen fun i w t hw ht => ih i w t hw ht fun b hb => ?_
        exact hcells b (hb.of_child (child_eq_some_iff.mpr ⟨a, o, ha, ho, hw⟩))
      · exact hkeep v _ ha (.node ha ho hlen hts)

theorem Denotes.congr (h : L.Denotes heap v t)
    (hsame : ∀ a, L.Holds heap v a → heap'[a]? = heap[a]?) : L.Denotes heap' v t :=
  h.of_cells fun a ha => .inl (hsame a ha)

theorem Denotes.append (h : L.Denotes heap v t) (cells : List O) :
    L.Denotes (heap ++ cells) v t :=
  h.congr fun _ ha => List.getElem?_append_left (h.lt_length ha)

-- New cells are no part of a value that has a tree without them.
theorem Denotes.standsAt_append (h : L.Denotes heap v t) (cells : List O) :
    L.StandsAt (heap ++ cells) v a place ↔ L.StandsAt heap v a place := by
  induction place generalizing v t with
  | nil => rw [standsAt_nil, standsAt_nil]
  | cons i place ih =>
      have hchild : L.child (heap ++ cells) v i = L.child heap v i := by
        cases h with
        | leaf hnone => simp [Layout.child, hnone]
        | node ha ho =>
            simp [Layout.child, ha, List.getElem?_append_left (List.getElem?_eq_some_iff.mp ho).1]
      rw [standsAt_cons, standsAt_cons, hchild]
      refine exists_congr fun w => and_congr_right fun hw => ?_
      obtain ⟨u, hu, -⟩ := h.child hw
      exact ih hu

theorem Denotes.lt_length_of_append (h : L.Denotes heap v t) {cells : List O}
    (ha : L.Holds (heap ++ cells) v a) : a < heap.length := by
  obtain ⟨place, hplace⟩ := ha
  exact h.lt_length ⟨place, (h.standsAt_append cells).mp hplace⟩

theorem Denotes.agreeOff (h : L.Denotes heap v t) (hoff : AgreeOff heap heap' a)
    (hout : ¬ L.Holds heap v a) : L.Denotes heap' v t :=
  h.congr fun b hb => hoff b (h.lt_length hb) fun hba => hout (hba ▸ hb)

theorem Denotes.write_same (h : L.Denotes heap v t) (hoff : AgreeOff heap heap' a)
    (hsame : ∀ w u, L.addr? w = some a → L.Denotes heap w u → L.Denotes heap' w u) :
    L.Denotes heap' v t := by
  apply h.of_cells
  intro b hb
  by_cases hba : b = a
  · exact .inr (hba ▸ hsame)
  · exact .inl (hoff b (h.lt_length hb) hba)

/-! ## 4. Two values with one tree -/

section TwoStores

variable {heap₁ heap₁' heap₂ heap₂' : List O} {v₁ v₂ w₁ w₂ : V} {a₁ a₂ : Nat}

-- Values with one tree have their children at the same positions.
theorem Denotes.child₂ (h₁ : L.Denotes heap₁ v₁ t) (h₂ : L.Denotes heap₂ v₂ t)
    (hchild : L.child heap₁ v₁ i = some w₁) :
    ∃ w₂ u, L.child heap₂ v₂ i = some w₂ ∧ L.Denotes heap₁ w₁ u ∧ L.Denotes heap₂ w₂ u := by
  obtain ⟨b, o, hb, ho, hw⟩ := child_eq_some_iff.mp hchild
  generalize hs : t = s at h₂
  cases h₁ with
  | leaf hnone => rw [hnone] at hb; cases hb
  | @node _ a o' ts ha ho' hlen hts =>
      obtain rfl := Option.some.inj (ha.symm.trans hb)
      obtain rfl := Option.some.inj (ho'.symm.trans ho)
      cases h₂ with
      | leaf => exact absurd hs.symm (L.leaf_ne_node _ _ _)
      | @node _ c o₂ ts₂ hc ho₂ hlen₂ hts₂ =>
          obtain ⟨rfl, -⟩ := L.node_inj _ _ _ _ hlen hlen₂ hs
          have hi : i < ts.length := hlen ▸ (List.getElem?_eq_some_iff.mp hw).1
          have hi₂ : i < (L.values o₂).length := hlen₂ ▸ hi
          have ht := List.getElem?_eq_getElem hi
          exact ⟨(L.values o₂)[i], ts[i],
            child_eq_some_iff.mpr ⟨c, o₂, hc, ho₂, List.getElem?_eq_getElem hi₂⟩,
            hts i w₁ _ hw ht, hts₂ i _ _ (List.getElem?_eq_getElem hi₂) ht⟩

-- A cell has one tree in two stores when a value that holds it has.
theorem Denotes.same_at (h : L.Denotes heap v t) (h' : L.Denotes heap' v t)
    (hoff : AgreeOff heap heap' a) (hplace : L.StandsAt heap v a place)
    (hw : L.addr? w = some a) : ∃ u, L.Denotes heap w u ∧ L.Denotes heap' w u := by
  induction place generalizing v t with
  | nil =>
      have hv := standsAt_nil.mp hplace
      exact ⟨t, h.of_addr hv hw, h'.of_addr hv hw⟩
  | cons i place ih =>
      by_cases hv : L.addr? v = some a
      · exact ⟨t, h.of_addr hv hw, h'.of_addr hv hw⟩
      · obtain ⟨x, hchild, hx⟩ := standsAt_cons.mp hplace
        obtain ⟨x', s, hchild', hs, hs'⟩ := h.child₂ h' hchild
        rw [hoff.child hv hchild] at hchild'
        cases hchild'
        exact ih hs hs' hx

/-- Two writes, to cells that stand at the same places of two values with one tree, leave the values
with one tree when they leave the cells with one. -/
theorem Denotes.write_agree (hoff₁ : AgreeOff heap₁ heap₁' a₁) (hoff₂ : AgreeOff heap₂ heap₂' a₂)
    (hcell : ∀ w₁ w₂, L.addr? w₁ = some a₁ → L.addr? w₂ = some a₂ →
      ∃ u, L.Denotes heap₁' w₁ u ∧ L.Denotes heap₂' w₂ u)
    (h₁ : L.Denotes heap₁ v₁ t) (h₂ : L.Denotes heap₂ v₂ t)
    (hplaces : ∀ place, L.StandsAt heap₁ v₁ a₁ place ↔ L.StandsAt heap₂ v₂ a₂ place) :
    ∃ u, L.Denotes heap₁' v₁ u ∧ L.Denotes heap₂' v₂ u := by
  induction h₁ generalizing v₂ with
  | @leaf v₁ hnone =>
      generalize hs : L.leaf v₁ = s at h₂
      cases h₂ with
      | leaf hnone₂ => exact ⟨L.leaf v₁, .leaf hnone, hs ▸ .leaf hnone₂⟩
      | node => exact absurd hs (L.leaf_ne_node _ _ _)
  | @node v₁ b₁ o₁ ts hb₁ ho₁ hlen₁ hts₁ ih =>
      generalize hs : L.node o₁ ts = s at h₂
      cases h₂ with
      | leaf => exact absurd hs.symm (L.leaf_ne_node _ _ _)
      | @node _ b₂ o₂ ts₂ hb₂ ho₂ hlen₂ hts₂ =>
          obtain ⟨rfl, hnode⟩ := L.node_inj _ _ _ _ hlen₁ hlen₂ hs
          -- The cells of both values are the written ones, or neither is.
          have hroot : L.addr? v₁ = some a₁ ↔ L.addr? v₂ = some a₂ := by
            have hnil := hplaces []
            rwa [standsAt_nil, standsAt_nil] at hnil
          by_cases hv₁ : L.addr? v₁ = some a₁
          · exact hcell v₁ v₂ hv₁ (hroot.mp hv₁)
          · have hv₂ : L.addr? v₂ ≠ some a₂ := fun h => hv₁ (hroot.mpr h)
            have hchildren : ∀ i < ts.length, ∃ u, ∀ w₁ w₂, (L.values o₁)[i]? = some w₁ →
                (L.values o₂)[i]? = some w₂ → L.Denotes heap₁' w₁ u ∧ L.Denotes heap₂' w₂ u := by
              intro i hi
              have hw₁ := List.getElem?_eq_getElem (hlen₁ ▸ hi : i < (L.values o₁).length)
              have hw₂ := List.getElem?_eq_getElem (hlen₂ ▸ hi : i < (L.values o₂).length)
              have ht := List.getElem?_eq_getElem hi
              have hc₁ := child_eq_some_iff.mpr ⟨b₁, o₁, hb₁, ho₁, hw₁⟩
              have hc₂ := child_eq_some_iff.mpr ⟨b₂, o₂, hb₂, ho₂, hw₂⟩
              obtain ⟨u, hu⟩ := ih i _ _ hw₁ ht (hts₂ i _ _ hw₂ ht) fun place => by
                simpa [standsAt_cons, hc₁, hc₂] using hplaces (i :: place)
              refine ⟨u, fun w₁ w₂ h₁ h₂ => ?_⟩
              rw [hw₁] at h₁
              rw [hw₂] at h₂
              cases h₁
              cases h₂
              exact hu
            obtain ⟨us, hlen, hus⟩ := exists_list_of_forall_lt hchildren
            have hget : ∀ i u, us[i]? = some u → i < ts.length := fun i u hu =>
              hlen ▸ (List.getElem?_eq_some_iff.mp hu).1
            refine ⟨L.node o₁ us, ?_, ?_⟩
            · have hne : b₁ ≠ a₁ := fun h => hv₁ (h ▸ hb₁)
              have ho₁' := (hoff₁ b₁ (List.getElem?_eq_some_iff.mp ho₁).1 hne).trans ho₁
              refine .node hb₁ ho₁' (hlen.trans hlen₁) fun i w u hw hu => ?_
              have hi : i < (L.values o₂).length := hlen₂ ▸ hget i u hu
              exact (hus i u hu w _ hw (List.getElem?_eq_getElem hi)).1
            · rw [hnode us hlen]
              have hne : b₂ ≠ a₂ := fun h => hv₂ (h ▸ hb₂)
              have ho₂' := (hoff₂ b₂ (List.getElem?_eq_some_iff.mp ho₂).1 hne).trans ho₂
              refine .node hb₂ ho₂' (hlen.trans hlen₂) fun i w u hw hu => ?_
              have hi : i < (L.values o₁).length := hlen₁ ▸ hget i u hu
              exact (hus i u hu _ w (List.getElem?_eq_getElem hi) hw).2

end TwoStores

/-! ## 5. Cells that stand at one place -/

variable (L) in
/-- The cells `S` form a tree with the cell of `root` on top: nothing refers to the top, one
position of one cell of `S` refers to each other one, and no other cell refers into `S`. -/
structure Owned (heap : List O) (root : V) (S : Set Nat) : Prop where
  root_mem : ∀ a, L.addr? root = some a → a ∈ S
  root_free : ∀ a, L.addr? root = some a → ∀ b i, ¬ L.Refers heap b i a
  closed : ∀ a ∈ S, ∀ b i, L.Refers heap b i a → b ∈ S
  once : ∀ a ∈ S, ∀ b i b' i', L.Refers heap b i a → L.Refers heap b' i' a → b = b' ∧ i = i'
  inside : ∀ a ∈ S, a < heap.length
  refers_inside : ∀ b i a, L.Refers heap b i a → a < heap.length

variable {root : V} {S : Set Nat}

theorem Owned.place_unique (h : L.Owned heap root S) (ha : a ∈ S) {place place' : List Nat}
    (hplace : L.StandsAt heap root a place) (hplace' : L.StandsAt heap root a place') :
    place = place' := by
  induction place using List.reverseRecOn generalizing a place' with
  | nil =>
      induction place' using List.reverseRecOn with
      | nil => rfl
      | append_singleton place' i _ =>
          obtain ⟨b, -, hb⟩ := standsAt_snoc.mp hplace'
          exact absurd hb (h.root_free a (standsAt_nil.mp hplace) b i)
  | append_singleton place i ih =>
      obtain ⟨b, hb, href⟩ := standsAt_snoc.mp hplace
      induction place' using List.reverseRecOn with
      | nil => exact absurd href (h.root_free a (standsAt_nil.mp hplace') b i)
      | append_singleton place' i' _ =>
          obtain ⟨b', hb', href'⟩ := standsAt_snoc.mp hplace'
          obtain ⟨rfl, rfl⟩ := h.once a ha b i b' i' href href'
          rw [ih (h.closed a ha b i href) hb hb']

-- New references do no harm to the tree when they lead past it.
theorem Owned.grow (h : L.Owned heap root S) (hlength : heap.length ≤ heap'.length)
    (hrefers : ∀ b i a, L.Refers heap' b i a →
      L.Refers heap b i a ∨ (a ∉ S ∧ a < heap'.length)) : L.Owned heap' root S := by
  have hold : ∀ a ∈ S, ∀ b i, L.Refers heap' b i a → L.Refers heap b i a :=
    fun a ha b i href => (hrefers b i a href).resolve_right fun hout => hout.1 ha
  constructor
  · exact h.root_mem
  · intro a ha b i href
    exact h.root_free a ha b i (hold a (h.root_mem a ha) b i href)
  · exact fun a ha b i href => h.closed a ha b i (hold a ha b i href)
  · intro a ha b i b' i' href href'
    exact h.once a ha b i b' i' (hold a ha b i href) (hold a ha b' i' href')
  · exact fun a ha => Nat.lt_of_lt_of_le (h.inside a ha) hlength
  · intro b i a href
    rcases hrefers b i a href with href | ⟨-, hlt⟩
    · exact Nat.lt_of_lt_of_le (h.refers_inside b i a href) hlength
    · exact hlt

-- A value from outside leads nowhere into the tree.
theorem Owned.not_holds (h : L.Owned heap root S) (hv : ∀ b, L.addr? v = some b → b ∉ S)
    (ha : a ∈ S) : ¬ L.Holds heap v a := by
  rintro ⟨place, hplace⟩
  induction place using List.reverseRecOn generalizing a with
  | nil => exact hv a (standsAt_nil.mp hplace) ha
  | append_singleton place i ih =>
      obtain ⟨b, hb, href⟩ := standsAt_snoc.mp hplace
      exact ih (h.closed a ha b i href) hb

end Layout

end Reasoning
