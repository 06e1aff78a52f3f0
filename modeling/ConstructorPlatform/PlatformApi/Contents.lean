import Mathlib.Data.Finset.Card
import Mathlib.Data.Finset.Range
import ConstructorPlatform.Reasoning.Store
import ConstructorPlatform.PlatformApi.Transform

/-!
# Contents — the JSON document that a Python value encodes to

`Heap.Contents` is the tree of a value in the heap.  `json.dumps` gives it exactly when there is
one: `Heap.toJson_eq_ok_iff`.  Decoding makes a value with the contents of the document, and
`copy.deepcopy` one with the contents of its argument.
-/

namespace ConstructorPlatform

open Reasoning

/-! ## 1. The heap as a store of trees -/

def PyValue.addr? : PyValue → Option Nat
  | .ref addr => some addr
  | _ => none

def PyObject.values : PyObject → List PyValue
  | .list items => items
  | .dict entries => entries.map Prod.snd

/-- The document of a value that is not an address. -/
def PyValue.leaf : PyValue → Json
  | .null => .null
  | .bool b => .bool b
  | .int i => .int i
  | .float q => .float q
  | .str s => .str s
  | .ref _ => .null

def PyObject.node (o : PyObject) (xs : List Json) : Json :=
  match o with
  | .list _ => .arr xs
  | .dict entries => .obj ((entries.map Prod.fst).zip xs)

theorem PyObject.sizeOf_lt_node (o : PyObject) (xs : List Json) (x : Json)
    (hlen : xs.length = o.values.length) (hx : x ∈ xs) : sizeOf x < sizeOf (o.node xs) := by
  cases o with
  | list items =>
      have := List.sizeOf_lt_of_mem hx
      simp only [PyObject.node, Json.arr.sizeOf_spec]
      omega
  | dict entries =>
      simp only [PyObject.values, List.length_map] at hlen
      obtain ⟨i, hi, rfl⟩ := List.getElem_of_mem hx
      have hkey : i < (entries.map Prod.fst).length := by
        rw [List.length_map]
        omega
      have hzip : i < ((entries.map Prod.fst).zip xs).length := by
        rw [List.length_zip]
        omega
      have hmem : ((entries.map Prod.fst)[i], xs[i]) ∈ (entries.map Prod.fst).zip xs := by
        have hget : ((entries.map Prod.fst).zip xs)[i] = ((entries.map Prod.fst)[i], xs[i]) :=
          List.getElem_zip
        exact hget ▸ List.getElem_mem hzip
      have := List.sizeOf_lt_of_mem hmem
      simp only [PyObject.node, Json.obj.sizeOf_spec, Prod.mk.sizeOf_spec] at this ⊢
      omega

theorem PyObject.node_inj (o : PyObject) (xs : List Json) (o' : PyObject) (xs' : List Json)
    (hlen : xs.length = o.values.length) (hlen' : xs'.length = o'.values.length)
    (h : o.node xs = o'.node xs') :
    xs = xs' ∧ ∀ ys : List Json, ys.length = xs.length → o.node ys = o'.node ys := by
  cases o with
  | list items =>
      cases o' with
      | list items' => exact ⟨by simpa [PyObject.node] using h, fun _ _ => rfl⟩
      | dict entries' => cases h
  | dict entries =>
      cases o' with
      | list items' => cases h
      | dict entries' =>
          simp only [PyObject.values, List.length_map] at hlen hlen'
          simp only [PyObject.node, Json.obj.injEq] at h
          have hle : (entries.map Prod.fst).length ≤ xs.length := by simp [hlen]
          have hle' : (entries'.map Prod.fst).length ≤ xs'.length := by simp [hlen']
          have hkeys : entries.map Prod.fst = entries'.map Prod.fst := by
            rw [← List.map_fst_zip hle, h, List.map_fst_zip hle']
          refine ⟨?_, fun ys _ => by simp [PyObject.node, hkeys]⟩
          rw [← List.map_snd_zip (by simp [hlen] : xs.length ≤ (entries.map Prod.fst).length), h,
            List.map_snd_zip (by simp [hlen'])]

/-- Python values, objects and the documents they encode to. -/
noncomputable def pyLayout : Layout PyValue PyObject Json where
  addr? := PyValue.addr?
  values := PyObject.values
  leaf := PyValue.leaf
  node := PyObject.node
  size := sizeOf
  size_lt := PyObject.sizeOf_lt_node
  leaf_ne_node := by intro v o xs; cases v <;> cases o <;> nofun
  node_inj := PyObject.node_inj

@[simp] theorem pyLayout_values (o : PyObject) : pyLayout.values o = o.values := rfl
@[simp] theorem pyLayout_node (o : PyObject) : pyLayout.node o = o.node := rfl

/-- The value encodes to the document. -/
abbrev Heap.Contents (heap : Heap) (v : PyValue) (j : Json) : Prop := pyLayout.Denotes heap v j

/-- The object at address `a` is part of the value. -/
abbrev Heap.Holds (heap : Heap) (v : PyValue) (a : Nat) : Prop := pyLayout.Holds heap v a

/-- The object at address `a` stands at this place of the value. -/
abbrev Heap.StandsAt (heap : Heap) (v : PyValue) (a : Nat) (place : List Nat) : Prop :=
  pyLayout.StandsAt heap v a place

theorem PyValue.addr?_eq_some_iff {v : PyValue} {a : Nat} : v.addr? = some a ↔ v = .ref a := by
  cases v <;> simp [PyValue.addr?]

/-! ## 2. `json.dumps` -/

theorem mapM_eq_some_iff {α β : Type} {f : α → Option β} {l : List α} {l' : List β} :
    l.mapM f = some l' ↔ l'.length = l.length ∧
      ∀ (i : Nat) (a : α) (b : β), l[i]? = some a → l'[i]? = some b → f a = some b := by
  induction l generalizing l' with
  | nil => cases l' <;> simp
  | cons a l ih =>
      cases l' with
      | nil =>
          simp [List.mapM_cons, Option.bind_eq_some_iff]
      | cons b l' =>
          simp only [List.mapM_cons, Option.bind_eq_bind, Option.bind_eq_some_iff, Option.pure_def,
            Option.some.injEq, List.cons.injEq, List.length_cons, Nat.add_right_cancel_iff]
          constructor
          · rintro ⟨b', hb, l'', hl, rfl, rfl⟩
            refine ⟨(ih.mp hl).1, fun i => ?_⟩
            cases i with
            | zero => simpa using hb
            | succ i => exact (ih.mp hl).2 i
          · rintro ⟨hlen, h⟩
            exact ⟨b, h 0 a b rfl rfl, l', ih.mpr ⟨hlen, fun i => h (i + 1)⟩, rfl, rfl⟩

theorem mapM_snd {α : Type} (f : α → Option Json) (entries : List (String × α)) :
    (entries.mapM fun kv => (f kv.2).map (kv.1, ·)) =
      ((entries.map Prod.snd).mapM f).map fun xs => (entries.map Prod.fst).zip xs := by
  induction entries with
  | nil => rfl
  | cons kv entries ih =>
      simp only [List.mapM_cons, List.map_cons, ih, Option.bind_eq_bind, Option.pure_def]
      cases f kv.2 with
      | none => rfl
      | some x => cases (entries.map Prod.snd).mapM f <;> rfl

theorem Heap.dump_ref (heap : Heap) (n a : Nat) :
    heap.dump (n + 1) (.ref a) =
      heap[a]?.bind fun o => (o.values.mapM (heap.dump n)).map o.node := by
  rw [Heap.dump]
  cases heap[a]? with
  | none => rfl
  | some o =>
      cases o with
      | list items => rfl
      | dict entries =>
          simp only [Option.bind_some, PyObject.values, mapM_snd, Option.map_map]
          rfl

theorem Heap.dump_leaf (heap : Heap) (n : Nat) {v : PyValue} (hv : v.addr? = none) :
    heap.dump n v = some v.leaf := by
  cases v with
  | ref a => cases hv
  | _ => cases n <;> rfl

theorem Heap.contents_of_dump {heap : Heap} {n : Nat} {v : PyValue} {j : Json}
    (h : heap.dump n v = some j) : heap.Contents v j := by
  induction n generalizing v j with
  | zero =>
      cases hv : v.addr? with
      | none =>
          rw [heap.dump_leaf 0 hv] at h
          cases h
          exact .leaf hv
      | some a =>
          rw [PyValue.addr?_eq_some_iff.mp hv] at h
          cases h
  | succ n ih =>
      cases hv : v.addr? with
      | none =>
          rw [heap.dump_leaf _ hv] at h
          cases h
          exact .leaf hv
      | some a =>
          rw [PyValue.addr?_eq_some_iff.mp hv, Heap.dump_ref, Option.bind_eq_some_iff] at h
          obtain ⟨o, ho, h⟩ := h
          obtain ⟨xs, hxs, rfl⟩ := Option.map_eq_some_iff.mp h
          obtain ⟨hlen, hxs⟩ := mapM_eq_some_iff.mp hxs
          exact .node hv ho hlen fun i w x hw hx => ih (hxs i w x hw hx)

-- The cells on a path are distinct, so the depth is at most the number of cells.
theorem Heap.dump_of_contents {heap : Heap} {v : PyValue} {j : Json} (h : heap.Contents v j)
    (cells : Finset Nat) (hcells : ∀ a, heap.Holds v a → a ∈ cells) :
    heap.dump (cells.card + 1) v = some j := by
  induction h generalizing cells with
  | leaf hv => exact heap.dump_leaf _ hv
  | @node v a o xs ha ho hlen hxs ih =>
      have hroot : a ∈ cells := hcells a (Layout.Holds.self ha)
      have hxs' : o.values.mapM (heap.dump cells.card) = some xs := by
        refine mapM_eq_some_iff.mpr ⟨hlen, fun i w x hw hx => ?_⟩
        have hchild : pyLayout.child heap v i = some w :=
          Layout.child_eq_some_iff.mpr ⟨a, o, ha, ho, hw⟩
        have hbelow := ih i w x hw hx (cells.erase a) fun b hb => by
          refine Finset.mem_erase.mpr ⟨fun hba => ?_, hcells b (hb.of_child hchild)⟩
          exact (Layout.Denotes.node ha ho hlen hxs).not_holds_child ha hchild (hba ▸ hb)
        rwa [Finset.card_erase_add_one hroot] at hbelow
      rw [PyValue.addr?_eq_some_iff.mp ha, Heap.dump_ref, ho, Option.bind_some, hxs']
      rfl

theorem Heap.toJson_eq_ok_iff {heap : Heap} {v : PyValue} {j : Json} :
    heap.toJson v = .ok j ↔ heap.Contents v j := by
  constructor
  · intro h
    unfold Heap.toJson at h
    split at h
    · cases h
      rename_i hdump
      exact Heap.contents_of_dump hdump
    · cases h
  · intro h
    have hdump := Heap.dump_of_contents h (Finset.range heap.length) fun a ha =>
      Finset.mem_range.mpr (h.lt_length ha)
    rw [Finset.card_range] at hdump
    rw [Heap.toJson, hdump]

/-! ## 3. Decoding -/

def PyObject.addrs (o : PyObject) : List Nat := o.values.filterMap PyValue.addr?

/-- The second heap extends the first by the cells of the values: they have these contents, refer
to nothing before them, and no address is held twice. -/
structure Heap.Loads (heap heap' : Heap) (vs : List PyValue) (xs : List Json) : Prop where
  length_eq : xs.length = vs.length
  contents : ∀ (i : Nat) (v : PyValue) (x : Json), vs[i]? = some v → xs[i]? = some x →
    heap'.Contents v x
  cells : ∃ cells, heap' = heap ++ cells ∧
    (∀ a ∈ cells.flatMap PyObject.addrs ++ vs.filterMap PyValue.addr?,
      heap.length ≤ a ∧ a < heap'.length) ∧
    (cells.flatMap PyObject.addrs ++ vs.filterMap PyValue.addr?).Nodup

theorem Heap.Loads.nil (heap : Heap) : heap.Loads heap [] [] :=
  ⟨rfl, by simp, [], by simp⟩

theorem Heap.Loads.leaf (heap : Heap) {v : PyValue} (hv : v.addr? = none) :
    heap.Loads heap [v] [v.leaf] := by
  refine ⟨rfl, fun i w x hw hx => ?_, [], by simp [hv]⟩
  cases i with
  | zero =>
      cases hw
      cases hx
      exact .leaf hv
  | succ i => cases hw

theorem Heap.Loads.cons {heap heap₁ heap₂ : Heap} {v : PyValue} {x : Json} {vs : List PyValue}
    {xs : List Json} (h : heap.Loads heap₁ [v] [x]) (h' : heap₁.Loads heap₂ vs xs) :
    heap.Loads heap₂ (v :: vs) (x :: xs) := by
  obtain ⟨cells, rfl, hin, hnodup⟩ := h.cells
  obtain ⟨cells', rfl, hin', hnodup'⟩ := h'.cells
  have hperm : ((cells ++ cells').flatMap PyObject.addrs ++ (v :: vs).filterMap PyValue.addr?).Perm
      ((cells.flatMap PyObject.addrs ++ [v].filterMap PyValue.addr?) ++
        (cells'.flatMap PyObject.addrs ++ vs.filterMap PyValue.addr?)) := by
    rw [List.flatMap_append, ← List.singleton_append, List.filterMap_append, List.append_assoc,
      List.append_assoc]
    refine List.Perm.append_left _ ?_
    rw [← List.append_assoc, ← List.append_assoc]
    exact List.perm_append_comm.append_right _
  refine ⟨by simpa using h'.length_eq, ?_, cells ++ cells', by simp, ?_, ?_⟩
  · intro i w y hw hy
    cases i with
    | zero =>
        cases hw
        cases hy
        exact (h.contents 0 v x rfl rfl).append cells'
    | succ i => exact h'.contents i w y hw hy
  · intro a ha
    simp only [List.length_append] at hin hin' ⊢
    rcases List.mem_append.mp (hperm.mem_iff.mp ha) with ha | ha
    · have := hin a ha
      omega
    · have := hin' a ha
      omega
  · refine hperm.nodup_iff.mpr (List.Nodup.append hnodup hnodup' fun a ha ha' => ?_)
    have := (hin a ha).2
    have := (hin' a ha').1
    omega

theorem Heap.Loads.node {heap heap₁ : Heap} {o : PyObject} {xs : List Json}
    (h : heap.Loads heap₁ o.values xs) :
    heap.Loads (heap₁ ++ [o]) [.ref heap₁.length] [o.node xs] := by
  obtain ⟨cells, rfl, hin, hnodup⟩ := h.cells
  have haddrs : (cells ++ [o]).flatMap PyObject.addrs =
      cells.flatMap PyObject.addrs ++ o.values.filterMap PyValue.addr? := by
    simp [PyObject.addrs]
  have haddr : ∀ a ∈ [PyValue.ref (heap ++ cells).length].filterMap PyValue.addr?,
      a = (heap ++ cells).length := by simp [PyValue.addr?]
  refine ⟨rfl, ?_, cells ++ [o], by simp, ?_, ?_⟩
  · intro i w x hw hx
    cases i with
    | zero =>
        cases hw
        cases hx
        refine .node rfl (by simp) h.length_eq fun i w x hw hx => ?_
        exact (h.contents i w x hw hx).append [o]
    | succ i => cases hw
  · intro a ha
    rw [haddrs] at ha
    simp only [List.length_append, List.length_singleton] at hin ⊢
    rcases List.mem_append.mp ha with ha | ha
    · have := hin a ha
      omega
    · have := haddr a ha
      rw [List.length_append] at this
      omega
  · rw [haddrs]
    refine List.Nodup.append hnodup (by simp [PyValue.addr?]) fun a ha ha' => ?_
    have := (hin a ha).2
    have := haddr a ha'
    omega

mutual

theorem Heap.load_loads (heap : Heap) : ∀ j : Json,
    heap.Loads (heap.load j).2 [(heap.load j).1] [j]
  | .null => .leaf heap rfl
  | .bool _ => .leaf heap rfl
  | .int _ => .leaf heap rfl
  | .float _ => .leaf heap rfl
  | .str _ => .leaf heap rfl
  | .arr xs => Heap.Loads.node (o := .list (heap.loadList xs).1) (heap.loadList_loads xs)
  | .obj kvs => by
      obtain ⟨hkeys, hloads⟩ := heap.loadFields_loads kvs
      have hnode := Heap.Loads.node (o := .dict (heap.loadFields kvs).1) hloads
      have hzip : (kvs.map Prod.fst).zip (kvs.map Prod.snd) = kvs := by
        rw [← List.unzip_fst, ← List.unzip_snd, List.zip_unzip]
      rwa [PyObject.node, hkeys, hzip] at hnode

theorem Heap.loadList_loads (heap : Heap) : ∀ xs : List Json,
    heap.Loads (heap.loadList xs).2 (heap.loadList xs).1 xs
  | [] => .nil heap
  | x :: xs => (heap.load_loads x).cons ((heap.load x).2.loadList_loads xs)

theorem Heap.loadFields_loads (heap : Heap) : ∀ kvs : List (String × Json),
    (heap.loadFields kvs).1.map Prod.fst = kvs.map Prod.fst ∧
      heap.Loads (heap.loadFields kvs).2 ((heap.loadFields kvs).1.map Prod.snd) (kvs.map Prod.snd)
  | [] => ⟨rfl, .nil heap⟩
  | (k, x) :: rest => by
      obtain ⟨hkeys, hloads⟩ := (heap.load x).2.loadFields_loads rest
      exact ⟨congrArg (k :: ·) hkeys, (heap.load_loads x).cons hloads⟩

end

theorem Heap.load_contents (heap : Heap) (j : Json) :
    (heap.load j).2.Contents (heap.load j).1 j := (heap.load_loads j).contents 0 _ _ rfl rfl

/-! ## 4. `copy.deepcopy` -/

theorem Heap.contents_shift {heap : Heap} {v : PyValue} {j : Json} (h : heap.Contents v j) :
    (heap ++ heap.map (PyObject.shift heap.length)).Contents (v.shift heap.length) j := by
  induction h with
  | @leaf v hv =>
      have hshift : v.shift heap.length = v := by cases v <;> first | rfl | cases hv
      rw [hshift]
      exact .leaf hv
  | @node v a o xs ha ho hlen _ ih =>
      rw [PyValue.addr?_eq_some_iff.mp ha]
      have hvalues : (o.shift heap.length).values = o.values.map (PyValue.shift heap.length) := by
        cases o <;> simp [PyObject.shift, PyObject.values]
      have hnode : o.node xs = (o.shift heap.length).node xs := by
        cases o <;> simp [PyObject.shift, PyObject.node, Function.comp_def]
      have hcell : (heap ++ heap.map (PyObject.shift heap.length))[heap.length + a]? =
          some (o.shift heap.length) := by
        rw [List.getElem?_append_right (Nat.le_add_right _ _), Nat.add_sub_cancel_left,
          List.getElem?_map, ho]
        rfl
      show pyLayout.Denotes _ _ (o.node xs)
      rw [hnode]
      have hlen' : xs.length = (pyLayout.values (o.shift heap.length)).length := by
        rw [pyLayout_values, hvalues, List.length_map]
        exact hlen
      refine .node rfl hcell hlen' fun i w x hw hx => ?_
      rw [pyLayout_values, hvalues, List.getElem?_map, Option.map_eq_some_iff] at hw
      obtain ⟨w', hw', rfl⟩ := hw
      exact ih i w' x hw' hx

theorem Heap.deepcopy_contents {heap : Heap} {v : PyValue} {j : Json} (h : heap.Contents v j) :
    (heap.deepcopy v).2.Contents v j ∧ (heap.deepcopy v).2.Contents (heap.deepcopy v).1 j :=
  ⟨h.append _, Heap.contents_shift h⟩

end ConstructorPlatform
