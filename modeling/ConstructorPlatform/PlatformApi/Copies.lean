import ConstructorPlatform.PlatformApi.Simultaneous

/-!
# Copies — the cells that only the result refers to

The copy of a decoded context is a tree of cells that nothing else refers to.  The loop adds the
dictionaries that it makes in it, and what the searches find stays outside: `Tracks.after`.  Paths
that do not go through a destination stay in the copy.
-/

namespace ConstructorPlatform

open Reasoning

/-! ## 1. The copy of a decoded document -/

-- An address that a list without duplicates holds stands at one position.
theorem position_unique {vs : List PyValue} (hnodup : (vs.filterMap PyValue.addr?).Nodup)
    {i i' a : Nat} (hi : vs[i]? = some (.ref a)) (hi' : vs[i']? = some (.ref a)) : i = i' := by
  induction vs generalizing i i' with
  | nil => cases hi
  | cons v vs ih =>
      have hmem : ∀ {k : Nat}, vs[k]? = some (.ref a) → a ∈ vs.filterMap PyValue.addr? :=
        fun hk => List.mem_filterMap.mpr ⟨_, List.mem_of_getElem? hk, rfl⟩
      have hrest : (vs.filterMap PyValue.addr?).Nodup :=
        hnodup.sublist (List.Sublist.filterMap _ (List.sublist_cons_self v vs))
      have hhead : v = .ref a → a ∉ vs.filterMap PyValue.addr? := by
        rintro rfl
        exact (List.nodup_cons.mp hnodup).1
      cases i with
      | zero =>
          cases i' with
          | zero => rfl
          | succ i' => exact absurd (hmem hi') (hhead (Option.some.inj hi))
      | succ i =>
          cases i' with
          | zero => exact absurd (hmem hi) (hhead (Option.some.inj hi'))
          | succ i' => rw [ih hrest hi hi']

theorem refers_iff {heap : Heap} {b i a : Nat} :
    pyLayout.Refers heap b i a ↔ ∃ o, heap[b]? = some o ∧ o.values[i]? = some (.ref a) := by
  constructor
  · rintro ⟨o, v, ho, hv, ha⟩
    rw [PyValue.addr?_eq_some_iff.mp ha] at hv
    exact ⟨o, ho, hv⟩
  · rintro ⟨o, ho, hv⟩
    exact ⟨o, _, ho, hv, rfl⟩

theorem mem_addrs_of_refers {heap : Heap} {b i a : Nat} (h : pyLayout.Refers heap b i a) :
    a ∈ heap.flatMap PyObject.addrs := by
  obtain ⟨o, ho, hv⟩ := refers_iff.mp h
  exact List.mem_flatMap.mpr ⟨o, List.mem_of_getElem? ho,
    List.mem_filterMap.mpr ⟨_, List.mem_of_getElem? hv, rfl⟩⟩

theorem refers_unique {heap : Heap} (hnodup : (heap.flatMap PyObject.addrs).Nodup)
    {a b i b' i' : Nat} (h : pyLayout.Refers heap b i a) (h' : pyLayout.Refers heap b' i' a) :
    b = b' ∧ i = i' := by
  obtain ⟨o, ho, hv⟩ := refers_iff.mp h
  obtain ⟨o', ho', hv'⟩ := refers_iff.mp h'
  obtain ⟨hb, rfl⟩ := List.getElem?_eq_some_iff.mp ho
  obtain ⟨hb', rfl⟩ := List.getElem?_eq_some_iff.mp ho'
  obtain ⟨hinner, hpairs⟩ := List.nodup_flatMap.mp hnodup
  have hmem : ∀ {k l : Nat} {hk : k < heap.length}, heap[k].values[l]? = some (.ref a) →
      a ∈ heap[k].addrs := fun hl => List.mem_filterMap.mpr ⟨_, List.mem_of_getElem? hl, rfl⟩
  have hlt : ∀ {k k' : Nat} {hk : k < heap.length} {hk' : k' < heap.length}, k < k' →
      a ∈ heap[k].addrs → a ∉ heap[k'].addrs := fun hkk' ha ha' =>
    List.pairwise_iff_getElem.mp hpairs _ _ _ _ hkk' ha ha'
  rcases Nat.lt_trichotomy b b' with hbb' | rfl | hbb'
  · exact absurd (hmem hv') (hlt hbb' (hmem hv))
  · exact ⟨rfl, position_unique (hinner _ (List.getElem_mem hb)) hv hv'⟩
  · exact absurd (hmem hv) (hlt hbb' (hmem hv'))

theorem PyObject.values_shift (o : PyObject) (base : Nat) :
    (o.shift base).values = o.values.map (PyValue.shift base) := by
  cases o <;> simp [PyObject.shift, PyObject.values]

theorem refers_deepcopy {heap : Heap} {v : PyValue} {b i a : Nat}
    (h : pyLayout.Refers (heap.deepcopy v).2 b i a) :
    (b < heap.length ∧ pyLayout.Refers heap b i a) ∨
      ∃ b' a', b = heap.length + b' ∧ a = heap.length + a' ∧ pyLayout.Refers heap b' i a' := by
  obtain ⟨o, ho, hv⟩ := refers_iff.mp h
  rcases Nat.lt_or_ge b heap.length with hb | hb
  · rw [Heap.deepcopy, List.getElem?_append_left hb] at ho
    exact .inl ⟨hb, refers_iff.mpr ⟨o, ho, hv⟩⟩
  · rw [Heap.deepcopy, List.getElem?_append_right hb, List.getElem?_map,
      Option.map_eq_some_iff] at ho
    obtain ⟨o', ho', rfl⟩ := ho
    rw [PyObject.values_shift, List.getElem?_map, Option.map_eq_some_iff] at hv
    obtain ⟨w, hw, hshift⟩ := hv
    cases w with
    | ref a' =>
        cases hshift
        exact .inr ⟨b - heap.length, a', (Nat.add_sub_cancel' hb).symm, rfl,
          refers_iff.mpr ⟨o', ho', hw⟩⟩
    | _ => cases hshift

/-- The addresses of the copy that `apply_transform` makes first. -/
def copied (heap : Heap) : Set Nat := {a | heap.length ≤ a ∧ a < heap.length + heap.length}

theorem owned_deepcopy (j : Json) :
    pyLayout.Owned ((Heap.load [] j).2.deepcopy (Heap.load [] j).1).2
      ((Heap.load [] j).2.deepcopy (Heap.load [] j).1).1 (copied (Heap.load [] j).2) := by
  obtain ⟨cells, hcells, hin, hnodup⟩ := (Heap.load_loads [] j).cells
  rw [List.nil_append] at hcells
  rw [← hcells] at hin hnodup
  generalize (Heap.load [] j).2 = heap at *
  generalize (Heap.load [] j).1 = v at *
  obtain ⟨hnodup, -, hroot⟩ := List.nodup_append.mp hnodup
  have hlt : ∀ {b i a}, pyLayout.Refers heap b i a → a < heap.length := fun h =>
    (hin _ (List.mem_append_left _ (mem_addrs_of_refers h))).2
  have hrootlt : ∀ {a}, v = .ref a → a < heap.length ∧ ∀ b i, ¬ pyLayout.Refers heap b i a := by
    rintro a rfl
    refine ⟨(hin a (List.mem_append_right _ (by simp [PyValue.addr?]))).2, fun b i h => ?_⟩
    exact hroot a (mem_addrs_of_refers h) a (by simp [PyValue.addr?]) rfl
  have hcopy : ∀ {a}, pyLayout.addr? (heap.deepcopy v).1 = some a →
      ∃ a', v = .ref a' ∧ a = heap.length + a' := by
    intro a ha
    have ha := PyValue.addr?_eq_some_iff.mp ha
    cases v with
    | ref a' => cases ha; exact ⟨a', rfl, rfl⟩
    | _ => cases ha
  constructor
  · intro a ha
    obtain ⟨a', hv, rfl⟩ := hcopy ha
    have := (hrootlt hv).1
    exact ⟨by omega, by omega⟩
  · intro a ha b i href
    obtain ⟨a', hv, rfl⟩ := hcopy ha
    rcases refers_deepcopy href with ⟨-, href⟩ | ⟨b', a'', -, heq, href⟩
    · have := hlt href
      omega
    · have heq : a' = a'' := by omega
      exact (hrootlt hv).2 b' i (heq ▸ href)
  · rintro a ⟨ha, -⟩ b i href
    rcases refers_deepcopy href with ⟨-, href⟩ | ⟨b', a', rfl, -, href⟩
    · have := hlt href
      omega
    · obtain ⟨o, ho, -⟩ := refers_iff.mp href
      have := (List.getElem?_eq_some_iff.mp ho).1
      exact ⟨by omega, by omega⟩
  · rintro a ⟨ha, -⟩ b i b' i' href href'
    rcases refers_deepcopy href with ⟨-, href⟩ | ⟨c, a', rfl, heq, href⟩
    · have := hlt href
      omega
    · rcases refers_deepcopy href' with ⟨-, href'⟩ | ⟨c', a'', rfl, heq', href'⟩
      · have := hlt href'
        omega
      · have heq : a' = a'' := by omega
        subst heq
        obtain ⟨rfl, rfl⟩ := refers_unique hnodup href href'
        exact ⟨rfl, rfl⟩
  · rintro a ⟨-, ha⟩
    simpa [Heap.deepcopy] using ha
  · intro b i a href
    rw [Heap.deepcopy, List.length_append, List.length_map]
    rcases refers_deepcopy href with ⟨-, href⟩ | ⟨b', a', -, rfl, hold⟩
    · have := hlt href
      omega
    · have := hlt hold
      omega

/-! ## 2. A write -/

theorem freshDicts_fst (next : Nat) (value : PyValue) (more : List String) :
    (freshDicts next value more).1 = if more = [] then value else .ref next := by
  cases more <;> rfl

theorem freshDicts_cell {next : Nat} {value : PyValue} {more : List String} {k : Nat}
    {o : PyObject} (h : (freshDicts next value more).2[k]? = some o) :
    ∃ key, more[k]? = some key ∧
      o = .dict [(key, (freshDicts (next + k + 1) value (more.drop (k + 1))).1)] := by
  induction more generalizing next k with
  | nil => cases h
  | cons key more ih =>
      cases k with
      | zero =>
          cases h
          exact ⟨key, rfl, rfl⟩
      | succ k =>
          obtain ⟨key', hkey', ho⟩ := ih h
          exact ⟨key', hkey', by rw [ho, Nat.add_right_comm next 1 k]; rfl⟩

theorem freshDicts_length (next : Nat) (value : PyValue) (more : List String) :
    (freshDicts next value more).2.length = more.length := by
  induction more generalizing next with
  | nil => rfl
  | cons key more ih => rw [freshDicts, List.length_cons, ih, List.length_cons]

namespace Write

variable {w : Write} {entries : List (String × PyValue)}

theorem length_after (w : Write) : w.after.length = w.heap.length + w.more.length := by
  rw [after, List.length_append, List.length_set, freshDicts_length]

theorem top_eq (w : Write) : w.top = if w.more = [] then w.value else .ref w.heap.length :=
  freshDicts_fst _ _ _

-- A new dictionary has one key, which leads to the next new dictionary or to the value.
theorem fresh_cell {k : Nat} {o : PyObject} (h : w.after[w.heap.length + k]? = some o) :
    ∃ key, w.more[k]? = some key ∧
      o = .dict [(key, if w.more.length ≤ k + 1 then w.value
        else .ref (w.heap.length + (k + 1)))] := by
  have hle : (w.heap.set w.addr (.dict (dictSet w.key w.top w.entries))).length ≤
      w.heap.length + k := by simp
  rw [after, List.getElem?_append_right hle, List.length_set, Nat.add_sub_cancel_left] at h
  obtain ⟨key, hkey, rfl⟩ := freshDicts_cell h
  refine ⟨key, hkey, ?_⟩
  rw [freshDicts_fst]
  simp only [List.drop_eq_nil_iff, Nat.add_assoc]

-- The references of the dictionary that is written.
theorem refers_written (ho : w.heap[w.addr]? = some (.dict entries))
    (hnone : w.more ≠ [] → entries.lookup w.key = none) {i a : Nat}
    (h : pyLayout.Refers w.after w.addr i a) :
    pyLayout.Refers w.heap w.addr i a ∨ w.value = .ref a ∨
      (w.more ≠ [] ∧ a = w.heap.length ∧ i = entries.length) := by
  obtain ⟨o, hcell, hv⟩ := refers_iff.mp h
  rw [cell_after ho] at hcell
  cases hcell
  rw [PyObject.values, List.getElem?_map, Option.map_eq_some_iff] at hv
  obtain ⟨e, he, hea⟩ := hv
  have hold : entries[i]? = some e → pyLayout.Refers w.heap w.addr i a := fun he =>
    refers_iff.mpr ⟨_, ho, by rw [PyObject.values, List.getElem?_map, he, ← hea]; rfl⟩
  cases hlookup : entries.lookup w.key with
  | some old =>
      have hmore : w.more = [] := by
        by_contra hmore
        rw [hnone hmore] at hlookup
        cases hlookup
      obtain ⟨i', hi', hset⟩ := lookup_position hlookup
      rw [hset entries rfl, List.getElem?_set] at he
      split at he
      · split at he <;> cases he
        rw [top_eq, if_pos hmore] at hea
        exact .inr (.inl hea)
      · exact .inl (hold he)
  | none =>
      rw [dictSet_of_none hlookup] at he
      rcases Nat.lt_or_ge i entries.length with hi | hi
      · rw [List.getElem?_append_left hi] at he
        exact .inl (hold he)
      · rw [List.getElem?_append_right hi, List.getElem?_singleton] at he
        split at he
        · rename_i hzero
          cases he
          rw [top_eq] at hea
          split at hea
          · exact .inr (.inl hea)
          · rename_i hmore
            cases hea
            exact .inr (.inr ⟨hmore, rfl, by omega⟩)
        · cases he

-- The reference of a new dictionary.
theorem refers_fresh {k i a : Nat} (h : pyLayout.Refers w.after (w.heap.length + k) i a) :
    w.value = .ref a ∨ (k + 1 < w.more.length ∧ a = w.heap.length + (k + 1) ∧ i = 0) := by
  obtain ⟨o, hcell, hv⟩ := refers_iff.mp h
  obtain ⟨key, -, rfl⟩ := fresh_cell hcell
  rw [PyObject.values, List.map_singleton, List.getElem?_singleton] at hv
  split at hv
  · rename_i hzero
    rw [Option.some.injEq] at hv
    split at hv
    · exact .inl hv
    · rename_i hlast
      cases hv
      exact .inr ⟨Nat.lt_of_not_le hlast, rfl, hzero⟩
  · cases hv

-- A reference after the write is an old one, one to the value, or the one to a new dictionary.
theorem refers_after (ho : w.heap[w.addr]? = some (.dict entries))
    (hnone : w.more ≠ [] → entries.lookup w.key = none) {b i a : Nat}
    (h : pyLayout.Refers w.after b i a) :
    (b < w.heap.length ∧ pyLayout.Refers w.heap b i a) ∨ w.value = .ref a ∨
      ∃ k < w.more.length, a = w.heap.length + k ∧
        ((k = 0 ∧ b = w.addr ∧ i = entries.length) ∨
          (w.heap.length ≤ b ∧ b + 1 = a ∧ i = 0)) := by
  rcases Nat.lt_or_ge b w.heap.length with hb | hb
  · by_cases haddr : b = w.addr
    · subst haddr
      rcases refers_written ho hnone h with hold | hvalue | ⟨hmore, rfl, hi⟩
      · exact .inl ⟨hb, hold⟩
      · exact .inr (.inl hvalue)
      · exact .inr (.inr ⟨0, List.length_pos_iff.mpr hmore, rfl, .inl ⟨rfl, rfl, hi⟩⟩)
    · obtain ⟨o, hcell, hv⟩ := refers_iff.mp h
      rw [w.agreeOff b hb haddr] at hcell
      exact .inl ⟨hb, refers_iff.mpr ⟨o, hcell, hv⟩⟩
  · obtain ⟨k, rfl⟩ := Nat.exists_eq_add_of_le hb
    rcases refers_fresh h with hvalue | ⟨hk, rfl, hi⟩
    · exact .inr (.inl hvalue)
    · exact .inr (.inr ⟨k + 1, hk, rfl, .inr ⟨hb, rfl, hi⟩⟩)

/-- The cells of the result after a write: when the dictionary is one of them, the new dictionaries
are too. -/
def owned (w : Write) (S : Set Nat) : Set Nat :=
  {a | a ∈ S ∨ (w.addr ∈ S ∧ w.heap.length ≤ a ∧ a < w.heap.length + w.more.length)}

theorem owned_after (ho : w.heap[w.addr]? = some (.dict entries))
    (hnone : w.more ≠ [] → entries.lookup w.key = none) {result : PyValue} {S : Set Nat}
    (h : pyLayout.Owned w.heap result S)
    (hvalue : ∀ a, w.value = .ref a → a ∉ S ∧ a < w.heap.length) :
    pyLayout.Owned w.after result (w.owned S) := by
  have hout : ∀ {a}, w.value = .ref a → a ∉ w.owned S := by
    rintro a ha (hS | ⟨-, hle, -⟩)
    · exact (hvalue a ha).1 hS
    · have := (hvalue a ha).2
      omega
  have hlt : ∀ {b i a}, pyLayout.Refers w.heap b i a → a < w.heap.length :=
    fun href => h.refers_inside _ _ _ href
  constructor
  · exact fun a ha => .inl (h.root_mem a ha)
  · intro a ha b i href
    have hroot := h.root_mem a ha
    have hin := h.inside a hroot
    rcases refers_after ho hnone href with ⟨-, href⟩ | hval | ⟨k, -, rfl, -⟩
    · exact h.root_free a ha b i href
    · exact (hvalue a hval).1 hroot
    · omega
  · intro a ha b i href
    rcases refers_after ho hnone href with ⟨-, href⟩ | hval | ⟨k, hk, rfl, hb⟩
    · rcases ha with hS | ⟨-, hle, -⟩
      · exact .inl (h.closed a hS b i href)
      · have := hlt href
        omega
    · exact absurd ha (hout hval)
    · rcases ha with hS | ⟨haddr, -, -⟩
      · have := h.inside _ hS
        omega
      · rcases hb with ⟨-, rfl, -⟩ | ⟨hle, heq, -⟩
        · exact .inl haddr
        · exact .inr ⟨haddr, hle, by omega⟩
  · intro a ha b i b' i' href href'
    rcases refers_after ho hnone href with ⟨-, hold⟩ | hval | ⟨k, hk, heq, hb⟩
    · rcases ha with hS | ⟨-, hle, -⟩
      · have hin := h.inside a hS
        rcases refers_after ho hnone href' with ⟨-, hold'⟩ | hval | ⟨k', -, heq', -⟩
        · exact h.once a hS b i b' i' hold hold'
        · exact absurd hS (hvalue a hval).1
        · omega
      · have := hlt hold
        omega
    · exact absurd ha (hout hval)
    · rcases refers_after ho hnone href' with ⟨-, hold'⟩ | hval | ⟨k', hk', heq', hb'⟩
      · have := hlt hold'
        omega
      · exact absurd ha (hout hval)
      · have hinside := (List.getElem?_eq_some_iff.mp ho).1
        rcases hb with ⟨rfl, rfl, rfl⟩ | ⟨hle, hba, rfl⟩
        · rcases hb' with ⟨-, rfl, rfl⟩ | ⟨hle', hba', -⟩
          · exact ⟨rfl, rfl⟩
          · omega
        · rcases hb' with ⟨rfl, -, -⟩ | ⟨hle', hba', rfl⟩
          · omega
          · exact ⟨by omega, rfl⟩
  · rintro a (hS | ⟨-, -, hlt⟩)
    · have := h.inside a hS
      rw [length_after]
      omega
    · rwa [length_after]
  · intro b i a href
    rw [length_after]
    rcases refers_after ho hnone href with ⟨-, href⟩ | hval | ⟨k, hk, rfl, -⟩
    · have := hlt href
      omega
    · have := (hvalue a hval).2
      omega
    · omega

end Write

/-! ## 3. Paths in the heap -/

def PyObject.child : PyObject → Step → Option PyValue
  | .list items, .item i => items[i]?
  | .dict entries, .key k => entries.lookup k
  | _, _ => none

def Heap.child (heap : Heap) (v : PyValue) (s : Step) : Option PyValue :=
  (heap.cell v).bind fun c => c.2.child s

def Heap.valueAt (heap : Heap) : PyValue → List Step → Option PyValue
  | v, [] => some v
  | v, s :: path => (heap.child v s).bind fun w => heap.valueAt w path

theorem Heap.valueAt_append (heap : Heap) (v : PyValue) (path path' : List Step) :
    heap.valueAt v (path ++ path') = (heap.valueAt v path).bind fun w => heap.valueAt w path' := by
  induction path generalizing v with
  | nil => rfl
  | cons s path ih =>
      rw [List.cons_append, Heap.valueAt, Heap.valueAt, Option.bind_assoc]
      exact Option.bind_congr fun w _ => ih w

theorem Heap.valueAt_snoc (heap : Heap) (v : PyValue) (path : List Step) (s : Step) :
    heap.valueAt v (path ++ [s]) = (heap.valueAt v path).bind fun w => heap.child w s := by
  rw [Heap.valueAt_append]
  simp [Heap.valueAt]

theorem Heap.child_ref {heap : Heap} {a : Nat} {o : PyObject} (ho : heap[a]? = some o) (s : Step) :
    heap.child (.ref a) s = o.child s := by
  rw [Heap.child, Heap.cell_ref, ho]
  rfl

theorem Heap.child_of_addr? (heap : Heap) {v : PyValue} (hv : v.addr? = none) (s : Step) :
    heap.child v s = none := by
  cases v with
  | ref a => cases hv
  | _ => rfl

theorem Heap.child_congr {heap heap' : Heap} {a : Nat} (h : heap'[a]? = heap[a]?) (s : Step) :
    heap'.child (.ref a) s = heap.child (.ref a) s := by
  rw [Heap.child, Heap.child, Heap.cell_ref, Heap.cell_ref, h]

-- What a document has at a path is what the value has there.
theorem Heap.contents_child {heap : Heap} {v : PyValue} {j : Json} (h : heap.Contents v j)
    (s : Step) : Option.Rel heap.Contents (heap.child v s) (j.child s) := by
  cases h with
  | @leaf v hv =>
      rw [heap.child_of_addr? hv]
      cases v <;> cases s <;> exact .none
  | @node v a o xs ha ho hlen hxs =>
      obtain rfl := PyValue.addr?_eq_some_iff.mp ha
      rw [Heap.child_ref ho]
      cases o with
      | list items =>
          cases s with
          | key k => exact .none
          | item i =>
              show Option.Rel heap.Contents items[i]? xs[i]?
              have hlen : xs.length = items.length := hlen
              rcases Nat.lt_or_ge i items.length with hi | hi
              · have hv := List.getElem?_eq_getElem hi
                have hx := List.getElem?_eq_getElem (hlen ▸ hi : i < xs.length)
                rw [hv, hx]
                exact .some (hxs i _ _ hv hx)
              · rw [List.getElem?_eq_none hi, List.getElem?_eq_none (hlen ▸ hi)]
                exact .none
      | dict entries =>
          have hdict : heap.Contents (.ref a) (.obj ((entries.map Prod.fst).zip xs)) :=
            .node rfl ho hlen hxs
          obtain ⟨kvs, heq, hkvs⟩ := (Heap.contents_dict_iff ho).mp hdict
          cases heq
          cases s with
          | key k => exact hkvs.lookup k
          | item i => exact .none

theorem Heap.contents_valueAt {heap : Heap} {v : PyValue} {j : Json} (h : heap.Contents v j)
    (path : List Step) : Option.Rel heap.Contents (heap.valueAt v path) (j.valueAt path) := by
  induction path generalizing v j with
  | nil => exact .some h
  | cons s path ih =>
      rw [Heap.valueAt, Json.valueAt]
      have hs := Heap.contents_child h s
      revert hs
      generalize heap.child v s = o
      generalize j.child s = o'
      rintro (hs | -)
      · exact ih hs
      · exact .none

-- The walk of `_set_nested` is the path of the keys before the last one that is walked.
theorem Heap.valueAt_target {heap : Heap} {current : PyValue} {keys : List String} {a : Nat}
    {key : String} {more : List String} (h : heap.target current keys = some (a, key, more)) :
    ∃ before, keys = before ++ key :: more ∧
      heap.valueAt current (before.map .key) = some (.ref a) := by
  induction keys generalizing current with
  | nil => cases h
  | cons k rest ih =>
      obtain ⟨b, entries, rfl, ho, ⟨next, -, hlookup, hnext⟩ | ⟨rfl, rfl, rfl, -⟩⟩ :=
        Heap.target_cons h
      · obtain ⟨before, rfl, hbefore⟩ := ih hnext
        refine ⟨k :: before, rfl, ?_⟩
        rw [List.map_cons, Heap.valueAt, Heap.child_ref ho]
        show (entries.lookup k).bind _ = _
        rw [hlookup, Option.bind_some, hbefore]
      · exact ⟨[], rfl, rfl⟩

/-- The step that leads to position `i`. -/
def PyObject.stepAt (o : PyObject) (i : Nat) : Option Step :=
  match o with
  | .list _ => some (.item i)
  | .dict entries => entries[i]?.map fun e => .key e.1

theorem PyObject.child_position {o : PyObject} {s : Step} {v : PyValue} (h : o.child s = some v) :
    ∃ i : Nat, o.values[i]? = some v ∧ o.stepAt i = some s := by
  cases o with
  | list items =>
      cases s with
      | item i => exact ⟨i, h, rfl⟩
      | key k => cases h
  | dict entries =>
      cases s with
      | item i => cases h
      | key k =>
          obtain ⟨i, hi, -⟩ := lookup_position h
          exact ⟨i, by simp [PyObject.values, hi], by simp [PyObject.stepAt, hi]⟩

theorem Heap.child_refers {heap : Heap} {v : PyValue} {s : Step} {a : Nat}
    (h : heap.child v s = some (.ref a)) :
    ∃ b o i, v = .ref b ∧ heap[b]? = some o ∧ o.stepAt i = some s ∧ pyLayout.Refers heap b i a := by
  rw [Heap.child, Option.bind_eq_some_iff] at h
  obtain ⟨⟨b, o⟩, hcell, hchild⟩ := h
  obtain ⟨rfl, ho⟩ := Heap.cell_eq_some_iff.mp hcell
  obtain ⟨i, hi, hstep⟩ := PyObject.child_position hchild
  exact ⟨b, o, i, rfl, ho, hstep, refers_iff.mpr ⟨o, ho, hi⟩⟩

theorem Write.child_written {w : Write} {entries : List (String × PyValue)}
    (ho : w.heap[w.addr]? = some (.dict entries)) (s : Step) :
    w.after.child (.ref w.addr) s =
      if s = .key w.key then some w.top else w.heap.child (.ref w.addr) s := by
  rw [Heap.child_ref (Write.cell_after ho), Heap.child_ref ho]
  cases s with
  | item i => rfl
  | key k => simp only [PyObject.child, lookup_dictSet, Step.key.injEq]

theorem Write.child_fresh {w : Write} {k : Nat} {key : String} (hkey : w.more[k]? = some key)
    (s : Step) :
    w.after.child (.ref (w.heap.length + k)) s =
      if s = .key key then some (if w.more.length ≤ k + 1 then w.value
        else .ref (w.heap.length + (k + 1))) else none := by
  have hk : w.heap.length + k < w.after.length := by
    rw [Write.length_after]
    exact Nat.add_lt_add_left (List.getElem?_eq_some_iff.mp hkey).1 _
  have hcell := List.getElem?_eq_getElem hk
  obtain ⟨key', hkey', ho⟩ := Write.fresh_cell hcell
  rw [hkey] at hkey'
  cases hkey'
  rw [Heap.child_ref hcell, ho]
  cases s with
  | item i => rfl
  | key k' =>
      simp only [PyObject.child, List.lookup_cons, List.lookup_nil, Step.key.injEq]
      by_cases hk' : k' = key
      · rw [if_pos hk', hk', beq_self_eq_true]
      · rw [if_neg hk', beq_eq_false_iff_ne.mpr hk']

-- One path leads to a cell of the result.
theorem path_unique {heap : Heap} {result : PyValue} {S : Set Nat}
    (h : pyLayout.Owned heap result S) {a : Nat} (ha : a ∈ S) {path path' : List Step}
    (hpath : heap.valueAt result path = some (.ref a))
    (hpath' : heap.valueAt result path' = some (.ref a)) : path = path' := by
  have hroot : ∀ {a}, heap.valueAt result [] = some (.ref a) → pyLayout.addr? result = some a :=
    fun hnil => PyValue.addr?_eq_some_iff.mpr (Option.some.inj hnil)
  induction path using List.reverseRecOn generalizing a path' with
  | nil =>
      induction path' using List.reverseRecOn with
      | nil => rfl
      | append_singleton path' s _ =>
          rw [Heap.valueAt_snoc, Option.bind_eq_some_iff] at hpath'
          obtain ⟨v, -, hchild⟩ := hpath'
          obtain ⟨b, o, i, -, -, -, href⟩ := Heap.child_refers hchild
          exact absurd href (h.root_free a (hroot hpath) b i)
  | append_singleton path s ih =>
      rw [Heap.valueAt_snoc, Option.bind_eq_some_iff] at hpath
      obtain ⟨v, hv, hchild⟩ := hpath
      obtain ⟨b, o, i, rfl, ho, hstep, href⟩ := Heap.child_refers hchild
      induction path' using List.reverseRecOn with
      | nil => exact absurd href (h.root_free a (hroot hpath') b i)
      | append_singleton path' s' _ =>
          rw [Heap.valueAt_snoc, Option.bind_eq_some_iff] at hpath'
          obtain ⟨v', hv', hchild'⟩ := hpath'
          obtain ⟨b', o', i', rfl, ho', hstep', href'⟩ := Heap.child_refers hchild'
          obtain ⟨rfl, rfl⟩ := h.once a ha b i b' i' href href'
          rw [ho] at ho'
          cases ho'
          rw [hstep] at hstep'
          cases hstep'
          rw [ih (h.closed a ha b i href) hv hv']

/-! ## 4. The loop -/

/-- What a search returns leads to the argument and to the cells that it makes, and nowhere else. -/
structure JMESPath.StaysInside (jmespath : JMESPath) : Prop where
  value : ∀ {expression heap v w new a}, jmespath.search expression heap v = .ok (w, new) →
    w = .ref a → heap.Holds v a ∨ (heap.length ≤ a ∧ a < heap.length + new.length)
  cells : ∀ {expression heap v w new o a}, jmespath.search expression heap v = .ok (w, new) →
    o ∈ new → .ref a ∈ o.values →
      heap.Holds v a ∨ (heap.length ≤ a ∧ a < heap.length + new.length)

theorem identifierSearch_staysInside : identifierSearch.StaysInside where
  value := by
    intro expression heap v w new a hsearch hw
    simp only [identifierSearch] at hsearch
    split at hsearch
    · rename_i name addr entries hcell
      cases hsearch
      obtain ⟨rfl, ho⟩ := Heap.cell_eq_some_iff.mp hcell
      cases hlookup : entries.lookup name with
      | none => rw [hlookup] at hw; cases hw
      | some u =>
          rw [hlookup, Option.getD_some] at hw
          subst hw
          obtain ⟨i, hi, -⟩ := lookup_position hlookup
          exact .inl ((Layout.Holds.self rfl).of_child (Heap.child_entry ho hi))
    · cases hsearch
      cases hw
  cells := by
    intro expression heap v w new o a hsearch ho
    simp only [identifierSearch] at hsearch
    split at hsearch <;> cases hsearch <;> exact absurd ho List.not_mem_nil

/-- The cells `S` are those that only the result refers to, and the paths of the result that do not
go through one of the destinations `done` stay in them. -/
structure Tracks (heap : Heap) (context result : PyValue) (done : List (List Step)) (S : Set Nat) :
    Prop where
  owned : pyLayout.Owned heap result S
  context_out : ∀ a, context = .ref a → a ∉ S ∧ a < heap.length
  leads : ∀ path a, (∀ d ∈ done, ¬ d <+: path) → heap.valueAt result path = some (.ref a) → a ∈ S

variable {heap : Heap} {context result : PyValue} {done : List (List Step)} {S : Set Nat}

namespace Tracks

theorem not_holds (h : Tracks heap context result done S) {a : Nat} (ha : a ∈ S) :
    ¬ heap.Holds context a :=
  h.owned.not_holds (fun b hb => (h.context_out b (PyValue.addr?_eq_some_iff.mp hb)).1) ha

-- What is part of the context is outside of the result and in the heap.
theorem holds_out (h : Tracks heap context result done S) {a : Nat} (ha : heap.Holds context a) :
    a ∉ S ∧ a < heap.length := by
  refine ⟨fun hS => h.not_holds hS ha, ?_⟩
  obtain ⟨place, hplace⟩ := ha
  induction place using List.reverseRecOn with
  | nil => exact (h.context_out a (PyValue.addr?_eq_some_iff.mp (Layout.standsAt_nil.mp hplace))).2
  | append_singleton place i _ =>
      obtain ⟨b, -, href⟩ := Layout.standsAt_snoc.mp hplace
      exact h.owned.refers_inside b i a href

theorem start (j : Json) :
    Tracks ((Heap.load [] j).2.deepcopy (Heap.load [] j).1).2 (Heap.load [] j).1
      ((Heap.load [] j).2.deepcopy (Heap.load [] j).1).1 [] (copied (Heap.load [] j).2) := by
  have howned := owned_deepcopy j
  obtain ⟨cells, hcells, hin, -⟩ := (Heap.load_loads [] j).cells
  rw [List.nil_append] at hcells
  rw [← hcells] at hin
  generalize (Heap.load [] j).2 = heap at *
  generalize (Heap.load [] j).1 = v at *
  refine ⟨howned, ?_, ?_⟩
  · rintro a rfl
    have hlt := (hin a (List.mem_append_right _ (by simp [PyValue.addr?]))).2
    rw [Heap.deepcopy, List.length_append]
    exact ⟨fun hcopied => by have := hcopied.1; omega, by omega⟩
  · intro path a _ hpath
    induction path using List.reverseRecOn generalizing a with
    | nil => exact howned.root_mem a (PyValue.addr?_eq_some_iff.mpr (Option.some.inj hpath))
    | append_singleton path s ih =>
        rw [Heap.valueAt_snoc, Option.bind_eq_some_iff] at hpath
        obtain ⟨u, hu, hchild⟩ := hpath
        obtain ⟨b, o, i, rfl, -, -, href⟩ := Heap.child_refers hchild
        have hb := (ih b (by simp) hu).1
        rcases refers_deepcopy href with ⟨hlt, -⟩ | ⟨b', a', -, rfl, hold⟩
        · omega
        · have := (hin a' (List.mem_append_left _ (mem_addrs_of_refers hold))).2
          exact ⟨by omega, by omega⟩

theorem valueAt_lt (h : Tracks heap context result done S) {path : List Step} {a : Nat}
    (hpath : heap.valueAt result path = some (.ref a)) : a < heap.length := by
  induction path using List.reverseRecOn with
  | nil =>
      refine h.owned.inside a (h.owned.root_mem a ?_)
      exact PyValue.addr?_eq_some_iff.mpr (Option.some.inj hpath)
  | append_singleton path s _ =>
      rw [Heap.valueAt_snoc, Option.bind_eq_some_iff] at hpath
      obtain ⟨v, -, hchild⟩ := hpath
      obtain ⟨b, o, i, -, -, -, href⟩ := Heap.child_refers hchild
      exact h.owned.refers_inside b i a href

/-- New cells that lead past the result change nothing there. -/
theorem grow (h : Tracks heap context result done S) {new : List PyObject}
    (hnew : ∀ o ∈ new, ∀ a, .ref a ∈ o.values → a ∉ S ∧ a < (heap ++ new).length) :
    Tracks (heap ++ new) context result done S ∧
      ∀ path, (heap ++ new).valueAt result path = heap.valueAt result path := by
  have howned : pyLayout.Owned (heap ++ new) result S := by
    refine h.owned.grow (by rw [List.length_append]; omega) fun b i a href => ?_
    obtain ⟨o, ho, hv⟩ := refers_iff.mp href
    rcases Nat.lt_or_ge b heap.length with hb | hb
    · rw [List.getElem?_append_left hb] at ho
      exact .inl (refers_iff.mpr ⟨o, ho, hv⟩)
    · rw [List.getElem?_append_right hb] at ho
      exact .inr (hnew o (List.mem_of_getElem? ho) a (List.mem_of_getElem? hv))
  have hpaths : ∀ path, (heap ++ new).valueAt result path = heap.valueAt result path := by
    intro path
    induction path using List.reverseRecOn with
    | nil => rfl
    | append_singleton path s ih =>
        rw [Heap.valueAt_snoc, Heap.valueAt_snoc, ih]
        refine Option.bind_congr fun u hu => ?_
        cases hu' : u.addr? with
        | none => rw [Heap.child_of_addr? _ hu', Heap.child_of_addr? _ hu']
        | some b =>
            rw [PyValue.addr?_eq_some_iff] at hu'
            subst hu'
            exact Heap.child_congr (List.getElem?_append_left (h.valueAt_lt hu)) s
  refine ⟨⟨howned, ?_, ?_⟩, hpaths⟩
  · intro a ha
    have := h.context_out a ha
    rw [List.length_append]
    exact ⟨this.1, by omega⟩
  · intro path a hdone hpath
    exact h.leads path a hdone (hpaths path ▸ hpath)

/-- What a search returns is outside of the result, and its cells change nothing there. -/
theorem search (h : Tracks heap context result done S) {jmespath : JMESPath}
    (hinside : jmespath.StaysInside) {expression : Json} {value : PyValue} {new : List PyObject}
    (hsearch : jmespath.search expression heap context = .ok (value, new)) :
    Tracks (heap ++ new) context result done S ∧
      (∀ a, value = .ref a → a ∉ S ∧ a < (heap ++ new).length) ∧
      ∀ path, (heap ++ new).valueAt result path = heap.valueAt result path := by
  have hout : ∀ {a}, heap.Holds context a ∨ (heap.length ≤ a ∧ a < heap.length + new.length) →
      a ∉ S ∧ a < (heap ++ new).length := by
    rintro a (ha | ⟨hle, hlt⟩) <;> rw [List.length_append]
    · have := h.holds_out ha
      exact ⟨this.1, by omega⟩
    · exact ⟨fun hS => by have := h.owned.inside a hS; omega, hlt⟩
  obtain ⟨hgrown, hpaths⟩ := h.grow fun o ho a ha => hout (hinside.cells hsearch ho ha)
  exact ⟨hgrown, fun a ha => hout (hinside.value hsearch ha), hpaths⟩

/-- So is a document that is decoded. -/
theorem load (h : Tracks heap context result done S) (x : Json) :
    Tracks (heap.load x).2 context result done S ∧
      ∀ a, (heap.load x).1 = .ref a → a ∉ S ∧ a < (heap.load x).2.length := by
  obtain ⟨cells, hcells, hin, -⟩ := (heap.load_loads x).cells
  have hout : ∀ {a}, heap.length ≤ a ∧ a < (heap.load x).2.length →
      a ∉ S ∧ a < (heap.load x).2.length := fun hlt =>
    ⟨fun hS => by have := h.owned.inside _ hS; omega, hlt.2⟩
  refine ⟨?_, fun a ha => hout (hin a (List.mem_append_right _ ?_))⟩
  · rw [hcells] at hin hout ⊢
    refine (h.grow fun o ho a ha => hout (hin a (List.mem_append_left _ ?_))).1
    exact List.mem_flatMap.mpr ⟨o, ho, List.mem_filterMap.mpr ⟨_, ha, rfl⟩⟩
  · rw [ha]
    exact List.mem_singleton_self a

/-- A decoded document is a tree of its own. -/
theorem ofLoad (j : Json) :
    Tracks (Heap.load [] j).2 .null (Heap.load [] j).1 [] {a | a < (Heap.load [] j).2.length} := by
  obtain ⟨cells, hcells, hin, hnodup⟩ := (Heap.load_loads [] j).cells
  rw [List.nil_append] at hcells
  rw [← hcells] at hin hnodup
  generalize (Heap.load [] j).2 = heap at *
  generalize (Heap.load [] j).1 = v at *
  obtain ⟨hnodup, -, hroot⟩ := List.nodup_append.mp hnodup
  have hlt : ∀ {b i a}, pyLayout.Refers heap b i a → a < heap.length := fun h =>
    (hin _ (List.mem_append_left _ (mem_addrs_of_refers h))).2
  have hmem : ∀ {a}, v = .ref a → a ∈ [v].filterMap PyValue.addr? := by
    rintro a rfl
    exact List.mem_singleton_self a
  refine ⟨⟨?_, ?_, ?_, ?_, fun a ha => ha, fun b i a h => hlt h⟩, nofun, ?_⟩
  · exact fun a ha => (hin a (List.mem_append_right _ (hmem (PyValue.addr?_eq_some_iff.mp ha)))).2
  · intro a ha b i href
    exact hroot a (mem_addrs_of_refers href) a (hmem (PyValue.addr?_eq_some_iff.mp ha)) rfl
  · intro a _ b i href
    obtain ⟨o, ho, -⟩ := refers_iff.mp href
    exact (List.getElem?_eq_some_iff.mp ho).1
  · exact fun a _ b i b' i' href href' => refers_unique hnodup href href'
  · intro path a _ hpath
    induction path using List.reverseRecOn with
    | nil =>
        exact (hin a (List.mem_append_right _ (hmem (Option.some.inj hpath)))).2
    | append_singleton path s _ =>
        rw [Heap.valueAt_snoc, Option.bind_eq_some_iff] at hpath
        obtain ⟨u, -, hchild⟩ := hpath
        obtain ⟨b, o, i, -, -, -, href⟩ := Heap.child_refers hchild
        exact hlt href

section AfterWrite

variable {w : Write} {keys before : List String}

/-- A write ends in the result when the walk to it goes through no destination. -/
theorem addr_mem (h : Tracks w.heap context result done S)
    (htarget : w.heap.target result keys = some (w.addr, w.key, w.more))
    (hdone : ∀ d ∈ done, ¬ d <+: keys.dropLast.map .key) : w.addr ∈ S := by
  obtain ⟨before, hkeys, hbefore⟩ := Heap.valueAt_target htarget
  refine h.leads _ _ (fun d hd hbegin => hdone d hd (hbegin.trans ?_)) hbefore
  rw [hkeys, List.dropLast_append_of_ne_nil (List.cons_ne_nil _ _), List.map_append]
  exact List.prefix_append _ _

-- There the dictionary that is written stands once, and only in the result.
theorem stands_once (h : Tracks w.heap context result done S)
    (htarget : w.heap.target result keys = some (w.addr, w.key, w.more))
    (hdone : ∀ d ∈ done, ¬ d <+: keys.dropLast.map .key)
    (hvalue : ∀ a, w.value = .ref a → a ∉ S ∧ a < w.heap.length) :
    ¬ w.heap.Holds context w.addr ∧ ¬ w.heap.Holds w.value w.addr ∧
      ∀ place place', w.heap.StandsAt result w.addr place →
        w.heap.StandsAt result w.addr place' → place = place' := by
  have haddr := h.addr_mem htarget hdone
  refine ⟨h.not_holds haddr, ?_, fun _ _ => h.owned.place_unique haddr⟩
  exact h.owned.not_holds (fun b hb => (hvalue b (PyValue.addr?_eq_some_iff.mp hb)).1) haddr

-- A path that goes through no destination ends where it did, or at a new dictionary.
theorem valueAt_after (h : Tracks w.heap context result done S)
    (htarget : w.heap.target result keys = some (w.addr, w.key, w.more))
    (hkeys : keys = before ++ w.key :: w.more)
    (hbefore : w.heap.valueAt result (before.map .key) = some (.ref w.addr)) {path : List Step}
    (hdone : ∀ d ∈ done, ¬ d <+: path) (hd : ¬ keys.map .key <+: path) :
    w.after.valueAt result path = w.heap.valueAt result path ∨
      ∃ k < w.more.length, path = (before ++ w.key :: w.more.take k).map .key ∧
        w.heap.valueAt result path = none ∧
        w.after.valueAt result path = some (.ref (w.heap.length + k)) ∧ w.addr ∈ S := by
  obtain ⟨entries, ho, hnone⟩ := Heap.target_isDict htarget
  induction path using List.reverseRecOn with
  | nil => exact .inl rfl
  | append_singleton path s ih =>
      have hdone' : ∀ d ∈ done, ¬ d <+: path := fun d hmem hp =>
        hdone d hmem (hp.trans (List.prefix_append _ _))
      have hd' : ¬ keys.map .key <+: path := fun hp => hd (hp.trans (List.prefix_append _ _))
      rw [Heap.valueAt_snoc, Heap.valueAt_snoc]
      rcases ih hdone' hd' with heq | ⟨k, hk, rfl, hold, hnew, haddr⟩
      · rw [heq]
        cases hv : w.heap.valueAt result path with
        | none => exact .inl rfl
        | some v =>
            rw [Option.bind_some, Option.bind_some]
            cases hb : v.addr? with
            | none => exact .inl (by rw [Heap.child_of_addr? _ hb, Heap.child_of_addr? _ hb])
            | some b =>
                rw [PyValue.addr?_eq_some_iff] at hb
                subst hb
                have hbS := h.leads path b hdone' hv
                by_cases hba : b = w.addr
                · subst hba
                  obtain rfl := path_unique h.owned hbS hv hbefore
                  rw [Write.child_written ho]
                  split
                  · rename_i hs
                    subst hs
                    -- The key is set: behind it stands a new dictionary, or the destination ends.
                    have hmore : w.more ≠ [] := by
                      intro hmore
                      refine hd ?_
                      rw [hkeys, hmore, List.map_append]
                      exact List.prefix_refl _
                    refine .inr ⟨0, List.length_pos_iff.mpr hmore, by simp, ?_, ?_, hbS⟩
                    · exact (Heap.child_ref ho _).trans (hnone hmore)
                    · rw [Write.top_eq, if_neg hmore]
                      rfl
                  · exact .inl rfl
                · exact .inl (Heap.child_congr (w.agreeOff b (h.owned.inside b hbS) hba) s)
      · rw [hold, hnew, Option.bind_none, Option.bind_some]
        rw [Write.child_fresh (List.getElem?_eq_getElem hk)]
        split
        · rename_i hs
          subst hs
          have hpath : (before ++ w.key :: w.more.take k).map .key ++ [.key w.more[k]] =
              (before ++ w.key :: w.more.take (k + 1)).map Step.key := by
            rw [← List.take_append_getElem hk]
            simp only [List.map_append, List.map_cons, List.map_nil, List.cons_append,
              List.append_assoc]
          split
          · rename_i hlast
            refine absurd ?_ hd
            rw [hpath, List.take_of_length_le hlast, hkeys]
          · rename_i hlast
            exact .inr ⟨k + 1, Nat.lt_of_not_le hlast, hpath, rfl, rfl, haddr⟩
        · exact .inl rfl

/-- A write keeps the cells of the result apart. -/
theorem after (h : Tracks w.heap context result done S)
    (htarget : w.heap.target result keys = some (w.addr, w.key, w.more))
    (hvalue : ∀ a, w.value = .ref a → a ∉ S ∧ a < w.heap.length) :
    Tracks w.after context result (keys.map .key :: done) (w.owned S) := by
  obtain ⟨before, hkeys, hbefore⟩ := Heap.valueAt_target htarget
  obtain ⟨entries, ho, hnone⟩ := Heap.target_isDict htarget
  refine ⟨Write.owned_after ho hnone h.owned hvalue, ?_, ?_⟩
  · intro a ha
    obtain ⟨hS, hlt⟩ := h.context_out a ha
    refine ⟨?_, by rw [Write.length_after]; omega⟩
    rintro (hS' | ⟨-, hle, -⟩)
    · exact hS hS'
    · omega
  · intro path a hdone hpath
    have hd := hdone _ List.mem_cons_self
    have hdone' : ∀ d ∈ done, ¬ d <+: path := fun d hmem => hdone d (List.mem_cons_of_mem _ hmem)
    rcases h.valueAt_after htarget hkeys hbefore hdone' hd with heq | ⟨k, hk, -, -, hnew, haddr⟩
    · exact .inl (h.leads path a hdone' (heq ▸ hpath))
    · rw [hnew] at hpath
      cases hpath
      exact .inr ⟨haddr, Nat.le_add_right _ _, by omega⟩

/-- A write changes nothing at a path that is apart from the destinations. -/
theorem valueAt_after_apart (h : Tracks w.heap context result done S)
    (htarget : w.heap.target result keys = some (w.addr, w.key, w.more)) {path : List Step}
    (hdone : ∀ d ∈ done, ¬ d <+: path) (hapart : Apart path (keys.map .key)) :
    w.after.valueAt result path = w.heap.valueAt result path := by
  obtain ⟨before, hkeys, hbefore⟩ := Heap.valueAt_target htarget
  rcases h.valueAt_after htarget hkeys hbefore hdone hapart.2 with heq | ⟨k, -, rfl, -⟩
  · exact heq
  · refine absurd (List.IsPrefix.map _ ?_) hapart.1
    rw [hkeys]
    exact (List.prefix_append_right_inj _).mpr
      (List.cons_prefix_cons.mpr ⟨rfl, List.take_prefix _ _⟩)

end AfterWrite

end Tracks

end ConstructorPlatform
