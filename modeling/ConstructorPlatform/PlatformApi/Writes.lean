import ConstructorPlatform.PlatformApi.Assignment
import ConstructorPlatform.PlatformApi.Contents

/-!
# Writes — what `_set_nested` does to the heap

The walk of `_set_nested` goes down existing dictionaries, and all that it changes is one entry of
the last of them (`setKeys_eq_write`).  Whether the write then does what an assignment to the
document does depends on where that dictionary stands: `Write.contents_assign` and
`Write.standsOnce_or_same`.
-/

namespace ConstructorPlatform

open Reasoning

/-! ## 1. The dictionary that is written to -/

/-- The last dictionary of the walk, the key that is set in it and the keys after that one. -/
def Heap.target (heap : Heap) (current : PyValue) :
    List String → Option (Nat × String × List String)
  | [] => none
  | key :: rest =>
      match heap.cell current with
      | some (addr, .dict entries) =>
          match rest, entries.lookup key with
          | _ :: _, some next => heap.target next rest
          | _, _ => some (addr, key, rest)
      | _ => none

/-- New dictionaries, one for each key, around the value. -/
def freshDicts (next : Nat) (value : PyValue) : List String → PyValue × List PyObject
  | [] => (value, [])
  | key :: more =>
      (.ref next, .dict [(key, (freshDicts (next + 1) value more).1)] ::
        (freshDicts (next + 1) value more).2)

/-- A write of `_set_nested`: the heap before it, the dictionary, the key, the keys after it and the
value. -/
structure Write where
  heap : Heap
  addr : Nat
  key : String
  more : List String
  value : PyValue

def Write.entries (w : Write) : List (String × PyValue) :=
  match w.heap[w.addr]? with
  | some (.dict entries) => entries
  | _ => []

/-- The value of the key after the write. -/
def Write.top (w : Write) : PyValue := (freshDicts w.heap.length w.value w.more).1

def Write.after (w : Write) : Heap :=
  w.heap.set w.addr (.dict (dictSet w.key w.top w.entries)) ++
    (freshDicts w.heap.length w.value w.more).2

theorem Heap.cell_ref (heap : Heap) (a : Nat) :
    heap.cell (.ref a) = heap[a]?.map fun o => (a, o) := rfl

theorem Heap.cell_eq_some_iff {heap : Heap} {v : PyValue} {a : Nat} {o : PyObject} :
    heap.cell v = some (a, o) ↔ v = .ref a ∧ heap[a]? = some o := by
  cases v with
  | ref b =>
      rw [Heap.cell_ref, Option.map_eq_some_iff]
      constructor
      · rintro ⟨o', ho, heq⟩
        cases heq
        exact ⟨rfl, ho⟩
      · rintro ⟨heq, ho⟩
        cases heq
        exact ⟨o, ho, rfl⟩
  | _ => simp [Heap.cell]

theorem setDefault_of_lookup {heap : Heap} {b : Nat} {entries : List (String × PyValue)}
    (ho : heap[b]? = some (.dict entries)) {k : String} {next : PyValue}
    (hlookup : entries.lookup k = some next) :
    setDefault heap (.ref b) k = .ok (next, heap) := by
  simp [setDefault, Heap.cell_ref, ho, hlookup]

-- The walk from a new, empty dictionary.
theorem setKeys_fresh (heap : Heap) (value : PyValue) (key : String) (more : List String) :
    setKeys (heap ++ [.dict []]) (.ref heap.length) value (key :: more) =
      (.ok (), heap ++ (freshDicts heap.length value (key :: more)).2) := by
  induction more generalizing heap key with
  | nil =>
      simp [setKeys, setItem, Heap.cell, dictSet, freshDicts]
  | cons key' more ih =>
      have hdefault : setDefault (heap ++ [.dict []]) (.ref heap.length) key =
          .ok (.ref (heap.length + 1),
            (heap ++ [.dict [(key, .ref (heap.length + 1))]]) ++ [.dict []]) := by
        simp [setDefault, Heap.cell, dictSet]
      have hrest := ih (heap ++ [.dict [(key, .ref (heap.length + 1))]]) key'
      rw [List.length_append, List.length_singleton] at hrest
      rw [setKeys, hdefault]
      simp only [hrest, freshDicts]
      simp

-- A walk goes down to the value of its first key, or it ends here.
theorem Heap.target_cons {heap : Heap} {current : PyValue} {k : String} {rest : List String}
    {a : Nat} {key : String} {more : List String}
    (h : heap.target current (k :: rest) = some (a, key, more)) :
    ∃ b entries, current = .ref b ∧ heap[b]? = some (.dict entries) ∧
      ((∃ next, rest ≠ [] ∧ entries.lookup k = some next ∧
          heap.target next rest = some (a, key, more)) ∨
        b = a ∧ k = key ∧ rest = more ∧ (more ≠ [] → entries.lookup key = none)) := by
  rw [Heap.target] at h
  split at h
  · rename_i b entries hcell
    obtain ⟨rfl, ho⟩ := Heap.cell_eq_some_iff.mp hcell
    refine ⟨b, entries, rfl, ho, ?_⟩
    split at h
    · rename_i k' rest next hlookup
      exact .inl ⟨next, List.cons_ne_nil _ _, hlookup, h⟩
    · rename_i hstop
      cases h
      refine .inr ⟨rfl, rfl, rfl, fun hmore => ?_⟩
      cases hlookup : entries.lookup k with
      | none => rfl
      | some next =>
          obtain ⟨k', more, rfl⟩ := List.exists_cons_of_ne_nil hmore
          exact absurd hlookup (hstop k' more next rfl)
  · cases h

theorem Heap.target_down {heap : Heap} {b : Nat} {entries : List (String × PyValue)}
    (ho : heap[b]? = some (.dict entries)) {k : String} {rest : List String} (hrest : rest ≠ [])
    {next : PyValue} (hlookup : entries.lookup k = some next) :
    heap.target (.ref b) (k :: rest) = heap.target next rest := by
  obtain ⟨k', rest, rfl⟩ := List.exists_cons_of_ne_nil hrest
  rw [Heap.target, Heap.cell_ref, ho]
  simp only [Option.map_some, hlookup]

theorem Heap.target_stop {heap : Heap} {b : Nat} {entries : List (String × PyValue)}
    (ho : heap[b]? = some (.dict entries)) {k : String} {rest : List String}
    (hnone : rest ≠ [] → entries.lookup k = none) :
    heap.target (.ref b) (k :: rest) = some (b, k, rest) := by
  rw [Heap.target, Heap.cell_ref, ho]
  cases rest with
  | nil => rfl
  | cons k' rest => simp [hnone (List.cons_ne_nil _ _)]

-- A walk finds no dictionary when it comes to another value.
theorem Heap.target_eq_none {heap : Heap} {current : PyValue} {k : String} {rest : List String}
    (h : heap.target current (k :: rest) = none) :
    (∀ b entries, current = .ref b → heap[b]? ≠ some (.dict entries)) ∨
      ∃ b entries next, current = .ref b ∧ heap[b]? = some (.dict entries) ∧ rest ≠ [] ∧
        entries.lookup k = some next ∧ heap.target next rest = none := by
  rw [Heap.target] at h
  split at h
  · rename_i b entries hcell
    obtain ⟨rfl, ho⟩ := Heap.cell_eq_some_iff.mp hcell
    split at h
    · rename_i k' rest next hlookup
      exact .inr ⟨b, entries, next, rfl, ho, List.cons_ne_nil _ _, hlookup, h⟩
    · cases h
  · rename_i hcell
    refine .inl fun b entries hb ho => ?_
    exact hcell b entries (Heap.cell_eq_some_iff.mpr ⟨hb, ho⟩)

/-- What `_set_nested` does is one write. -/
theorem setKeys_eq_write {heap : Heap} {current value : PyValue} {keys : List String} {a : Nat}
    {key : String} {more : List String} (h : heap.target current keys = some (a, key, more)) :
    setKeys heap current value keys = (.ok (), (Write.mk heap a key more value).after) := by
  induction keys generalizing current with
  | nil => cases h
  | cons k rest ih =>
      obtain ⟨b, entries, rfl, ho, ⟨next, hne, hlookup, hnext⟩ | ⟨rfl, rfl, rfl, hnone⟩⟩ :=
        Heap.target_cons h
      · obtain ⟨k', rest, rfl⟩ := List.exists_cons_of_ne_nil hne
        rw [setKeys, setDefault_of_lookup ho hlookup]
        exact ih hnext
      · cases rest with
        | nil =>
            simp [setKeys, setItem, Heap.cell_ref, ho, Write.after, Write.top, Write.entries,
              freshDicts]
        | cons k' rest =>
            have hdefault : setDefault heap (.ref b) k = .ok (.ref heap.length,
                heap.set b (.dict (dictSet k (.ref heap.length) entries)) ++ [.dict []]) := by
              simp [setDefault, Heap.cell_ref, ho, hnone (List.cons_ne_nil _ _)]
            have hfresh := setKeys_fresh
              (heap.set b (.dict (dictSet k (.ref heap.length) entries))) value k' rest
            rw [List.length_set] at hfresh
            rw [setKeys, hdefault]
            simp only [hfresh]
            simp [Write.after, Write.top, Write.entries, ho, freshDicts]

/-- What `_set_nested` raises at a value that is no dictionary, `rest` being the keys after the
current one. -/
def stuckError (typeName : String) (rest : List String) : PyExc :=
  if rest ≠ [] then ⟨.attributeError, quoted typeName ++ " object has no attribute 'setdefault'"⟩
  else if typeName = "list" then ⟨.typeError, "list indices must be integers or slices, not str"⟩
  else ⟨.typeError, quoted typeName ++ " object does not support item assignment"⟩

theorem setKeys_stuck {heap : Heap} {current value : PyValue} {k : String} {rest : List String}
    (hcell : ∀ b entries, current = .ref b → heap[b]? ≠ some (.dict entries)) :
    setKeys heap current value (k :: rest) =
      (.error (stuckError (current.typeName heap) rest), heap) := by
  cases rest with
  | cons k' rest =>
      rw [setKeys, setDefault]
      cases current with
      | ref b =>
          cases ho : heap[b]? with
          | none => simp [Heap.cell_ref, ho, stuckError]
          | some o =>
              cases o with
              | list items => simp [Heap.cell_ref, ho, stuckError]
              | dict entries => exact absurd ho (hcell b entries rfl)
      | _ => simp [Heap.cell, stuckError]
  | nil =>
      rw [setKeys, setItem]
      cases current with
      | ref b =>
          cases ho : heap[b]? with
          | none => simp [Heap.cell_ref, ho, stuckError, PyValue.typeName]
          | some o =>
              cases o with
              | list items => simp [Heap.cell_ref, ho, stuckError, PyValue.typeName]
              | dict entries => exact absurd ho (hcell b entries rfl)
      | _ => simp [Heap.cell, stuckError, PyValue.typeName]

/-- A walk that finds no dictionary raises and changes nothing. -/
theorem setKeys_error {heap : Heap} {current : PyValue} (value : PyValue) {keys : List String}
    (hkeys : keys ≠ []) (h : heap.target current keys = none) :
    ∃ e, setKeys heap current value keys = (.error e, heap) := by
  induction keys generalizing current with
  | nil => exact absurd rfl hkeys
  | cons k rest ih =>
      rcases Heap.target_eq_none h with hcell | ⟨b, entries, next, rfl, ho, hne, hlookup, hnext⟩
      · exact ⟨_, setKeys_stuck hcell⟩
      · obtain ⟨k', rest, rfl⟩ := List.exists_cons_of_ne_nil hne
        rw [setKeys, setDefault_of_lookup ho hlookup]
        exact ih hne hnext

theorem splitPath_ne_nil (path : String) : splitPath path ≠ [] := by
  have hsplit : ∀ cs, splitChars '.' cs ≠ [] := by
    intro cs
    induction cs with
    | nil => exact List.cons_ne_nil _ _
    | cons c cs ih =>
        rw [splitChars]
        split
        · exact List.cons_ne_nil _ _
        · split
          · exact List.cons_ne_nil _ _
          · exact List.cons_ne_nil _ _
  rw [splitPath, ne_eq, List.map_eq_nil_iff]
  exact hsplit _

/-! ## 2. The contents of a dictionary -/

/-- The entries encode to the fields, one by one. -/
def Heap.Fields (heap : Heap) (entries : List (String × PyValue)) (kvs : Dict) : Prop :=
  List.Forall₂ (fun e f => e.1 = f.1 ∧ heap.Contents e.2 f.2) entries kvs

theorem Heap.Fields.keys {heap : Heap} {entries : List (String × PyValue)} {kvs : Dict}
    (h : heap.Fields entries kvs) : kvs.map Prod.fst = entries.map Prod.fst := by
  induction h with
  | nil => rfl
  | cons hef _ ih => rw [List.map_cons, List.map_cons, ih, hef.1]

theorem Heap.fields_iff {heap : Heap} {entries : List (String × PyValue)} {kvs : Dict} :
    heap.Fields entries kvs ↔ kvs.map Prod.fst = entries.map Prod.fst ∧
      ∀ (i : Nat) (v : PyValue) (x : Json), (entries.map Prod.snd)[i]? = some v →
        (kvs.map Prod.snd)[i]? = some x → heap.Contents v x := by
  constructor
  · intro h
    refine ⟨h.keys, ?_⟩
    induction h with
    | nil => intro i v x hv; cases hv
    | cons hef _ ih =>
        intro i v x hv hx
        cases i with
        | zero => cases hv; cases hx; exact hef.2
        | succ i => exact ih i v x hv hx
  · rintro ⟨hkeys, h⟩
    induction entries generalizing kvs with
    | nil =>
        rw [List.map_eq_nil_iff.mp hkeys]
        exact .nil
    | cons e entries ih =>
        cases kvs with
        | nil => cases hkeys
        | cons f kvs =>
            obtain ⟨hef, hkeys⟩ := List.cons_eq_cons.mp hkeys
            exact .cons ⟨hef.symm, h 0 _ _ rfl rfl⟩ (ih hkeys fun i => h (i + 1))

theorem Heap.contents_dict_iff {heap : Heap} {a : Nat} {entries : List (String × PyValue)}
    (ho : heap[a]? = some (.dict entries)) {j : Json} :
    heap.Contents (.ref a) j ↔ ∃ kvs, j = .obj kvs ∧ heap.Fields entries kvs := by
  constructor
  · intro h
    cases h with
    | leaf hnone => cases hnone
    | @node _ b o xs hb ho' hlen hxs =>
        cases hb
        rw [ho] at ho'
        cases ho'
        have hlen' : xs.length = entries.length := by
          simpa [PyObject.values] using hlen
        refine ⟨(entries.map Prod.fst).zip xs, rfl, Heap.fields_iff.mpr ⟨?_, ?_⟩⟩
        · exact List.map_fst_zip (by simp [hlen'])
        · intro i v x hv hx
          rw [List.map_snd_zip (by simp [hlen'])] at hx
          exact hxs i v x hv hx
  · rintro ⟨kvs, rfl, h⟩
    obtain ⟨hkeys, hfields⟩ := Heap.fields_iff.mp h
    have hlen : (kvs.map Prod.snd).length = (pyLayout.values (.dict entries)).length := by
      simpa [PyObject.values] using congrArg List.length hkeys
    have hnode : pyLayout.node (.dict entries) (kvs.map Prod.snd) = .obj kvs := by
      rw [pyLayout_node, PyObject.node, ← hkeys, ← List.unzip_fst, ← List.unzip_snd, List.zip_unzip]
    rw [← hnode]
    exact .node rfl ho hlen hfields

-- Only a dictionary encodes to an object.
theorem Heap.contents_obj {heap : Heap} {v : PyValue} {kvs : Dict}
    (h : heap.Contents v (.obj kvs)) :
    ∃ a entries, v = .ref a ∧ heap[a]? = some (.dict entries) := by
  generalize hj : Json.obj kvs = j at h
  cases h with
  | @leaf v hv => cases v <;> cases hj
  | @node v a o xs ha ho _ _ =>
      cases o with
      | list items => cases hj
      | dict entries => exact ⟨a, entries, PyValue.addr?_eq_some_iff.mp ha, ho⟩

theorem Heap.Fields.lookup {heap : Heap} {entries : List (String × PyValue)} {kvs : Dict}
    (h : heap.Fields entries kvs) (key : String) :
    Option.Rel heap.Contents (entries.lookup key) (kvs.lookup key) := by
  induction h with
  | nil => exact .none
  | @cons e f entries kvs hef _ ih =>
      obtain ⟨k, v⟩ := e
      obtain ⟨k', x⟩ := f
      obtain ⟨rfl, hx⟩ := hef
      rw [List.lookup_cons, List.lookup_cons]
      cases key == k with
      | true => exact .some hx
      | false => exact ih

theorem Heap.Fields.dictSet {heap : Heap} {entries : List (String × PyValue)} {kvs : Dict}
    (h : heap.Fields entries kvs) {key : String} {v : PyValue} {x : Json}
    (hv : heap.Contents v x) : heap.Fields (dictSet key v entries) (dictSet key x kvs) := by
  induction h with
  | nil => exact .cons ⟨rfl, hv⟩ .nil
  | @cons e f entries kvs hef hrest ih =>
      obtain ⟨k, u⟩ := e
      obtain ⟨k', y⟩ := f
      obtain ⟨rfl, hy⟩ := hef
      simp only [ConstructorPlatform.dictSet]
      split
      · exact .cons ⟨rfl, hv⟩ hrest
      · exact .cons ⟨rfl, hy⟩ ih

theorem Heap.Fields.lookup_some {heap : Heap} {entries : List (String × PyValue)} {kvs : Dict}
    (h : heap.Fields entries kvs) {key : String} {v : PyValue} (hv : entries.lookup key = some v) :
    ∃ x, heap.Contents v x ∧ kvs.lookup key = some x := by
  have hkey := h.lookup key
  rw [hv] at hkey
  cases hx : kvs.lookup key with
  | none => rw [hx] at hkey; cases hkey
  | some x =>
      rw [hx] at hkey
      cases hkey with
      | some hvx => exact ⟨x, hvx, rfl⟩

theorem Heap.Fields.lookup_none {heap : Heap} {entries : List (String × PyValue)} {kvs : Dict}
    (h : heap.Fields entries kvs) {key : String} :
    entries.lookup key = none ↔ kvs.lookup key = none := by
  have hkey := h.lookup key
  revert hkey
  generalize entries.lookup key = o
  generalize kvs.lookup key = o'
  rintro (hkey | -) <;> simp

theorem Heap.Fields.entry {heap : Heap} {entries : List (String × PyValue)} {kvs : Dict}
    (h : heap.Fields entries kvs) {i : Nat} {e : String × PyValue} (he : entries[i]? = some e) :
    ∃ x, kvs[i]? = some (e.1, x) ∧ heap.Contents e.2 x := by
  induction h generalizing i with
  | nil => cases he
  | @cons e' f entries kvs hef _ ih =>
      cases i with
      | zero =>
          cases he
          exact ⟨f.2, congrArg some (Prod.ext hef.1.symm rfl), hef.2⟩
      | succ i => exact ih he

-- The fields in another heap, when the value at one position encodes to something else there.
theorem Heap.Fields.set {heap heap' : Heap} {entries : List (String × PyValue)} {kvs : Dict}
    (h : heap.Fields entries kvs) {i : Nat} {key : String} {v : PyValue}
    (hi : entries[i]? = some (key, v)) {y : Json} (hy : heap'.Contents v y)
    (hother : ∀ i' e z, entries[i']? = some e → heap.Contents e.2 z → i' ≠ i →
      heap'.Contents e.2 z) : heap'.Fields entries (kvs.set i (key, y)) := by
  obtain ⟨hkeys, hvalues⟩ := Heap.fields_iff.mp h
  have hkey : (kvs.map Prod.fst)[i]? = some key := by rw [hkeys, List.getElem?_map, hi]; rfl
  refine Heap.fields_iff.mpr ⟨?_, fun i' u z hu hz => ?_⟩
  · rw [List.map_set, ← hkeys]
    apply List.ext_getElem?
    intro i'
    rw [List.getElem?_set]
    split
    · rename_i heq
      subst heq
      rw [hkey, if_pos (List.getElem?_eq_some_iff.mp hkey).1]
    · rfl
  · rw [List.getElem?_map, Option.map_eq_some_iff] at hu
    obtain ⟨e, he, rfl⟩ := hu
    rw [List.map_set, List.getElem?_set] at hz
    split at hz
    · rename_i heq
      subst heq
      rw [hi] at he
      cases he
      split at hz <;> cases hz
      exact hy
    · rename_i hne
      refine hother i' e z he (hvalues i' e.2 z ?_ hz) (Ne.symm hne)
      rw [List.getElem?_map, he]
      rfl

theorem Heap.child_entry {heap : Heap} {b i : Nat} {entries : List (String × PyValue)}
    {e : String × PyValue} (ho : heap[b]? = some (.dict entries)) (he : entries[i]? = some e) :
    pyLayout.child heap (.ref b) i = some e.2 := by
  refine Layout.child_eq_some_iff.mpr ⟨b, _, rfl, ho, ?_⟩
  rw [pyLayout_values, PyObject.values, List.getElem?_map, he]
  rfl

-- A place below a dictionary goes through one of its entries.
theorem Heap.standsAt_dict {heap : Heap} {b a : Nat} {entries : List (String × PyValue)}
    (ho : heap[b]? = some (.dict entries)) (hne : b ≠ a) {place : List Nat}
    (h : heap.StandsAt (.ref b) a place) :
    ∃ i e below, place = i :: below ∧ entries[i]? = some e ∧ heap.StandsAt e.2 a below := by
  cases place with
  | nil =>
      have hroot := Layout.standsAt_nil.mp h
      cases hroot
      exact absurd rfl hne
  | cons i below =>
      obtain ⟨v, hv, hbelow⟩ := Layout.standsAt_cons.mp h
      obtain ⟨b', o, hb, ho', hv⟩ := Layout.child_eq_some_iff.mp hv
      cases hb
      rw [ho] at ho'
      cases ho'
      rw [pyLayout_values, PyObject.values, List.getElem?_map, Option.map_eq_some_iff] at hv
      obtain ⟨e, he, rfl⟩ := hv
      exact ⟨i, e, below, rfl, he, hbelow⟩

-- A present key has a position, where `dictSet` sets its value in every dictionary with these keys.
theorem lookup_position {V : Type} {entries : List (String × V)} {key : String} {v : V}
    (h : entries.lookup key = some v) :
    ∃ i, entries[i]? = some (key, v) ∧ ∀ {W : Type} (d : List (String × W)),
      d.map Prod.fst = entries.map Prod.fst → ∀ y, dictSet key y d = d.set i (key, y) := by
  induction entries with
  | nil => cases h
  | cons e entries ih =>
      obtain ⟨k, u⟩ := e
      rw [List.lookup_cons] at h
      by_cases hk : key = k
      · subst hk
        rw [beq_self_eq_true] at h
        cases h
        refine ⟨0, rfl, fun d hd y => ?_⟩
        cases d with
        | nil => cases hd
        | cons f d =>
            obtain ⟨hf, -⟩ := List.cons_eq_cons.mp hd
            rw [dictSet, if_pos hf]
            rfl
      · rw [beq_eq_false_iff_ne.mpr hk] at h
        obtain ⟨i, hi, hset⟩ := ih h
        refine ⟨i + 1, hi, fun d hd y => ?_⟩
        cases d with
        | nil => cases hd
        | cons f d =>
            obtain ⟨hf, hd⟩ := List.cons_eq_cons.mp hd
            rw [dictSet, if_neg fun h => hk (h.symm.trans hf), hset d hd]
            rfl

-- The position of a key is the same in all dictionaries with these keys.
theorem lookup_position_eq {V W : Type} {entries : List (String × V)} {entries' : List (String × W)}
    (hkeys : entries'.map Prod.fst = entries.map Prod.fst) {key : String} {v : V}
    (h : entries.lookup key = some v) :
    ∃ (i : Nat) (v' : W), entries[i]? = some (key, v) ∧ entries'[i]? = some (key, v') ∧
      entries'.lookup key = some v' := by
  induction entries generalizing entries' with
  | nil => cases h
  | cons e entries ih =>
      cases entries' with
      | nil => cases hkeys
      | cons e' entries' =>
          obtain ⟨k, u⟩ := e
          obtain ⟨k', u'⟩ := e'
          obtain ⟨hk', hrest⟩ := List.cons_eq_cons.mp hkeys
          obtain rfl : k' = k := hk'
          rw [List.lookup_cons] at h
          by_cases hk : key = k'
          · subst hk
            rw [beq_self_eq_true] at h
            cases h
            exact ⟨0, u', rfl, rfl, by simp⟩
          · rw [beq_eq_false_iff_ne.mpr hk] at h
            obtain ⟨i, v', hi, hi', hlookup⟩ := ih hrest h
            refine ⟨i + 1, v', hi, hi', ?_⟩
            rw [List.lookup_cons, beq_eq_false_iff_ne.mpr hk]
            exact hlookup

theorem dictSet_of_none {V : Type} {d : List (String × V)} {key : String}
    (h : d.lookup key = none) (v : V) : dictSet key v d = d ++ [(key, v)] := by
  induction d with
  | nil => rfl
  | cons e d ih =>
      obtain ⟨k, u⟩ := e
      rw [List.lookup_cons] at h
      by_cases hk : key = k
      · rw [beq_iff_eq.mpr hk] at h
        cases h
      · rw [beq_eq_false_iff_ne.mpr hk] at h
        rw [dictSet, if_neg fun h => hk h.symm, ih h, List.cons_append]

theorem Heap.target_isDict {heap : Heap} {current : PyValue} {keys : List String} {a : Nat}
    {key : String} {more : List String} (h : heap.target current keys = some (a, key, more)) :
    ∃ entries, heap[a]? = some (.dict entries) ∧ (more ≠ [] → entries.lookup key = none) := by
  induction keys generalizing current with
  | nil => cases h
  | cons k rest ih =>
      obtain ⟨b, entries, rfl, ho, ⟨next, -, hlookup, hnext⟩ | ⟨rfl, rfl, rfl, hnone⟩⟩ :=
        Heap.target_cons h
      · exact ih hnext
      · exact ⟨entries, ho, hnone⟩

/-- The walk ends at a part of the value that it starts from. -/
theorem Heap.holds_target {heap : Heap} {current : PyValue} {keys : List String} {a : Nat}
    {key : String} {more : List String} (h : heap.target current keys = some (a, key, more)) :
    heap.Holds current a := by
  induction keys generalizing current with
  | nil => cases h
  | cons k rest ih =>
      obtain ⟨b, entries, rfl, ho, ⟨next, -, hlookup, hnext⟩ | ⟨rfl, -, -, -⟩⟩ := Heap.target_cons h
      · obtain ⟨i, hi, -⟩ := lookup_position hlookup
        exact (ih hnext).of_child (Heap.child_entry ho hi)
      · exact Layout.Holds.self rfl

theorem dictSet_lookup {V : Type} {key : String} {v : V} {d : List (String × V)}
    (h : d.lookup key = some v) : dictSet key v d = d := by
  obtain ⟨i, hi, hset⟩ := lookup_position h
  rw [hset d rfl]
  obtain ⟨hlt, heq⟩ := List.getElem?_eq_some_iff.mp hi
  rw [← heq, List.set_getElem_self]

/-! ## 3. The contents after a write -/

/-- The document under new objects, one for each key. -/
def nest (x : Json) : List String → Json
  | [] => x
  | key :: more => .obj [(key, nest x more)]

theorem assign_empty (x : Json) (keys : List String) :
    Json.assign x keys (.obj []) = some (nest x keys) := by
  induction keys with
  | nil => rfl
  | cons key rest ih => simp [Json.assign, ih, dictSet, nest]

theorem contents_freshDicts {heap : Heap} {next : Nat} {value : PyValue} {more : List String}
    (hcells : ∀ i o, (freshDicts next value more).2[i]? = some o → heap[next + i]? = some o)
    {x : Json} (hx : heap.Contents value x) :
    heap.Contents (freshDicts next value more).1 (nest x more) := by
  induction more generalizing next with
  | nil => exact hx
  | cons key more ih =>
      have hrest := @ih (next + 1) fun i o ho => by
        rw [Nat.add_assoc, Nat.add_comm 1]
        exact hcells (i + 1) o ho
      exact (Heap.contents_dict_iff (hcells 0 _ rfl)).mpr ⟨_, rfl, .cons ⟨rfl, hrest⟩ .nil⟩

-- What the new dictionaries lead to.
theorem holds_freshDicts {heap : Heap} {next : Nat} {value : PyValue} {more : List String}
    (hcells : ∀ i o, (freshDicts next value more).2[i]? = some o → heap[next + i]? = some o)
    {a : Nat} (ha : heap.Holds value a) : heap.Holds (freshDicts next value more).1 a := by
  induction more generalizing next with
  | nil => exact ha
  | cons key more ih =>
      have hrest := @ih (next + 1) fun i o ho => by
        rw [Nat.add_assoc, Nat.add_comm 1]
        exact hcells (i + 1) o ho
      refine Layout.Holds.of_child (i := 0) (Layout.child_eq_some_iff.mpr ?_) hrest
      exact ⟨next, _, rfl, hcells 0 _ rfl, rfl⟩

namespace Write

variable {w : Write} {entries : List (String × PyValue)}

theorem agreeOff (w : Write) : Layout.AgreeOff w.heap w.after w.addr := by
  intro b hb hne
  rw [after, List.getElem?_append_left (by rwa [List.length_set]), List.getElem?_set_ne hne.symm]

theorem entries_eq (ho : w.heap[w.addr]? = some (.dict entries)) : w.entries = entries := by
  rw [Write.entries, ho]

theorem cell_after (ho : w.heap[w.addr]? = some (.dict entries)) :
    w.after[w.addr]? = some (.dict (dictSet w.key w.top entries)) := by
  have hlt := (List.getElem?_eq_some_iff.mp ho).1
  rw [after, entries_eq ho, List.getElem?_append_left (by rwa [List.length_set]),
    List.getElem?_set_self hlt]

theorem fresh_after (w : Write) (i : Nat) (o : PyObject)
    (ho : (freshDicts w.heap.length w.value w.more).2[i]? = some o) :
    w.after[w.heap.length + i]? = some o := by
  have hle : (w.heap.set w.addr (.dict (dictSet w.key w.top w.entries))).length ≤
      w.heap.length + i := by
    rw [List.length_set]
    exact Nat.le_add_right _ _
  rw [after, List.getElem?_append_right hle, List.length_set, Nat.add_sub_cancel_left, ho]

theorem contents_top {x : Json} (hx : w.after.Contents w.value x) :
    w.after.Contents w.top (nest x w.more) := contents_freshDicts w.fresh_after hx

-- The other values of the dictionary, and the new one, keep their contents.
theorem contents_cell (ho : w.heap[w.addr]? = some (.dict entries)) {kvs : Dict}
    (hkvs : w.heap.Fields entries kvs) {x : Json} (hx : w.heap.Contents w.value x)
    (hout : ¬ w.heap.Holds w.value w.addr) :
    w.after.Contents (.ref w.addr) (.obj (dictSet w.key (nest x w.more) kvs)) := by
  have hcell : w.heap.Contents (.ref w.addr) (.obj kvs) :=
    (Heap.contents_dict_iff ho).mpr ⟨kvs, rfl, hkvs⟩
  have hkeep : w.after.Fields entries kvs := by
    refine Heap.fields_iff.mpr ⟨hkvs.keys, fun i v y hv hy => ?_⟩
    have hchild : pyLayout.child w.heap (.ref w.addr) i = some v :=
      Layout.child_eq_some_iff.mpr ⟨w.addr, _, rfl, ho, hv⟩
    exact ((Heap.fields_iff.mp hkvs).2 i v y hv hy).agreeOff w.agreeOff
      (hcell.not_holds_child rfl hchild)
  refine (Heap.contents_dict_iff (cell_after ho)).mpr ⟨_, rfl, hkeep.dictSet ?_⟩
  exact contents_top (hx.agreeOff w.agreeOff hout)

theorem contents_stop {k : String} {rest : List String} (hk : k = w.key) (hrest : rest = w.more)
    (hnone : w.more ≠ [] → entries.lookup w.key = none) {kvs : Dict}
    (hkvs : w.heap.Fields entries kvs) (x : Json) :
    Json.assign x (k :: rest) (.obj kvs) = some (.obj (dictSet w.key (nest x w.more) kvs)) := by
  subst hk hrest
  rw [Json.assign]
  cases hmore : w.more with
  | nil => rfl
  | cons k' more =>
      rw [hkvs.lookup_none.mp (hnone (hmore ▸ List.cons_ne_nil _ _)), Option.getD_none,
        assign_empty]
      rfl

/-- A write to a dictionary that stands at one place does what the assignment does. -/
theorem contents_assign {current : PyValue} {keys : List String}
    (htarget : w.heap.target current keys = some (w.addr, w.key, w.more)) {r x : Json}
    (hr : w.heap.Contents current r) (hx : w.heap.Contents w.value x)
    (hout : ¬ w.heap.Holds w.value w.addr)
    (honce : ∀ place place', w.heap.StandsAt current w.addr place →
      w.heap.StandsAt current w.addr place' → place = place') :
    ∃ r', Json.assign x keys r = some r' ∧ w.after.Contents current r' := by
  induction keys generalizing current r with
  | nil => cases htarget
  | cons k rest ih =>
      obtain ⟨b, entries, rfl, ho, ⟨next, -, hlookup, hnext⟩ | ⟨hb, hk, hrest, hnone⟩⟩ :=
        Heap.target_cons htarget
      · obtain ⟨kvs, rfl, hkvs⟩ := (Heap.contents_dict_iff ho).mp hr
        obtain ⟨i, hi, hset⟩ := lookup_position hlookup
        have hchild := Heap.child_entry ho hi
        obtain ⟨place, hplace⟩ := Heap.holds_target hnext
        obtain ⟨c, hc, hkc⟩ := hkvs.lookup_some hlookup
        obtain ⟨c', hc', hafter⟩ := ih hnext hc fun p q hp hq => by
          have heq := honce (i :: p) (i :: q) (Layout.standsAt_cons.mpr ⟨next, hchild, hp⟩)
            (Layout.standsAt_cons.mpr ⟨next, hchild, hq⟩)
          exact (List.cons_eq_cons.mp heq).2
        refine ⟨.obj (dictSet k c' kvs), by simp [Json.assign, hkc, hc'], ?_⟩
        have hne : b ≠ w.addr := by
          rintro rfl
          exact hr.not_holds_child rfl hchild ⟨place, hplace⟩
        have hsame := (w.agreeOff b (List.getElem?_eq_some_iff.mp ho).1 hne).trans ho
        refine (Heap.contents_dict_iff hsame).mpr ⟨_, rfl, ?_⟩
        rw [hset kvs hkvs.keys]
        refine hkvs.set hi hafter fun i' e y he hy hne' => ?_
        refine hy.agreeOff w.agreeOff ?_
        rintro ⟨place', hplace'⟩
        have heq := honce (i :: place) (i' :: place')
          (Layout.standsAt_cons.mpr ⟨next, hchild, hplace⟩)
          (Layout.standsAt_cons.mpr ⟨e.2, Heap.child_entry ho he, hplace'⟩)
        exact hne' (List.cons_eq_cons.mp heq).1.symm
      · subst hb
        obtain ⟨kvs, rfl, hkvs⟩ := (Heap.contents_dict_iff ho).mp hr
        exact ⟨_, contents_stop hk hrest hnone hkvs x, contents_cell ho hkvs hx hout⟩

/-! ## 4. Writes that do something else -/

/-- The key has the contents of the value already. -/
def ChangesNothing (w : Write) : Prop :=
  w.more = [] ∧ ∃ old x, w.entries.lookup w.key = some old ∧ w.heap.Contents old x ∧
    w.heap.Contents w.value x

-- The value of a write that changes nothing is smaller than the dictionary.
theorem ChangesNothing.not_holds (h : w.ChangesNothing)
    (ho : w.heap[w.addr]? = some (.dict entries)) {u : Json}
    (hu : w.heap.Contents (.ref w.addr) u) : ¬ w.heap.Holds w.value w.addr := by
  obtain ⟨-, old, x, hlookup, hold, hx⟩ := h
  rw [entries_eq ho] at hlookup
  obtain ⟨i, hi, -⟩ := lookup_position hlookup
  rintro ⟨place, hplace⟩
  obtain ⟨y, hy, hlt⟩ := hu.child (Heap.child_entry ho hi)
  obtain ⟨u', hu', hle⟩ := hx.standsAt hplace (w := .ref w.addr) rfl
  rw [hy.unique hold] at hlt
  rw [hu'.unique hu] at hle
  omega

theorem ChangesNothing.contents (h : w.ChangesNothing)
    (ho : w.heap[w.addr]? = some (.dict entries)) {v : PyValue} {j : Json}
    (hv : w.heap.Contents v j) : w.after.Contents v j := by
  refine hv.write_same w.agreeOff fun v u haddr hu => ?_
  rw [PyValue.addr?_eq_some_iff.mp haddr] at hu ⊢
  have hout := h.not_holds ho hu
  obtain ⟨hmore, old, x, hlookup, hold, hx⟩ := h
  rw [entries_eq ho] at hlookup
  obtain ⟨kvs, rfl, hkvs⟩ := (Heap.contents_dict_iff ho).mp hu
  obtain ⟨y, hy, hkey⟩ := hkvs.lookup_some hlookup
  rw [hy.unique hold] at hkey
  have hcell := contents_cell ho hkvs hx hout
  rwa [hmore, nest, dictSet_lookup hkey] at hcell

theorem ChangesNothing.assign (h : w.ChangesNothing) {current : PyValue} {keys : List String}
    (htarget : w.heap.target current keys = some (w.addr, w.key, w.more)) {r x : Json}
    (hr : w.heap.Contents current r) (hx : w.heap.Contents w.value x) :
    Json.assign x keys r = some r := by
  induction keys generalizing current r with
  | nil => cases htarget
  | cons k rest ih =>
      obtain ⟨b, entries, rfl, ho, ⟨next, -, hlookup, hnext⟩ | ⟨hb, hk, hrest, hnone⟩⟩ :=
        Heap.target_cons htarget
      · obtain ⟨kvs, rfl, hkvs⟩ := (Heap.contents_dict_iff ho).mp hr
        obtain ⟨c, hc, hkc⟩ := hkvs.lookup_some hlookup
        rw [Json.assign, hkc, Option.getD_some, ih hnext hc, Option.map_some, dictSet_lookup hkc]
      · subst hb
        obtain ⟨kvs, rfl, hkvs⟩ := (Heap.contents_dict_iff ho).mp hr
        obtain ⟨hmore, old, y, hlookup, hold, hy⟩ := h
        rw [entries_eq ho] at hlookup
        obtain ⟨c, hc, hkc⟩ := hkvs.lookup_some hlookup
        rw [hc.unique hold, hy.unique hx] at hkc
        rw [contents_stop hk hrest hnone hkvs x, hmore, nest, dictSet_lookup hkc]

-- The dictionary has one document before and after the write only when nothing changes.
theorem changesNothing_of_same (ho : w.heap[w.addr]? = some (.dict entries))
    (hnone : w.more ≠ [] → entries.lookup w.key = none) {x u : Json}
    (hx : w.heap.Contents w.value x) (hout : ¬ w.heap.Holds w.value w.addr)
    (hu : w.heap.Contents (.ref w.addr) u) (hu' : w.after.Contents (.ref w.addr) u) :
    w.ChangesNothing := by
  obtain ⟨kvs, rfl, hkvs⟩ := (Heap.contents_dict_iff ho).mp hu
  have hcell := (contents_cell ho hkvs hx hout).unique hu'
  rw [Json.obj.injEq] at hcell
  cases hlookup : entries.lookup w.key with
  | none =>
      have hlen := congrArg List.length
        (dictSet_of_none (hkvs.lookup_none.mp hlookup) (nest x w.more))
      rw [hcell, List.length_append, List.length_singleton] at hlen
      omega
  | some old =>
      have hmore : w.more = [] := by
        by_contra hmore
        rw [hnone hmore] at hlookup
        cases hlookup
      obtain ⟨y, hy, hkey⟩ := hkvs.lookup_some hlookup
      refine ⟨hmore, old, x, (entries_eq ho).symm ▸ hlookup, ?_, hx⟩
      have hset := lookup_dictSet w.key (nest x w.more) kvs w.key
      rw [hcell, hkey, if_pos rfl, hmore, nest, Option.some.injEq] at hset
      exact hset ▸ hy

/-- A write that does what the assignment does goes to a dictionary that stands at one place, or
leaves the dictionary as it is. -/
theorem standsOnce_or_same {current : PyValue} {keys : List String}
    (htarget : w.heap.target current keys = some (w.addr, w.key, w.more)) {r r' x : Json}
    (hr : w.heap.Contents current r) (hassign : Json.assign x keys r = some r')
    (hr' : w.after.Contents current r') :
    (∀ place place', w.heap.StandsAt current w.addr place →
      w.heap.StandsAt current w.addr place' → place = place') ∨
    ∃ u, w.heap.Contents (.ref w.addr) u ∧ w.after.Contents (.ref w.addr) u := by
  induction keys generalizing current r r' with
  | nil => cases htarget
  | cons k rest ih =>
      obtain ⟨b, entries, rfl, ho, ⟨next, -, hlookup, hnext⟩ | ⟨rfl, -, -, -⟩⟩ :=
        Heap.target_cons htarget
      · obtain ⟨kvs, rfl, hkvs⟩ := (Heap.contents_dict_iff ho).mp hr
        obtain ⟨i, hi, hset⟩ := lookup_position hlookup
        have hchild := Heap.child_entry ho hi
        obtain ⟨c, hc, hkc⟩ := hkvs.lookup_some hlookup
        rw [Json.assign, hkc, Option.getD_some] at hassign
        obtain ⟨c', hc', rfl⟩ := Option.map_eq_some_iff.mp hassign
        have hne : b ≠ w.addr := by
          rintro rfl
          exact hr.not_holds_child rfl hchild (Heap.holds_target hnext)
        have hsame := (w.agreeOff b (List.getElem?_eq_some_iff.mp ho).1 hne).trans ho
        rw [hset kvs hkvs.keys] at hr'
        obtain ⟨kvs', heq, hkvs'⟩ := (Heap.contents_dict_iff hsame).mp hr'
        cases heq
        by_cases hother : ∃ i' e, i' ≠ i ∧ entries[i']? = some e ∧ w.heap.Holds e.2 w.addr
        · -- Another entry keeps its document, and leads to the dictionary too.
          obtain ⟨i', e, hne', he, place, hplace⟩ := hother
          obtain ⟨z, hz, hez⟩ := hkvs.entry he
          obtain ⟨z', hz', hez'⟩ := hkvs'.entry he
          rw [List.getElem?_set_ne hne'.symm, hz] at hz'
          cases hz'
          exact .inr (hez.same_at hez' w.agreeOff hplace rfl)
        · obtain ⟨y, hy, hnext'⟩ := hkvs'.entry hi
          obtain ⟨z, hz, -⟩ := hkvs.entry hi
          rw [List.getElem?_set_self (List.getElem?_eq_some_iff.mp hz).1] at hy
          cases hy
          refine (ih hnext hc hc' hnext').imp_left fun honce => ?_
          -- Every place of the dictionary goes through the key.
          have hthrough : ∀ place, w.heap.StandsAt (.ref b) w.addr place →
              ∃ below, place = i :: below ∧ w.heap.StandsAt next w.addr below := by
            intro place hplace
            obtain ⟨i', e, below, rfl, he, hbelow⟩ := Heap.standsAt_dict ho hne hplace
            by_cases hi' : i' = i
            · subst hi'
              rw [hi] at he
              cases he
              exact ⟨below, rfl, hbelow⟩
            · exact absurd ⟨i', e, hi', he, below, hbelow⟩ hother
          intro place place' hplace hplace'
          obtain ⟨below, rfl, hbelow⟩ := hthrough place hplace
          obtain ⟨below', rfl, hbelow'⟩ := hthrough place' hplace'
          rw [honce below below' hbelow hbelow']
      · exact .inl fun place place' hplace hplace' =>
          (hr.place_eq_nil rfl hplace).trans (hr.place_eq_nil rfl hplace').symm

-- A write that puts a dictionary into itself leaves nothing to encode.
theorem not_holds_value {current : PyValue} {keys : List String}
    (htarget : w.heap.target current keys = some (w.addr, w.key, w.more)) {r' : Json}
    (hr' : w.after.Contents current r') : ¬ w.heap.Holds w.value w.addr := by
  intro hvalue
  obtain ⟨place, hplace⟩ := w.agreeOff.holds (Heap.holds_target htarget)
  obtain ⟨u, hu, -⟩ := hr'.standsAt hplace (w := .ref w.addr) rfl
  obtain ⟨entries, ho, -⟩ := Heap.target_isDict htarget
  obtain ⟨i, hi, -⟩ := lookup_position
    ((lookup_dictSet w.key w.top entries w.key).trans (if_pos rfl))
  exact hu.not_holds_child rfl (Heap.child_entry (cell_after ho) hi)
    (holds_freshDicts w.fresh_after (w.agreeOff.holds hvalue))

end Write

-- The assignment fails where the walk finds no dictionary.
theorem Heap.assign_eq_none {heap : Heap} {current : PyValue} {keys : List String}
    (hkeys : keys ≠ []) (htarget : heap.target current keys = none) {r : Json}
    (hr : heap.Contents current r) (x : Json) : Json.assign x keys r = none := by
  induction keys generalizing current r with
  | nil => exact absurd rfl hkeys
  | cons k rest ih =>
      rcases Heap.target_eq_none htarget with
        hcell | ⟨b, entries, next, rfl, ho, hne, hlookup, hnext⟩
      · cases r with
        | obj kvs =>
            obtain ⟨b, entries, rfl, ho⟩ := Heap.contents_obj hr
            exact absurd ho (hcell b entries rfl)
        | _ => rfl
      · obtain ⟨kvs, rfl, hkvs⟩ := (Heap.contents_dict_iff ho).mp hr
        obtain ⟨c, hc, hkc⟩ := hkvs.lookup_some hlookup
        rw [Json.assign, hkc, Option.getD_some, ih hne hnext hc]
        rfl

end ConstructorPlatform
