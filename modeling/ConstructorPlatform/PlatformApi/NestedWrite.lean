import ConstructorPlatform.PlatformApi.Copies

/-!
# NestedWrite — the laws of `_set_nested`

On a document that shares nothing, `_set_nested` sets the value at the path and touches nothing
else, or raises before it has changed anything: `setNested_lawful`.  The laws are those of
`Json.assign`, and one call on a tree of cells does what it does.
-/

namespace ConstructorPlatform

open Reasoning

/-! ## 1. The laws of an assignment -/

theorem dictSet_dictSet {V : Type} (key : String) (v w : V) (d : List (String × V)) :
    dictSet key w (dictSet key v d) = dictSet key w d := by
  induction d with
  | nil => simp only [dictSet, if_pos]
  | cons kv rest ih =>
      obtain ⟨k, u⟩ := kv
      rw [dictSet, dictSet]
      by_cases hk : k = key
      · rw [if_pos hk, if_pos hk, dictSet, if_pos rfl]
      · rw [if_neg hk, if_neg hk, dictSet, if_neg hk, ih]

section Laws

variable {x j j' : Json} {keys : List String}

-- Only an object is assigned below.
theorem Json.assign_cons {key : String} {rest : List String}
    (h : Json.assign x (key :: rest) j = some j') :
    ∃ kvs y, j = .obj kvs ∧ Json.assign x rest ((kvs.lookup key).getD (.obj [])) = some y ∧
      j' = .obj (dictSet key y kvs) := by
  cases j with
  | obj kvs =>
      obtain ⟨y, hy, rfl⟩ := Option.map_eq_some_iff.mp h
      exact ⟨kvs, y, rfl, hy, rfl⟩
  | _ => cases h

theorem Json.valueAt_assign (h : Json.assign x keys j = some j') :
    j'.valueAt (keys.map .key) = some x := by
  induction keys generalizing j j' with
  | nil =>
      cases h
      rfl
  | cons key rest ih =>
      obtain ⟨kvs, y, rfl, hy, rfl⟩ := Json.assign_cons h
      show ((dictSet key y kvs).lookup key).bind _ = some x
      rw [lookup_dictSet, if_pos rfl]
      exact ih hy

theorem Json.valueAt_assign_apart (h : Json.assign x keys j = some j') {path : List Step}
    (hapart : Apart path (keys.map .key)) : j'.valueAt path = j.valueAt path := by
  induction keys generalizing j j' path with
  | nil => exact absurd List.nil_prefix hapart.2
  | cons key rest ih =>
      obtain ⟨kvs, y, rfl, hy, rfl⟩ := Json.assign_cons h
      cases path with
      | nil => exact absurd List.nil_prefix hapart.1
      | cons s path =>
          cases s with
          | item i => rfl
          | key k =>
              show ((dictSet key y kvs).lookup k).bind _ = (kvs.lookup k).bind _
              rw [lookup_dictSet]
              by_cases hk : k = key
              · subst hk
                have hrest : Apart path (rest.map .key) :=
                  ⟨fun hp => hapart.1 (List.cons_prefix_cons.mpr ⟨rfl, hp⟩),
                    fun hp => hapart.2 (List.cons_prefix_cons.mpr ⟨rfl, hp⟩)⟩
                rw [if_pos rfl, Option.bind_some, ih hy hrest]
                cases kvs.lookup k with
                | some z => rfl
                | none =>
                    -- Nothing stands below an object that was missing.
                    cases path with
                    | nil => exact absurd List.nil_prefix hrest.1
                    | cons s path => cases s <;> rfl
              · rw [if_neg hk]

/-- The second of two assignments to one path makes up for the first. -/
theorem Json.assign_assign (h : Json.assign x keys j = some j') (x₂ : Json) :
    Json.assign x₂ keys j' = Json.assign x₂ keys j := by
  induction keys generalizing j j' with
  | nil => rfl
  | cons key rest ih =>
      obtain ⟨kvs, y, rfl, hy, rfl⟩ := Json.assign_cons h
      rw [Json.assign, Json.assign, lookup_dictSet, if_pos rfl, Option.getD_some, ih hy]
      simp only [dictSet_dictSet]

/-- An assignment fails exactly when something other than an object stands on the way. -/
theorem Json.assign_eq_none_iff (x : Json) (keys : List String) (j : Json) :
    Json.assign x keys j = none ↔
      ∃ i y, i < keys.length ∧ j.valueAt ((keys.take i).map .key) = some y ∧
        ∀ kvs, y ≠ .obj kvs := by
  induction keys generalizing j with
  | nil => simp [Json.assign]
  | cons key rest ih =>
      by_cases hobj : ∃ kvs, j = .obj kvs
      · obtain ⟨kvs, rfl⟩ := hobj
        rw [Json.assign, Option.map_eq_none_iff, ih]
        constructor
        · rintro ⟨i, y, hi, hy, hne⟩
          refine ⟨i + 1, y, Nat.succ_lt_succ hi, ?_, hne⟩
          show (kvs.lookup key).bind _ = some y
          cases hlookup : kvs.lookup key with
          | some z => rwa [hlookup] at hy
          | none =>
              rw [hlookup] at hy
              cases i with
              | zero => exact absurd (Option.some.inj hy).symm (hne [])
              | succ i =>
                  -- Nothing stands below an object that was missing.
                  cases rest with
                  | nil => exact absurd hi (Nat.not_lt_zero _)
                  | cons key' rest => cases hy
        · rintro ⟨i, y, hi, hy, hne⟩
          cases i with
          | zero => exact absurd (Option.some.inj hy).symm (hne kvs)
          | succ i =>
              refine ⟨i, y, Nat.lt_of_succ_lt_succ hi, ?_, hne⟩
              obtain ⟨z, hz, hy⟩ := Option.bind_eq_some_iff.mp hy
              have hlookup : kvs.lookup key = some z := hz
              rwa [hlookup]
      · have hnone : Json.assign x (key :: rest) j = none := by
          cases j with
          | obj kvs => exact absurd ⟨kvs, rfl⟩ hobj
          | _ => rfl
        exact iff_of_true hnone
          ⟨0, j, Nat.succ_pos _, rfl, fun kvs heq => hobj ⟨kvs, heq⟩⟩

end Laws

/-! ## 2. A write to a tree of cells -/

variable {heap : Heap} {context result value : PyValue} {done : List (List Step)} {S : Set Nat}

/-- `_set_nested` assigns, or raises where the assignment fails and leaves the heap as it is. -/
theorem Tracks.setNested (h : Tracks heap context result done S) {path : String} {r x : Json}
    (hdone : ∀ d ∈ done, ¬ d <+: (splitPath path).dropLast.map .key)
    (hvalue : ∀ a, value = .ref a → a ∉ S ∧ a < heap.length)
    (hr : heap.Contents result r) (hx : heap.Contents value x) :
    (∃ e, ConstructorPlatform.setNested heap result path value = (.error e, heap) ∧
      Json.assign x (splitPath path) r = none) ∨
    ∃ after r' S', ConstructorPlatform.setNested heap result path value = (.ok (), after) ∧
      Json.assign x (splitPath path) r = some r' ∧ after.Contents result r' ∧
      Tracks after context result ((splitPath path).map .key :: done) S' := by
  rw [ConstructorPlatform.setNested]
  cases htarget : heap.target result (splitPath path) with
  | none =>
      obtain ⟨e, he⟩ := setKeys_error value (splitPath_ne_nil path) htarget
      exact .inl ⟨e, he, Heap.assign_eq_none (splitPath_ne_nil path) htarget hr x⟩
  | some target =>
      obtain ⟨addr, key, more⟩ := target
      obtain ⟨-, hout, honce⟩ := Tracks.stands_once (w := ⟨heap, addr, key, more, value⟩)
        h htarget hdone hvalue
      obtain ⟨r', hassign, hr'⟩ := Write.contents_assign (w := ⟨heap, addr, key, more, value⟩)
        htarget hr hx hout honce
      exact .inr ⟨_, r', _, setKeys_eq_write htarget, hassign, hr',
        Tracks.after (w := ⟨heap, addr, key, more, value⟩) h htarget hvalue⟩

/-- `_set_nested(data, path, value)` with a value that is decoded for it. -/
def Heap.writeNested (heap : Heap) (data : PyValue) (path : String) (x : Json) :
    Except PyExc Unit × Heap :=
  setNested (heap.load x).2 data path (heap.load x).1

-- The decoded value is another tree.
theorem Tracks.writeNested (h : Tracks heap context result done S) {path : String} {r : Json}
    (hdone : ∀ d ∈ done, ¬ d <+: (splitPath path).dropLast.map .key)
    (hr : heap.Contents result r) (x : Json) :
    (∃ e after, heap.writeNested result path x = (.error e, after) ∧ after.Contents result r ∧
      Json.assign x (splitPath path) r = none) ∨
    ∃ after r' S', heap.writeNested result path x = (.ok (), after) ∧
      Json.assign x (splitPath path) r = some r' ∧ after.Contents result r' ∧
      Tracks after context result ((splitPath path).map .key :: done) S' := by
  obtain ⟨hload, hvalue⟩ := h.load x
  obtain ⟨cells, hcells, -⟩ := (heap.load_loads x).cells
  have hr' : (heap.load x).2.Contents result r := by
    rw [hcells]
    exact hr.append cells
  rcases hload.setNested hdone hvalue hr' (heap.load_contents x) with ⟨e, he, hnone⟩ | hok
  · exact .inl ⟨e, _, he, hr', hnone⟩
  · exact .inr hok

/-- Something other than an object stands at a proper part of the path. -/
def Json.Blocks (d : Json) (keys : List String) : Prop :=
  ∃ j y, 1 ≤ j ∧ j < keys.length ∧ d.valueAt ((keys.take j).map .key) = some y ∧
    ∀ kvs, y ≠ .obj kvs

theorem Json.blocks_obj_iff (x : Json) (keys : List String) (kvs : Dict) :
    (Json.obj kvs).Blocks keys ↔ Json.assign x keys (.obj kvs) = none := by
  rw [Json.assign_eq_none_iff]
  constructor
  · rintro ⟨j, y, -, hj, hy, hne⟩
    exact ⟨j, y, hj, hy, hne⟩
  · rintro ⟨j, y, hj, hy, hne⟩
    refine ⟨j, y, Nat.one_le_iff_ne_zero.mpr ?_, hj, hy, hne⟩
    rintro rfl
    exact hne kvs (Option.some.inj hy).symm

/-- Writing to a document raises exactly when something blocks the path, and then the document is
as it was.  Otherwise the value stands at the path, what is apart from it is as it was, and another
write to the path makes up for the first. -/
theorem setNested_lawful (kvs : Dict) (path : String) (x x₂ : Json) :
    match (Heap.load [] (.obj kvs)).2.writeNested (Heap.load [] (.obj kvs)).1 path x with
    | (.error _, after) =>
        (Json.obj kvs).Blocks (splitPath path) ∧
          after.toJson (Heap.load [] (.obj kvs)).1 = .ok (.obj kvs)
    | (.ok (), after) =>
        ¬ (Json.obj kvs).Blocks (splitPath path) ∧
        ∃ d', after.toJson (Heap.load [] (.obj kvs)).1 = .ok d' ∧
          d'.valueAt ((splitPath path).map .key) = some x ∧
          (∀ other, Apart other ((splitPath path).map .key) →
            d'.valueAt other = (Json.obj kvs).valueAt other) ∧
          ∃ again alone d₂,
            after.writeNested (Heap.load [] (.obj kvs)).1 path x₂ = (.ok (), again) ∧
            (Heap.load [] (.obj kvs)).2.writeNested (Heap.load [] (.obj kvs)).1 path x₂ =
              (.ok (), alone) ∧
            again.toJson (Heap.load [] (.obj kvs)).1 = .ok d₂ ∧
            alone.toJson (Heap.load [] (.obj kvs)).1 = .ok d₂ := by
  have htree := Tracks.ofLoad (.obj kvs)
  have hdata := Heap.load_contents [] (.obj kvs)
  generalize (Heap.load [] (.obj kvs)).2 = heap at *
  generalize (Heap.load [] (.obj kvs)).1 = data at *
  rcases htree.writeNested (fun d hd => nomatch hd) hdata x with
    ⟨e, after, he, hsame, hnone⟩ | ⟨after, d', S', hok, hassign, hd', htree'⟩
  · rw [he]
    exact ⟨(Json.blocks_obj_iff x _ kvs).mpr hnone, Heap.toJson_eq_ok_iff.mpr hsame⟩
  · rw [hok]
    have hsome : ∀ y, Json.assign y (splitPath path) (.obj kvs) ≠ none := fun y hnone => by
      have hblocks := (Json.blocks_obj_iff y _ kvs).mpr hnone
      rw [(Json.blocks_obj_iff x _ kvs).mp hblocks] at hassign
      cases hassign
    refine ⟨fun hblocks => hsome x ((Json.blocks_obj_iff x _ kvs).mp hblocks), d',
      Heap.toJson_eq_ok_iff.mpr hd', Json.valueAt_assign hassign,
      fun other hother => Json.valueAt_assign_apart hassign hother, ?_⟩
    rcases htree.writeNested (fun d hd => nomatch hd) hdata x₂ with
      ⟨-, -, -, -, hnone⟩ | ⟨alone, d₂, -, halone, hassign₂, hd₂, -⟩
    · exact absurd hnone (hsome x₂)
    -- The path itself is longer than the walk to the dictionary that is written.
    have hdone : ∀ d ∈ [(splitPath path).map Step.key],
        ¬ d <+: (splitPath path).dropLast.map .key := by
      intro d hd hbegin
      obtain rfl := List.mem_singleton.mp hd
      have hle := hbegin.length_le
      have hpos := List.length_pos_iff.mpr (splitPath_ne_nil path)
      rw [List.length_map, List.length_map, List.length_dropLast] at hle
      omega
    have heq := Json.assign_assign hassign x₂
    rcases htree'.writeNested hdone hd' x₂ with
      ⟨-, -, -, -, hnone⟩ | ⟨again, d₃, -, hagain, hassign₃, hd₃, -⟩
    · exact absurd (heq ▸ hnone) (hsome x₂)
    · rw [heq, hassign₂] at hassign₃
      cases hassign₃
      exact ⟨again, alone, d₂, hagain, halone, Heap.toJson_eq_ok_iff.mpr hd₃,
        Heap.toJson_eq_ok_iff.mpr hd₂⟩

end ConstructorPlatform
