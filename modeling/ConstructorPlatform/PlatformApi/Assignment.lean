import ConstructorPlatform.Reasoning.Fold
import ConstructorPlatform.PlatformApi.Transform

/-!
# Assignment — what a transform is meant to do

Setting a value at a path of a JSON document, and a transform as assignments one after the other of
what the expressions find in one document: `simultaneous`.  Assignments to paths of which neither is
a prefix of the other commute, up to the order of the keys: `simultaneous_perm`.
-/

namespace ConstructorPlatform

open Reasoning

/-! ## 1. Paths of a document -/

inductive Step where
  | key (k : String)
  | item (i : Nat)
  deriving DecidableEq, Repr

theorem Step.key_injective : Function.Injective Step.key := fun _ _ h => by cases h; rfl

def Json.child : Json → Step → Option Json
  | .obj kvs, .key k => kvs.lookup k
  | .arr xs, .item i => xs[i]?
  | _, _ => none

def Json.valueAt : Json → List Step → Option Json
  | j, [] => some j
  | j, s :: path => (j.child s).bind fun x => x.valueAt path

/-- The document without what stands below its root. -/
def Json.head : Json → Json
  | .arr _ => .arr []
  | .obj _ => .obj []
  | j => j

def Json.headAt (j : Json) (path : List Step) : Option Json := (j.valueAt path).map Json.head

/-- Equality of documents whose objects are unordered. -/
def Json.Same (j j' : Json) : Prop := ∀ path, j.headAt path = j'.headAt path

theorem Json.valueAt_append (j : Json) (path path' : List Step) :
    j.valueAt (path ++ path') = (j.valueAt path).bind fun x => x.valueAt path' := by
  induction path generalizing j with
  | nil => rfl
  | cons s path ih =>
      rw [List.cons_append, Json.valueAt, Json.valueAt, Option.bind_assoc]
      exact Option.bind_congr fun x _ => ih x

@[simp] theorem Json.headAt_nil (j : Json) : j.headAt [] = some j.head := rfl

theorem Json.headAt_cons (j : Json) (s : Step) (path : List Step) :
    j.headAt (s :: path) = (j.child s).bind fun x => x.headAt path := by
  rw [Json.headAt, Json.valueAt, Option.map_bind]
  rfl

theorem Json.Same.refl (j : Json) : j.Same j := fun _ => rfl

theorem Json.Same.trans {j j' j'' : Json} (h : j.Same j') (h' : j'.Same j'') : j.Same j'' :=
  fun path => (h path).trans (h' path)

-- The values at a path are equal as unordered documents when all paths below agree.
theorem Json.same_valueAt {j j' : Json} (path : List Step)
    (h : ∀ below, j.headAt (path ++ below) = j'.headAt (path ++ below)) :
    Option.Rel Json.Same (j.valueAt path) (j'.valueAt path) := by
  have hbelow : ∀ (i : Json) below, i.headAt (path ++ below) =
      (i.valueAt path).bind fun x => x.headAt below := by
    intro i below
    rw [Json.headAt, Json.valueAt_append, Option.map_bind]
    rfl
  have hroot := h []
  rw [hbelow, hbelow] at hroot
  cases hx : j.valueAt path with
  | none =>
      cases hx' : j'.valueAt path with
      | none => exact .none
      | some x' => rw [hx, hx'] at hroot; cases hroot
  | some x =>
      cases hx' : j'.valueAt path with
      | none => rw [hx, hx'] at hroot; cases hroot
      | some x' =>
          refine .some fun below => ?_
          have := h below
          rwa [hbelow, hbelow, hx, hx'] at this

/-- Unordered objects are equal when they have the same keys with the same values. -/
theorem Json.same_obj_iff (kvs kvs' : Dict) :
    (Json.obj kvs).Same (.obj kvs') ↔
      ∀ k, Option.Rel Json.Same (kvs.lookup k) (kvs'.lookup k) := by
  constructor
  · intro h k
    have hk := Json.same_valueAt [.key k] fun below => h ([.key k] ++ below)
    simpa [Json.valueAt, Json.child] using hk
  · intro h path
    cases path with
    | nil => rfl
    | cons s path =>
        rw [Json.headAt_cons, Json.headAt_cons]
        cases s with
        | item i => rfl
        | key k =>
            show (kvs.lookup k).bind _ = (kvs'.lookup k).bind _
            have hk := h k
            revert hk
            generalize kvs.lookup k = o
            generalize kvs'.lookup k = o'
            rintro (hk | -)
            · exact hk path
            · rfl

/-! ## 2. Setting a value at a path -/

theorem lookup_dictSet {V : Type} (key : String) (value : V) (d : List (String × V))
    (k : String) : (dictSet key value d).lookup k = if k = key then some value else d.lookup k := by
  induction d with
  | nil =>
      by_cases hk : k = key
      · simp [dictSet, hk]
      · rw [dictSet, List.lookup_cons, beq_eq_false_iff_ne.mpr hk, if_neg hk]
  | cons kv rest ih =>
      obtain ⟨k', v⟩ := kv
      rw [dictSet]
      by_cases heq : k' = key
      · subst heq
        rw [if_pos rfl, List.lookup_cons, List.lookup_cons]
        by_cases hk : k = k'
        · simp [hk]
        · rw [beq_eq_false_iff_ne.mpr hk, if_neg hk]
      · rw [if_neg heq, List.lookup_cons, List.lookup_cons, ih]
        by_cases hk : k = k'
        · simp [hk, heq]
        · rw [beq_eq_false_iff_ne.mpr hk]

/-- The document with `x` at the path of keys.  Objects that are missing on the way are made; any
other value on the way makes the assignment fail. -/
def Json.assign (x : Json) : List String → Json → Option Json
  | [], _ => some x
  | key :: rest, .obj kvs =>
      (Json.assign x rest ((kvs.lookup key).getD (.obj []))).map fun y => .obj (dictSet key y kvs)
  | _ :: _, _ => none

/-- What stands at each path after `x` has been set at `keys`. -/
def overlay (x : Json) (keys : List Step) (heads : List Step → Option Json) (path : List Step) :
    Option Json :=
  if keys <+: path then x.headAt (path.drop keys.length)
  else if path <+: keys then some (.obj [])
  else heads path

/-- Only objects, or nothing, on the way to `keys`. -/
def Walkable (keys : List Step) (heads : List Step → Option Json) : Prop :=
  ∀ path h, path <+: keys → path ≠ keys → heads path = some h → h = .obj []

theorem Json.head_eq_obj_iff {j : Json} : j.head = .obj [] ↔ ∃ kvs, j = .obj kvs := by
  cases j <;> simp [Json.head]

-- A missing key is walked as an empty object.
theorem Json.headAt_getD (o : Option Json) (path : List Step) :
    (o.getD (.obj [])).headAt path = if path = [] ∧ o = none then some (.obj [])
      else o.bind fun x => x.headAt path := by
  cases o with
  | some x => simp
  | none =>
      cases path with
      | nil => rfl
      | cons s path => cases s <;> simp [Json.headAt_cons, Json.child]

theorem Json.assign_isSome_iff (x : Json) (keys : List String) (j : Json) :
    (Json.assign x keys j).isSome ↔ Walkable (keys.map .key) j.headAt := by
  induction keys generalizing j with
  | nil =>
      refine ⟨fun _ path h hbegin hne _ => ?_, fun _ => rfl⟩
      exact absurd (List.prefix_nil.mp hbegin) hne
  | cons key rest ih =>
      by_cases hobj : ∃ kvs, j = .obj kvs
      · obtain ⟨kvs, rfl⟩ := hobj
        rw [Json.assign, Option.isSome_map, ih]
        constructor
        · intro hwalk path h hbegin hne hhead
          cases path with
          | nil => cases hhead; rfl
          | cons s path =>
              obtain ⟨rfl, hrest⟩ := List.cons_prefix_cons.mp hbegin
              refine hwalk path h hrest (fun heq => hne (by rw [List.map_cons, heq])) ?_
              rw [Json.headAt_cons] at hhead
              rw [Json.headAt_getD, if_neg, ← hhead]
              · rfl
              · rintro ⟨-, hnone⟩
                rw [Json.child, hnone] at hhead
                cases hhead
        · intro hwalk path h hbegin hne hhead
          rw [Json.headAt_getD] at hhead
          split at hhead
          · cases hhead; rfl
          · refine hwalk (.key key :: path) h (List.cons_prefix_cons.mpr ⟨rfl, hbegin⟩)
              (fun heq => hne (by simpa using heq)) ?_
            rw [Json.headAt_cons]
            exact hhead
      · have hnone : Json.assign x (key :: rest) j = none := by
          cases j with
          | obj kvs => exact absurd ⟨kvs, rfl⟩ hobj
          | _ => rfl
        rw [hnone]
        refine ⟨nofun, fun hwalk => absurd ?_ hobj⟩
        exact Json.head_eq_obj_iff.mp (hwalk [] _ List.nil_prefix nofun rfl)

theorem Json.headAt_assign {x : Json} {keys : List String} {j j' : Json}
    (h : Json.assign x keys j = some j') (path : List Step) :
    j'.headAt path = overlay x (keys.map .key) j.headAt path := by
  induction keys generalizing j j' path with
  | nil =>
      cases h
      simp [overlay]
  | cons key rest ih =>
      cases j with
      | obj kvs =>
          obtain ⟨y, hy, rfl⟩ := Option.map_eq_some_iff.mp h
          cases path with
          | nil => simp [overlay, Json.head]
          | cons s path =>
              rw [Json.headAt_cons, overlay, Json.headAt_cons]
              cases s with
              | item i => simp [Json.child]
              | key k =>
                  simp only [Json.child, lookup_dictSet, List.map_cons, List.cons_prefix_cons,
                    List.length_cons, List.drop_succ_cons, Step.key.injEq]
                  by_cases hk : k = key
                  · subst hk
                    rw [if_pos rfl, Option.bind_some, ih hy, overlay, Json.headAt_getD]
                    simp only [true_and]
                    by_cases hpre : rest.map Step.key <+: path
                    · rw [if_pos hpre, if_pos hpre]
                    · rw [if_neg hpre, if_neg hpre]
                      by_cases hpre' : path <+: rest.map Step.key
                      · rw [if_pos hpre', if_pos hpre']
                      · rw [if_neg hpre', if_neg hpre', if_neg]
                        rintro ⟨rfl, -⟩
                        exact hpre' List.nil_prefix
                  · rw [if_neg hk, if_neg fun h => hk h.1.symm, if_neg fun h => hk h.1]
      | _ => cases h

/-! ## 3. Paths of which neither is a prefix of the other -/

def Apart {α : Type} (path path' : List α) : Prop := ¬ path <+: path' ∧ ¬ path' <+: path

theorem Apart.symm {α : Type} {path path' : List α} (h : Apart path path') : Apart path' path :=
  ⟨h.2, h.1⟩

theorem Apart.append {α : Type} {path path' : List α} (h : Apart path path') (below : List α) :
    Apart (path ++ below) path' := by
  constructor
  · exact fun h' => h.1 ((List.prefix_append _ _).trans h')
  · intro h'
    rcases List.prefix_or_prefix_of_prefix h' (List.prefix_append path below) with h' | h'
    · exact h.2 h'
    · exact h.1 h'

theorem Apart.map_key {keys keys' : List String} (h : Apart keys keys') :
    Apart (keys.map Step.key) (keys'.map Step.key) := by
  rwa [Apart, List.prefix_map_iff_of_injective Step.key_injective,
    List.prefix_map_iff_of_injective Step.key_injective]

theorem overlay_comm {x x' : Json} {keys keys' : List Step} {heads : List Step → Option Json}
    (h : Apart keys keys') (path : List Step) :
    overlay x keys (overlay x' keys' heads) path =
      overlay x' keys' (overlay x keys heads) path := by
  by_cases hk : keys <+: path
  · have hk' : ¬ keys' <+: path := fun hk' =>
      (List.prefix_or_prefix_of_prefix hk hk').elim h.1 h.2
    have hp' : ¬ path <+: keys' := fun hp' => h.1 (hk.trans hp')
    simp only [overlay, if_pos hk, if_neg hk', if_neg hp']
  · by_cases hk' : keys' <+: path
    · have hp : ¬ path <+: keys := fun hp => h.2 (hk'.trans hp)
      simp only [overlay, if_neg hk, if_pos hk', if_neg hp]
    · simp only [overlay, if_neg hk, if_neg hk']
      split <;> split <;> rfl

-- An assignment to another path decides nothing on the way.
theorem walkable_overlay {x : Json} {keys keys' : List Step} {heads : List Step → Option Json}
    (h : Apart keys keys') (hwalk : Walkable keys heads) :
    Walkable keys' (overlay x keys heads) ↔ Walkable keys' heads := by
  have hstep : ∀ path, path <+: keys' → overlay x keys heads path =
      if path <+: keys then some (.obj []) else heads path := fun path hpath => by
    rw [overlay, if_neg fun hk => h.1 (hk.trans hpath)]
  constructor
  · intro hwalk' path head hbegin hne hhead
    by_cases hk : path <+: keys
    · exact hwalk path head hk (fun heq => h.1 (heq ▸ hbegin)) hhead
    · refine hwalk' path head hbegin hne ?_
      rw [hstep path hbegin, if_neg hk, hhead]
  · intro hwalk' path head hbegin hne hhead
    rw [hstep path hbegin] at hhead
    split at hhead
    · cases hhead; rfl
    · exact hwalk' path head hbegin hne hhead

theorem Json.Same.assign {j j' : Json} (h : j.Same j') (x : Json) (keys : List String) :
    Option.Rel Json.Same (Json.assign x keys j) (Json.assign x keys j') := by
  have hheads : j.headAt = j'.headAt := funext h
  have hiff : (Json.assign x keys j).isSome ↔ (Json.assign x keys j').isSome := by
    rw [Json.assign_isSome_iff, Json.assign_isSome_iff, hheads]
  cases hj : Json.assign x keys j with
  | none =>
      cases hj' : Json.assign x keys j' with
      | none => exact .none
      | some i' => simp [hj, hj'] at hiff
  | some i =>
      cases hj' : Json.assign x keys j' with
      | none => simp [hj, hj'] at hiff
      | some i' =>
          refine .some fun path => ?_
          rw [Json.headAt_assign hj, Json.headAt_assign hj', hheads]

theorem Json.assign_bind_isSome_iff {x x' : Json} {keys keys' : List String}
    (h : Apart keys keys') (j : Json) :
    ((Json.assign x keys j).bind (Json.assign x' keys')).isSome ↔
      Walkable (keys.map .key) j.headAt ∧ Walkable (keys'.map .key) j.headAt := by
  rw [← Json.assign_isSome_iff x keys j]
  cases hi : Json.assign x keys j with
  | none => simp
  | some i =>
      have hwalk : Walkable (keys.map .key) j.headAt := by
        rw [← Json.assign_isSome_iff x, hi]
        rfl
      have hheads : i.headAt = overlay x (keys.map .key) j.headAt := funext (Json.headAt_assign hi)
      rw [Option.bind_some, Json.assign_isSome_iff, hheads, walkable_overlay h.map_key hwalk]
      simp

/-- Assignments to paths of which neither is a prefix of the other commute. -/
theorem Json.assign_comm {x x' : Json} {keys keys' : List String} (h : Apart keys keys')
    (j : Json) :
    Option.Rel Json.Same ((Json.assign x keys j).bind (Json.assign x' keys'))
      ((Json.assign x' keys' j).bind (Json.assign x keys)) := by
  have hiff : ((Json.assign x keys j).bind (Json.assign x' keys')).isSome ↔
      ((Json.assign x' keys' j).bind (Json.assign x keys)).isSome := by
    rw [Json.assign_bind_isSome_iff h, Json.assign_bind_isSome_iff h.symm]
    exact And.comm
  cases hi : (Json.assign x keys j).bind (Json.assign x' keys') with
  | none =>
      cases hi' : (Json.assign x' keys' j).bind (Json.assign x keys) with
      | none => exact .none
      | some i' => simp [hi, hi'] at hiff
  | some i =>
      cases hi' : (Json.assign x' keys' j).bind (Json.assign x keys) with
      | none => simp [hi, hi'] at hiff
      | some i' =>
          obtain ⟨m, hm, hmi⟩ := Option.bind_eq_some_iff.mp hi
          obtain ⟨m', hm', hmi'⟩ := Option.bind_eq_some_iff.mp hi'
          refine .some fun path => ?_
          rw [Json.headAt_assign hmi, Json.headAt_assign hmi', funext (Json.headAt_assign hm),
            funext (Json.headAt_assign hm')]
          exact overlay_comm h.map_key.symm path

/-! ## 4. The assignments of a config -/

/-- What an expression finds in a document. -/
abbrev Find := Json → Json → Except PyExc Json

/-- One item of a config, with what its expression finds in `j`. -/
def assignFound (find : Find) (j r : Json) (item : String × Json) : Option Json :=
  match find item.2 j with
  | .ok x => Json.assign x (splitPath item.1) r
  | .error _ => none

/-- The document with, in the order of the config, each destination set to what its expression finds
in the document itself. -/
def simultaneous (find : Find) (config : Dict) (j : Json) : Option Json :=
  config.foldlM (assignFound find j) j

/-- The destinations of two items are no prefixes of one another. -/
def DestinationsApart (item item' : String × Json) : Prop :=
  Apart (splitPath item.1) (splitPath item'.1)

theorem simultaneous_perm (find : Find) {config config' : Dict} (hperm : config.Perm config')
    (hapart : config.Pairwise DestinationsApart) (j : Json) :
    Option.Rel Json.Same (simultaneous find config j) (simultaneous find config' j) := by
  refine foldlM_perm Json.Same.refl (fun _ _ _ h h' => h.trans h') ?_ (fun _ _ h => h.symm) ?_
    hperm hapart (Json.Same.refl j)
  · intro r r' item h
    unfold assignFound
    split
    · exact h.assign _ _
    · exact .none
  · intro item item' h r
    unfold assignFound
    cases find item.2 j with
    | error e => cases find item'.2 j <;> simp
    | ok x =>
        cases find item'.2 j with
        | error e' => simp
        | ok x' => exact Json.assign_comm h r

end ConstructorPlatform
