import Mathlib.Data.List.Basic
import ConstructorPlatform.PlatformApi.Executor

/-!
# Transform — `src/executions/transform.py`

`apply_transform` deep-copies the context and then assigns into the copy what JMESPath finds in the
original.  What it finds is not copied, so a later assignment may write through it into the
original.  Contexts therefore live in a heap: lists and dictionaries are cells, and a value is an
atom or the address of a cell.  `contextModel` is the `ContextModel` that the executor runs with.
-/

namespace ConstructorPlatform

/-! ## 1. The heap -/

/-- A Python value. -/
inductive PyValue where
  | null
  | bool (b : Bool)
  | int (i : Int)
  | float (q : Rat)
  | str (s : String)
  | ref (addr : Nat)
  deriving DecidableEq, Repr

inductive PyObject where
  | list (items : List PyValue)
  | dict (entries : List (String × PyValue))
  deriving DecidableEq, Repr

abbrev Heap := List PyObject

/-- `type(value).__name__`. -/
def PyValue.typeName (heap : Heap) : PyValue → String
  | .null => "NoneType"
  | .bool _ => "bool"
  | .int _ => "int"
  | .float _ => "float"
  | .str _ => "str"
  | .ref addr =>
      match heap[addr]? with
      | some (.list _) => "list"
      | _ => "dict"

/-- The cell of a value and its address. -/
def Heap.cell (heap : Heap) : PyValue → Option (Nat × PyObject)
  | .ref addr => heap[addr]?.map fun o => (addr, o)
  | _ => none

mutual

/-- Decoding: the value of a JSON document and the heap with its cells. -/
def Heap.load (heap : Heap) : Json → PyValue × Heap
  | .null => (.null, heap)
  | .bool b => (.bool b, heap)
  | .int i => (.int i, heap)
  | .float q => (.float q, heap)
  | .str s => (.str s, heap)
  | .arr xs =>
      let (items, heap) := heap.loadList xs
      (.ref heap.length, heap ++ [.list items])
  | .obj kvs =>
      let (entries, heap) := heap.loadFields kvs
      (.ref heap.length, heap ++ [.dict entries])

def Heap.loadList (heap : Heap) : List Json → List PyValue × Heap
  | [] => ([], heap)
  | x :: xs =>
      let (v, heap) := heap.load x
      let (vs, heap) := heap.loadList xs
      (v :: vs, heap)

def Heap.loadFields (heap : Heap) : List (String × Json) → List (String × PyValue) × Heap
  | [] => ([], heap)
  | (k, x) :: rest =>
      let (v, heap) := heap.load x
      let (kvs, heap) := heap.loadFields rest
      ((k, v) :: kvs, heap)

end

/-- Encoding, for values nested to depth `fuel` at most. -/
def Heap.dump (heap : Heap) : Nat → PyValue → Option Json
  | _, .null => some .null
  | _, .bool b => some (.bool b)
  | _, .int i => some (.int i)
  | _, .float q => some (.float q)
  | _, .str s => some (.str s)
  | 0, .ref _ => none
  | fuel + 1, .ref addr =>
      match heap[addr]? with
      | some (.list items) => (items.mapM (heap.dump fuel)).map .arr
      | some (.dict entries) =>
          (entries.mapM fun kv => (heap.dump fuel kv.2).map (kv.1, ·)).map .obj
      | none => none

def circular : PyExc := ⟨.valueError, "Circular reference detected"⟩

/-- `json.dumps`: a path longer than the heap has cells runs in a circle. -/
def Heap.toJson (heap : Heap) (v : PyValue) : Except PyExc Json :=
  match heap.dump (heap.length + 1) v with
  | some j => .ok j
  | none => .error circular

/-! ## 2. `copy.deepcopy` -/

/-- The value in a copy of the heap that starts at address `base`. -/
def PyValue.shift (base : Nat) : PyValue → PyValue
  | .ref addr => .ref (base + addr)
  | v => v

def PyObject.shift (base : Nat) : PyObject → PyObject
  | .list items => .list (items.map (PyValue.shift base))
  | .dict entries => .dict (entries.map fun kv => (kv.1, kv.2.shift base))

/-- `copy.deepcopy(value)`.  Every cell is copied; those that the value does not reach are
garbage. -/
def Heap.deepcopy (heap : Heap) (v : PyValue) : PyValue × Heap :=
  (v.shift heap.length, heap ++ heap.map (PyObject.shift heap.length))

/-! ## 3. `_set_nested` -/

def splitChars (sep : Char) : List Char → List (List Char)
  | [] => [[]]
  | c :: cs =>
      if c = sep then [] :: splitChars sep cs
      else
        match splitChars sep cs with
        | w :: ws => (c :: w) :: ws
        | [] => [[c]]

/-- `path.split(".")`. -/
def splitPath (path : String) : List String :=
  (splitChars '.' path.toList).map String.ofList

/-- `current.setdefault(key, {})`. -/
def setDefault (heap : Heap) (current : PyValue) (key : String) : Except PyExc (PyValue × Heap) :=
  match heap.cell current with
  | some (addr, .dict entries) =>
      match entries.lookup key with
      | some v => .ok (v, heap)
      | none =>
          let fresh := PyValue.ref heap.length
          .ok (fresh, heap.set addr (.dict (dictSet key fresh entries)) ++ [.dict []])
  | _ => .error ⟨.attributeError,
      quoted (current.typeName heap) ++ " object has no attribute 'setdefault'"⟩

/-- `current[key] = value`. -/
def setItem (heap : Heap) (current : PyValue) (key : String) (value : PyValue) :
    Except PyExc Heap :=
  match heap.cell current with
  | some (addr, .dict entries) => .ok (heap.set addr (.dict (dictSet key value entries)))
  | some (_, .list _) =>
      .error ⟨.typeError, "list indices must be integers or slices, not str"⟩
  | none => .error ⟨.typeError,
      quoted (current.typeName heap) ++ " object does not support item assignment"⟩

/-- The loop of `_set_nested` and the assignment after it.  What was written before an error
stays. -/
def setKeys (heap : Heap) (current value : PyValue) : List String → Except PyExc Unit × Heap
  | [] => (.ok (), heap)  -- `split` returns one key at least
  | [key] =>
      match setItem heap current key value with
      | .ok heap => (.ok (), heap)
      | .error e => (.error e, heap)
  | key :: key' :: rest =>
      match setDefault heap current key with
      | .ok (next, heap) => setKeys heap next value (key' :: rest)
      | .error e => (.error e, heap)

/-- `_set_nested(data, path, value)`. -/
def setNested (heap : Heap) (data : PyValue) (path : String) (value : PyValue) :
    Except PyExc Unit × Heap :=
  setKeys heap data value (splitPath path)

/-! ## 4. `apply_transform` -/

/-- The package `jmespath`: what a search finds, and the cells it makes for it. -/
structure JMESPath where
  search : Json → Heap → PyValue → Except PyExc (PyValue × List PyObject)

/-- The loop of `apply_transform`. -/
def transformLoop (jmespath : JMESPath) (context result : PyValue) :
    Dict → Heap → Except PyExc Unit × Heap
  | [], heap => (.ok (), heap)
  | (destPath, srcExpr) :: rest, heap =>
      match jmespath.search srcExpr heap context with
      | .error e => (.error e, heap)
      | .ok (value, new) =>
          match setNested (heap ++ new) result destPath value with
          | (.error e, heap) => (.error e, heap)
          | (.ok (), heap) => transformLoop jmespath context result rest heap

/-- `apply_transform`: the end, the copy, and the heap. -/
def applyTransform (jmespath : JMESPath) (config : Dict) (heap : Heap) (context : PyValue) :
    Except PyExc Unit × PyValue × Heap :=
  let (result, heap) := heap.deepcopy context
  let (outcome, heap) := transformLoop jmespath context result config heap
  (outcome, result, heap)

/-! ## 5. Dictionaries stay dictionaries -/

def Heap.IsDict (heap : Heap) (addr : Nat) : Prop := ∃ entries, heap[addr]? = some (.dict entries)

/-- Every dictionary of the first heap is one in the second. -/
def Heap.KeepsDicts (heap heap' : Heap) : Prop := ∀ addr, heap.IsDict addr → heap'.IsDict addr

theorem Heap.KeepsDicts.refl (heap : Heap) : heap.KeepsDicts heap := fun _ h => h

theorem Heap.KeepsDicts.trans {heap heap' heap'' : Heap} (h : heap.KeepsDicts heap')
    (h' : heap'.KeepsDicts heap'') : heap.KeepsDicts heap'' := fun addr hd => h' addr (h addr hd)

theorem Heap.keepsDicts_append (heap new : Heap) : heap.KeepsDicts (heap ++ new) := by
  rintro addr ⟨entries, h⟩
  exact ⟨entries, by rw [List.getElem?_append_left (List.getElem?_eq_some_iff.mp h).1, h]⟩

theorem Heap.keepsDicts_set (heap : Heap) (a : Nat) (entries : List (String × PyValue)) :
    heap.KeepsDicts (heap.set a (.dict entries)) := by
  rintro addr ⟨entries', h⟩
  by_cases heq : a = addr
  · subst heq
    exact ⟨entries, List.getElem?_set_self (List.getElem?_eq_some_iff.mp h).1⟩
  · exact ⟨entries', by rw [List.getElem?_set_ne heq, h]⟩

theorem Heap.isDict_append_last (heap : Heap) (entries : List (String × PyValue)) :
    Heap.IsDict (heap ++ [PyObject.dict entries]) heap.length := ⟨entries, by simp⟩

theorem setDefault_keepsDicts {heap heap' : Heap} {current next : PyValue} {key : String}
    (h : setDefault heap current key = .ok (next, heap')) : heap.KeepsDicts heap' := by
  unfold setDefault at h
  split at h
  · split at h
    · cases h
      exact .refl heap
    · cases h
      exact (heap.keepsDicts_set _ _).trans (Heap.keepsDicts_append _ _)
  · cases h

theorem setItem_keepsDicts {heap heap' : Heap} {current value : PyValue} {key : String}
    (h : setItem heap current key value = .ok heap') : heap.KeepsDicts heap' := by
  unfold setItem at h
  split at h <;> cases h
  exact heap.keepsDicts_set _ _

theorem setKeys_keepsDicts (heap : Heap) (current value : PyValue) (keys : List String) :
    heap.KeepsDicts (setKeys heap current value keys).2 := by
  induction keys generalizing heap current with
  | nil => exact .refl heap
  | cons key rest ih =>
      cases rest with
      | nil =>
          unfold setKeys
          split
          · rename_i h; exact setItem_keepsDicts h
          · exact .refl heap
      | cons key' rest =>
          unfold setKeys
          split
          · rename_i h; exact (setDefault_keepsDicts h).trans (ih _ _)
          · exact .refl heap

theorem transformLoop_keepsDicts (jmespath : JMESPath) (context result : PyValue) (config : Dict)
    (heap : Heap) : heap.KeepsDicts (transformLoop jmespath context result config heap).2 := by
  induction config generalizing heap with
  | nil => exact .refl heap
  | cons kv rest ih =>
      unfold transformLoop
      split
      · exact .refl heap
      · rename_i value new _
        have hset := (heap.keepsDicts_append new).trans
          (setKeys_keepsDicts (heap ++ new) result value (splitPath kv.1))
        split <;> rename_i h <;> rw [setNested] at h <;> rw [h] at hset
        · exact hset
        · exact hset.trans (ih _)

/-! ## 6. The context of an execution -/

/-- `execution.context`: a dictionary in a heap. -/
structure PyContext where
  heap : Heap
  root : Nat
  isDict : heap.IsDict root

/-- The dictionary that `ExecutionCreate` decodes. -/
def PyContext.ofDict (d : Dict) : PyContext where
  heap := (Heap.loadFields [] d).2 ++ [.dict (Heap.loadFields [] d).1]
  root := (Heap.loadFields [] d).2.length
  isDict := Heap.isDict_append_last _ _

def PyContext.entries (c : PyContext) : List (String × PyValue) :=
  match c.heap[c.root]? with
  | some (.dict entries) => entries
  | _ => []

/-- `{**context, key: value}`. -/
def PyContext.insert (c : PyContext) (key : String) (value : Json) : PyContext where
  heap := (c.heap.load value).2 ++ [.dict (dictSet key (c.heap.load value).1 c.entries)]
  root := (c.heap.load value).2.length
  isDict := Heap.isDict_append_last _ _

/-- The context after a transform that succeeded, or the one that a failed transform leaves. -/
def PyContext.applyTransform (jmespath : JMESPath) (config : Dict) (c : PyContext) :
    Except (PyExc × PyContext) PyContext :=
  let copied := c.heap.deepcopy (.ref c.root)
  let final := transformLoop jmespath (.ref c.root) copied.1 config copied.2
  have hkeep : copied.2.KeepsDicts final.2 := transformLoop_keepsDicts jmespath _ _ config _
  have hroot : copied.2.IsDict c.root := Heap.keepsDicts_append _ _ _ c.isDict
  have hcopy : copied.2.IsDict (c.heap.length + c.root) := by
    obtain ⟨entries, h⟩ := c.isDict
    refine ⟨entries.map fun kv => (kv.1, kv.2.shift c.heap.length), ?_⟩
    show (c.heap ++ c.heap.map (PyObject.shift c.heap.length))[c.heap.length + c.root]? = _
    rw [List.getElem?_append_right (Nat.le_add_right _ _), Nat.add_sub_cancel_left,
      List.getElem?_map, h]
    rfl
  match final.1 with
  | .ok () => .ok ⟨final.2, c.heap.length + c.root, hkeep _ hcopy⟩
  | .error e => .error (e, ⟨final.2, c.root, hkeep _ hroot⟩)

def PyContext.search (jmespath : JMESPath) (expression : Json) (c : PyContext) :
    Except PyExc Json := do
  let (value, new) ← jmespath.search expression c.heap (.ref c.root)
  Heap.toJson (c.heap ++ new) value

def PyContext.dump (c : PyContext) : Except PyExc Dict := do
  match ← c.heap.toJson (.ref c.root) with
  | .obj kvs => .ok kvs
  | _ => .error circular

/-- `key in context`. -/
def PyContext.HasKey (c : PyContext) (key : String) : Prop := key ∈ c.entries.map Prod.fst

theorem PyContext.entries_insert (c : PyContext) (key : String) (value : Json) :
    (c.insert key value).entries = dictSet key (c.heap.load value).1 c.entries := by
  simp [PyContext.entries, PyContext.insert]

theorem PyContext.hasKey_insert (c : PyContext) (key : String) (value : Json) (k : String) :
    (c.insert key value).HasKey k ↔ k = key ∨ c.HasKey k := by
  rw [PyContext.HasKey, PyContext.entries_insert, mem_keys_dictSet]
  rfl

/-- The contexts that `execute_workflow` runs with. -/
def contextModel (jmespath : JMESPath) : ContextModel PyContext where
  search := PyContext.search jmespath
  applyTransform := PyContext.applyTransform jmespath
  insert := PyContext.insert
  dump := PyContext.dump
  HasKey := PyContext.HasKey
  hasKey_insert := PyContext.hasKey_insert

/-- JMESPath restricted to expressions that are one identifier. -/
def identifierSearch : JMESPath where
  search expression heap value :=
    match expression, heap.cell value with
    | .str name, some (_, .dict entries) => .ok ((entries.lookup name).getD .null, [])
    | _, _ => .ok (.null, [])

end ConstructorPlatform
