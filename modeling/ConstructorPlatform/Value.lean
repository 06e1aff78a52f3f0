import Mathlib.Data.Rat.Defs
import Mathlib.Data.List.Basic
import ConstructorPlatform.Reasoning.Hex

/-!
# Value — what the services exchange

JSON values and dictionaries as Python sees them, the exceptions the services raise, and the ways
an `await` can end.  All four services use these.
-/

namespace ConstructorPlatform

/-- A `uuid.UUID`.  Nothing in the executor, the dispatcher or the consumers looks inside one. -/
abbrev UUID := Nat

/-! ## 1. JSON -/

/-- A decoded JSON document.  A Python `float` that is finite is a rational number, and Python
compares it with an `int` exactly. -/
inductive Json where
  | null
  | bool (b : Bool)
  | int (i : Int)
  | float (q : Rat)
  | str (s : String)
  | arr (xs : List Json)
  | obj (kvs : List (String × Json))
  deriving Repr, Inhabited

/-- A Python `dict` with string keys, in insertion order. -/
abbrev Dict := List (String × Json)

/-- `bool(value)`, the test that `while`, `if` and `or` make. -/
def Json.truthy : Json → Bool
  | .null => false
  | .bool b => b
  | .int i => decide (i ≠ 0)
  | .float q => decide (q ≠ 0)
  | .str s => decide (s ≠ "")
  | .arr xs => !xs.isEmpty
  | .obj kvs => !kvs.isEmpty

/-- `type(value).__name__`. -/
def Json.typeName : Json → String
  | .null => "NoneType"
  | .bool _ => "bool"
  | .int _ => "int"
  | .float _ => "float"
  | .str _ => "str"
  | .arr _ => "list"
  | .obj _ => "dict"

/-- The number a value compares as; `True` and `False` are the integers one and zero. -/
def Json.number? : Json → Option Rat
  | .bool b => some (if b then 1 else 0)
  | .int i => some i
  | .float q => some q
  | _ => none

@[simp] theorem Json.truthy_str (s : String) : (Json.str s).truthy = decide (s ≠ "") := rfl

/-- `d[key] = value`: the key keeps its place when it is present and goes to the end otherwise. -/
def dictSet {V : Type} (key : String) (value : V) : List (String × V) → List (String × V)
  | [] => [(key, value)]
  | (k, v) :: rest => if k = key then (key, value) :: rest else (k, v) :: dictSet key value rest

theorem mem_keys_dictSet {V : Type} (key : String) (value : V) (d : List (String × V))
    (k : String) :
    k ∈ (dictSet key value d).map Prod.fst ↔ k = key ∨ k ∈ d.map Prod.fst := by
  induction d with
  | nil => simp [dictSet]
  | cons kv rest ih =>
      obtain ⟨k', v⟩ := kv
      rw [dictSet]
      split
      · rename_i heq
        subst heq
        simp only [List.map_cons, List.mem_cons]
        tauto
      · simp only [List.map_cons, List.mem_cons, ih]
        tauto

/-! ## 2. Exceptions -/

inductive ExcKind where
  | valueError
  | typeError
  | keyError
  | attributeError
  | runtimeError
  -- The builtin `TimeoutError`, which `asyncio.TimeoutError` names.
  | timeoutError
  -- `asyncio.InvalidStateError`, raised by settling a future twice.
  | invalidState
  -- Raised by SQLAlchemy or the database driver.
  | database
  -- Raised inside another third-party package.
  | library
  deriving DecidableEq, Repr

/-- An instance of `Exception`: what it is and what `str` gives for it. -/
structure PyExc where
  kind : ExcKind
  text : String
  deriving DecidableEq, Repr

def apostrophe : Char := Char.ofNat 39

def doubleQuote : Char := Char.ofNat 34

def backslash : Char := Char.ofNat 92

/-- A character in the `repr` of a string; from `U+0100` on all are taken for printable. -/
def reprChar (quote c : Char) : List Char :=
  if c = quote ∨ c = backslash then [backslash, c]
  else
    match c.toNat with
    | 9 => [backslash, 't']
    | 10 => [backslash, 'n']
    | 13 => [backslash, 'r']
    | n =>
        if n < 32 ∨ 127 ≤ n ∧ n ≤ 160 ∨ n = 173 then backslash :: 'x' :: Reasoning.Hex.digits 2 n
        else [c]

/-- `repr` of a string. -/
def quoted (s : String) : String :=
  let quote :=
    if apostrophe ∈ s.toList ∧ doubleQuote ∉ s.toList then doubleQuote else apostrophe
  String.ofList (quote :: s.toList.flatMap (reprChar quote) ++ [quote])

/-- `repr` of a value that can be a key; lists and dictionaries cannot (see `unhashable`).  A float
is shown as a fraction, where Python shows decimals. -/
def Json.keyRepr : Json → String
  | .null => "None"
  | .bool b => if b then "True" else "False"
  | .int i => toString i
  | .float q => toString q
  | .str s => quoted s
  | v => v.typeName

def keyError (key : Json) : PyExc := ⟨.keyError, key.keyRepr⟩

def unhashable (value : Json) : PyExc := ⟨.typeError, "unhashable type: " ++ quoted value.typeName⟩

/-- `hash(value)` succeeds. -/
def Json.hashable : Json → Bool
  | .arr _ => false
  | .obj _ => false
  | _ => true

/-- `d[key]` on a `dict` for a string key. -/
def Dict.item (d : Dict) (key : String) : Except PyExc Json :=
  match d.lookup key with
  | some v => .ok v
  | none => .error (keyError (.str key))

/-- `value[key]` for a string key and any value. -/
def Json.subscript (value : Json) (key : String) : Except PyExc Json :=
  match value with
  | .obj kvs => Dict.item kvs key
  | .arr _ => .error ⟨.typeError, "list indices must be integers or slices, not str"⟩
  | .str _ => .error ⟨.typeError, "string indices must be integers, not 'str'"⟩
  | v => .error ⟨.typeError, quoted v.typeName ++ " object is not subscriptable"⟩

/-! ## 3. How an `await` ends -/

/-- The end of an `await` as the awaiting task sees it. -/
inductive Awaited (α : Type) where
  | value (a : α)
  | raised (exc : PyExc)
  -- `asyncio.CancelledError`, which no `except Exception` catches.
  | cancelled
  deriving Repr

/-- The end of an awaited Redis command.  A command whose reply is lost raises although it may have
been carried out. -/
inductive Reply where
  | ok
  | raised (exc : PyExc) (carriedOut : Bool)
  deriving DecidableEq, Repr

/-- The server has performed the command. -/
def Reply.carriedOut : Reply → Bool
  | .ok => true
  | .raised _ b => b

/-- The same in a task that can be cancelled while it waits. -/
inductive Remote where
  | reply (r : Reply)
  | cancelled (carriedOut : Bool)
  deriving DecidableEq, Repr

def Remote.carriedOut : Remote → Bool
  | .reply r => r.carriedOut
  | .cancelled b => b

@[simp] theorem Reply.carriedOut_ok : Reply.ok.carriedOut = true := rfl
@[simp] theorem Reply.carriedOut_raised (e : PyExc) (b : Bool) :
    (Reply.raised e b).carriedOut = b := rfl
@[simp] theorem Remote.carriedOut_reply (r : Reply) :
    (Remote.reply r).carriedOut = r.carriedOut := rfl
@[simp] theorem Remote.carriedOut_cancelled (b : Bool) : (Remote.cancelled b).carriedOut = b := rfl

end ConstructorPlatform
