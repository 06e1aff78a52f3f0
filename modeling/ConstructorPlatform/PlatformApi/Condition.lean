import Mathlib.Data.List.Infix
import ConstructorPlatform.Value

/-!
# Condition — `src/executions/condition.py`

`evaluate_condition` extracts a value with JMESPath, compares it with the configured one by a
Python operator, and looks the next step up under `"true"` or `"false"`.  The comparison is
Python's own on JSON values: rich comparison of numbers, strings and lists, equality of anything,
membership in lists, strings and dictionaries.
-/

namespace ConstructorPlatform

/-! ## 1. Equality -/

mutual

/-- `a == b`. -/
def pyEq : Json → Json → Bool
  | .null, .null => true
  | .str a, .str b => decide (a = b)
  | .arr xs, .arr ys => pyEqList xs ys
  | .obj d, .obj e => decide (d.length = e.length) && pyEqFields d e
  | a, b =>
      match a.number?, b.number? with
      | some p, some q => decide (p = q)
      | _, _ => false

def pyEqList : List Json → List Json → Bool
  | [], [] => true
  | x :: xs, y :: ys => pyEq x y && pyEqList xs ys
  | _, _ => false

/-- Every entry of the first dictionary is in the second. -/
def pyEqFields : List (String × Json) → List (String × Json) → Bool
  | [], _ => true
  | (k, v) :: rest, e =>
      (match e.lookup k with
        | some w => pyEq v w
        | none => false) && pyEqFields rest e

end

/-! ## 2. Order -/

/-- The four ordering operators. -/
inductive Order where
  | gt
  | ge
  | lt
  | le
  deriving DecidableEq, Repr

def Order.symbol : Order → String
  | .gt => ">"
  | .ge => ">="
  | .lt => "<"
  | .le => "<="

/-- The operator on a type that is totally ordered. -/
def Order.holds {α : Type} [LT α] [DecidableLT α] : Order → α → α → Bool
  | .gt, a, b => decide (b < a)
  | .ge, a, b => !decide (a < b)
  | .lt, a, b => decide (a < b)
  | .le, a, b => !decide (b < a)

mutual

/-- `a op b` for an ordering operator: numbers and strings have an order, lists are compared at
their first difference, everything else raises. -/
def Order.compare (op : Order) : Json → Json → Except PyExc Bool
  | .str a, .str b => .ok (op.holds a b)
  | .arr xs, .arr ys => op.compareList xs ys
  | a, b =>
      match a.number?, b.number? with
      | some p, some q => .ok (op.holds p q)
      | _, _ => .error ⟨.typeError, quoted op.symbol ++ " not supported between instances of " ++
          quoted a.typeName ++ " and " ++ quoted b.typeName⟩

def Order.compareList (op : Order) : List Json → List Json → Except PyExc Bool
  | x :: xs, y :: ys => if pyEq x y then op.compareList xs ys else op.compare x y
  | [], ys => .ok (op.holds 0 ys.length)
  | x :: xs, [] => .ok (op.holds (x :: xs).length 0)

end

/-! ## 3. Membership -/

/-- `a in b`. -/
def pyIn : Json → Json → Except PyExc Bool
  | a, .arr ys => .ok (ys.any fun y => pyEq y a)
  | .str a, .str b => .ok (decide (a.toList <:+: b.toList))
  | a, .str _ =>
      .error ⟨.typeError, "'in <string>' requires string as left operand, not " ++ a.typeName⟩
  | .str k, .obj d => .ok (d.lookup k).isSome
  | a, .obj _ => if a.hashable then .ok false else .error (unhashable a)
  | _, b => .error ⟨.typeError, "argument of type " ++ quoted b.typeName ++ " is not iterable"⟩

/-! ## 4. `evaluate_condition` -/

/-- The keys of `_OPERATORS`. -/
inductive Operator where
  | order (op : Order)
  | eq
  | ne
  | isIn
  | notIn
  deriving DecidableEq, Repr

/-- The functions of `_OPERATORS`. -/
def Operator.apply : Operator → Json → Json → Except PyExc Bool
  | .order op, a, b => op.compare a b
  | .eq, a, b => .ok (pyEq a b)
  | .ne, a, b => .ok (!pyEq a b)
  | .isIn, a, b => pyIn a b
  | .notIn, a, b => (pyIn a b).map (!·)

/-- `_OPERATORS[name]`. -/
def operatorOf (name : Json) : Except PyExc Operator :=
  match name with
  | .str ">" => .ok (.order .gt)
  | .str ">=" => .ok (.order .ge)
  | .str "<" => .ok (.order .lt)
  | .str "<=" => .ok (.order .le)
  | .str "==" => .ok .eq
  | .str "!=" => .ok .ne
  | .str "in" => .ok .isIn
  | .str "not_in" => .ok .notIn
  | k => if k.hashable then .error (keyError k) else .error (unhashable k)

/-- The boolean `result` of `evaluate_condition`; `search` is `jmespath.search` on the context. -/
def conditionResult (search : Json → Except PyExc Json) (config : Dict) : Except PyExc Bool := do
  let extracted ← search (← config.item "expression")
  let compareFn ← operatorOf (← config.item "operator")
  compareFn.apply extracted (← config.item "value")

/-- `config["branches"][key]` for the key of the result. -/
def selectBranch (config : Dict) (result : Bool) : Except PyExc Json := do
  (← config.item "branches").subscript (if result then "true" else "false")

/-- The reference to the next step; nothing here asks that it be a string. -/
def evaluateCondition (search : Json → Except PyExc Json) (config : Dict) : Except PyExc Json := do
  selectBranch config (← conditionResult search config)

theorem evaluateCondition_of_result {search : Json → Except PyExc Json} {config : Dict} {b : Bool}
    (h : conditionResult search config = .ok b) :
    evaluateCondition search config = selectBranch config b := by
  simp only [evaluateCondition, h]
  rfl

theorem evaluateCondition_of_error {search : Json → Except PyExc Json} {config : Dict} {e : PyExc}
    (h : conditionResult search config = .error e) :
    evaluateCondition search config = .error e := by
  simp only [evaluateCondition, h]
  rfl

end ConstructorPlatform
