import ConstructorPlatform.PlatformApi.Condition
import ConstructorPlatform.PlatformApi.Assignment

/-!
# Complements — the operators that negate each other

`_OPERATORS` holds four pairs of operators.  On any two values the two of a pair raise together or
give opposite results, so a condition with the other operator and swapped branches leads to the
same step: `evaluateCondition_complement`.
-/

namespace ConstructorPlatform

/-! ## 1. The pairs -/

def Order.complement : Order → Order
  | .gt => .le
  | .ge => .lt
  | .lt => .ge
  | .le => .gt

def Operator.complement : Operator → Operator
  | .order op => .order op.complement
  | .eq => .ne
  | .ne => .eq
  | .isIn => .notIn
  | .notIn => .isIn

/-- The key of an operator in `_OPERATORS`. -/
def Operator.name : Operator → String
  | .order op => op.symbol
  | .eq => "=="
  | .ne => "!="
  | .isIn => "in"
  | .notIn => "not_in"

theorem operatorOf_name (op : Operator) : operatorOf (.str op.name) = .ok op := by
  cases op with
  | order op => cases op <;> rfl
  | _ => rfl

/-! ## 2. Opposite results -/

/-- Both raise, or both give a result and the results are opposite. -/
inductive Opposite : Except PyExc Bool → Except PyExc Bool → Prop where
  | raised (exc exc' : PyExc) : Opposite (.error exc) (.error exc')
  | result (b : Bool) : Opposite (.ok b) (.ok !b)

theorem Order.complement_holds {α : Type} [LT α] [DecidableLT α] (op : Order) (a b : α) :
    op.complement.holds a b = !op.holds a b := by
  cases op <;> simp [Order.complement, Order.holds]

theorem Order.opposite_holds {α : Type} [LT α] [DecidableLT α] (op : Order) (a b : α) :
    Opposite (.ok (op.holds a b)) (.ok (op.complement.holds a b)) := by
  rw [op.complement_holds]
  exact .result _

mutual

/-- Values of one kind are compared by one order; values of different kinds by none. -/
theorem Order.opposite_compare (op : Order) :
    ∀ a b : Json, Opposite (op.compare a b) (op.complement.compare a b)
  | .arr xs, .arr ys => by
      rw [Order.compare, Order.compare]
      exact op.opposite_compareList xs ys
  | .str a, .str b => by
      rw [Order.compare, Order.compare]
      exact op.opposite_holds a b
  | .arr _, .null | .arr _, .bool _ | .arr _, .int _ | .arr _, .float _ | .arr _, .str _
  | .arr _, .obj _ | .str _, .null | .str _, .bool _ | .str _, .int _ | .str _, .float _
  | .str _, .arr _ | .str _, .obj _ => .raised _ _
  | .null, b => by cases b <;> exact .raised _ _
  | .obj _, b => by cases b <;> exact .raised _ _
  | .bool _, b => by
      cases b <;> first | exact op.opposite_holds _ _ | exact .raised _ _
  | .int _, b => by
      cases b <;> first | exact op.opposite_holds _ _ | exact .raised _ _
  | .float _, b => by
      cases b <;> first | exact op.opposite_holds _ _ | exact .raised _ _

theorem Order.opposite_compareList (op : Order) :
    ∀ xs ys : List Json, Opposite (op.compareList xs ys) (op.complement.compareList xs ys)
  | x :: xs, y :: ys => by
      rw [Order.compareList, Order.compareList]
      split
      · exact op.opposite_compareList xs ys
      · exact op.opposite_compare x y
  | [], ys => by
      rw [Order.compareList, Order.compareList]
      exact op.opposite_holds _ _
  | x :: xs, [] => by
      rw [Order.compareList, Order.compareList]
      exact op.opposite_holds _ _

end

theorem Operator.opposite_apply (op : Operator) (a b : Json) :
    Opposite (op.apply a b) (op.complement.apply a b) := by
  cases op with
  | order op => exact op.opposite_compare a b
  | eq => exact .result _
  | ne =>
      show Opposite (.ok (!pyEq a b)) (.ok (pyEq a b))
      have h := Opposite.result (!pyEq a b)
      rwa [Bool.not_not] at h
  | isIn =>
      show Opposite (pyIn a b) ((pyIn a b).map (!·))
      cases pyIn a b with
      | error exc => exact .raised _ _
      | ok found => exact .result _
  | notIn =>
      show Opposite ((pyIn a b).map (!·)) (pyIn a b)
      cases pyIn a b with
      | error exc => exact .raised _ _
      | ok found =>
          have h := Opposite.result (!found)
          rwa [Bool.not_not] at h

/-! ## 3. Conditions -/

/-- The config with the other operator of the pair. -/
def negateOperator (op : Operator) (config : Dict) : Dict :=
  dictSet "operator" (.str op.complement.name) config

/-- The config with its two branches swapped. -/
def swapBranches (config branches : Dict) (whenTrue whenFalse : Json) : Dict :=
  dictSet "branches" (.obj (dictSet "true" whenFalse (dictSet "false" whenTrue branches))) config

theorem Dict.item_of_lookup {d : Dict} {key : String} {value : Json}
    (h : d.lookup key = some value) : d.item key = .ok value := by
  rw [Dict.item, h]

theorem Dict.item_dictSet (d : Dict) (key : String) (value : Json) {k : String} (hk : k ≠ key) :
    Dict.item (dictSet key value d) k = d.item k := by
  rw [Dict.item, Dict.item, lookup_dictSet, if_neg hk]

theorem conditionResult_opposite (search : Json → Except PyExc Json) {config : Dict}
    {op : Operator} (hoperator : config.lookup "operator" = some (.str op.name)) :
    Opposite (conditionResult search config)
      (conditionResult search (negateOperator op config)) := by
  have hnegated : (negateOperator op config).item "operator" = .ok (.str op.complement.name) :=
    Dict.item_of_lookup ((lookup_dictSet _ _ _ _).trans (if_pos rfl))
  have hexpression : (negateOperator op config).item "expression" = config.item "expression" :=
    Dict.item_dictSet config _ _ (by decide)
  have hvalue : (negateOperator op config).item "value" = config.item "value" :=
    Dict.item_dictSet config _ _ (by decide)
  simp only [conditionResult, hnegated, hexpression, hvalue, Dict.item_of_lookup hoperator]
  cases config.item "expression" with
  | error exc => exact .raised _ _
  | ok expression =>
      show Opposite (search expression >>= _) (search expression >>= _)
      cases search expression with
      | error exc => exact .raised _ _
      | ok extracted =>
          show Opposite (operatorOf (.str op.name) >>= _) (operatorOf (.str _) >>= _)
          rw [operatorOf_name, operatorOf_name]
          show Opposite (config.item "value" >>= _) (config.item "value" >>= _)
          cases config.item "value" with
          | error exc => exact .raised _ _
          | ok value => exact op.opposite_apply extracted value

-- The two branches, when both keys are there.
theorem selectBranch_of_lookup (config : Dict) {branches : Dict} {whenTrue whenFalse : Json}
    (hbranches : config.lookup "branches" = some (.obj branches))
    (htrue : branches.lookup "true" = some whenTrue)
    (hfalse : branches.lookup "false" = some whenFalse) (b : Bool) :
    selectBranch config b = .ok (if b then whenTrue else whenFalse) := by
  rw [selectBranch, Dict.item_of_lookup hbranches]
  cases b with
  | true => exact Dict.item_of_lookup htrue
  | false => exact Dict.item_of_lookup hfalse

-- The branches are not looked at before the result is there.
theorem conditionResult_swapBranches (search : Json → Except PyExc Json) (config branches : Dict)
    (whenTrue whenFalse : Json) :
    conditionResult search (swapBranches config branches whenTrue whenFalse) =
      conditionResult search config := by
  simp only [conditionResult, swapBranches,
    Dict.item_dictSet config "branches" _ (by decide : "expression" ≠ "branches"),
    Dict.item_dictSet config "branches" _ (by decide : "operator" ≠ "branches"),
    Dict.item_dictSet config "branches" _ (by decide : "value" ≠ "branches")]

/-- The other operator of a pair raises on the same values and takes the opposite branch; with the
branches swapped it leads to the same step. -/
theorem evaluateCondition_complement (search : Json → Except PyExc Json) (config branches : Dict)
    (op : Operator) (whenTrue whenFalse : Json)
    (hoperator : config.lookup "operator" = some (.str op.name))
    (hbranches : config.lookup "branches" = some (.obj branches))
    (htrue : branches.lookup "true" = some whenTrue)
    (hfalse : branches.lookup "false" = some whenFalse) :
    ((∃ exc, evaluateCondition search config = .error exc) ↔
      ∃ exc, evaluateCondition search (negateOperator op config) = .error exc) ∧
    (∀ next next', evaluateCondition search config = .ok next →
      evaluateCondition search (negateOperator op config) = .ok next' →
      ∃ b, conditionResult search config = .ok b ∧
        conditionResult search (negateOperator op config) = .ok (!b) ∧
        next = (if b then whenTrue else whenFalse) ∧
        next' = if b then whenFalse else whenTrue) ∧
    ∀ next, evaluateCondition search
        (swapBranches (negateOperator op config) branches whenTrue whenFalse) = .ok next ↔
      evaluateCondition search config = .ok next := by
  have hopposite := conditionResult_opposite search hoperator
  have hselect := selectBranch_of_lookup config hbranches htrue hfalse
  have hnegated := selectBranch_of_lookup (negateOperator op config)
    ((lookup_dictSet _ _ _ _).trans ((if_neg (by decide)).trans hbranches)) htrue hfalse
  have hswapped := selectBranch_of_lookup
    (swapBranches (negateOperator op config) branches whenTrue whenFalse)
    ((lookup_dictSet _ _ _ _).trans (if_pos rfl)) ((lookup_dictSet _ _ _ _).trans (if_pos rfl))
    ((lookup_dictSet _ _ _ _).trans
      ((if_neg (by decide)).trans ((lookup_dictSet _ _ _ _).trans (if_pos rfl))))
  have hresult :=
    conditionResult_swapBranches search (negateOperator op config) branches whenTrue whenFalse
  generalize hr : conditionResult search config = r at hopposite
  generalize hr' : conditionResult search (negateOperator op config) = r' at hopposite
  rw [hr'] at hresult
  cases hopposite with
  | raised exc exc' =>
      rw [evaluateCondition_of_error hr, evaluateCondition_of_error hr',
        evaluateCondition_of_error hresult]
      refine ⟨⟨fun _ => ⟨exc', rfl⟩, fun _ => ⟨exc, rfl⟩⟩, ?_, ?_⟩
      · intro next next' h
        cases h
      · intro next
        constructor <;> intro h <;> cases h
  | result b =>
      rw [evaluateCondition_of_result hr, evaluateCondition_of_result hr',
        evaluateCondition_of_result hresult, hselect, hnegated, hswapped]
      refine ⟨?_, ?_, ?_⟩
      · constructor <;> rintro ⟨exc, h⟩ <;> cases h
      · intro next next' h h'
        cases h
        cases h'
        exact ⟨b, rfl, rfl, rfl, by cases b <;> rfl⟩
      · intro next
        cases b <;> rfl

-- `test_condition_in_operator`, and its pair `not_in`.
theorem evaluateCondition_complement_category :
    evaluateCondition (fun _ => .ok (.str "B"))
        (swapBranches
          (negateOperator .isIn [("expression", .str "category"), ("operator", .str "in"),
            ("value", .arr [.str "A", .str "B", .str "C"]),
            ("branches", .obj [("true", .str "valid"), ("false", .str "invalid")])])
          [("true", .str "valid"), ("false", .str "invalid")]
          (.str "valid") (.str "invalid")) = .ok (.str "valid") :=
  ((evaluateCondition_complement (fun _ => .ok (.str "B"))
    [("expression", .str "category"), ("operator", .str "in"),
      ("value", .arr [.str "A", .str "B", .str "C"]),
      ("branches", .obj [("true", .str "valid"), ("false", .str "invalid")])]
    [("true", .str "valid"), ("false", .str "invalid")] .isIn
    (.str "valid") (.str "invalid") rfl rfl rfl rfl).2.2 _).mpr rfl

end ConstructorPlatform
