import Mathlib.Data.List.Nodup
import ConstructorPlatform.Value

/-!
# Validator — `src/workflows/validator.py` and `src/workflows/schemas.py`

A process definition is a list of steps.  `validate_steps` reads it twice: the first pass checks
each step on its own and collects the ids, the second pass runs only when the first found nothing
and checks the string `next` references against the collected ids.  `validateSteps_eq_nil_iff`
says what an empty error list means.
-/

namespace ConstructorPlatform

/-! ## 1. Steps -/

/-- The field `next: str | dict | None` of `StepSchema`. -/
inductive Next where
  | none
  | id (ref : String)
  | dict (d : Dict)
  deriving Repr

/-- The value that `step.get("next")` hands to the executor. -/
def Next.toJson : Next → Json
  | .none => .null
  | .id ref => .str ref
  | .dict d => .obj d

structure StepSchema where
  id : String
  type : String
  config : Dict
  next : Next
  timeoutSeconds : Int
  deriving Repr

/-- `VALID_STEP_TYPES`. -/
def validStepTypes : List String :=
  ["agent", "condition", "transform", "notify", "wait", "human_approval"]

/-- `sorted(VALID_STEP_TYPES)` as the error message prints it. -/
def sortedStepTypes : String :=
  "['agent', 'condition', 'human_approval', 'notify', 'transform', 'wait']"

/-! ## 2. `validate_steps` -/

inductive StepError where
  | empty
  | invalidType (i : Nat) (type : String)
  | idRequired (i : Nat)
  | duplicateId (i : Nat) (id : String)
  | timeoutNotPositive (i : Nat)
  | unknownNext (i : Nat) (ref : String)
  deriving DecidableEq, Repr

/-- The text that `validate_steps` appends to its result. -/
def StepError.message : StepError → String
  | .empty => "Process must have at least one step"
  | .invalidType i type => "Step " ++ toString i ++ ": invalid type '" ++ type ++
      "'. Must be one of " ++ sortedStepTypes
  | .idRequired i => "Step " ++ toString i ++ ": 'id' is required"
  | .duplicateId i id => "Step " ++ toString i ++ ": duplicate id '" ++ id ++ "'"
  | .timeoutNotPositive i => "Step " ++ toString i ++ ": timeout_seconds must be positive"
  | .unknownNext i ref => "Step " ++ toString i ++ ": 'next' references unknown step id '" ++
      ref ++ "'"

def typeErrors (i : Nat) (s : StepSchema) : List StepError :=
  if s.type ∈ validStepTypes then [] else [.invalidType i s.type]

def idErrors (i : Nat) (seen : List String) (s : StepSchema) : List StepError :=
  if s.id = "" then [.idRequired i]
  else if s.id ∈ seen then [.duplicateId i s.id]
  else []

def timeoutErrors (i : Nat) (s : StepSchema) : List StepError :=
  if s.timeoutSeconds ≤ 0 then [.timeoutNotPositive i] else []

/-- `seen_ids` after the step: an empty or repeated id is not added. -/
def addSeen (seen : List String) (s : StepSchema) : List String :=
  if s.id = "" then seen else if s.id ∈ seen then seen else seen ++ [s.id]

/-- The first loop: the ids seen and the errors, from position `i` on. -/
def checkSteps (i : Nat) (seen : List String) :
    List StepSchema → List String × List StepError
  | [] => (seen, [])
  | s :: rest =>
      let (seen', errors) := checkSteps (i + 1) (addSeen seen s) rest
      (seen', typeErrors i s ++ idErrors i seen s ++ timeoutErrors i s ++ errors)

/-- The second loop; only a string is looked up. -/
def checkNext (i : Nat) (seen : List String) : List StepSchema → List StepError
  | [] => []
  | s :: rest =>
      (match s.next with
        | .id ref => if ref ∈ seen then [] else [.unknownNext i ref]
        | _ => []) ++ checkNext (i + 1) seen rest

/-- `validate_steps`; an empty list of errors means that the steps are accepted. -/
def validateSteps (steps : List StepSchema) : List StepError :=
  if steps = [] then [.empty]
  else
    let (seen, errors) := checkSteps 0 [] steps
    if errors = [] then checkNext 0 seen steps else errors

/-! ## 3. What acceptance means -/

def stepIds (steps : List StepSchema) : List String := steps.map StepSchema.id

@[simp] theorem stepIds_cons (s : StepSchema) (rest : List StepSchema) :
    stepIds (s :: rest) = s.id :: stepIds rest := rfl

/-- The conditions that a step list accepted by `validate_steps` meets. -/
structure Accepted (steps : List StepSchema) : Prop where
  nonempty : steps ≠ []
  types : ∀ s ∈ steps, s.type ∈ validStepTypes
  ids : ∀ s ∈ steps, s.id ≠ ""
  nodup : (stepIds steps).Nodup
  timeouts : ∀ s ∈ steps, 0 < s.timeoutSeconds
  next : ∀ s ∈ steps, ∀ ref, s.next = .id ref → ref ∈ stepIds steps

theorem typeErrors_eq_nil {i : Nat} {s : StepSchema} :
    typeErrors i s = [] ↔ s.type ∈ validStepTypes := by
  unfold typeErrors
  split <;> simp_all

theorem idErrors_eq_nil {i : Nat} {seen : List String} {s : StepSchema} :
    idErrors i seen s = [] ↔ s.id ≠ "" ∧ s.id ∉ seen := by
  unfold idErrors
  split
  · simp_all
  · split <;> simp_all

theorem timeoutErrors_eq_nil {i : Nat} {s : StepSchema} :
    timeoutErrors i s = [] ↔ 0 < s.timeoutSeconds := by
  unfold timeoutErrors
  split
  · rename_i h
    simp only [reduceCtorEq, false_iff]
    omega
  · rename_i h
    simp only [true_iff]
    omega

theorem addSeen_of_new {seen : List String} {s : StepSchema} (hne : s.id ≠ "")
    (hnew : s.id ∉ seen) : addSeen seen s = seen ++ [s.id] := by
  unfold addSeen
  rw [if_neg hne, if_neg hnew]

-- The loop invariant of the first pass: no error so far means that the ids are new and `seen`
-- has grown by exactly them.
theorem checkSteps_eq_nil_iff (steps : List StepSchema) (i : Nat) (seen : List String) :
    (checkSteps i seen steps).2 = [] ↔
      (∀ s ∈ steps, s.type ∈ validStepTypes ∧ s.id ≠ "" ∧ 0 < s.timeoutSeconds) ∧
      (stepIds steps).Nodup ∧ ∀ s ∈ steps, s.id ∉ seen := by
  induction steps generalizing i seen with
  | nil => simp [checkSteps, stepIds]
  | cons s rest ih =>
      simp only [checkSteps, List.append_eq_nil_iff, typeErrors_eq_nil, idErrors_eq_nil,
        timeoutErrors_eq_nil, ih]
      constructor
      · rintro ⟨⟨⟨htype, hne, hnew⟩, htime⟩, hall, hnodup, hseen⟩
        rw [addSeen_of_new hne hnew] at hseen
        have hrest : ∀ t ∈ rest, t.id ∉ seen ∧ t.id ≠ s.id := by
          intro t ht
          have h := hseen t ht
          simp only [List.mem_append, List.mem_singleton, not_or] at h
          exact h
        refine ⟨?_, ?_, ?_⟩
        · intro t ht
          rcases List.mem_cons.mp ht with rfl | ht
          · exact ⟨htype, hne, htime⟩
          · exact hall t ht
        · rw [stepIds_cons, List.nodup_cons]
          refine ⟨?_, hnodup⟩
          intro hmem
          obtain ⟨t, ht, heq⟩ := List.mem_map.mp hmem
          exact (hrest t ht).2 heq
        · intro t ht
          rcases List.mem_cons.mp ht with rfl | ht
          · exact hnew
          · exact (hrest t ht).1
      · rintro ⟨hall, hnodup, hseen⟩
        have hs := hall s List.mem_cons_self
        have hnew := hseen s List.mem_cons_self
        rw [stepIds_cons, List.nodup_cons] at hnodup
        refine ⟨⟨⟨hs.1, hs.2.1, hnew⟩, hs.2.2⟩, fun t ht => hall t (List.mem_cons_of_mem s ht),
          hnodup.2, ?_⟩
        intro t ht
        rw [addSeen_of_new hs.2.1 hnew, List.mem_append, List.mem_singleton, not_or]
        refine ⟨hseen t (List.mem_cons_of_mem s ht), ?_⟩
        intro heq
        exact hnodup.1 (heq ▸ List.mem_map_of_mem ht)

theorem checkSteps_seen (steps : List StepSchema) (i : Nat) (seen : List String)
    (h : (checkSteps i seen steps).2 = []) :
    (checkSteps i seen steps).1 = seen ++ stepIds steps := by
  induction steps generalizing i seen with
  | nil => simp [checkSteps, stepIds]
  | cons s rest ih =>
      simp only [checkSteps, List.append_eq_nil_iff, idErrors_eq_nil] at h ⊢
      obtain ⟨⟨⟨-, hne, hnew⟩, -⟩, hrest⟩ := h
      rw [ih _ _ hrest, addSeen_of_new hne hnew, stepIds_cons, List.append_assoc,
        List.singleton_append]

theorem checkNext_eq_nil_iff (steps : List StepSchema) (i : Nat) (seen : List String) :
    checkNext i seen steps = [] ↔ ∀ s ∈ steps, ∀ ref, s.next = .id ref → ref ∈ seen := by
  induction steps generalizing i with
  | nil => simp [checkNext]
  | cons s rest ih =>
      simp only [checkNext, List.append_eq_nil_iff, ih, List.forall_mem_cons]
      refine and_congr ?_ Iff.rfl
      cases s.next with
      | none => simp
      | dict d => simp
      | id ref =>
          simp only [Next.id.injEq, forall_eq']
          split <;> simp_all

/-- `validate_steps` returns no error exactly for the step lists that meet `Accepted`. -/
theorem validateSteps_eq_nil_iff (steps : List StepSchema) :
    validateSteps steps = [] ↔ Accepted steps := by
  unfold validateSteps
  by_cases hempty : steps = []
  · rw [if_pos hempty]
    simp only [reduceCtorEq, false_iff]
    exact fun h => h.nonempty hempty
  rw [if_neg hempty]
  by_cases herr : (checkSteps 0 [] steps).2 = []
  · simp only [herr, if_true, checkNext_eq_nil_iff, checkSteps_seen steps 0 [] herr,
      List.nil_append]
    have hall := (checkSteps_eq_nil_iff steps 0 []).mp herr
    constructor
    · intro hnext
      exact ⟨hempty, fun s hs => (hall.1 s hs).1, fun s hs => (hall.1 s hs).2.1, hall.2.1,
        fun s hs => (hall.1 s hs).2.2, hnext⟩
    · exact fun h => h.next
  · simp only [herr, if_false, false_iff]
    intro h
    apply herr
    rw [checkSteps_eq_nil_iff]
    exact ⟨fun s hs => ⟨h.types s hs, h.ids s hs, h.timeouts s hs⟩, h.nodup,
      fun _ _ => List.not_mem_nil⟩

/-! ## 4. Which errors are reported -/

theorem mem_addSeen {seen : List String} {s : StepSchema} {id : String} :
    id ∈ addSeen seen s ↔ id ∈ seen ∨ id = s.id ∧ id ≠ "" := by
  unfold addSeen
  split
  · rename_i hempty
    rw [hempty]
    tauto
  · rename_i hne
    split
    · rename_i hseen
      exact ⟨.inl, fun h => h.elim (fun hmem => hmem) fun hid => hid.1 ▸ hseen⟩
    · rw [List.mem_append, List.mem_singleton]
      exact or_congr_right ⟨fun hid => ⟨hid, hid ▸ hne⟩, And.left⟩

theorem duplicateId_mem_idErrors {i k : Nat} {seen : List String} {s : StepSchema} {id : String} :
    .duplicateId k id ∈ idErrors i seen s ↔ k = i ∧ id = s.id ∧ id ≠ "" ∧ id ∈ seen := by
  unfold idErrors
  split
  · simp_all
  · split <;> simp <;> grind

-- The loop invariant of the first pass: `seen` holds the ids before that are not empty.
theorem duplicateId_mem_checkSteps (steps : List StepSchema) (i : Nat) (seen : List String)
    (k : Nat) (id : String) :
    .duplicateId k id ∈ (checkSteps i seen steps).2 ↔
      id ≠ "" ∧ ∃ j, k = i + j ∧ (stepIds steps)[j]? = some id ∧
        (id ∈ seen ∨ id ∈ (stepIds steps).take j) := by
  induction steps generalizing i seen with
  | nil => simp [checkSteps, stepIds]
  | cons s rest ih =>
      have htype : .duplicateId k id ∉ typeErrors i s := by unfold typeErrors; split <;> simp
      have htime : .duplicateId k id ∉ timeoutErrors i s := by unfold timeoutErrors; split <;> simp
      simp only [checkSteps, List.mem_append, htype, htime, duplicateId_mem_idErrors, ih,
        mem_addSeen, stepIds_cons, false_or, or_false]
      constructor
      · rintro (⟨rfl, rfl, hne, hseen⟩ | ⟨hne, j, rfl, hj, hbefore⟩)
        · exact ⟨hne, 0, rfl, rfl, .inl hseen⟩
        · refine ⟨hne, j + 1, by omega, hj, ?_⟩
          rw [List.take_succ_cons, List.mem_cons]
          tauto
      · rintro ⟨hne, j, rfl, hj, hbefore⟩
        cases j with
        | zero =>
            cases hj
            exact .inl ⟨rfl, rfl, hne, by simpa using hbefore⟩
        | succ j =>
            rw [List.take_succ_cons, List.mem_cons] at hbefore
            exact .inr ⟨hne, j, by omega, hj, by tauto⟩

theorem unknownNext_not_mem_checkSteps (steps : List StepSchema) (i : Nat) (seen : List String)
    (k : Nat) (ref : String) : .unknownNext k ref ∉ (checkSteps i seen steps).2 := by
  induction steps generalizing i seen with
  | nil => exact List.not_mem_nil
  | cons s rest ih =>
      simp only [checkSteps, List.mem_append, typeErrors, idErrors, timeoutErrors, ih, or_false]
      grind

theorem mem_checkNext {steps : List StepSchema} {i : Nat} {seen : List String} {e : StepError}
    (h : e ∈ checkNext i seen steps) : ∃ k ref, e = .unknownNext k ref := by
  induction steps generalizing i with
  | nil => cases h
  | cons s rest ih =>
      rcases List.mem_append.mp h with h | h
      · split at h
        · split at h
          · cases h
          · exact ⟨_, _, List.mem_singleton.mp h⟩
        · cases h
      · exact ih h

/-- What `validate_steps` accepts, when it reports a repeated id, and that an unknown reference is
reported only next to other unknown references. -/
theorem validateSteps_grammar (steps : List StepSchema) :
    (validateSteps steps = [] ↔ Accepted steps) ∧
    (∀ i id, .duplicateId i id ∈ validateSteps steps ↔
      id ≠ "" ∧ (stepIds steps)[i]? = some id ∧ ∃ j < i, (stepIds steps)[j]? = some id) ∧
    ∀ i ref, .unknownNext i ref ∈ validateSteps steps →
      ∀ e ∈ validateSteps steps, ∃ k ref', e = .unknownNext k ref' := by
  refine ⟨validateSteps_eq_nil_iff steps, fun i id => ?_, fun i ref hunknown => ?_⟩
  · -- The first pass reports the repeated ids, whatever it returns besides.
    have hpass : .duplicateId i id ∈ (checkSteps 0 [] steps).2 ↔
        id ≠ "" ∧ (stepIds steps)[i]? = some id ∧ ∃ j < i, (stepIds steps)[j]? = some id := by
      rw [duplicateId_mem_checkSteps]
      refine and_congr_right fun _ => ?_
      simp only [Nat.zero_add, exists_eq_left', List.not_mem_nil, false_or,
        List.mem_take_iff_getElem, List.getElem?_eq_some_iff]
      grind
    rw [← hpass]
    unfold validateSteps
    by_cases hempty : steps = []
    · subst hempty
      simp [checkSteps]
    · rw [if_neg hempty]
      by_cases herrors : (checkSteps 0 [] steps).2 = []
      · simp only [herrors, if_true]
        refine iff_of_false (fun h => ?_) List.not_mem_nil
        obtain ⟨k, ref, he⟩ := mem_checkNext h
        cases he
      · simp only [herrors, if_false]
  · unfold validateSteps at hunknown ⊢
    by_cases hempty : steps = []
    · rw [if_pos hempty] at hunknown
      cases List.mem_singleton.mp hunknown
    · rw [if_neg hempty] at hunknown ⊢
      by_cases herrors : (checkSteps 0 [] steps).2 = []
      · simp only [herrors, if_true] at hunknown ⊢
        exact fun e he => mem_checkNext he
      · simp only [herrors, if_false] at hunknown
        exact absurd hunknown (unknownNext_not_mem_checkSteps _ _ _ _ _)

/-! ## 5. Process definitions -/

/-- The steps of a stored `ProcessDefinition`: `ProcessDefinitionCreate` lets no other through. -/
structure ProcessDefinition where
  steps : List StepSchema
  accepted : validateSteps steps = []

theorem ProcessDefinition.spec (definition : ProcessDefinition) : Accepted definition.steps :=
  (validateSteps_eq_nil_iff _).mp definition.accepted

end ConstructorPlatform
