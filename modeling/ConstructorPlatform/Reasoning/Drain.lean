import Mathlib.Data.List.Nodup
import Mathlib.Data.List.Perm.Subperm

/-!
# Drain — batches that an escaping element cuts short

A loop handles the elements of a batch in order; an element whose handling escapes is the last one
handled of its batch.  `handledOnce_iff` says when a run over many batches handles every element
exactly once.
-/

namespace Reasoning

variable {α : Type*} (escapes : α → Bool)

/-- The elements handled of one batch. -/
def untilEscape : List α → List α
  | [] => []
  | a :: rest => if escapes a then [a] else a :: untilEscape rest

theorem untilEscape_sublist (batch : List α) : (untilEscape escapes batch).Sublist batch := by
  induction batch with
  | nil => exact .slnil
  | cons a rest ih =>
      rw [untilEscape]
      split
      · exact List.singleton_sublist.mpr List.mem_cons_self
      · exact ih.cons_cons a

variable {escapes}

-- A list that nothing escapes from is handled to its end, and the next one after it.
theorem untilEscape_append {xs ys : List α} (h : xs.any escapes = false) :
    untilEscape escapes (xs ++ ys) = untilEscape escapes xs ++ untilEscape escapes ys := by
  induction xs with
  | nil => rfl
  | cons a rest ih =>
      rw [List.any_cons, Bool.or_eq_false_iff] at h
      simp only [List.cons_append, untilEscape, h.1, Bool.false_eq_true, if_false, ih h.2]

theorem untilEscape_append_of_any {xs ys : List α} (h : xs.any escapes = true) :
    untilEscape escapes (xs ++ ys) = untilEscape escapes xs := by
  induction xs with
  | nil => cases h
  | cons a rest ih =>
      rw [List.cons_append, untilEscape, untilEscape]
      cases ha : escapes a with
      | true => rfl
      | false =>
          rw [List.any_cons, ha, Bool.false_or] at h
          simp only [Bool.false_eq_true, if_false, ih h]

-- A batch is handled to its end exactly when at most its last element escapes.
theorem untilEscape_eq_self_iff (batch : List α) :
    untilEscape escapes batch = batch ↔ ∀ a ∈ batch.dropLast, escapes a = false := by
  induction batch with
  | nil => simp [untilEscape]
  | cons a rest ih =>
      rw [untilEscape]
      cases rest with
      | nil => simp [untilEscape]
      | cons b rest =>
          rw [List.dropLast_cons_cons, List.forall_mem_cons, ← ih]
          cases escapes a <;> simp

/-- The elements handled over a run. -/
def drain (escapes : α → Bool) (batches : List (List α)) : List α :=
  batches.flatMap (untilEscape escapes)

theorem drain_sublist (escapes : α → Bool) (batches : List (List α)) :
    (drain escapes batches).Sublist batches.flatten := by
  induction batches with
  | nil => exact .slnil
  | cons batch rest ih => exact (untilEscape_sublist escapes batch).append ih

theorem drain_eq_iff (batches : List (List α)) :
    drain escapes batches = batches.flatten ↔
      ∀ batch ∈ batches, ∀ a ∈ batch.dropLast, escapes a = false := by
  induction batches with
  | nil => simp [drain]
  | cons batch rest ih =>
      rw [List.forall_mem_cons, ← ih, ← untilEscape_eq_self_iff]
      show untilEscape escapes batch ++ drain escapes rest = batch ++ rest.flatten ↔ _
      constructor
      · intro h
        have hfirst := (untilEscape_sublist escapes batch).length_le
        have hrest := (drain_sublist escapes rest).length_le
        have hlength := congrArg List.length h
        rw [List.length_append, List.length_append] at hlength
        exact List.append_inj h (by omega)
      · rintro ⟨hfirst, hrest⟩
        rw [hfirst, hrest]

/-- Elements with distinct keys are handled exactly once each exactly when no batch is cut short. -/
theorem handledOnce_iff {κ : Type*} [DecidableEq κ] (key : α → κ) (batches : List (List α))
    (hkeys : (batches.flatten.map key).Nodup) :
    (∀ a ∈ batches.flatten, ((drain escapes batches).map key).count (key a) = 1) ↔
      ∀ batch ∈ batches, ∀ a ∈ batch.dropLast, escapes a = false := by
  rw [← drain_eq_iff]
  have hsub := (drain_sublist escapes batches).map key
  constructor
  · intro honce
    have hmem : batches.flatten.map key ⊆ (drain escapes batches).map key := by
      intro k hk
      obtain ⟨a, ha, rfl⟩ := List.mem_map.mp hk
      exact List.count_pos_iff.mp (by rw [honce a ha]; exact Nat.zero_lt_one)
    have hlength := (List.subperm_of_subset hkeys hmem).length_le
    rw [List.length_map, List.length_map] at hlength
    exact (drain_sublist escapes batches).eq_of_length_le hlength
  · intro heq a ha
    rw [heq]
    exact List.count_eq_one_of_mem hkeys (List.mem_map_of_mem ha)

end Reasoning
