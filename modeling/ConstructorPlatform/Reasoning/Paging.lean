import Mathlib.Data.List.Sort
import Mathlib.Order.Lattice

/-!
# Paging — reading a sorted result page by page

Every page comes from a query of its own, and a sort leaves the order of rows with equal keys open.
The pages hold every row once when no group of equal keys straddles the boundary of two pages
(`pages_perm`); a group that does can be ordered so that one row is on both pages
(`exists_swap_of_straddles`, `Pages.not_nodup`).
-/

namespace Reasoning

variable {α β ε : Type*}

/-! ## 1. Sorted results -/

section Sorted

variable [LinearOrder β] {key : α → β}

/-- The greatest key first. -/
def Descending (key : α → β) (rows : List α) : Prop := rows.Pairwise fun a b => key b ≤ key a

theorem descending_map {rows rows' : List α} (hkeys : rows'.map key = rows.map key)
    (h : Descending key rows) : Descending key rows' := by
  have hmap : (rows'.map key).Pairwise fun x y => y ≤ x := by
    rw [hkeys]
    exact List.pairwise_map.mpr h
  exact List.pairwise_map.mp hmap

/-- The rows that satisfy `p` come before the others. -/
def Upper (key : α → β) (p : α → Bool) : Prop := ∀ a b, key b ≤ key a → p b = true → p a = true

theorem filter_eq_take {rows : List α} {p : α → Bool} (hp : Upper key p)
    (h : Descending key rows) : rows.filter p = rows.take (rows.countP p) := by
  induction rows with
  | nil => rfl
  | cons a rows ih =>
      obtain ⟨hall, hrows⟩ := List.pairwise_cons.mp h
      cases hpa : p a with
      | true => rw [List.filter_cons_of_pos hpa, List.countP_cons_of_pos hpa, List.take_succ_cons,
          ih hrows]
      | false =>
          have hnone : ∀ b ∈ rows, ¬ p b = true := fun b hb hpb =>
            absurd (hp a b (hall b hb) hpb) (by rw [hpa]; decide)
          have hpa' : ¬ p a = true := by rw [hpa]; decide
          rw [List.filter_cons_of_neg hpa', List.countP_cons_of_neg hpa',
            List.countP_eq_zero.mpr hnone, List.take_zero, List.filter_eq_nil_iff.mpr hnone]

theorem upper_iff_lt_countP {rows : List α} {p : α → Bool} (hp : Upper key p)
    (h : Descending key rows) {j : Nat} {a : α} (ha : rows[j]? = some a) :
    p a = true ↔ j < rows.countP p := by
  have hsplit := filter_eq_take hp h
  have hlength := List.countP_eq_length_filter (p := p) (l := rows)
  rcases Nat.lt_or_ge j (rows.countP p) with hj | hj
  · have hmem : a ∈ rows.filter p := by
      rw [hsplit]
      exact List.mem_of_getElem? ((List.getElem?_take_of_lt hj).trans ha)
    exact iff_of_true (List.mem_filter.mp hmem).2 hj
  · refine iff_of_false (fun hpa => ?_) (Nat.not_lt.mpr hj)
    -- What is behind the rows that satisfy `p` would be one row too many.
    have hdrop : (rows.drop (rows.countP p)).filter p = [] := by
      have hparts := List.filter_append (p := p) (rows.take (rows.countP p))
        (rows.drop (rows.countP p))
      rw [List.take_append_drop, ← hsplit, List.filter_filter] at hparts
      simpa using hparts
    have hmem : a ∈ rows.drop (rows.countP p) := by
      refine List.mem_of_getElem? (i := j - rows.countP p) ?_
      rw [List.getElem?_drop, Nat.add_sub_cancel' hj, ha]
    exact List.filter_eq_nil_iff.mp hdrop a hmem hpa

/-- A group of equal keys has rows before position `i` and rows from it on. -/
def Straddles (key : α → β) (rows : List α) (i : Nat) : Prop :=
  ∃ t, rows.countP (fun a => t < key a) < i ∧ i < rows.countP (fun a => t ≤ key a)

theorem upper_lt (key : α → β) (t : β) : Upper key fun a => t < key a := fun _ _ hle hlt =>
  decide_eq_true (lt_of_lt_of_le (of_decide_eq_true hlt) hle)

theorem upper_le (key : α → β) (t : β) : Upper key fun a => t ≤ key a := fun _ _ hle hlt =>
  decide_eq_true (le_trans (of_decide_eq_true hlt) hle)

theorem Straddles.perm {rows rows' : List α} (hperm : rows.Perm rows') {i : Nat}
    (h : Straddles key rows i) : Straddles key rows' i := by
  obtain ⟨t, hbefore, hafter⟩ := h
  exact ⟨t, hperm.countP_eq _ ▸ hbefore, hperm.countP_eq _ ▸ hafter⟩

/-- Two orders of the rows agree on what comes before a boundary that no group straddles. -/
theorem take_perm_of_not_straddles {rows rows' : List α} (h : Descending key rows)
    (h' : Descending key rows') (hperm : rows.Perm rows') {i : Nat}
    (hboundary : ¬ Straddles key rows i) : (rows.take i).Perm (rows'.take i) := by
  rcases Nat.lt_or_ge i rows.length with hi | hi
  · have ha := List.getElem?_eq_getElem hi
    have hbefore : rows.countP (fun b => key rows[i] < key b) = i := by
      refine Nat.le_antisymm (Nat.not_lt.mp fun hlt => ?_) (Nat.not_lt.mp fun hlt => ?_)
      · have := (upper_iff_lt_countP (upper_lt key _) h ha).mpr hlt
        exact absurd (of_decide_eq_true this) (lt_irrefl _)
      · exact hboundary ⟨key rows[i], hlt,
          (upper_iff_lt_countP (upper_le key _) h ha).mp (decide_eq_true le_rfl)⟩
    have hbefore' : rows'.countP (fun b => key rows[i] < key b) = i :=
      (hperm.countP_eq _).symm.trans hbefore
    have htake := filter_eq_take (upper_lt key (key rows[i])) h
    have htake' := filter_eq_take (upper_lt key (key rows[i])) h'
    rw [hbefore] at htake
    rw [hbefore'] at htake'
    rw [← htake, ← htake']
    exact hperm.filter _
  · rw [List.take_of_length_le hi, List.take_of_length_le (hperm.length_eq ▸ hi)]
    exact hperm

/-- At a boundary that a group straddles two rows can be exchanged. -/
theorem exists_swap_of_straddles {rows : List α} (h : Descending key rows) {i : Nat}
    (hboundary : Straddles key rows i) :
    ∃ before a b after, rows = before ++ a :: b :: after ∧ before.length + 1 = i ∧
      Descending key (before ++ b :: a :: after) := by
  obtain ⟨t, hbefore, hafter⟩ := hboundary
  have hlt : i < rows.length := Nat.lt_of_lt_of_le hafter List.countP_le_length
  obtain ⟨j, rfl⟩ : ∃ j, i = j + 1 := ⟨i - 1, by omega⟩
  have hkey : ∀ k (hk : k < rows.length), j ≤ k → k ≤ j + 1 → key rows[k] = t := by
    intro k hk hjk hkj
    have ha := List.getElem?_eq_getElem hk
    have hle : t ≤ key rows[k] := of_decide_eq_true
      ((upper_iff_lt_countP (upper_le key t) h ha).mpr (by omega))
    have hnot : ¬ t < key rows[k] := fun hlt' => by
      have := (upper_iff_lt_countP (upper_lt key t) h ha).mp (decide_eq_true hlt')
      omega
    exact le_antisymm (not_lt.mp hnot) hle
  have hrows : rows = rows.take j ++ rows[j] :: rows[j + 1] :: rows.drop (j + 2) := by
    rw [List.getElem_cons_drop, List.getElem_cons_drop, List.take_append_drop]
  refine ⟨rows.take j, rows[j], rows[j + 1], rows.drop (j + 2), hrows, ?_, ?_⟩
  · rw [List.length_take, Nat.min_eq_left (by omega)]
  · refine descending_map ?_ h
    conv_rhs => rw [hrows]
    simp only [List.map_append, List.map_cons, hkey j (by omega) (Nat.le_refl j) (by omega),
      hkey (j + 1) hlt (by omega) (Nat.le_refl (j + 1))]

end Sorted

/-! ## 2. Pages -/

/-- The rows of the pages from page `k` on, up to an empty page. -/
inductive Pages (query : Nat → Except ε (List α)) : Nat → List α → Prop
  | stop {k : Nat} (h : query k = .ok []) : Pages query k []
  | page {k : Nat} {rows rest : List α} (h : query k = .ok rows) (hne : rows ≠ [])
      (hrest : Pages query (k + 1) rest) : Pages query k (rows ++ rest)

/-- Page `k` of the rows. -/
def page (limit k : Nat) (rows : List α) : List α := (rows.drop (k * limit)).take limit

theorem page_length (limit k : Nat) (rows : List α) :
    (page limit k rows).length = min limit (rows.length - k * limit) := by
  rw [page, List.length_take, List.length_drop]

theorem take_succ_mul (limit k : Nat) (rows : List α) :
    rows.take ((k + 1) * limit) = rows.take (k * limit) ++ page limit k rows := by
  rw [Nat.succ_mul, List.take_add, page]

theorem drop_mul (limit k : Nat) (rows : List α) :
    rows.drop (k * limit) = page limit k rows ++ rows.drop ((k + 1) * limit) := by
  rw [page, Nat.succ_mul, ← List.drop_drop, List.take_append_drop]

theorem mem_page {limit k i : Nat} {rows : List α} {a : α} (ha : rows[i]? = some a)
    (hle : k * limit ≤ i) (hlt : i < k * limit + limit) : a ∈ page limit k rows := by
  refine List.mem_of_getElem? (i := i - k * limit) ?_
  rw [page, List.getElem?_take_of_lt (by omega), List.getElem?_drop, Nat.add_sub_cancel' hle, ha]

/-- Some reading of the pages gets to page `k`. -/
def Asked (limit total k : Nat) : Prop := k = 0 ∨ (k - 1) * limit < total

variable {query : Nat → Except ε (List α)} {limit : Nat}

/-- The pages hold every row once when all orders agree on what comes before each boundary. -/
theorem pages_perm (hlimit : 0 < limit) {rows : List α} {order : Nat → List α}
    (hperm : ∀ k, (order k).Perm rows)
    (htake : ∀ k j, ((order k).take (j * limit)).Perm (rows.take (j * limit)))
    (hquery : ∀ k, Asked limit rows.length k → query k = .ok (page limit k (order k))) :
    ∃ all, Pages query 0 all ∧ all.Perm rows := by
  have hpage : ∀ k, (page limit k (order k)).Perm (page limit k rows) := by
    intro k
    have hnext := htake k (k + 1)
    rw [take_succ_mul, take_succ_mul] at hnext
    exact (List.perm_append_left_iff _).mp (((htake k k).symm.append_right _).trans hnext)
  have hlength : ∀ k, (page limit k (order k)).length = min limit (rows.length - k * limit) :=
    fun k => by rw [page_length, (hperm k).length_eq]
  have hend : ∀ k, rows.length ≤ k * limit → Asked limit rows.length k →
      ∃ all, Pages query k all ∧ all.Perm (rows.drop (k * limit)) := by
    intro k hk hasked
    have hempty : page limit k (order k) = [] := by
      rw [← List.length_eq_zero_iff, hlength]
      omega
    rw [List.drop_eq_nil_of_le hk]
    exact ⟨[], .stop (hempty ▸ hquery k hasked), .refl _⟩
  -- The induction is on the rows that are left.
  have hrest : ∀ n k, rows.length ≤ k * limit + n → Asked limit rows.length k →
      ∃ all, Pages query k all ∧ all.Perm (rows.drop (k * limit)) := by
    intro n
    induction n with
    | zero => exact fun k hk hasked => hend k hk hasked
    | succ n ih =>
        intro k hk hasked
        rcases Nat.lt_or_ge (k * limit) rows.length with hlt | hge
        · have hne : page limit k (order k) ≠ [] := by
            rw [← List.length_pos_iff, hlength]
            omega
          obtain ⟨all, hall, hallPerm⟩ := ih (k + 1) (by rw [Nat.succ_mul]; omega) (.inr hlt)
          refine ⟨_, .page (hquery k hasked) hne hall, ?_⟩
          rw [drop_mul]
          exact (hpage k).append hallPerm
        · exact hend k hge hasked
  simpa using hrest rows.length 0 (by omega) (.inl rfl)

section Read

variable {total k : Nat} {all : List α}

-- A page that is read and empty is past the end.
theorem le_of_empty_page (hlimit : 0 < limit)
    (hlength : ∀ k rows, query k = .ok rows → rows.length = min limit (total - k * limit))
    (h : query k = .ok []) : total ≤ k * limit := by
  have := hlength k [] h
  rw [List.length_nil] at this
  omega

/-- Every page that is asked for is answered. -/
theorem Pages.answered (hlimit : 0 < limit)
    (hlength : ∀ k rows, query k = .ok rows → rows.length = min limit (total - k * limit))
    (h : Pages query k all) :
    ∀ j, k ≤ j → j = k ∨ (j - 1) * limit < total → ∃ rows, query j = .ok rows := by
  induction h with
  | @stop k hk =>
      intro j hj hasked
      rcases hasked with rfl | hasked
      · exact ⟨_, hk⟩
      · by_cases hjk : j = k
        · exact ⟨_, hjk ▸ hk⟩
        · have hend := le_of_empty_page hlimit hlength hk
          have hle : k * limit ≤ (j - 1) * limit := Nat.mul_le_mul_right _ (by omega)
          omega
  | @page k rows rest hk _ _ ih =>
      intro j hj hasked
      by_cases hjk : j = k
      · exact ⟨_, hjk ▸ hk⟩
      · exact ih j (by omega) (.inr (hasked.resolve_left hjk))

/-- A row on two pages in succession is read twice. -/
theorem Pages.not_nodup (hlimit : 0 < limit)
    (hlength : ∀ k rows, query k = .ok rows → rows.length = min limit (total - k * limit))
    (h : Pages query k all) {i : Nat} (hi : k ≤ i) {p q : List α} (hp : query i = .ok p)
    (hq : query (i + 1) = .ok q) {a : α} (ha : a ∈ p) (ha' : a ∈ q) : ¬ all.Nodup := by
  induction h with
  | @stop k hk =>
      have hend := le_of_empty_page hlimit hlength hk
      have hle : k * limit ≤ i * limit := Nat.mul_le_mul_right _ hi
      have hnil := hlength i p hp
      rw [show min limit (total - i * limit) = 0 by omega, List.length_eq_zero_iff] at hnil
      rw [hnil] at ha
      cases ha
  | @page k rows rest hk _ hrest ih =>
      intro hnodup
      obtain ⟨-, hrestNodup, hdisjoint⟩ := List.nodup_append.mp hnodup
      by_cases hik : i = k
      · subst hik
        obtain rfl := Except.ok.inj (hk.symm.trans hp)
        have hmem : a ∈ rest := by
          cases hrest with
          | stop hnil =>
              obtain rfl := Except.ok.inj (hnil.symm.trans hq)
              cases ha'
          | page hpage =>
              obtain rfl := Except.ok.inj (hpage.symm.trans hq)
              exact List.mem_append_left _ ha'
        exact hdisjoint a ha a hmem rfl
      · exact ih (by omega) hrestNodup

end Read

end Reasoning
