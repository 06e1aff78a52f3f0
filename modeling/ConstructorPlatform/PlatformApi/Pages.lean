import ConstructorPlatform.PlatformApi.Reads
import ConstructorPlatform.Reasoning.Paging

/-!
# Pages — `list_executions` page by page

`list_executions` sorts by `created_at` alone, so the database may return executions of the same
time in any order, and in another one for the next page.  The pages hold every execution once when
none of these groups is cut by the end of a page, and only then: `pagesPartition_iff`.
-/

namespace ConstructorPlatform

open Reasoning

/-! ## 1. The pages -/

/-- The query for page `k`, which finds the rows of the table in the order `order k`. -/
def pageQuery (encodes : Int → Bool) (db : Database) (status : Option String)
    (definitionId : Option UUID) (limit : Int) (order : Nat → List ExecutionRow) (k : Nat) :
    Except HttpError (List ExecutionRow) :=
  listExecutions encodes { db with executions := order k } status definitionId limit (k * limit)

/-- Whatever orders the queries find, the pages up to an empty one hold every matching execution
exactly once. -/
def PagesPartition (encodes : Int → Bool) (db : Database) (status : Option String)
    (definitionId : Option UUID) (limit : Int) : Prop :=
  ∀ order : Nat → List ExecutionRow, (∀ k, (order k).Perm db.executions) →
    ∃ all, Pages (pageQuery encodes db status definitionId limit order) 0 all ∧
      all.Perm (filterExecutions status definitionId db.executions)

/-- The driver can send what the queries ask for, and no group of executions of the same time is cut
by the end of a page. -/
structure Pageable (encodes : Int → Bool) (db : Database) (status : Option String)
    (definitionId : Option UUID) (limit : Int) : Prop where
  sendsStatus : Char.ofNat 0 ∉ (status.getD "").toList
  sendsLimit : encodes limit = true
  sendsOffset : ∀ k : Nat, Asked limit.toNat
    (filterExecutions status definitionId db.executions).length k → encodes (k * limit) = true
  uncut : ∀ k : Nat, ¬ Straddles ExecutionRow.createdAt
    (filterExecutions status definitionId db.executions) (k * limit.toNat)

section Query

variable {encodes : Int → Bool} {db : Database} {status : Option String}
  {definitionId : Option UUID} {limit : Int} {order : Nat → List ExecutionRow}

/-- The two `where` clauses. -/
def selects (status : Option String) (definitionId : Option UUID) (e : ExecutionRow) : Bool :=
  decide ((status.getD "" = "" ∨ e.status.val = status.getD "") ∧
    ∀ d, definitionId = some d → e.processDefinitionId = d)

theorem filterExecutions_eq (status : Option String) (definitionId : Option UUID)
    (rows : List ExecutionRow) :
    filterExecutions status definitionId rows = rows.filter (selects status definitionId) := by
  unfold filterExecutions selects
  cases status with
  | none => cases definitionId <;> simp
  | some status =>
      by_cases hempty : status = ""
      · cases definitionId <;> simp [hempty]
      · cases definitionId <;> simp [hempty, List.filter_filter, and_comm]

theorem newestFirst_perm (rows : List ExecutionRow) :
    (newestFirst ExecutionRow.createdAt rows).Perm rows := List.perm_insertionSort _ rows

theorem newestFirst_descending (rows : List ExecutionRow) :
    Descending ExecutionRow.createdAt (newestFirst ExecutionRow.createdAt rows) := by
  have htotal : Std.Total fun a b : ExecutionRow => b.createdAt ≤ a.createdAt :=
    ⟨fun a b => Nat.le_total b.createdAt a.createdAt⟩
  have htrans : IsTrans ExecutionRow fun a b => b.createdAt ≤ a.createdAt :=
    ⟨fun _ _ _ hab hbc => Nat.le_trans hbc hab⟩
  exact List.pairwise_insertionSort _ rows

theorem newestFirst_eq {rows : List ExecutionRow} (h : Descending ExecutionRow.createdAt rows) :
    newestFirst ExecutionRow.createdAt rows = rows := List.Pairwise.insertionSort_eq h

-- A query is refused, or it returns a page of the sorted rows.
theorem pageQuery_eq (hlimit : 1 ≤ limit) (k : Nat) :
    pageQuery encodes db status definitionId limit order k =
      if encodes limit = true ∧ encodes (k * limit) = true ∧
          Char.ofNat 0 ∉ (status.getD "").toList then
        .ok (page limit.toNat k (newestFirst ExecutionRow.createdAt
          (filterExecutions status definitionId (order k))))
      else .error internalServerError := by
  obtain ⟨n, rfl⟩ := Int.eq_ofNat_of_zero_le (Int.le_trans Int.one_nonneg hlimit)
  have hoffset : ((k : Int) * (n : Int)).toNat = k * n := by
    rw [← Int.natCast_mul, Int.toNat_natCast]
  have hnonneg : ¬ (k : Int) * (n : Int) < 0 := by
    rw [← Int.natCast_mul]
    omega
  unfold pageQuery listExecutions
  rw [hoffset, Int.toNat_natCast, page]
  by_cases hsent : encodes n = true ∧ encodes (k * n) = true ∧
      Char.ofNat 0 ∉ (status.getD "").toList
  · obtain ⟨hl, ho, hzero⟩ := hsent
    rw [if_neg, if_pos ⟨hl, ho, hzero⟩]
    simp only [hl, ho, Bool.not_true, Bool.false_eq_true, false_or, not_or]
    exact ⟨by omega, hnonneg, hzero⟩
  · rw [if_neg hsent, if_pos]
    by_contra hrefused
    simp only [Bool.not_eq_true', not_or, Bool.not_eq_false] at hrefused
    exact hsent ⟨hrefused.1, hrefused.2.1, hrefused.2.2.2.2⟩

-- Answered queries have the rows that belong on the page.
theorem pageQuery_ok (hlimit : 1 ≤ limit) {k : Nat} {rows : List ExecutionRow}
    (h : pageQuery encodes db status definitionId limit order k = .ok rows) :
    (encodes limit = true ∧ encodes (k * limit) = true ∧
      Char.ofNat 0 ∉ (status.getD "").toList) ∧
    rows = page limit.toNat k (newestFirst ExecutionRow.createdAt
      (filterExecutions status definitionId (order k))) := by
  rw [pageQuery_eq hlimit] at h
  split at h
  · rename_i hsent
    cases h
    exact ⟨hsent, rfl⟩
  · cases h

theorem sorted_perm (horder : ∀ k, (order k).Perm db.executions) (k : Nat) :
    (newestFirst ExecutionRow.createdAt (filterExecutions status definitionId (order k))).Perm
      (filterExecutions status definitionId db.executions) := by
  refine (newestFirst_perm _).trans ?_
  rw [filterExecutions_eq, filterExecutions_eq]
  exact (horder k).filter _

-- The matching executions can be found first and in any order.
theorem reorder_matching {matching rows : List ExecutionRow}
    (h : matching.Perm (filterExecutions status definitionId rows)) :
    ∃ rows' : List ExecutionRow,
      rows'.Perm rows ∧ filterExecutions status definitionId rows' = matching := by
  rw [filterExecutions_eq] at h
  refine ⟨matching ++ rows.filter fun e => !selects status definitionId e, ?_, ?_⟩
  · exact (h.append_right _).trans (List.filter_append_perm _ _)
  · have hall : ∀ e ∈ matching, selects status definitionId e = true :=
      fun e he => (List.mem_filter.mp (h.mem_iff.mp he)).2
    rw [filterExecutions_eq, List.filter_append, List.filter_eq_self.mpr hall, List.filter_filter]
    simp

theorem pageQuery_length (hlimit : 1 ≤ limit) (horder : ∀ k, (order k).Perm db.executions)
    (k : Nat) (rows : List ExecutionRow)
    (h : pageQuery encodes db status definitionId limit order k = .ok rows) :
    rows.length = min limit.toNat
      ((filterExecutions status definitionId db.executions).length - k * limit.toNat) := by
  rw [(pageQuery_ok hlimit h).2, page_length, (sorted_perm horder k).length_eq]

/-! ## 2. When the pages partition the executions -/

theorem pagesPartition_of_pageable (hlimit : 1 ≤ limit)
    (h : Pageable encodes db status definitionId limit) :
    PagesPartition encodes db status definitionId limit := by
  intro order horder
  have hsorted : ∀ k, (newestFirst ExecutionRow.createdAt
      (filterExecutions status definitionId (order k))).Perm
      (filterExecutions status definitionId db.executions) := sorted_perm horder
  have hmatching := newestFirst_perm (filterExecutions status definitionId db.executions)
  have hanswer : ∀ k, Asked limit.toNat
      (newestFirst ExecutionRow.createdAt
        (filterExecutions status definitionId db.executions)).length k →
      pageQuery encodes db status definitionId limit order k =
        .ok (page limit.toNat k (newestFirst ExecutionRow.createdAt
          (filterExecutions status definitionId (order k)))) := by
    intro k hasked
    rw [hmatching.length_eq] at hasked
    exact (pageQuery_eq hlimit k).trans
      (if_pos ⟨h.sendsLimit, h.sendsOffset k hasked, h.sendsStatus⟩)
  have htake : ∀ k j : Nat,
      ((newestFirst ExecutionRow.createdAt
        (filterExecutions status definitionId (order k))).take (j * limit.toNat)).Perm
      ((newestFirst ExecutionRow.createdAt
        (filterExecutions status definitionId db.executions)).take (j * limit.toNat)) :=
    fun k j => take_perm_of_not_straddles (newestFirst_descending _) (newestFirst_descending _)
      ((hsorted k).trans hmatching.symm) fun hcut => h.uncut j (hcut.perm (hsorted k))
  obtain ⟨all, hall, hperm⟩ := pages_perm (by omega)
    (fun k => (hsorted k).trans hmatching.symm) htake hanswer
  exact ⟨all, hall, hperm.trans hmatching⟩

-- A group that is cut can be served so that one execution is on both pages.
theorem PagesPartition.uncut (hset : db.executions.Nodup) (hlimit : 1 ≤ limit)
    (hsent : ∀ k : Nat, Asked limit.toNat
      (filterExecutions status definitionId db.executions).length k →
        encodes limit = true ∧ encodes (k * limit) = true ∧
          Char.ofNat 0 ∉ (status.getD "").toList)
    (h : PagesPartition encodes db status definitionId limit) (k : Nat) :
    ¬ Straddles ExecutionRow.createdAt (filterExecutions status definitionId db.executions)
      (k * limit.toNat) := by
  intro hcut
  have hpos : 0 < limit.toNat := by omega
  have hmatching := newestFirst_perm (filterExecutions status definitionId db.executions)
  obtain ⟨before, a, b, after, hrows, hboundary, hswapped⟩ :=
    exists_swap_of_straddles (newestFirst_descending _) (hcut.perm hmatching.symm)
  obtain ⟨j, rfl⟩ : ∃ j, k = j + 1 := Nat.exists_eq_succ_of_ne_zero (by rintro rfl; omega)
  have hlt : (j + 1) * limit.toNat <
      (filterExecutions status definitionId db.executions).length := by
    rw [← hmatching.length_eq, hrows]
    simp only [List.length_append, List.length_cons]
    omega
  have hswap : (before ++ b :: a :: after).Perm
      (filterExecutions status definitionId db.executions) := by
    refine List.Perm.trans ?_ (hrows ▸ hmatching)
    exact (List.Perm.swap _ _ _).append_left _
  -- From page `j + 1` on the queries find the two rows the other way round.
  obtain ⟨reordered, hreordered, hfilter⟩ := reorder_matching hswap
  let order : Nat → List ExecutionRow := fun i => if i ≤ j then db.executions else reordered
  have horder : ∀ i, (order i).Perm db.executions := by
    intro i
    simp only [order]
    split
    · exact .refl _
    · exact hreordered
  obtain ⟨all, hall, hperm⟩ := h order horder
  have hanswer : ∀ i ≤ j + 1, pageQuery encodes db status definitionId limit order i =
      .ok (page limit.toNat i (newestFirst ExecutionRow.createdAt
        (filterExecutions status definitionId (order i)))) := by
    intro i hi
    refine (pageQuery_eq hlimit i).trans (if_pos (hsent i (.inr ?_)))
    exact Nat.lt_of_le_of_lt (Nat.mul_le_mul_right _ (by omega)) hlt
  have hlast : a ∈ page limit.toNat j (newestFirst ExecutionRow.createdAt
      (filterExecutions status definitionId (order j))) := by
    simp only [order, if_pos (Nat.le_refl j), hrows]
    rw [Nat.succ_mul] at hboundary
    exact mem_page (i := before.length) (by simp) (by omega) (by omega)
  have hfirst : a ∈ page limit.toNat (j + 1) (newestFirst ExecutionRow.createdAt
      (filterExecutions status definitionId (order (j + 1)))) := by
    simp only [order, if_neg (Nat.not_succ_le_self j), hfilter, newestFirst_eq hswapped]
    exact mem_page (i := before.length + 1) (by simp) (by omega) (by omega)
  have hmatchingNodup : (filterExecutions status definitionId db.executions).Nodup := by
    rw [filterExecutions_eq]
    exact hset.filter _
  exact hall.not_nodup hpos (pageQuery_length hlimit horder) (Nat.zero_le j)
    (hanswer j (Nat.le_succ j)) (hanswer (j + 1) (Nat.le_refl _)) hlast hfirst
    (hperm.nodup_iff.mpr hmatchingNodup)

theorem PagesPartition.pageable (hset : db.executions.Nodup) (hlimit : 1 ≤ limit)
    (h : PagesPartition encodes db status definitionId limit) :
    Pageable encodes db status definitionId limit := by
  have hsent : ∀ k : Nat, Asked limit.toNat
      (filterExecutions status definitionId db.executions).length k →
        encodes limit = true ∧ encodes (k * limit) = true ∧
          Char.ofNat 0 ∉ (status.getD "").toList := by
    intro k hasked
    obtain ⟨all, hall, -⟩ := h (fun _ => db.executions) fun _ => .refl _
    obtain ⟨rows, hrows⟩ := hall.answered (by omega : 0 < limit.toNat)
      (pageQuery_length hlimit fun _ => .refl _) k (Nat.zero_le k) hasked
    exact (pageQuery_ok hlimit hrows).1
  exact ⟨(hsent 0 (.inl rfl)).2.2, (hsent 0 (.inl rfl)).1, fun k hk => (hsent k hk).2.1,
    h.uncut hset hlimit hsent⟩

end Query

/-- Two executions of the same time that are listed one at a time. -/
def twinExecutions : Database :=
  { homeOnly viewer with
    executions := [foreignExecution 1 3 failedStatus 5, foreignExecution 1 3 failedStatus 6] }

/-- The second query may find the second execution first, and then the first page comes twice. -/
theorem twinExecutions_not_partitioned :
    twinExecutions.executions.Nodup ∧
      ¬ PagesPartition encodesInt4 twinExecutions none none 1 := by
  have hset : twinExecutions.executions.Nodup := by simp [twinExecutions, foreignExecution]
  refine ⟨hset, fun h => ?_⟩
  exact (h.pageable hset (Int.le_refl 1)).uncut 1 ⟨0, by decide, by decide⟩

/-- The pages of a set of executions hold every matching one exactly once, whatever the database
makes of equal times, exactly when its driver can send the queries and no group of executions of the
same time is cut by the end of a page. -/
theorem pagesPartition_iff (encodes : Int → Bool) (db : Database) (hset : db.executions.Nodup)
    (status : Option String) (definitionId : Option UUID) (limit : Int) (hlimit : 1 ≤ limit) :
    PagesPartition encodes db status definitionId limit ↔
      Pageable encodes db status definitionId limit :=
  ⟨PagesPartition.pageable hset hlimit, pagesPartition_of_pageable hlimit⟩

/-- Two pairs of executions of the same time. -/
def pairedExecutions : Database :=
  { homeOnly viewer with
    executions := [
      { foreignExecution 1 3 failedStatus 5 with createdAt := 4 },
      { foreignExecution 1 3 failedStatus 6 with createdAt := 9 },
      { foreignExecution 1 3 failedStatus 7 with createdAt := 4 },
      { foreignExecution 1 3 failedStatus 8 with createdAt := 9 }] }

-- Two by two, the pages end between the pairs.
theorem pairedExecutions_pageable : Pageable encodesInt4 pairedExecutions none none 2 where
  sendsStatus := by decide
  sendsLimit := by decide
  sendsOffset k hasked := by
    have hk : k = 0 ∨ (k - 1) * 2 < 4 := hasked
    exact decide_eq_true (by omega)
  uncut k hcut := by
    obtain ⟨t, hbefore, hafter⟩ := hcut
    simp only [filterExecutions, pairedExecutions, List.countP_cons, List.countP_nil,
      decide_eq_true_eq] at hbefore hafter
    have htwo : (2 : Int).toNat = 2 := rfl
    rw [htwo] at hbefore hafter
    split_ifs at hbefore hafter <;> omega

theorem pagesPartition_iff_paired :
    PagesPartition encodesInt4 pairedExecutions none none 2 :=
  (pagesPartition_iff encodesInt4 pairedExecutions
    (by simp [pairedExecutions, foreignExecution]) none none 2 (by decide)).mpr
    pairedExecutions_pageable

end ConstructorPlatform
