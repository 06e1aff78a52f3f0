import ConstructorPlatform.PlatformApi.Writes

/-!
# Simultaneous — when a transform is a simultaneous assignment

`apply_transform` copies the context, but it puts what it finds into the copy as it is.  A later
destination below an earlier one is then written through to the context, or to a second place of the
result.  The transform assigns simultaneously and leaves the context alone exactly while no write
does that: `applyTransform_simultaneous_iff`.
-/

namespace ConstructorPlatform

open Reasoning

/-! ## 1. The writes of a transform -/

/-- The package `jmespath` finds `find`: what a search returns, in the heap with its new cells,
encodes to what `find` gives for the document that the argument encodes to.  The package keeps a
literal of an expression as one object; after a transform has written into it, this is not so. -/
structure JMESPath.Finds (jmespath : JMESPath) (find : Find) : Prop where
  value : ∀ {expression heap v j w new}, heap.Contents v j →
    jmespath.search expression heap v = .ok (w, new) →
      ∃ x, find expression j = .ok x ∧ (heap ++ new).Contents w x
  error : ∀ {expression heap v j exc}, heap.Contents v j →
    jmespath.search expression heap v = .error exc → find expression j = .error exc

/-- What an expression that is one identifier finds. -/
def identifierFind : Find
  | .str name, .obj kvs => .ok ((kvs.lookup name).getD .null)
  | _, _ => .ok .null

theorem identifierSearch_finds : identifierSearch.Finds identifierFind where
  value := by
    intro expression heap v j w new hj hsearch
    have hnull : heap.Contents .null .null := .leaf rfl
    simp only [identifierSearch] at hsearch
    split at hsearch
    · rename_i name a entries hcell
      cases hsearch
      obtain ⟨rfl, ho⟩ := Heap.cell_eq_some_iff.mp hcell
      obtain ⟨kvs, rfl, hkvs⟩ := (Heap.contents_dict_iff ho).mp hj
      refine ⟨_, rfl, ?_⟩
      rw [List.append_nil]
      have hname := hkvs.lookup name
      revert hname
      generalize entries.lookup name = o
      generalize kvs.lookup name = o'
      rintro (hname | -)
      · exact hname
      · exact hnull
    · rename_i hcell
      cases hsearch
      refine ⟨.null, ?_, (List.append_nil heap).symm ▸ hnull⟩
      unfold identifierFind
      split
      · rename_i name kvs
        obtain ⟨a, entries, rfl, ho⟩ := Heap.contents_obj hj
        exact absurd (Heap.cell_eq_some_iff.mpr ⟨rfl, ho⟩) (hcell name a entries rfl)
      · rfl
  error := by
    intro expression heap v j exc hj hsearch
    simp only [identifierSearch] at hsearch
    split at hsearch <;> cases hsearch

/-- The writes that the loop of `apply_transform` makes. -/
def transformWrites (jmespath : JMESPath) (context result : PyValue) : Dict → Heap → List Write
  | [], _ => []
  | (destPath, srcExpr) :: rest, heap =>
      match jmespath.search srcExpr heap context with
      | .error _ => []
      | .ok (value, new) =>
          match (heap ++ new).target result (splitPath destPath) with
          | none => []
          | some (addr, key, more) =>
              let w : Write := ⟨heap ++ new, addr, key, more, value⟩
              w :: transformWrites jmespath context result rest w.after

def applyWrites (jmespath : JMESPath) (config : Dict) (heap : Heap) (context : PyValue) :
    List Write :=
  let (result, heap) := heap.deepcopy context
  transformWrites jmespath context result config heap

theorem applyTransform_eq (jmespath : JMESPath) (config : Dict) (heap : Heap) (context : PyValue) :
    applyTransform jmespath config heap context =
      ((transformLoop jmespath context (heap.deepcopy context).1 config
          (heap.deepcopy context).2).1,
        (heap.deepcopy context).1,
        (transformLoop jmespath context (heap.deepcopy context).1 config
          (heap.deepcopy context).2).2) := rfl

section Loop

variable {jmespath : JMESPath} {find : Find} {context result : PyValue}

-- One turn of the loop: the search raises, the walk raises, or there is a write.
theorem transformLoop_cons (jmespath : JMESPath) (context result : PyValue) (item : String × Json)
    (heap : Heap) :
    (∃ e, jmespath.search item.2 heap context = .error e ∧ ∀ rest,
      transformLoop jmespath context result (item :: rest) heap = (.error e, heap) ∧
      transformWrites jmespath context result (item :: rest) heap = []) ∨
    ∃ value new, jmespath.search item.2 heap context = .ok (value, new) ∧
      ((∃ e, (heap ++ new).target result (splitPath item.1) = none ∧
        setNested (heap ++ new) result item.1 value = (.error e, heap ++ new) ∧ ∀ rest,
        transformLoop jmespath context result (item :: rest) heap = (.error e, heap ++ new) ∧
        transformWrites jmespath context result (item :: rest) heap = []) ∨
      ∃ w : Write, w.heap = heap ++ new ∧ w.value = value ∧
        w.heap.target result (splitPath item.1) = some (w.addr, w.key, w.more) ∧ ∀ rest,
        transformLoop jmespath context result (item :: rest) heap =
          transformLoop jmespath context result rest w.after ∧
        transformWrites jmespath context result (item :: rest) heap =
          w :: transformWrites jmespath context result rest w.after) := by
  cases hsearch : jmespath.search item.2 heap context with
  | error e =>
      exact .inl ⟨e, rfl, fun rest => by simp [transformLoop, transformWrites, hsearch]⟩
  | ok found =>
      obtain ⟨value, new⟩ := found
      refine .inr ⟨value, new, rfl, ?_⟩
      cases htarget : (heap ++ new).target result (splitPath item.1) with
      | none =>
          obtain ⟨e, he⟩ := setKeys_error value (splitPath_ne_nil item.1) htarget
          refine .inl ⟨e, rfl, he, fun rest => ?_⟩
          simp [transformLoop, transformWrites, hsearch, htarget, setNested, he]
      | some t =>
          obtain ⟨addr, key, more⟩ := t
          refine .inr ⟨⟨heap ++ new, addr, key, more, value⟩, rfl, rfl, htarget, fun rest => ?_⟩
          simp [transformLoop, transformWrites, hsearch, htarget, setNested,
            setKeys_eq_write htarget]

-- The writes of a beginning of the config come first.
theorem transformWrites_take (jmespath : JMESPath) (context result : PyValue) (config : Dict)
    (n : Nat) (heap : Heap) :
    transformWrites jmespath context result (config.take n) heap <+:
      transformWrites jmespath context result config heap := by
  induction config generalizing n heap with
  | nil => rw [List.take_nil]
  | cons item rest ih =>
      cases n with
      | zero => exact List.nil_prefix
      | succ n =>
          rw [List.take_succ_cons]
          rcases transformLoop_cons jmespath context result item heap with
            ⟨e, -, hturn⟩ | ⟨value, new, -, ⟨e, -, -, hturn⟩ | ⟨w, -, -, -, hturn⟩⟩
          · rw [(hturn _).2]
            exact List.nil_prefix
          · rw [(hturn _).2]
            exact List.nil_prefix
          · rw [(hturn _).2, (hturn rest).2]
            exact List.cons_prefix_cons.mpr ⟨rfl, ih n w.after⟩

/-! ## 2. Clean writes -/

/-- The dictionary that is written to is part neither of the context nor of the value, and it stands
at one place of the result; or the write changes nothing. -/
def Write.Clean (w : Write) (context result : PyValue) : Prop :=
  (¬ w.heap.Holds context w.addr ∧ ¬ w.heap.Holds w.value w.addr ∧
    ∀ place place', w.heap.StandsAt result w.addr place → w.heap.StandsAt result w.addr place' →
      place = place') ∨ w.ChangesNothing

/-- A write keeps the context and does what the assignment does exactly when it is clean. -/
theorem Write.clean_iff {w : Write} {keys : List String}
    (htarget : w.heap.target result keys = some (w.addr, w.key, w.more)) {j r x : Json}
    (hj : w.heap.Contents context j) (hr : w.heap.Contents result r)
    (hx : w.heap.Contents w.value x) :
    w.Clean context result ↔ w.after.Contents context j ∧
      ∃ r', Json.assign x keys r = some r' ∧ w.after.Contents result r' := by
  obtain ⟨entries, ho, hnone⟩ := Heap.target_isDict htarget
  constructor
  · rintro (⟨hcontext, hvalue, honce⟩ | hnothing)
    · exact ⟨hj.agreeOff w.agreeOff hcontext, Write.contents_assign htarget hr hx hvalue honce⟩
    · exact ⟨hnothing.contents ho hj, r, hnothing.assign htarget hr hx, hnothing.contents ho hr⟩
  · rintro ⟨hj', r', hassign, hr'⟩
    have hvalue := Write.not_holds_value htarget hr'
    have hsame : ∀ u, w.heap.Contents (.ref w.addr) u → w.after.Contents (.ref w.addr) u →
        w.ChangesNothing := fun u hu hu' => Write.changesNothing_of_same ho hnone hx hvalue hu hu'
    by_cases hcontext : w.heap.Holds context w.addr
    · obtain ⟨place, hplace⟩ := hcontext
      obtain ⟨u, hu, hu'⟩ := hj.same_at hj' w.agreeOff hplace (w := .ref w.addr) rfl
      exact .inr (hsame u hu hu')
    · rcases Write.standsOnce_or_same htarget hr hassign hr' with honce | ⟨u, hu, hu'⟩
      · exact .inl ⟨hcontext, hvalue, honce⟩
      · exact .inr (hsame u hu hu')

-- A write to the top of a copy is clean, `base` being the heap before the copy.
theorem Write.standsAt_top {w : Write} (context : PyValue) (base cells : Heap) {j x r : Json}
    (hheap : w.heap = base ++ cells) (hj : base.Contents context j) (hx : base.Contents w.value x)
    (haddr : base.length ≤ w.addr) (hr : w.heap.Contents (.ref w.addr) r) :
    (¬ w.heap.Holds context w.addr ∧ ¬ w.heap.Holds w.value w.addr) ∧
      ∀ place, w.heap.StandsAt (.ref w.addr) w.addr place ↔ place = [] := by
  refine ⟨⟨fun h => ?_, fun h => ?_⟩, fun place => ⟨fun h => hr.place_eq_nil rfl h, ?_⟩⟩
  · rw [hheap] at h
    exact absurd (hj.lt_length_of_append h) (Nat.not_lt.mpr haddr)
  · rw [hheap] at h
    exact absurd (hx.lt_length_of_append h) (Nat.not_lt.mpr haddr)
  · rintro rfl
    exact Layout.standsAt_nil.mpr rfl

-- The loop, while its writes are clean.
theorem transformLoop_of_clean (hfind : jmespath.Finds find) (config : Dict) {heap : Heap}
    {j r : Json} (hj : heap.Contents context j) (hr : heap.Contents result r)
    (hclean : ∀ w ∈ transformWrites jmespath context result config heap,
      w.Clean context result) :
    (transformLoop jmespath context result config heap).2.Contents context j ∧
      (((transformLoop jmespath context result config heap).1 = .ok () ∧
        ∃ r', config.foldlM (assignFound find j) r = some r' ∧
          (transformLoop jmespath context result config heap).2.Contents result r') ∨
      ((∃ e, (transformLoop jmespath context result config heap).1 = .error e) ∧
        config.foldlM (assignFound find j) r = none)) := by
  induction config generalizing heap r with
  | nil => exact ⟨hj, .inl ⟨rfl, r, rfl, hr⟩⟩
  | cons item rest ih =>
      rw [List.foldlM_cons, assignFound]
      rcases transformLoop_cons jmespath context result item heap with
        ⟨e, hsearch, hturn⟩ | ⟨value, new, hsearch, ⟨e, htarget, -, hturn⟩ |
          ⟨w, hheap, rfl, htarget, hturn⟩⟩
      · rw [(hturn rest).1, hfind.error hj hsearch]
        exact ⟨hj, .inr ⟨⟨e, rfl⟩, rfl⟩⟩
      · obtain ⟨x, hx, -⟩ := hfind.value hj hsearch
        have hnone := Heap.assign_eq_none (splitPath_ne_nil _) htarget (hr.append new) x
        rw [(hturn rest).1, hx]
        exact ⟨hj.append new, .inr ⟨⟨e, rfl⟩, by simp [hnone]⟩⟩
      · obtain ⟨x, hx, hvalue⟩ := hfind.value hj hsearch
        rw [(hturn rest).2] at hclean
        have hwrite := (Write.clean_iff htarget (hheap ▸ hj.append new) (hheap ▸ hr.append new)
          (hheap ▸ hvalue)).mp (hclean w List.mem_cons_self)
        obtain ⟨hj', r', hassign, hr'⟩ := hwrite
        rw [(hturn rest).1, hx]
        simp only [hassign, Option.bind_eq_bind, Option.bind_some]
        exact ih hj' hr' fun w' hw' => hclean w' (List.mem_cons_of_mem w hw')

theorem clean_of_transformLoop (hfind : jmespath.Finds find) {config : Dict} {heap : Heap}
    {j r : Json} (hj : heap.Contents context j) (hr : heap.Contents result r)
    (hall : ∀ n,
      (transformLoop jmespath context result (config.take n) heap).2.Contents context j ∧
        ((transformLoop jmespath context result (config.take n) heap).1 = .ok () →
          ∃ r', (config.take n).foldlM (assignFound find j) r = some r' ∧
            (transformLoop jmespath context result (config.take n) heap).2.Contents result r')) :
    ∀ w ∈ transformWrites jmespath context result config heap, w.Clean context result := by
  induction config generalizing heap r with
  | nil => exact fun w hw => nomatch hw
  | cons item rest ih =>
      rcases transformLoop_cons jmespath context result item heap with
        ⟨e, -, hturn⟩ | ⟨value, new, hsearch, ⟨e, -, -, hturn⟩ | ⟨w, hheap, rfl, htarget, hturn⟩⟩
      · rw [(hturn rest).2]
        exact fun w hw => nomatch hw
      · rw [(hturn rest).2]
        exact fun w hw => nomatch hw
      · obtain ⟨x, hx, hvalue⟩ := hfind.value hj hsearch
        obtain ⟨hj', hone⟩ := hall 1
        rw [List.take_succ_cons, List.take_zero, (hturn []).1] at hj' hone
        obtain ⟨r', hfold, hr'⟩ := hone rfl
        change w.after.Contents context j at hj'
        change w.after.Contents result r' at hr'
        have hassign : Json.assign x (splitPath item.1) r = some r' := by
          simpa [assignFound, hx] using hfold
        have hw : w.Clean context result :=
          (Write.clean_iff htarget (hheap ▸ hj.append new) (hheap ▸ hr.append new)
            (hheap ▸ hvalue)).mpr ⟨hj', r', hassign, hr'⟩
        have hrest := ih hj' hr' fun n => by
          have hn := hall (n + 1)
          rw [List.take_succ_cons, (hturn (rest.take n)).1, List.foldlM_cons, assignFound, hx] at hn
          simpa only [hassign, Option.bind_eq_bind, Option.bind_some] using hn
        rw [(hturn rest).2]
        intro w' hw'
        rcases List.mem_cons.mp hw' with rfl | hw'
        · exact hw
        · exact hrest w' hw'

end Loop

/-! ## 3. A transform -/

/-- The context keeps its contents, and what `apply_transform` returns encodes to the simultaneous
assignment. -/
def TransformsSimultaneously (jmespath : JMESPath) (find : Find) (config : Dict) (heap : Heap)
    (context : PyValue) (j : Json) : Prop :=
  match applyTransform jmespath config heap context with
  | (outcome, result, heap) =>
      heap.toJson context = .ok j ∧
        (outcome = .ok () → ∃ r, simultaneous find config j = some r ∧ heap.toJson result = .ok r)

/-- Every beginning of a config transforms simultaneously exactly when the writes are clean. -/
theorem applyTransform_simultaneous_iff {jmespath : JMESPath} {find : Find}
    (hfind : jmespath.Finds find) (config : Dict) {heap : Heap} {context : PyValue} {j : Json}
    (hj : heap.toJson context = .ok j) :
    (∀ n, TransformsSimultaneously jmespath find (config.take n) heap context j) ↔
      ∀ w ∈ applyWrites jmespath config heap context,
        w.Clean context (heap.deepcopy context).1 := by
  obtain ⟨hcontext, hresult⟩ := Heap.deepcopy_contents (Heap.toJson_eq_ok_iff.mp hj)
  constructor
  · intro hall
    refine clean_of_transformLoop hfind hcontext hresult fun n => ?_
    obtain ⟨hj', hr'⟩ := hall n
    refine ⟨Heap.toJson_eq_ok_iff.mp hj', fun hok => ?_⟩
    obtain ⟨r, hr, hresult'⟩ := hr' hok
    exact ⟨r, hr, Heap.toJson_eq_ok_iff.mp hresult'⟩
  · intro hclean n
    have hloop := transformLoop_of_clean hfind (config.take n) hcontext hresult
      fun w hw => hclean w ((transformWrites_take jmespath context _ config n _).subset hw)
    refine ⟨Heap.toJson_eq_ok_iff.mpr hloop.1, fun hok => ?_⟩
    rcases hloop.2 with ⟨-, r, hr, hresult'⟩ | ⟨⟨e, he⟩, -⟩
    · exact ⟨r, hr, Heap.toJson_eq_ok_iff.mpr hresult'⟩
    · cases he.symm.trans hok

/-! Destinations that overlap: two in one dictionary, one that is assigned twice, and one inside the
source of the next assignment. -/

def overlappingContext : Json := .obj [("b", .obj [("k", .int 1)]), ("c", .int 2)]

def overlappingConfig : Dict :=
  [("out.first", .str "b"), ("out.second", .str "b"), ("out.first", .str "c"), ("b.k", .str "c"),
   ("d", .str "b")]

theorem transformsSimultaneously_overlapping :
    (∀ n, TransformsSimultaneously identifierSearch identifierFind (overlappingConfig.take n)
      (Heap.load [] overlappingContext).2 (Heap.load [] overlappingContext).1
      overlappingContext) ∧
    (applyWrites identifierSearch overlappingConfig (Heap.load [] overlappingContext).2
      (Heap.load [] overlappingContext).1).length = 5 ∧
    ∀ w ∈ applyWrites identifierSearch overlappingConfig (Heap.load [] overlappingContext).2
        (Heap.load [] overlappingContext).1,
      w.Clean (Heap.load [] overlappingContext).1
        ((Heap.load [] overlappingContext).2.deepcopy (Heap.load [] overlappingContext).1).1 := by
  have hall : ∀ n, TransformsSimultaneously identifierSearch identifierFind
      (overlappingConfig.take n) (Heap.load [] overlappingContext).2
      (Heap.load [] overlappingContext).1 overlappingContext := by
    intro n
    match n with
    | 0 | 1 | 2 | 3 | 4 => exact ⟨rfl, fun _ => ⟨_, rfl, rfl⟩⟩
    | n + 5 =>
        have hwhole : overlappingConfig.take (n + 5) = overlappingConfig :=
          List.take_of_length_le (Nat.le_add_left 5 n)
        rw [hwhole]
        exact ⟨rfl, fun _ => ⟨_, rfl, rfl⟩⟩
  have hj : (Heap.load [] overlappingContext).2.toJson (Heap.load [] overlappingContext).1 =
      .ok overlappingContext := rfl
  exact ⟨hall, rfl,
    (applyTransform_simultaneous_iff identifierSearch_finds overlappingConfig hj).mp hall⟩

-- The second destination is below the first one, which holds a dictionary of the context by then.
theorem not_transformsSimultaneously_belowEarlier :
    ¬ TransformsSimultaneously identifierSearch identifierFind
      [("a", .str "b"), ("a.x", .str "c"), ("d", .str "b")]
      (Heap.load [] (.obj [("b", .obj []), ("c", .int 1)])).2
      (Heap.load [] (.obj [("b", .obj []), ("c", .int 1)])).1
      (.obj [("b", .obj []), ("c", .int 1)]) := by
  intro h
  have hx := congrArg (fun r => (r.toOption.bind fun j => j.headAt [.key "b", .key "x"]).isSome) h.1
  revert hx
  decide

end ConstructorPlatform
