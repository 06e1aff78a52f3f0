import ConstructorPlatform.PlatformApi.Copies

/-!
# StoredContext — the context in memory and the one in the database

`execute_workflow` goes on with the object that `apply_transform` returned, while the column holds
the document that it encodes to.  `copy.deepcopy` keeps the sharing that a transform makes, and the
document does not have it; so a later write below one of two shared places tells the two apart.
They agree while each write goes to a dictionary that stands at the same places in both:
`memorySteps_eq_storedSteps`.
-/

namespace ConstructorPlatform

open Reasoning

/-! ## 1. The two runs -/

/-- The document after each transform, of the context that stays in memory. -/
def memorySteps (jmespath : JMESPath) : List Dict → Heap → PyValue → List (Except PyExc Json)
  | [], _, _ => []
  | config :: rest, heap, context =>
      match applyTransform jmespath config heap context with
      | (.ok (), result, heap) => heap.toJson result :: memorySteps jmespath rest heap result
      | (.error e, _, _) => [.error e]

/-- The same for a context that is encoded and decoded again between the transforms. -/
def storedSteps (jmespath : JMESPath) : List Dict → Json → List (Except PyExc Json)
  | [], _ => []
  | config :: rest, j =>
      match applyTransform jmespath config (Heap.load [] j).2 (Heap.load [] j).1 with
      | (.ok (), result, heap) =>
          match heap.toJson result with
          | .ok j' => .ok j' :: storedSteps jmespath rest j'
          | .error e => [.error e]
      | (.error e, _, _) => [.error e]

/-- The path is neither a prefix nor an extension of a destination of the config. -/
def ApartFrom (config : Dict) (path : List Step) : Prop :=
  ∀ item ∈ config, Apart path ((splitPath item.1).map .key)

/-- No step changes a value at a path that is apart from its destinations. -/
def LeavesOthers : List Dict → Json → List (Except PyExc Json) → Prop
  | config :: configs, j, .ok j' :: steps =>
      (∀ path, ApartFrom config path → Option.Rel Json.Same (j.valueAt path) (j'.valueAt path)) ∧
        LeavesOthers configs j' steps
  | _, _, _ => True

/-! ## 2. Two values with one document -/

section TwoHeaps

variable {heap₁ heap₂ : Heap} {v₁ v₂ : PyValue}

theorem typeName_contents {heap : Heap} {v : PyValue} {j : Json} (h : heap.Contents v j) :
    v.typeName heap = j.typeName := by
  cases h with
  | @leaf v hv => cases v <;> first | rfl | cases hv
  | @node v a o xs ha ho _ _ =>
      obtain rfl := PyValue.addr?_eq_some_iff.mp ha
      rw [PyValue.typeName, ho]
      cases o <;> rfl

-- Both walks end at dictionaries with one document, at one place.
theorem target_agree {keys : List String} {r : Json} (h₁ : heap₁.Contents v₁ r)
    (h₂ : heap₂.Contents v₂ r) {a₁ : Nat} {key : String} {more : List String}
    (htarget : heap₁.target v₁ keys = some (a₁, key, more)) :
    ∃ a₂, heap₂.target v₂ keys = some (a₂, key, more) ∧
      (∃ place, heap₁.StandsAt v₁ a₁ place ∧ heap₂.StandsAt v₂ a₂ place) ∧
      ∃ u, heap₁.Contents (.ref a₁) u ∧ heap₂.Contents (.ref a₂) u := by
  induction keys generalizing v₁ v₂ r with
  | nil => cases htarget
  | cons k rest ih =>
      obtain ⟨b₁, entries₁, rfl, ho₁, hcase⟩ := Heap.target_cons htarget
      obtain ⟨kvs, rfl, hkvs₁⟩ := (Heap.contents_dict_iff ho₁).mp h₁
      obtain ⟨b₂, entries₂, rfl, ho₂⟩ := Heap.contents_obj h₂
      obtain ⟨kvs', heq, hkvs₂⟩ := (Heap.contents_dict_iff ho₂).mp h₂
      cases heq
      rcases hcase with ⟨next₁, hne, hlookup₁, hnext₁⟩ | ⟨rfl, rfl, rfl, hnone⟩
      · obtain ⟨i, next₂, hi₁, hi₂, hlookup₂⟩ :=
          lookup_position_eq (hkvs₂.keys.symm.trans hkvs₁.keys) hlookup₁
        obtain ⟨c, hc₁, hkc⟩ := hkvs₁.lookup_some hlookup₁
        obtain ⟨c', hc₂, hkc'⟩ := hkvs₂.lookup_some hlookup₂
        rw [hkc] at hkc'
        cases hkc'
        obtain ⟨a₂, hnext₂, ⟨place, hplace₁, hplace₂⟩, hu⟩ := ih hc₁ hc₂ hnext₁
        refine ⟨a₂, (Heap.target_down ho₂ hne hlookup₂).trans hnext₂, ⟨i :: place, ?_, ?_⟩, hu⟩
        · exact Layout.standsAt_cons.mpr ⟨next₁, Heap.child_entry ho₁ hi₁, hplace₁⟩
        · exact Layout.standsAt_cons.mpr ⟨next₂, Heap.child_entry ho₂ hi₂, hplace₂⟩
      · refine ⟨b₂, Heap.target_stop ho₂ fun hmore => ?_, ⟨[], ?_, ?_⟩, _, h₁, h₂⟩
        · exact hkvs₂.lookup_none.mpr (hkvs₁.lookup_none.mp (hnone hmore))
        · exact Layout.standsAt_nil.mpr rfl
        · exact Layout.standsAt_nil.mpr rfl

-- Walks that find no dictionary raise the same.
theorem setKeys_error_agree {keys : List String} (hkeys : keys ≠ []) {r : Json}
    (h₁ : heap₁.Contents v₁ r) (h₂ : heap₂.Contents v₂ r) (htarget : heap₁.target v₁ keys = none)
    (value₁ value₂ : PyValue) :
    ∃ e, setKeys heap₁ v₁ value₁ keys = (.error e, heap₁) ∧
      setKeys heap₂ v₂ value₂ keys = (.error e, heap₂) := by
  induction keys generalizing v₁ v₂ r with
  | nil => exact absurd rfl hkeys
  | cons k rest ih =>
      rcases Heap.target_eq_none htarget with
        hcell₁ | ⟨b₁, entries₁, next₁, rfl, ho₁, hne, hlookup₁, hnext₁⟩
      · have hcell₂ : ∀ b entries, v₂ = .ref b → heap₂[b]? ≠ some (.dict entries) := by
          rintro b entries rfl ho
          obtain ⟨kvs, rfl, -⟩ := (Heap.contents_dict_iff ho).mp h₂
          obtain ⟨b₁, entries₁, rfl, ho₁⟩ := Heap.contents_obj h₁
          exact hcell₁ b₁ entries₁ rfl ho₁
        refine ⟨_, setKeys_stuck hcell₁, ?_⟩
        rw [setKeys_stuck hcell₂, typeName_contents h₁, typeName_contents h₂]
      · obtain ⟨kvs, rfl, hkvs₁⟩ := (Heap.contents_dict_iff ho₁).mp h₁
        obtain ⟨b₂, entries₂, rfl, ho₂⟩ := Heap.contents_obj h₂
        obtain ⟨kvs', heq, hkvs₂⟩ := (Heap.contents_dict_iff ho₂).mp h₂
        cases heq
        obtain ⟨i, next₂, -, -, hlookup₂⟩ :=
          lookup_position_eq (hkvs₂.keys.symm.trans hkvs₁.keys) hlookup₁
        obtain ⟨c, hc₁, hkc⟩ := hkvs₁.lookup_some hlookup₁
        obtain ⟨c', hc₂, hkc'⟩ := hkvs₂.lookup_some hlookup₂
        rw [hkc] at hkc'
        cases hkc'
        obtain ⟨k', rest, rfl⟩ := List.exists_cons_of_ne_nil hne
        rw [setKeys, setDefault_of_lookup ho₁ hlookup₁, setKeys, setDefault_of_lookup ho₂ hlookup₂]
        exact ih hne hc₁ hc₂ hnext₁

end TwoHeaps

/-! ## 3. Writes with the same effect -/

/-- Two writes go to dictionaries that stand at the same places of the contexts and of the results,
and are no part of the values; or neither write changes anything. -/
def Write.Alike (w₁ w₂ : Write) (context₁ result₁ context₂ result₂ : PyValue) : Prop :=
  ((∀ place, w₁.heap.StandsAt context₁ w₁.addr place ↔ w₂.heap.StandsAt context₂ w₂.addr place) ∧
    (∀ place, w₁.heap.StandsAt result₁ w₁.addr place ↔ w₂.heap.StandsAt result₂ w₂.addr place) ∧
    ¬ w₁.heap.Holds w₁.value w₁.addr ∧ ¬ w₂.heap.Holds w₂.value w₂.addr) ∨
  (w₁.ChangesNothing ∧ w₂.ChangesNothing)

section TwoLoops

variable {jmespath : JMESPath} {find : Find} {context₁ result₁ context₂ result₂ : PyValue}

-- Writes to dictionaries that stand at one and the same place.
theorem Write.alike_of_once {w₁ w₂ : Write} {place : List Nat}
    (h₁ : (¬ w₁.heap.Holds context₁ w₁.addr ∧ ¬ w₁.heap.Holds w₁.value w₁.addr) ∧
      ∀ p, w₁.heap.StandsAt result₁ w₁.addr p ↔ p = place)
    (h₂ : (¬ w₂.heap.Holds context₂ w₂.addr ∧ ¬ w₂.heap.Holds w₂.value w₂.addr) ∧
      ∀ p, w₂.heap.StandsAt result₂ w₂.addr p ↔ p = place) :
    w₁.Alike w₂ context₁ result₁ context₂ result₂ :=
  .inl ⟨fun p => ⟨fun h => absurd ⟨p, h⟩ h₁.1.1, fun h => absurd ⟨p, h⟩ h₂.1.1⟩,
    fun p => (h₁.2 p).trans (h₂.2 p).symm, h₁.1.2, h₂.1.2⟩

-- Such writes leave values with one document with one document.
theorem Write.Alike.contents {w₁ w₂ : Write} (h : w₁.Alike w₂ context₁ result₁ context₂ result₂)
    (hkey : w₁.key = w₂.key) (hmore : w₁.more = w₂.more) {u x : Json}
    (hu₁ : w₁.heap.Contents (.ref w₁.addr) u) (hu₂ : w₂.heap.Contents (.ref w₂.addr) u)
    {entries₁ entries₂ : List (String × PyValue)} (ho₁ : w₁.heap[w₁.addr]? = some (.dict entries₁))
    (ho₂ : w₂.heap[w₂.addr]? = some (.dict entries₂)) (hx₁ : w₁.heap.Contents w₁.value x)
    (hx₂ : w₂.heap.Contents w₂.value x) {j r : Json} (hj₁ : w₁.heap.Contents context₁ j)
    (hj₂ : w₂.heap.Contents context₂ j) (hr₁ : w₁.heap.Contents result₁ r)
    (hr₂ : w₂.heap.Contents result₂ r) :
    (∃ j', w₁.after.Contents context₁ j' ∧ w₂.after.Contents context₂ j') ∧
      ∃ r', w₁.after.Contents result₁ r' ∧ w₂.after.Contents result₂ r' := by
  rcases h with ⟨hcontext, hresult, hout₁, hout₂⟩ | ⟨hnothing₁, hnothing₂⟩
  · obtain ⟨kvs, rfl, hkvs₁⟩ := (Heap.contents_dict_iff ho₁).mp hu₁
    obtain ⟨kvs', heq, hkvs₂⟩ := (Heap.contents_dict_iff ho₂).mp hu₂
    cases heq
    have hcell : ∀ v₁ v₂, pyLayout.addr? v₁ = some w₁.addr → pyLayout.addr? v₂ = some w₂.addr →
        ∃ u, w₁.after.Contents v₁ u ∧ w₂.after.Contents v₂ u := by
      intro v₁ v₂ hv₁ hv₂
      rw [PyValue.addr?_eq_some_iff.mp hv₁, PyValue.addr?_eq_some_iff.mp hv₂]
      refine ⟨_, Write.contents_cell ho₁ hkvs₁ hx₁ hout₁, ?_⟩
      rw [hkey, hmore]
      exact Write.contents_cell ho₂ hkvs₂ hx₂ hout₂
    exact ⟨hj₁.write_agree w₁.agreeOff w₂.agreeOff hcell hj₂ hcontext,
      hr₁.write_agree w₁.agreeOff w₂.agreeOff hcell hr₂ hresult⟩
  · exact ⟨⟨j, hnothing₁.contents ho₁ hj₁, hnothing₂.contents ho₂ hj₂⟩,
      r, hnothing₁.contents ho₁ hr₁, hnothing₂.contents ho₂ hr₂⟩

-- Two loops over one config, while their writes are alike.
theorem transformLoop_agree (hfind : jmespath.Finds find) (config : Dict) {heap₁ heap₂ : Heap}
    {j r : Json} (hj₁ : heap₁.Contents context₁ j) (hj₂ : heap₂.Contents context₂ j)
    (hr₁ : heap₁.Contents result₁ r) (hr₂ : heap₂.Contents result₂ r)
    (halike : ∀ pair ∈ (transformWrites jmespath context₁ result₁ config heap₁).zip
        (transformWrites jmespath context₂ result₂ config heap₂),
      pair.1.Alike pair.2 context₁ result₁ context₂ result₂) :
    (transformLoop jmespath context₁ result₁ config heap₁).1 =
        (transformLoop jmespath context₂ result₂ config heap₂).1 ∧
      ∃ r', (transformLoop jmespath context₁ result₁ config heap₁).2.Contents result₁ r' ∧
        (transformLoop jmespath context₂ result₂ config heap₂).2.Contents result₂ r' := by
  induction config generalizing heap₁ heap₂ j r with
  | nil => exact ⟨rfl, r, hr₁, hr₂⟩
  | cons item rest ih =>
      rcases transformLoop_cons jmespath context₁ result₁ item heap₁ with
        ⟨e, hsearch₁, hturn₁⟩ | ⟨value₁, new₁, hsearch₁, hcase₁⟩
      · -- The searches raise.
        have hfound := hfind.error hj₁ hsearch₁
        rcases transformLoop_cons jmespath context₂ result₂ item heap₂ with
          ⟨e', hsearch₂, hturn₂⟩ | ⟨value₂, new₂, hsearch₂, -⟩
        · obtain rfl := Except.error.inj (hfound.symm.trans (hfind.error hj₂ hsearch₂))
          rw [(hturn₁ rest).1, (hturn₂ rest).1]
          exact ⟨rfl, r, hr₁, hr₂⟩
        · obtain ⟨x, hx, -⟩ := hfind.value hj₂ hsearch₂
          cases hfound.symm.trans hx
      · obtain ⟨x, hx, hx₁⟩ := hfind.value hj₁ hsearch₁
        rcases transformLoop_cons jmespath context₂ result₂ item heap₂ with
          ⟨e, hsearch₂, -⟩ | ⟨value₂, new₂, hsearch₂, hcase₂⟩
        · cases (hfind.error hj₂ hsearch₂).symm.trans hx
        obtain ⟨x', hx', hx₂⟩ := hfind.value hj₂ hsearch₂
        obtain rfl := Except.ok.inj (hx.symm.trans hx')
        have hj₁' := hj₁.append new₁
        have hj₂' := hj₂.append new₂
        have hr₁' := hr₁.append new₁
        have hr₂' := hr₂.append new₂
        rcases hcase₁ with ⟨e, htarget₁, hset₁, hturn₁⟩ | ⟨w₁, hheap₁, rfl, htarget₁, hturn₁⟩
        · -- The walks raise.
          obtain ⟨e', hset, hset₂⟩ := setKeys_error_agree (splitPath_ne_nil item.1) hr₁' hr₂'
            htarget₁ value₁ value₂
          rcases hcase₂ with ⟨e'', -, hset₂', hturn₂⟩ | ⟨w₂, hheap₂, rfl, htarget₂, -⟩
          · rw [(hturn₁ rest).1, (hturn₂ rest).1]
            rw [setNested, hset] at hset₁
            rw [setNested, hset₂] at hset₂'
            cases hset₁
            cases hset₂'
            exact ⟨rfl, r, hr₁', hr₂'⟩
          · rw [hheap₂] at htarget₂
            rw [setKeys_eq_write htarget₂] at hset₂
            cases hset₂
        · rw [← hheap₁] at hj₁' hr₁' hx₁
          obtain ⟨a₂, hagree, -, u, hu₁, hu₂⟩ := target_agree hr₁' hr₂' htarget₁
          rcases hcase₂ with ⟨e, htarget₂, -⟩ | ⟨w₂, hheap₂, rfl, htarget₂, hturn₂⟩
          · rw [hagree] at htarget₂
            cases htarget₂
          · rw [← hheap₂] at hj₂' hr₂' hx₂ hagree hu₂
            rw [htarget₂, Option.some.injEq, Prod.mk.injEq, Prod.mk.injEq] at hagree
            obtain ⟨haddr, hkey, hmore⟩ := hagree
            rw [← haddr] at hu₂
            obtain ⟨entries₁, ho₁, -⟩ := Heap.target_isDict htarget₁
            obtain ⟨entries₂, ho₂, -⟩ := Heap.target_isDict htarget₂
            rw [(hturn₁ rest).2, (hturn₂ rest).2, List.zip_cons_cons] at halike
            obtain ⟨⟨j', hj₁'', hj₂''⟩, r', hr₁'', hr₂''⟩ :=
              (halike (w₁, w₂) List.mem_cons_self).contents hkey.symm hmore.symm hu₁ hu₂ ho₁ ho₂
                hx₁ hx₂ hj₁' hj₂' hr₁' hr₂'
            rw [(hturn₁ rest).1, (hturn₂ rest).1]
            exact ih hj₁'' hj₂'' hr₁'' hr₂'' fun pair hpair =>
              halike pair (List.mem_cons_of_mem _ hpair)

end TwoLoops

/-! ## 4. Paths that are apart from the destinations -/

/-- Every cell of the first heap is one of its kind in the second. -/
def Heap.KeepsKinds (heap heap' : Heap) : Prop :=
  ∀ (a : Nat) (o : PyObject), heap[a]? = some o →
    ∃ o' : PyObject, heap'[a]? = some o' ∧ o'.node [] = o.node []

theorem Heap.KeepsKinds.trans {heap heap' heap'' : Heap} (h : heap.KeepsKinds heap')
    (h' : heap'.KeepsKinds heap'') : heap.KeepsKinds heap'' := by
  intro a o ho
  obtain ⟨o', ho', hkind⟩ := h a o ho
  obtain ⟨o'', ho'', hkind'⟩ := h' a o' ho'
  exact ⟨o'', ho'', hkind'.trans hkind⟩

theorem Heap.keepsKinds_append (heap new : Heap) : heap.KeepsKinds (heap ++ new) :=
  fun _ o ho => ⟨o, (List.getElem?_append_left (List.getElem?_eq_some_iff.mp ho).1).trans ho, rfl⟩

theorem Write.keepsKinds {w : Write} {entries : List (String × PyValue)}
    (ho : w.heap[w.addr]? = some (.dict entries)) : w.heap.KeepsKinds w.after := by
  intro a o ha
  by_cases haddr : a = w.addr
  · subst haddr
    rw [ho] at ha
    cases ha
    exact ⟨_, Write.cell_after ho, by simp [PyObject.node]⟩
  · exact ⟨o, (w.agreeOff a (List.getElem?_eq_some_iff.mp ha).1 haddr).trans ha, rfl⟩

-- The root of a document is seen in the value and in the kind of its cell.
theorem head_eq_of_keepsKinds {heap heap' : Heap} (hkinds : heap.KeepsKinds heap') {v : PyValue}
    {x x' : Json} (h : heap.Contents v x) (h' : heap'.Contents v x') : x.head = x'.head := by
  cases h with
  | leaf hnone =>
      cases h' with
      | leaf => rfl
      | node ha => rw [hnone] at ha; cases ha
  | @node _ a o xs ha ho _ _ =>
      cases h' with
      | leaf hnone => rw [hnone] at ha; cases ha
      | @node _ a' o' xs' ha' ho' _ _ =>
          obtain rfl := Option.some.inj (ha.symm.trans ha')
          obtain ⟨o'', ho'', hkind⟩ := hkinds a o ho
          rw [ho'] at ho''
          cases ho''
          have hhead : ∀ (p : PyObject) ys, (p.node ys).head = p.node [] := by
            intro p ys
            cases p <;> simp [PyObject.node, Json.head]
          rw [pyLayout_node, pyLayout_node, hhead, hhead, hkind]

-- The loop changes nothing at such a path.
theorem transformLoop_apart {jmespath : JMESPath} (hinside : jmespath.StaysInside)
    {context result : PyValue} (config : Dict) {heap : Heap} {done : List (List Step)}
    {S : Set Nat} (h : Tracks heap context result done S) :
    heap.KeepsKinds (transformLoop jmespath context result config heap).2 ∧
      ∀ path, (∀ d ∈ done, Apart path d) → ApartFrom config path →
        (transformLoop jmespath context result config heap).2.valueAt result path =
          heap.valueAt result path := by
  induction config generalizing heap done S with
  | nil => exact ⟨fun _ o ho => ⟨o, ho, rfl⟩, fun _ _ _ => rfl⟩
  | cons item rest ih =>
      rcases transformLoop_cons jmespath context result item heap with
        ⟨e, -, hturn⟩ | ⟨value, new, hsearch, hcase⟩
      · rw [(hturn rest).1]
        exact ⟨fun _ o ho => ⟨o, ho, rfl⟩, fun _ _ _ => rfl⟩
      · obtain ⟨hnew, hvalue, hpaths⟩ := h.search hinside hsearch
        rcases hcase with ⟨e, -, -, hturn⟩ | ⟨w, hheap, rfl, htarget, hturn⟩
        · rw [(hturn rest).1]
          exact ⟨heap.keepsKinds_append new, fun path _ _ => hpaths path⟩
        · have happend := heap.keepsKinds_append new
          rw [← hheap] at hnew hvalue hpaths happend
          obtain ⟨entries, ho, -⟩ := Heap.target_isDict htarget
          obtain ⟨hkinds, hrest⟩ := ih (hnew.after htarget hvalue)
          rw [(hturn rest).1]
          refine ⟨(happend.trans (Write.keepsKinds ho)).trans hkinds, fun path hdone hapart => ?_⟩
          have hitem := hapart item List.mem_cons_self
          have hafter := hnew.valueAt_after_apart htarget (fun d hd => (hdone d hd).2) hitem
          rw [hrest path ?_ fun item' hitem' => hapart item' (List.mem_cons_of_mem _ hitem'),
            hafter, hpaths]
          intro d hd
          rcases List.mem_cons.mp hd with rfl | hd
          · exact hitem
          · exact hdone d hd

/-- A transform of a decoded context changes no value at a path that is apart from its
destinations. -/
theorem applyTransform_apart {jmespath : JMESPath} (hinside : jmespath.StaysInside) (j : Json)
    {config : Dict} {outcome : Except PyExc Unit} {result : PyValue} {heap : Heap}
    (happly : applyTransform jmespath config (Heap.load [] j).2 (Heap.load [] j).1 =
      (outcome, result, heap)) {j' : Json} (hj' : heap.toJson result = .ok j') {path : List Step}
    (hapart : ApartFrom config path) :
    Option.Rel Json.Same (j.valueAt path) (j'.valueAt path) := by
  obtain ⟨-, hcopy⟩ := Heap.deepcopy_contents (Heap.load_contents [] j)
  obtain ⟨hkinds, hpaths⟩ :=
    transformLoop_apart hinside config (Tracks.start j)
  rw [applyTransform_eq, Prod.mk.injEq, Prod.mk.injEq] at happly
  obtain ⟨-, rfl, rfl⟩ := happly
  have hresult := Heap.toJson_eq_ok_iff.mp hj'
  refine Json.same_valueAt path fun below => ?_
  have hbelow : ApartFrom config (path ++ below) :=
    fun item hitem => (hapart item hitem).append below
  have hv := Heap.contents_valueAt hcopy (path ++ below)
  have hv' := Heap.contents_valueAt hresult (path ++ below)
  have hsame := hpaths (path ++ below) (fun d hd => nomatch hd) hbelow
  rw [hsame] at hv'
  rw [Json.headAt, Json.headAt]
  revert hv hv'
  generalize ((Heap.load [] j).2.deepcopy (Heap.load [] j).1).2.valueAt _ (path ++ below) = v
  generalize j.valueAt (path ++ below) = o
  generalize j'.valueAt (path ++ below) = o'
  rintro (hx | -) (hx' | -)
  · exact congrArg some (head_eq_of_keepsKinds hkinds hx hx')
  · rfl

/-! ## 5. Runs -/

/-- In both runs of the configs, each write has the same effect. -/
def RunsAlike (jmespath : JMESPath) : List Dict → Heap → PyValue → Json → Prop
  | [], _, _, _ => True
  | config :: rest, heap, context, j =>
      (∀ pair ∈ (applyWrites jmespath config (Heap.load [] j).2 (Heap.load [] j).1).zip
          (applyWrites jmespath config heap context),
        pair.1.Alike pair.2 (Heap.load [] j).1 ((Heap.load [] j).2.deepcopy (Heap.load [] j).1).1
          context (heap.deepcopy context).1) ∧
      match applyTransform jmespath config heap context with
      | (.ok (), result, heap) => ∀ j', heap.toJson result = .ok j' →
          RunsAlike jmespath rest heap result j'
      | (.error _, _, _) => True

/-- While the writes have the same effect in memory and on the stored document, both runs give the
same documents, and no step changes a value apart from its destinations. -/
theorem memorySteps_eq_storedSteps {jmespath : JMESPath} {find : Find}
    (hfind : jmespath.Finds find) (hinside : jmespath.StaysInside) (configs : List Dict)
    {heap : Heap} {context : PyValue} {j : Json} (hj : heap.toJson context = .ok j)
    (halike : RunsAlike jmespath configs heap context j) :
    memorySteps jmespath configs heap context = storedSteps jmespath configs j ∧
      LeavesOthers configs j (memorySteps jmespath configs heap context) := by
  induction configs generalizing heap context j with
  | nil => exact ⟨rfl, trivial⟩
  | cons config rest ih =>
      obtain ⟨hwrites, hrest⟩ := halike
      obtain ⟨hstored, hstoredCopy⟩ := Heap.deepcopy_contents (Heap.load_contents [] j)
      obtain ⟨hmemory, hmemoryCopy⟩ := Heap.deepcopy_contents (Heap.toJson_eq_ok_iff.mp hj)
      obtain ⟨houtcome, j', hj₁, hj₂⟩ :=
        transformLoop_agree hfind config hstored hmemory hstoredCopy hmemoryCopy hwrites
      have hjson₁ := Heap.toJson_eq_ok_iff.mpr hj₁
      have hjson₂ := Heap.toJson_eq_ok_iff.mpr hj₂
      have hframe : ∀ path, ApartFrom config path →
          Option.Rel Json.Same (j.valueAt path) (j'.valueAt path) := fun path hapart =>
        applyTransform_apart hinside j (applyTransform_eq jmespath config _ _) hjson₁ hapart
      simp only [memorySteps, storedSteps, applyTransform_eq, houtcome] at hrest ⊢
      cases hok : (transformLoop jmespath context (heap.deepcopy context).1 config
          (heap.deepcopy context).2).1 with
      | error e => exact ⟨rfl, trivial⟩
      | ok u =>
          simp only [hok] at hrest
          obtain ⟨hsteps, hothers⟩ := ih hjson₂ (hrest j' hjson₂)
          simp only [hjson₁, hjson₂, hsteps]
          exact ⟨trivial, hframe, hsteps ▸ hothers⟩

-- The second config finds what the first one has put at two places, and writes beside it.
theorem memorySteps_eq_storedSteps_sharedValue :
    memorySteps identifierSearch
        [[("a", .str "agent_1"), ("b", .str "agent_1")], [("c", .str "a")]]
        (Heap.load [] (.obj [("agent_1", .obj [])])).2
        (Heap.load [] (.obj [("agent_1", .obj [])])).1 =
      storedSteps identifierSearch
        [[("a", .str "agent_1"), ("b", .str "agent_1")], [("c", .str "a")]]
        (.obj [("agent_1", .obj [])]) ∧
    LeavesOthers [[("a", .str "agent_1"), ("b", .str "agent_1")], [("c", .str "a")]]
      (.obj [("agent_1", .obj [])])
      (memorySteps identifierSearch
        [[("a", .str "agent_1"), ("b", .str "agent_1")], [("c", .str "a")]]
        (Heap.load [] (.obj [("agent_1", .obj [])])).2
        (Heap.load [] (.obj [("agent_1", .obj [])])).1) := by
  have hj := Heap.load_contents [] (.obj [("agent_1", .obj [])])
  have hx : (Heap.load [] (.obj [("agent_1", .obj [])])).2.Contents (.ref 0) (.obj []) :=
    Heap.toJson_eq_ok_iff.mp rfl
  refine memorySteps_eq_storedSteps identifierSearch_finds identifierSearch_staysInside _
    (Heap.toJson_eq_ok_iff.mpr hj)
    ⟨fun pair hpair => ?_, fun j' hj' => ⟨fun pair hpair => ?_, fun _ _ => trivial⟩⟩
  · have hpair : pair ∈ [((⟨_, 3, "a", [], .ref 0⟩ : Write), (⟨_, 3, "a", [], .ref 0⟩ : Write)),
        (⟨_, 3, "b", [], .ref 0⟩, ⟨_, 3, "b", [], .ref 0⟩)] := hpair
    rcases List.mem_pair.mp hpair with rfl | rfl
    · have htop := Write.standsAt_top (w := ⟨_, 3, "a", [], .ref 0⟩) _ _
        [.dict [], .dict [("agent_1", .ref 2)]] rfl hj hx (by decide)
        (Heap.toJson_eq_ok_iff.mp rfl)
      exact Write.alike_of_once htop htop
    · have htop := Write.standsAt_top (w := ⟨_, 3, "b", [], .ref 0⟩) _ _
        [.dict [], .dict [("agent_1", .ref 2), ("a", .ref 0)]] rfl hj hx (by decide)
        (Heap.toJson_eq_ok_iff.mp rfl)
      exact Write.alike_of_once htop htop
  · have hj' : (.ok (.obj [("agent_1", .obj []), ("a", .obj []), ("b", .obj [])]) :
        Except PyExc Json) = .ok j' := hj'
    obtain rfl := Except.ok.inj hj'
    have hpair : pair ∈
        [((⟨_, 7, "c", [], .ref 1⟩ : Write), (⟨_, 7, "c", [], .ref 0⟩ : Write))] := hpair
    rw [List.mem_singleton] at hpair
    subst hpair
    have hstored := Write.standsAt_top (w := ⟨_, 7, "c", [], .ref 1⟩) _
      [.dict [], .dict [], .dict [], .dict [("agent_1", .ref 0), ("a", .ref 1), ("b", .ref 2)]]
      [.dict [], .dict [], .dict [], .dict [("agent_1", .ref 4), ("a", .ref 5), ("b", .ref 6)]]
      rfl (Heap.load_contents [] (.obj [("agent_1", .obj []), ("a", .obj []), ("b", .obj [])]))
      (Heap.toJson_eq_ok_iff.mp rfl) (by decide) (Heap.toJson_eq_ok_iff.mp rfl)
    -- In memory, `a` and `b` are one dictionary, and so are their copies.
    have hmemory := Write.standsAt_top (w := ⟨_, 7, "c", [], .ref 0⟩) (.ref 3)
      [.dict [], .dict [("agent_1", .ref 0)], .dict [],
        .dict [("agent_1", .ref 2), ("a", .ref 0), ("b", .ref 0)]]
      [.dict [], .dict [("agent_1", .ref 4)], .dict [],
        .dict [("agent_1", .ref 6), ("a", .ref 4), ("b", .ref 4)]]
      rfl (Heap.toJson_eq_ok_iff.mp rfl) (Heap.toJson_eq_ok_iff.mp rfl) (by decide)
      (Heap.toJson_eq_ok_iff.mp rfl)
    exact Write.alike_of_once hstored hmemory

-- The second config writes below one of two places that hold one dictionary.
theorem memorySteps_ne_storedSteps_belowShared :
    memorySteps identifierSearch [[("a", .str "c"), ("b", .str "c")], [("a.x", .str "d")]]
        (Heap.load [] (.obj [("c", .obj []), ("d", .int 1)])).2
        (Heap.load [] (.obj [("c", .obj []), ("d", .int 1)])).1 ≠
      storedSteps identifierSearch [[("a", .str "c"), ("b", .str "c")], [("a.x", .str "d")]]
        (.obj [("c", .obj []), ("d", .int 1)]) ∧
    ¬ LeavesOthers [[("a", .str "c"), ("b", .str "c")], [("a.x", .str "d")]]
      (.obj [("c", .obj []), ("d", .int 1)])
      (memorySteps identifierSearch [[("a", .str "c"), ("b", .str "c")], [("a.x", .str "d")]]
        (Heap.load [] (.obj [("c", .obj []), ("d", .int 1)])).2
        (Heap.load [] (.obj [("c", .obj []), ("d", .int 1)])).1) := by
  constructor
  · intro h
    have hx := congrArg (fun steps => (steps[1]?.bind fun step => step.toOption.bind fun j =>
      j.headAt [.key "b", .key "x"]).isSome) h
    revert hx
    decide
  · rintro ⟨-, h, -⟩
    have hx := h [.key "b", .key "x"] (by unfold ApartFrom Apart; decide)
    cases hx

end ConstructorPlatform
