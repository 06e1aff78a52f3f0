import ConstructorPlatform.PlatformApi.Copies

/-!
# DisjointMappings — configs whose destinations do not meet

When no destination is a prefix of another one, every walk of `_set_nested` stays in the cells of
the result, so the transform is a simultaneous assignment and the order of the config does not
matter: `applyTransform_perm`.
-/

namespace ConstructorPlatform

open Reasoning

variable {jmespath : JMESPath} {find : Find} {context result : PyValue}

-- Walks that go through no earlier destination end in the result.
theorem clean_of_apart (hinside : jmespath.StaysInside) {config : Dict} {heap : Heap}
    {done : List (List Step)} {S : Set Nat} (h : Tracks heap context result done S)
    (hapart : config.Pairwise DestinationsApart)
    (hdone : ∀ item ∈ config, ∀ d ∈ done, Apart d ((splitPath item.1).map .key)) :
    ∀ w ∈ transformWrites jmespath context result config heap, w.Clean context result := by
  induction config generalizing heap done S with
  | nil => exact fun w hw => nomatch hw
  | cons item rest ih =>
      rcases transformLoop_cons jmespath context result item heap with
        ⟨e, -, hturn⟩ | ⟨value, new, hsearch, ⟨e, -, -, hturn⟩ | ⟨w, hheap, rfl, htarget, hturn⟩⟩
      · rw [(hturn rest).2]
        exact fun w hw => nomatch hw
      · rw [(hturn rest).2]
        exact fun w hw => nomatch hw
      · obtain ⟨hnew, hvalue, -⟩ := h.search hinside hsearch
        rw [← hheap] at hnew hvalue
        have hclean : w.Clean context result := by
          refine .inl (hnew.stands_once htarget (fun d hd hbegin => ?_) hvalue)
          refine (hdone item List.mem_cons_self d hd).1 (hbegin.trans ?_)
          exact (List.dropLast_prefix _).map _
        obtain ⟨hitem, hrest⟩ := List.pairwise_cons.mp hapart
        have hafter := ih (hnew.after htarget hvalue) hrest fun item' hitem' d hd => by
          rcases List.mem_cons.mp hd with rfl | hd
          · exact (hitem item' hitem').map_key
          · exact hdone item' (List.mem_cons_of_mem _ hitem') d hd
        rw [(hturn rest).2]
        intro w' hw'
        rcases List.mem_cons.mp hw' with rfl | hw'
        · exact hclean
        · exact hafter w' hw'

-- The outcome of a transform of a decoded context whose destinations do not meet.
theorem applyTransform_of_apart (hfind : jmespath.Finds find) (hinside : jmespath.StaysInside)
    (j : Json) {config : Dict} (hapart : config.Pairwise DestinationsApart) :
    match applyTransform jmespath config (Heap.load [] j).2 (Heap.load [] j).1 with
    | (.ok (), result, heap) =>
        ∃ r, simultaneous find config j = some r ∧ heap.toJson result = .ok r
    | (.error _, _, _) => simultaneous find config j = none := by
  obtain ⟨hcontext, hresult⟩ := Heap.deepcopy_contents (Heap.load_contents [] j)
  have hclean := clean_of_apart hinside (Tracks.start j) hapart fun item _ d hd => nomatch hd
  have hloop := transformLoop_of_clean hfind config hcontext hresult hclean
  unfold applyTransform
  rcases hloop.2 with ⟨hok, r, hr, hresult'⟩ | ⟨⟨e, he⟩, hnone⟩
  · simp only [hok]
    exact ⟨r, hr, Heap.toJson_eq_ok_iff.mpr hresult'⟩
  · simp only [he]
    exact hnone

/-- Two calls of `apply_transform` raise both, or return contexts that are equal as unordered
objects. -/
def SameOutcome : Except PyExc Unit × PyValue × Heap → Except PyExc Unit × PyValue × Heap → Prop
  | (.ok (), result, heap), (.ok (), result', heap') =>
      ∃ r r', heap.toJson result = .ok r ∧ heap'.toJson result' = .ok r' ∧ r.Same r'
  | (.error _, _, _), (.error _, _, _) => True
  | _, _ => False

/-- The order of a config whose destinations are no prefixes of one another does not matter. -/
theorem applyTransform_perm (hfind : jmespath.Finds find) (hinside : jmespath.StaysInside)
    (j : Json) {config config' : Dict} (hperm : config.Perm config')
    (hapart : config.Pairwise DestinationsApart) :
    SameOutcome (applyTransform jmespath config (Heap.load [] j).2 (Heap.load [] j).1)
      (applyTransform jmespath config' (Heap.load [] j).2 (Heap.load [] j).1) := by
  have hapart' : config'.Pairwise DestinationsApart :=
    (hperm.pairwise_iff fun {_ _} h => Apart.symm h).mp hapart
  have hout := applyTransform_of_apart hfind hinside j hapart
  have hout' := applyTransform_of_apart hfind hinside j hapart'
  have hsame := simultaneous_perm find hperm hapart j
  revert hout hout'
  generalize applyTransform jmespath config (Heap.load [] j).2 (Heap.load [] j).1 = out
  generalize applyTransform jmespath config' (Heap.load [] j).2 (Heap.load [] j).1 = out'
  obtain ⟨outcome, result, heap⟩ := out
  obtain ⟨outcome', result', heap'⟩ := out'
  cases outcome <;> cases outcome' <;> intro hout hout'
  · trivial
  · obtain ⟨r, hr, -⟩ := hout'
    rw [hr, show simultaneous find config j = none from hout] at hsame
    cases hsame
  · obtain ⟨r, hr, -⟩ := hout
    rw [hr, show simultaneous find config' j = none from hout'] at hsame
    cases hsame
  · obtain ⟨r, hr, hresult⟩ := hout
    obtain ⟨r', hr', hresult'⟩ := hout'
    rw [hr, hr'] at hsame
    cases hsame with
    | some hsame => exact ⟨r, r', hresult, hresult', hsame⟩

-- `test_transform_multiple_fields` in both orders.
theorem applyTransform_perm_multipleFields :
    SameOutcome
      (applyTransform identifierSearch
        [("report.title", .str "name"), ("report.score", .str "score")]
        (Heap.load [] (.obj [("name", .str "Policy #123"), ("score", .float (21 / 50))])).2
        (Heap.load [] (.obj [("name", .str "Policy #123"), ("score", .float (21 / 50))])).1)
      (applyTransform identifierSearch
        [("report.score", .str "score"), ("report.title", .str "name")]
        (Heap.load [] (.obj [("name", .str "Policy #123"), ("score", .float (21 / 50))])).2
        (Heap.load [] (.obj [("name", .str "Policy #123"), ("score", .float (21 / 50))])).1) :=
  applyTransform_perm identifierSearch_finds identifierSearch_staysInside _ (List.Perm.swap _ _ _)
    (by
      refine List.pairwise_pair.mpr ?_
      unfold DestinationsApart Apart
      decide)

end ConstructorPlatform
