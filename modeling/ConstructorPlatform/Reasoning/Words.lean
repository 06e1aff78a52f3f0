import Mathlib.Data.List.Basic
import Mathlib.Data.List.Chain

/-!
# Words — whole words in a text that is made of pieces

A word stands in a text where it is bounded by the ends of the text or by characters that belong to
no word.  In a text whose pieces are not glued together the words are those of the pieces:
`standsIn_flatten`.
-/

namespace Reasoning

variable {α : Type*} (isWord : α → Bool)

/-- No word goes on from the first text into the second. -/
def Breaks (text text' : List α) : Prop :=
  ∀ c, text.getLast? = some c → ∀ d, text'.head? = some d → isWord c = false ∨ isWord d = false

/-- A whole word that satisfies `P` stands in the text. -/
def StandsIn (P : List α → Prop) (text : List α) : Prop :=
  ∃ before word after, text = before ++ word ++ after ∧ P word ∧ Breaks isWord before word ∧
    Breaks isWord word after

/-- `P` is true of words only. -/
def OfWords (P : List α → Prop) : Prop :=
  ∀ word, P word → word ≠ [] ∧ ∀ c ∈ word, isWord c = true

variable {isWord} {P : List α → Prop}

theorem breaks_nil_left (text : List α) : Breaks isWord [] text := nofun

theorem breaks_nil_right (text : List α) : Breaks isWord text [] := fun _ _ _ h => nomatch h

-- What stands farther away does not matter.
theorem breaks_append_right {text text' : List α} (hne : text' ≠ []) (more : List α) :
    Breaks isWord text (text' ++ more) ↔ Breaks isWord text text' := by
  rw [Breaks, Breaks, List.head?_append_of_ne_nil _ hne]

theorem breaks_append_left {text text' : List α} (hne : text ≠ []) (more : List α) :
    Breaks isWord (more ++ text) text' ↔ Breaks isWord text text' := by
  rw [Breaks, Breaks, List.getLast?_append_of_ne_nil _ hne]

-- Words do not break off inside.
theorem not_breaks {text text' : List α} (hne : text ≠ []) (hne' : text' ≠ [])
    (hword : ∀ c ∈ text, isWord c = true) (hword' : ∀ c ∈ text', isWord c = true) :
    ¬ Breaks isWord text text' := by
  intro h
  rcases h _ (List.getLast?_eq_some_getLast hne) _ (List.head?_eq_some_head hne') with h | h
  · rw [hword _ (List.getLast_mem hne)] at h
    cases h
  · rw [hword' _ (List.head_mem hne')] at h
    cases h

theorem StandsIn.append_right {text text' : List α} (hP : OfWords isWord P)
    (hbreak : Breaks isWord text text') (h : StandsIn isWord P text) :
    StandsIn isWord P (text ++ text') := by
  obtain ⟨before, word, after, rfl, hword, hbefore, hafter⟩ := h
  obtain ⟨hne, -⟩ := hP word hword
  refine ⟨before, word, after ++ text', by simp, hword, hbefore, ?_⟩
  cases after with
  | nil =>
      rw [List.append_nil, breaks_append_left hne] at hbreak
      exact hbreak
  | cons c after => exact (breaks_append_right (List.cons_ne_nil _ _) _).mpr hafter

theorem StandsIn.append_left {text text' : List α} (hP : OfWords isWord P)
    (hbreak : Breaks isWord text text') (h : StandsIn isWord P text') :
    StandsIn isWord P (text ++ text') := by
  obtain ⟨before, word, after, rfl, hword, hbefore, hafter⟩ := h
  obtain ⟨hne, -⟩ := hP word hword
  refine ⟨text ++ before, word, after, by simp, hword, ?_, hafter⟩
  cases before with
  | nil =>
      rw [List.nil_append, breaks_append_right hne] at hbreak
      rw [List.append_nil]
      exact hbreak
  | cons c before => exact (breaks_append_left (List.cons_ne_nil _ _) _).mpr hbefore

/-- A whole word of two texts that are not glued together stands in one of them. -/
theorem standsIn_append {text text' : List α} (hP : OfWords isWord P)
    (hbreak : Breaks isWord text text') :
    StandsIn isWord P (text ++ text') ↔ StandsIn isWord P text ∨ StandsIn isWord P text' := by
  refine ⟨?_, fun h => h.elim (StandsIn.append_right hP hbreak) (StandsIn.append_left hP hbreak)⟩
  rintro ⟨before, word, after, heq, hword, hbefore, hafter⟩
  obtain ⟨hne, hchars⟩ := hP word hword
  rcases List.append_eq_append_iff.mp heq with ⟨u, hu, rfl⟩ | ⟨u, rfl, hu⟩
  · rcases List.append_eq_append_iff.mp hu with ⟨v, rfl, rfl⟩ | ⟨v, rfl, rfl⟩
    · -- The first text ends in the word: at its start, at its end, or nowhere between them.
      by_cases hv : v = []
      · subst hv
        exact .inr ⟨[], u, after, rfl, hword, breaks_nil_left u, hafter⟩
      by_cases hu : u = []
      · subst hu
        rw [List.append_nil] at hword hbefore hafter
        exact .inl ⟨before, v, [], by simp, hword, hbefore, breaks_nil_right v⟩
      rw [breaks_append_left hv, breaks_append_right hu] at hbreak
      exact absurd hbreak (not_breaks hv hu (fun c hc => hchars c (List.mem_append_left _ hc))
        fun c hc => hchars c (List.mem_append_right _ hc))
    · refine .inr ⟨v, word, after, rfl, hword, ?_, hafter⟩
      cases v with
      | nil => exact breaks_nil_left word
      | cons c v => exact (breaks_append_left (List.cons_ne_nil _ _) _).mp hbefore
  · refine .inl ⟨before, word, u, rfl, hword, hbefore, ?_⟩
    cases u with
    | nil => exact breaks_nil_right word
    | cons c u =>
        rw [hu, breaks_append_right (List.cons_ne_nil _ _)] at hafter
        exact hafter

theorem not_standsIn_nil (hP : OfWords isWord P) : ¬ StandsIn isWord P [] := by
  rintro ⟨before, word, after, heq, hword, -, -⟩
  rw [List.append_assoc] at heq
  exact (hP word hword).1 (List.append_eq_nil_iff.mp (List.append_eq_nil_iff.mp heq.symm).2).1

/-- Pieces of which no two neighbours are glued together have the words of their text. -/
theorem standsIn_flatten {pieces : List (List α)} (hP : OfWords isWord P)
    (hne : ∀ piece ∈ pieces, piece ≠ []) (hchain : pieces.IsChain (Breaks isWord)) :
    StandsIn isWord P pieces.flatten ↔ ∃ piece ∈ pieces, StandsIn isWord P piece := by
  induction pieces with
  | nil => simpa using not_standsIn_nil hP
  | cons piece rest ih =>
      have hbreak : Breaks isWord piece rest.flatten := by
        cases rest with
        | nil => exact breaks_nil_right piece
        | cons next rest =>
            rw [List.flatten_cons, breaks_append_right (hne next (by simp))]
            exact (List.isChain_cons_cons.mp hchain).1
      rw [List.flatten_cons, standsIn_append hP hbreak, List.exists_mem_cons_iff,
        ih (fun p hp => hne p (List.mem_cons_of_mem _ hp)) hchain.tail]

/-- In a text that is one word only that word stands. -/
theorem standsIn_word {text : List α} (hP : OfWords isWord P)
    (htext : ∀ c ∈ text, isWord c = true) : StandsIn isWord P text ↔ P text := by
  constructor
  · rintro ⟨before, word, after, rfl, hword, hbefore, hafter⟩
    obtain ⟨hne, hchars⟩ := hP word hword
    have hnil : before = [] := by
      by_contra hb
      exact not_breaks hb hne (fun c hc => htext c (by simp [hc])) hchars hbefore
    have hnil' : after = [] := by
      by_contra ha
      exact not_breaks hne ha hchars (fun c hc => htext c (by simp [hc])) hafter
    subst hnil hnil'
    simpa using hword
  · intro h
    exact ⟨[], text, [], by simp, h, breaks_nil_left text, breaks_nil_right text⟩

end Reasoning
