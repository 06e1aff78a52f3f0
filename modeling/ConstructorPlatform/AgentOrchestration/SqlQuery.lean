import ConstructorPlatform.Value
import ConstructorPlatform.Reasoning.Words

/-!
# SqlQuery — `src/tools/sql_query.py`

`_is_select_only` asks sqlparse for the statements of a query and searches the text of each for a
data-changing or schema-changing word.  The words are searched in the raw text, where they also
stand in literals, names and comments, and neither INTO nor MERGE is among them.
`isSelectOnly_exact_iff` says which queries are sorted rightly all the same.
-/

namespace ConstructorPlatform

open Reasoning

/-! ## 1. `_DML_PATTERN` -/

/-- The alternatives of the pattern. -/
def dmlWords : List String :=
  ["INSERT", "UPDATE", "DELETE", "DROP", "CREATE", "ALTER", "TRUNCATE", "GRANT", "REVOKE", "EXEC",
    "EXECUTE"]

/-- `\w`: ASCII letters, digits and the underscore, and what `str.isalnum` says of the rest. -/
def isWordChar (isAlnum : Char → Bool) (c : Char) : Bool :=
  if c.toNat < 128 then c.isAlphanum || c == '_' else isAlnum c

/-- `\b` between two characters, or at an end of the text. -/
def wordBoundary (isWord : Char → Bool) (before after : Option Char) : Bool :=
  before.any isWord != after.any isWord

/-- `re.IGNORECASE`, as far as it leads to an ASCII letter: beside the capital letters these are the
dotted and the dotless I, the long s and the Kelvin sign. -/
def foldChar (c : Char) : Char :=
  if c.toNat = 0x130 ∨ c.toNat = 0x131 then 'i'
  else if c.toNat = 0x17f then 's'
  else if c.toNat = 0x212a then 'k'
  else c.toLower

/-- The pattern with this alternative matches at the start of the text. -/
def matchesAt (isWord : Char → Bool) (before : Option Char) (text : List Char) (word : String) :
    Bool :=
  let found := text.take word.toList.length
  wordBoundary isWord before text.head? &&
    found.map foldChar == word.toList.map Char.toLower &&
    wordBoundary isWord found.getLast? (text.drop word.toList.length).head?

def searchFrom (isWord : Char → Bool) (before : Option Char) : List Char → Bool
  | [] => false
  | c :: text =>
      dmlWords.any (matchesAt isWord before (c :: text)) || searchFrom isWord (some c) text

/-- `_DML_PATTERN.search`. -/
def dmlSearch (isWord : Char → Bool) (text : String) : Bool := searchFrom isWord none text.toList

/-! ## 2. `_is_select_only` -/

/-- What `_is_select_only` uses of `sqlparse` and of Python's Unicode tables. -/
structure SqlLibraries where
  -- `str.isalnum` of a character that is not ASCII.
  isAlnum : Char → Bool
  Parsed : Type
  parse : String → List Parsed
  getType : Parsed → Option String
  -- `str(stmt)`
  str : Parsed → String

def SqlLibraries.isWord (lib : SqlLibraries) : Char → Bool := isWordChar lib.isAlnum

/-- The characters that `str.strip` takes away. -/
def isSpace (c : Char) : Bool :=
  decide (c.toNat ∈ [0x9, 0xa, 0xb, 0xc, 0xd, 0x1c, 0x1d, 0x1e, 0x1f, 0x20, 0x85, 0xa0, 0x1680,
    0x2000, 0x2001, 0x2002, 0x2003, 0x2004, 0x2005, 0x2006, 0x2007, 0x2008, 0x2009, 0x200a, 0x2028,
    0x2029, 0x202f, 0x205f, 0x3000])

/-- `query.strip()`. -/
def strip (s : String) : String :=
  String.ofList ((s.toList.dropWhile isSpace).reverse.dropWhile isSpace).reverse

/-- `_is_select_only`. -/
def isSelectOnly (lib : SqlLibraries) (query : String) : Bool :=
  let statements := lib.parse (strip query)
  if statements.isEmpty then false
  else
    statements.all fun stmt =>
      (lib.getType stmt == some "SELECT" || lib.getType stmt == none) &&
        !dmlSearch lib.isWord (lib.str stmt)

/-! ## 3. Statements as sequences of tokens -/

inductive SqlToken where
  | keyword (text : String)
  | identifier (text : String)
  | stringLiteral (text : String)
  | quotedIdentifier (text : String)
  | comment (text : String)
  -- White space, numbers, operators, punctuation, parameters.
  | other (text : String)

def SqlToken.text : SqlToken → List Char
  | .keyword text => text.toList
  | .identifier text => text.toList
  | .stringLiteral text => text.toList
  | .quotedIdentifier text => text.toList
  | .comment text => text.toList
  | .other text => text.toList

/-- The keyword with this name, in any case. -/
def SqlToken.isKeyword (name : String) : SqlToken → Bool
  | .keyword text => text.toList.map Char.toLower == name.toList.map Char.toLower
  | _ => false

/-- A statement; no two words stand together without something between them. -/
structure SqlStatement (isWord : Char → Bool) where
  withClause : List SqlToken
  main : List SqlToken
  nonempty : ∀ t ∈ withClause ++ main, t.text ≠ []
  letters : ∀ text, .keyword text ∈ withClause ++ main → ∀ c ∈ text.toList,
    c.isAlpha = true ∨ c = '_'
  separate : ((withClause ++ main).map SqlToken.text).IsChain (Breaks isWord)

namespace SqlStatement

variable {isWord : Char → Bool}

def tokens (s : SqlStatement isWord) : List SqlToken := s.withClause ++ s.main

def text (s : SqlStatement isWord) : String := String.ofList (s.tokens.map SqlToken.text).flatten

def dmlKeywords : List String :=
  ["SELECT", "INSERT", "UPDATE", "DELETE", "MERGE", "REPLACE", "UPSERT"]

/-- The first DML keyword after a WITH clause. -/
def type (s : SqlStatement isWord) : Option String :=
  s.main.findSome? fun t => dmlKeywords.find? fun name => t.isKeyword name

def ddlKeywords : List String := ["CREATE", "ALTER", "DROP"]

/-- What `get_type` says of the statement: its DML keyword, unless a DDL keyword leads or there is
none; then it is another word than SELECT. -/
def TypedAs (s : SqlStatement isWord) (named : Option String) : Prop :=
  (s.type.isSome = true ∧ named = s.type) ∨
    ((s.type = none ∨ ∃ t ∈ s.tokens, ∃ word ∈ ddlKeywords, t.isKeyword word = true) ∧
      named ≠ none ∧ named ≠ some "SELECT")

/-- A SELECT that has no command which changes data or the schema, and creates no table by INTO. -/
def ReadOnly (s : SqlStatement isWord) : Prop :=
  s.type = some "SELECT" ∧
    ∀ t ∈ s.tokens, ∀ name ∈ "INTO" :: "MERGE" :: dmlWords, t.isKeyword name = false

end SqlStatement

theorem ddlKeywords_subset : SqlStatement.ddlKeywords ⊆ dmlWords := by decide

def ReadOnlySelects {isWord : Char → Bool} (statements : List (SqlStatement isWord)) : Prop :=
  statements ≠ [] ∧ ∀ s ∈ statements, s.ReadOnly

/-- sqlparse splits the query into these statements and names their types. -/
structure SqlLibraries.Reads (lib : SqlLibraries) (query : String)
    (statements : List (SqlStatement lib.isWord)) : Prop where
  text : (strip query).toList = (statements.map fun s => s.text.toList).flatten
  parsed : List.Forall₂ (fun stmt s => lib.str stmt = s.text ∧ s.TypedAs (lib.getType stmt))
    (lib.parse (strip query)) statements

/-- The four letters beyond ASCII that the pattern takes for others are alphanumeric. -/
def SqlLibraries.KnowsLetters (lib : SqlLibraries) : Prop :=
  ∀ c : Char, c.toNat ∈ [0x130, 0x131, 0x17f, 0x212a] → lib.isAlnum c = true

/-! ## 4. Where the pattern matches -/

/-- One of the words of the pattern. -/
def IsDmlWord (found : List Char) : Prop :=
  ∃ word ∈ dmlWords, found.map foldChar = word.toList.map Char.toLower

theorem dmlWords_letters : ∀ word ∈ dmlWords, word.toList ≠ [] ∧
    ∀ c ∈ word.toList.map Char.toLower, 97 ≤ c.toNat ∧ c.toNat ≤ 122 := by
  simp [dmlWords]

theorem isAlpha_iff {c : Char} : c.isAlpha = true ↔
    65 ≤ c.toNat ∧ c.toNat ≤ 90 ∨ 97 ≤ c.toNat ∧ c.toNat ≤ 122 := by
  change (decide (c.val ≥ 65 ∧ c.val ≤ 90) || (decide (c.val ≥ 97) && decide (c.val ≤ 122))) =
    true ↔ _
  simp only [Bool.or_eq_true, Bool.and_eq_true, decide_eq_true_eq, ge_iff_le,
    UInt32.le_iff_toNat_le]
  rfl

theorem isAlpha_of_toLower {c : Char} (h : 97 ≤ c.toLower.toNat ∧ c.toLower.toNat ≤ 122) :
    c.isAlpha = true := by
  rw [isAlpha_iff]
  unfold Char.toLower at h
  split at h
  · rename_i hupper
    simp only [ge_iff_le, UInt32.le_iff_toNat_le] at hupper
    exact .inl hupper
  · exact .inr h

section Search

variable {isAlnum : Char → Bool}

theorem isWordChar_of_fold
    (hletters : ∀ c : Char, c.toNat ∈ [0x130, 0x131, 0x17f, 0x212a] → isAlnum c = true) {c : Char}
    (h : 97 ≤ (foldChar c).toNat ∧ (foldChar c).toNat ≤ 122) : isWordChar isAlnum c = true := by
  by_cases hspecial : c.toNat ∈ [0x130, 0x131, 0x17f, 0x212a]
  · have hascii : ¬ c.toNat < 128 := by
      simp only [List.mem_cons, List.not_mem_nil, or_false] at hspecial
      omega
    rw [isWordChar, if_neg hascii]
    exact hletters c hspecial
  · simp only [List.mem_cons, List.not_mem_nil, or_false, not_or] at hspecial
    have hfold : foldChar c = c.toLower := by
      rw [foldChar, if_neg (by omega), if_neg hspecial.2.2.1, if_neg hspecial.2.2.2]
    rw [hfold] at h
    have halpha := isAlpha_of_toLower h
    have hrange := isAlpha_iff.mp halpha
    rw [isWordChar, if_pos (by omega), Char.isAlphanum, halpha]
    rfl

-- What an alternative matches is a word.
theorem isDmlWord_ofWords
    (hletters : ∀ c : Char, c.toNat ∈ [0x130, 0x131, 0x17f, 0x212a] → isAlnum c = true) :
    OfWords (isWordChar isAlnum) IsDmlWord := by
  rintro found ⟨word, hword, hfold⟩
  obtain ⟨hne, hchars⟩ := dmlWords_letters word hword
  refine ⟨?_, fun c hc => isWordChar_of_fold hletters (hchars _ ?_)⟩
  · rintro rfl
    exact hne (List.map_eq_nil_iff.mp hfold.symm)
  · rw [← hfold]
    exact List.mem_map_of_mem hc

variable {isWord : Char → Bool}

theorem matchesAt_iff {before : Option Char} {text : List Char} {word : String} :
    matchesAt isWord before text word = true ↔
      ∃ found after, text = found ++ after ∧ found.map foldChar = word.toList.map Char.toLower ∧
        wordBoundary isWord before text.head? = true ∧
        wordBoundary isWord found.getLast? after.head? = true := by
  simp only [matchesAt, Bool.and_eq_true, beq_iff_eq]
  constructor
  · rintro ⟨⟨hbefore, hfold⟩, hafter⟩
    exact ⟨_, _, (List.take_append_drop _ _).symm, hfold, hbefore, hafter⟩
  · rintro ⟨found, after, rfl, hfold, hbefore, hafter⟩
    have hlength : word.toList.length = found.length := by
      simpa using congrArg List.length hfold.symm
    rw [hlength, List.take_left, List.drop_left]
    exact ⟨⟨hbefore, hfold⟩, hafter⟩

theorem searchFrom_iff (hwords : OfWords isWord IsDmlWord) (before : Option Char)
    (text : List Char) :
    searchFrom isWord before text = true ↔
      ∃ left found after, text = left ++ found ++ after ∧ IsDmlWord found ∧
        wordBoundary isWord (left.getLast?.or before) found.head? = true ∧
        wordBoundary isWord found.getLast? after.head? = true := by
  induction text generalizing before with
  | nil =>
      refine iff_of_false (by simp [searchFrom]) ?_
      rintro ⟨left, found, after, heq, hfound, -⟩
      rw [List.append_assoc] at heq
      exact (hwords found hfound).1
        (List.append_eq_nil_iff.mp (List.append_eq_nil_iff.mp heq.symm).2).1
  | cons c text ih =>
      rw [searchFrom, Bool.or_eq_true, List.any_eq_true, ih]
      constructor
      · rintro (⟨word, hword, hmatch⟩ | ⟨left, found, after, rfl, hfound, hbefore, hafter⟩)
        · obtain ⟨found, after, heq, hfold, hbefore, hafter⟩ := matchesAt_iff.mp hmatch
          have hfound : IsDmlWord found := ⟨word, hword, hfold⟩
          refine ⟨[], found, after, heq, hfound, ?_, hafter⟩
          rwa [heq, List.head?_append_of_ne_nil _ (hwords found hfound).1] at hbefore
        · refine ⟨c :: left, found, after, rfl, hfound, ?_, hafter⟩
          rw [List.getLast?_cons, Option.some_or]
          cases hlast : left.getLast? <;> rw [hlast] at hbefore <;> exact hbefore
      · rintro ⟨left, found, after, heq, hfound, hbefore, hafter⟩
        cases left with
        | nil =>
            obtain ⟨word, hword, hfold⟩ := hfound
            refine .inl ⟨word, hword, matchesAt_iff.mpr ⟨found, after, heq, hfold, ?_, hafter⟩⟩
            rw [heq, List.nil_append,
              List.head?_append_of_ne_nil _ (hwords found ⟨word, hword, hfold⟩).1]
            exact hbefore
        | cons d left =>
            obtain ⟨rfl, rfl⟩ := List.cons_eq_cons.mp heq
            refine .inr ⟨left, found, after, rfl, hfound, ?_, hafter⟩
            rw [List.getLast?_cons, Option.some_or] at hbefore
            cases hlast : left.getLast? <;> rw [hlast] at hbefore <;> exact hbefore

-- At a word the boundaries of the pattern are where no word goes on.
theorem wordBoundary_before {left found : List Char} (hne : found ≠ [])
    (hfound : ∀ c ∈ found, isWord c = true) :
    wordBoundary isWord left.getLast? found.head? = true ↔ Breaks isWord left found := by
  have hhead := hfound _ (List.head_mem hne)
  rw [List.head?_eq_some_head hne, Breaks]
  cases left.getLast? with
  | none => simp [wordBoundary, hhead]
  | some c => simp [wordBoundary, hhead, List.head?_eq_some_head hne]

theorem wordBoundary_after {found after : List Char} (hne : found ≠ [])
    (hfound : ∀ c ∈ found, isWord c = true) :
    wordBoundary isWord found.getLast? after.head? = true ↔ Breaks isWord found after := by
  have hlast := hfound _ (List.getLast_mem hne)
  rw [List.getLast?_eq_some_getLast hne, Breaks]
  cases after.head? with
  | none => simp [wordBoundary, hlast]
  | some c => simp [wordBoundary, hlast, List.getLast?_eq_some_getLast hne]

/-- The pattern is found exactly where one of its words stands. -/
theorem dmlSearch_iff (hwords : OfWords isWord IsDmlWord) (text : String) :
    dmlSearch isWord text = true ↔ StandsIn isWord IsDmlWord text.toList := by
  rw [dmlSearch, searchFrom_iff hwords, StandsIn]
  constructor
  · rintro ⟨left, found, after, heq, hfound, hbefore, hafter⟩
    obtain ⟨hne, hchars⟩ := hwords found hfound
    rw [Option.or_none] at hbefore
    exact ⟨left, found, after, heq, hfound, (wordBoundary_before hne hchars).mp hbefore,
      (wordBoundary_after hne hchars).mp hafter⟩
  · rintro ⟨left, found, after, heq, hfound, hbefore, hafter⟩
    obtain ⟨hne, hchars⟩ := hwords found hfound
    refine ⟨left, found, after, heq, hfound, ?_, (wordBoundary_after hne hchars).mpr hafter⟩
    rw [Option.or_none]
    exact (wordBoundary_before hne hchars).mpr hbefore

end Search

/-! ## 5. Which queries are sorted rightly -/

/-- A word of the pattern stands in a token that is no keyword. -/
def SqlToken.Mentions (isWord : Char → Bool) : SqlToken → Prop
  | .keyword _ => False
  | t => StandsIn isWord IsDmlWord t.text

/-- There is a statement that is no SELECT, or a keyword of the pattern; or INTO and MERGE stand
among the keywords exactly when the words of the pattern stand in other tokens. -/
def SortedRightly {isWord : Char → Bool} (statements : List (SqlStatement isWord)) : Prop :=
  statements = [] ∨ (∃ s ∈ statements, s.type ≠ some "SELECT") ∨
    (∃ s ∈ statements, ∃ t ∈ s.tokens, ∃ word ∈ dmlWords, t.isKeyword word = true) ∨
    ((∃ s ∈ statements, ∃ t ∈ s.tokens, t.isKeyword "INTO" = true ∨ t.isKeyword "MERGE" = true) ↔
      ∃ s ∈ statements, ∃ t ∈ s.tokens, t.Mentions isWord)

section Statements

variable {isAlnum : Char → Bool}

theorem isWordChar_of_letter {c : Char} (h : c.isAlpha = true ∨ c = '_') :
    isWordChar isAlnum c = true := by
  rcases h with h | rfl
  · have hrange := isAlpha_iff.mp h
    rw [isWordChar, if_pos (by omega), Char.isAlphanum, h]
    rfl
  · rfl

-- Keywords are ASCII, where the pattern only ignores the case.
theorem foldChar_of_letter {c : Char} (h : c.isAlpha = true ∨ c = '_') :
    foldChar c = c.toLower := by
  rcases h with h | rfl
  · have hrange := isAlpha_iff.mp h
    rw [foldChar, if_neg (by omega), if_neg (by omega), if_neg (by omega)]
  · rfl

/-- The pattern finds a keyword that is one of its words. -/
theorem standsIn_keyword (hwords : OfWords (isWordChar isAlnum) IsDmlWord) {text : String}
    (hletters : ∀ c ∈ text.toList, c.isAlpha = true ∨ c = '_') :
    StandsIn (isWordChar isAlnum) IsDmlWord text.toList ↔
      ∃ word ∈ dmlWords, (SqlToken.keyword text).isKeyword word = true := by
  rw [standsIn_word hwords fun c hc => isWordChar_of_letter (hletters c hc), IsDmlWord]
  have hfold : text.toList.map foldChar = text.toList.map Char.toLower :=
    List.map_congr_left fun c hc => foldChar_of_letter (hletters c hc)
  simp only [hfold, SqlToken.isKeyword, beq_iff_eq]

theorem standsIn_token (hwords : OfWords (isWordChar isAlnum) IsDmlWord)
    {s : SqlStatement (isWordChar isAlnum)} {t : SqlToken} (ht : t ∈ s.tokens) :
    StandsIn (isWordChar isAlnum) IsDmlWord t.text ↔
      (∃ word ∈ dmlWords, t.isKeyword word = true) ∨ t.Mentions (isWordChar isAlnum) := by
  cases t with
  | keyword text =>
      have hkeyword := standsIn_keyword hwords (s.letters text ht)
      exact hkeyword.trans (or_iff_left id).symm
  | _ => simp [SqlToken.isKeyword, SqlToken.Mentions]

/-- The pattern is found in a statement when it is found in one of the tokens. -/
theorem dmlSearch_statement (hwords : OfWords (isWordChar isAlnum) IsDmlWord)
    (s : SqlStatement (isWordChar isAlnum)) :
    dmlSearch (isWordChar isAlnum) s.text = true ↔
      (∃ t ∈ s.tokens, ∃ word ∈ dmlWords, t.isKeyword word = true) ∨
        ∃ t ∈ s.tokens, t.Mentions (isWordChar isAlnum) := by
  have hne : ∀ piece ∈ s.tokens.map SqlToken.text, piece ≠ [] := by
    intro piece hpiece
    obtain ⟨t, ht, rfl⟩ := List.mem_map.mp hpiece
    exact s.nonempty t ht
  rw [dmlSearch_iff hwords, SqlStatement.text, String.toList_ofList,
    standsIn_flatten hwords hne s.separate]
  constructor
  · rintro ⟨piece, hpiece, hstands⟩
    obtain ⟨t, ht, rfl⟩ := List.mem_map.mp hpiece
    exact ((standsIn_token hwords ht).mp hstands).imp (fun h => ⟨t, ht, h⟩) fun h => ⟨t, ht, h⟩
  · rintro (⟨t, ht, h⟩ | ⟨t, ht, h⟩)
    · exact ⟨t.text, List.mem_map_of_mem ht, (standsIn_token hwords ht).mpr (.inl h)⟩
    · exact ⟨t.text, List.mem_map_of_mem ht, (standsIn_token hwords ht).mpr (.inr h)⟩

theorem readOnly_iff (s : SqlStatement (isWordChar isAlnum)) :
    s.ReadOnly ↔ s.type = some "SELECT" ∧
      ¬ (∃ t ∈ s.tokens, t.isKeyword "INTO" = true ∨ t.isKeyword "MERGE" = true) ∧
      ¬ ∃ t ∈ s.tokens, ∃ word ∈ dmlWords, t.isKeyword word = true := by
  simp only [SqlStatement.ReadOnly, List.forall_mem_cons, not_exists, not_and, not_or,
    Bool.not_eq_true]
  refine and_congr_right fun _ => ⟨fun h => ⟨fun t ht => ⟨(h t ht).1, (h t ht).2.1⟩, fun t ht =>
    (h t ht).2.2⟩, fun h t ht => ⟨(h.1 t ht).1, (h.1 t ht).2, h.2 t ht⟩⟩

end Statements

section Filter

-- Where no word of the pattern stands as a keyword, the type decides.
theorem SqlStatement.TypedAs.isSelect_iff {isWord : Char → Bool} {s : SqlStatement isWord}
    {named : Option String} (h : s.TypedAs named)
    (hnone : ¬ ∃ t ∈ s.tokens, ∃ word ∈ dmlWords, t.isKeyword word = true) :
    (named == some "SELECT" || named == none) = true ↔ s.type = some "SELECT" := by
  rcases h with ⟨hsome, rfl⟩ | ⟨hother, hnamed, hselect⟩
  · obtain ⟨name, hname⟩ := Option.isSome_iff_exists.mp hsome
    simp [hname]
  · have htype : s.type = none := by
      refine hother.resolve_right ?_
      rintro ⟨t, ht, word, hword, hkeyword⟩
      exact hnone ⟨t, ht, word, ddlKeywords_subset hword, hkeyword⟩
    simp [htype, hnamed, hselect]

variable {lib : SqlLibraries}

/-- What `_is_select_only` decides of the statements. -/
theorem isSelectOnly_iff (hletters : lib.KnowsLetters) {query : String}
    {statements : List (SqlStatement lib.isWord)} (hreads : lib.Reads query statements) :
    isSelectOnly lib query = true ↔ statements ≠ [] ∧ ∀ s ∈ statements,
      s.type = some "SELECT" ∧ ¬ ((∃ t ∈ s.tokens, ∃ word ∈ dmlWords, t.isKeyword word = true) ∨
        ∃ t ∈ s.tokens, t.Mentions lib.isWord) := by
  have hparsed := hreads.parsed
  clear hreads
  unfold isSelectOnly
  generalize lib.parse (strip query) = parsed at hparsed
  have hall : (parsed.all fun stmt =>
      (lib.getType stmt == some "SELECT" || lib.getType stmt == none) &&
        !dmlSearch lib.isWord (lib.str stmt)) = true ↔ ∀ s ∈ statements,
      s.type = some "SELECT" ∧ ¬ ((∃ t ∈ s.tokens, ∃ word ∈ dmlWords, t.isKeyword word = true) ∨
        ∃ t ∈ s.tokens, t.Mentions lib.isWord) := by
    induction hparsed with
    | nil => simp
    | @cons stmt s parsed statements hstmt _ ih =>
        have hsearch : (!dmlSearch lib.isWord (lib.str stmt)) = true ↔
            ¬ ((∃ t ∈ s.tokens, ∃ word ∈ dmlWords, t.isKeyword word = true) ∨
              ∃ t ∈ s.tokens, t.Mentions lib.isWord) := by
          rw [hstmt.1, Bool.not_eq_true', ← Bool.not_eq_true, not_iff_not]
          exact dmlSearch_statement (isDmlWord_ofWords hletters) s
        rw [List.all_cons, Bool.and_eq_true, Bool.and_eq_true, hsearch, List.forall_mem_cons, ih]
        refine and_congr_left fun _ => and_congr_left fun hnone => ?_
        rw [hstmt.2.isSelect_iff fun hddl => hnone (.inl hddl)]
  cases hparsed with
  | nil => simp
  | cons hstmt hrest => simpa using hall

end Filter

/-! The query `SELECT * INTO backup FROM users` reads every row and creates a table. -/

def blank : SqlToken := .other " "

/-- The letters that every `str.isalnum` knows, and no others beyond ASCII. -/
def fourLetters (c : Char) : Bool := decide (c.toNat ∈ [0x130, 0x131, 0x17f, 0x212a])

def selectInto : SqlStatement (isWordChar fourLetters) where
  withClause := []
  main := [.keyword "SELECT", blank, .other "*", blank, .keyword "INTO", blank,
    .identifier "backup", blank, .keyword "FROM", blank, .identifier "users"]
  nonempty := by simp [SqlToken.text, blank]
  letters := by
    intro text h
    simp [blank] at h
    rcases h with rfl | rfl | rfl <;> simp
  separate := by
    simp [SqlToken.text, blank, Breaks, isWordChar]

/-- sqlparse when it reads the query as these statements. -/
def parsedAs (statements : List (SqlStatement (isWordChar fourLetters))) : SqlLibraries where
  isAlnum := fourLetters
  Parsed := SqlStatement (isWordChar fourLetters)
  parse _ := statements
  getType s := some (s.type.getD "UNKNOWN")
  str := SqlStatement.text

theorem parsedAs_reads {query : String} {s : SqlStatement (isWordChar fourLetters)}
    (htype : s.type = some "SELECT") (htext : (strip query).toList = s.text.toList) :
    (parsedAs [s]).Reads query [s] := by
  have htyped : s.TypedAs (some (s.type.getD "UNKNOWN")) := by
    rw [SqlStatement.TypedAs, htype]
    exact .inl ⟨rfl, rfl⟩
  exact ⟨htext.trans (List.append_nil _).symm, .cons ⟨rfl, htyped⟩ .nil⟩

theorem fourLetters_known (statements : List (SqlStatement (isWordChar fourLetters))) :
    (parsedAs statements).KnowsLetters := fun _ h => decide_eq_true h

theorem selectInto_tokens : selectInto.tokens = [.keyword "SELECT", .other " ", .other "*",
    .other " ", .keyword "INTO", .other " ", .identifier "backup", .other " ", .keyword "FROM",
    .other " ", .identifier "users"] := rfl

theorem selectInto_type : selectInto.type = some "SELECT" := by
  simp [SqlStatement.type, selectInto, SqlStatement.dmlKeywords, SqlToken.isKeyword]

theorem selectInto_read : (parsedAs [selectInto]).Reads "SELECT * INTO backup FROM users"
    [selectInto] := by
  apply parsedAs_reads selectInto_type
  rw [SqlStatement.text, selectInto_tokens]
  simp [strip, isSpace, SqlToken.text]

/-- The filter lets the query through. -/
theorem selectInto_accepted :
    (parsedAs [selectInto]).Reads "SELECT * INTO backup FROM users" [selectInto] ∧
      ¬ (isSelectOnly (parsedAs [selectInto]) "SELECT * INTO backup FROM users" = true ↔
        ReadOnlySelects [selectInto]) := by
  refine ⟨selectInto_read, fun hexact => ?_⟩
  have haccepted : ([selectInto].all fun s =>
      (some (s.type.getD "UNKNOWN") == some "SELECT" || some (s.type.getD "UNKNOWN") == none) &&
        !dmlSearch (isWordChar fourLetters) s.text) = true := by
    have hsearch : dmlSearch (isWordChar fourLetters) selectInto.text = false := by
      rw [SqlStatement.text, selectInto_tokens]
      rfl
    simp [selectInto_type, hsearch]
  have hinto := ((hexact.mp haccepted).2 selectInto List.mem_cons_self).2 (.keyword "INTO")
    (by simp [selectInto_tokens]) "INTO" List.mem_cons_self
  simp [SqlToken.isKeyword] at hinto

-- Two conjunctions that differ in one clause.
theorem exact_iff {empty other mention into word : Prop} :
    ((¬ empty ∧ ¬ other ∧ ¬ mention ∧ ¬ word) ↔ (¬ empty ∧ ¬ other ∧ ¬ into ∧ ¬ word)) ↔
      (empty ∨ other ∨ word ∨ (into ↔ mention)) := by
  by_cases hempty : empty
  · simp [hempty]
  by_cases hother : other
  · simp [hother]
  by_cases hword : word
  · simp [hword]
  · simp only [hempty, hother, hword, not_false_eq_true, true_and, and_true, false_or, not_iff_not]
    exact iff_comm

/-- The filter accepts exactly the read-only SELECTs among the queries whose statements are sorted
rightly by the words of the pattern. -/
theorem isSelectOnly_exact_iff (lib : SqlLibraries) (hletters : lib.KnowsLetters) (query : String)
    (statements : List (SqlStatement lib.isWord)) (hreads : lib.Reads query statements) :
    (isSelectOnly lib query = true ↔ ReadOnlySelects statements) ↔ SortedRightly statements := by
  have hspec : ReadOnlySelects statements ↔ statements ≠ [] ∧
      (¬ ∃ s ∈ statements, s.type ≠ some "SELECT") ∧
      (¬ ∃ s ∈ statements, ∃ t ∈ s.tokens,
        t.isKeyword "INTO" = true ∨ t.isKeyword "MERGE" = true) ∧
      ¬ ∃ s ∈ statements, ∃ t ∈ s.tokens, ∃ word ∈ dmlWords, t.isKeyword word = true := by
    refine and_congr_right fun _ => ⟨fun h => ⟨?_, ?_, ?_⟩, fun h s hs => ?_⟩
    · rintro ⟨s, hs, htype⟩
      exact htype ((readOnly_iff s).mp (h s hs)).1
    · rintro ⟨s, hs, hinto⟩
      exact ((readOnly_iff s).mp (h s hs)).2.1 hinto
    · rintro ⟨s, hs, hkeyword⟩
      exact ((readOnly_iff s).mp (h s hs)).2.2 hkeyword
    · exact (readOnly_iff s).mpr ⟨by_contra fun htype => h.1 ⟨s, hs, htype⟩,
        fun hinto => h.2.1 ⟨s, hs, hinto⟩, fun hkeyword => h.2.2 ⟨s, hs, hkeyword⟩⟩
  have hcode : isSelectOnly lib query = true ↔ statements ≠ [] ∧
      (¬ ∃ s ∈ statements, s.type ≠ some "SELECT") ∧
      (¬ ∃ s ∈ statements, ∃ t ∈ s.tokens, t.Mentions lib.isWord) ∧
      ¬ ∃ s ∈ statements, ∃ t ∈ s.tokens, ∃ word ∈ dmlWords, t.isKeyword word = true := by
    rw [isSelectOnly_iff hletters hreads]
    refine and_congr_right fun _ => ⟨fun h => ⟨?_, ?_, ?_⟩, fun h s hs => ⟨?_, ?_⟩⟩
    · rintro ⟨s, hs, htype⟩
      exact htype (h s hs).1
    · rintro ⟨s, hs, hmention⟩
      exact (h s hs).2 (.inr hmention)
    · rintro ⟨s, hs, hkeyword⟩
      exact (h s hs).2 (.inl hkeyword)
    · exact by_contra fun htype => h.1 ⟨s, hs, htype⟩
    · rintro (hkeyword | hmention)
      · exact h.2.2 ⟨s, hs, hkeyword⟩
      · exact h.2.1 ⟨s, hs, hmention⟩
  -- Both ask for SELECTs without a keyword of the pattern; what is left are the other two clauses.
  rw [hspec, hcode]
  exact exact_iff

def selectOne : SqlStatement (isWordChar fourLetters) where
  withClause := []
  main := [.keyword "SELECT", blank, .other "1"]
  nonempty := by simp [SqlToken.text, blank]
  letters := by simp [blank]
  separate := by
    simp [SqlToken.text, blank, Breaks, isWordChar]

theorem selectOne_exact :
    (isSelectOnly (parsedAs [selectOne]) "SELECT 1" = true ↔ ReadOnlySelects [selectOne]) ↔
      SortedRightly [selectOne] := by
  refine isSelectOnly_exact_iff (parsedAs [selectOne]) (fourLetters_known _) "SELECT 1" [selectOne]
    (parsedAs_reads ?_ ?_)
  · simp [SqlStatement.type, selectOne, SqlStatement.dmlKeywords, SqlToken.isKeyword]
  · have htokens : selectOne.tokens = [.keyword "SELECT", .other " ", .other "1"] := rfl
    rw [SqlStatement.text, htokens]
    simp [strip, isSpace, SqlToken.text]

end ConstructorPlatform
