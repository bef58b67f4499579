import RegularGrammar.Source.Items

/-!
# Words and signs

What words are made of, and how words and signs are read.
-/

namespace RegularGrammar.Source

/-- A word that names a production: a letter or a low line, then letters, numbers and low lines. -/
def IsIdentifier (text : String) : Prop :=
  text ≠ "not" ∧ ∃ c cs, text.toList = c :: cs ∧ (c = '_' ∨ Unicode.isAlphabetic c = true) ∧
    ∀ d ∈ cs, d = '_' ∨ Unicode.isAlphanumeric d = true

@[simp]
theorem startsWord_iff {c : Char} : startsWord c = true ↔ c = '_' ∨ Unicode.isAlphabetic c = true := by
  simp [startsWord]

@[simp]
theorem continuesWord_iff {c : Char} : continuesWord c = true ↔ c = '_' ∨ Unicode.isAlphanumeric c = true := by
  simp [continuesWord]

/-- The code points of white space. -/
def blankCodes : List Nat :=
  [0x9, 0xA, 0xB, 0xC, 0xD, 0x20, 0x85, 0xA0, 0x1680, 0x2000, 0x2001, 0x2002, 0x2003, 0x2004, 0x2005, 0x2006, 0x2007,
    0x2008, 0x2009, 0x200A, 0x2028, 0x2029, 0x202F, 0x205F, 0x3000]

theorem mem_blankCodes {c : Char} (h : Unicode.isWhiteSpace c = true) : c.toNat ∈ blankCodes := by
  simp only [Unicode.isWhiteSpace, Bool.or_eq_true, Bool.and_eq_true, decide_eq_true_eq] at h
  simp only [blankCodes, List.mem_cons, List.not_mem_nil]
  omega

/-- No white space stands in a word. -/
theorem isWhiteSpace_of_continuesWord {c : Char} (h : continuesWord c = true) : Unicode.isWhiteSpace c = false := by
  have noWord : ∀ n ∈ blankCodes, continuesWord (Char.ofNat n) = false := by decide +kernel
  cases blank : Unicode.isWhiteSpace c with
  | false => rfl
  | true =>
    have notWord := noWord c.toNat (mem_blankCodes blank)
    rw [Char.ofNat_toNat, h] at notWord
    cases notWord

theorem continuesWord_of_startsWord {c : Char} (h : startsWord c = true) : continuesWord c = true := by
  rcases startsWord_iff.mp h with low | letter
  · exact continuesWord_iff.mpr (.inl low)
  · exact continuesWord_iff.mpr (.inr (by simp [Unicode.isAlphanumeric, letter]))

theorem isWhiteSpace_of_startsWord {c : Char} (h : startsWord c = true) : Unicode.isWhiteSpace c = false :=
  isWhiteSpace_of_continuesWord (continuesWord_of_startsWord h)

theorem ne_of_startsWord {c d : Char} (h : startsWord c = true) (other : startsWord d = false) : c ≠ d := by
  rintro rfl
  rw [h] at other
  cases other

theorem wordKind_name {text : String} {c : Char} {cs : List Char} (spelled : text.toList = c :: cs) (other : text ≠ "not") :
    wordKind (c :: cs) = .name text := by
  have notKeyword : c :: cs ≠ ['n', 'o', 't'] := by
    rw [← spelled]
    exact fun same => other (String.toList_inj.mp same)
  rw [wordKind, if_neg notKeyword, ← spelled, String.ofList_toList]

theorem takeWhile_word {cs rest : List Char} (word : ∀ c ∈ cs, continuesWord c = true)
    (stops : ∀ d, rest.head? = some d → continuesWord d = false) : (cs ++ rest).takeWhile continuesWord = cs := by
  rw [List.takeWhile_append_of_pos word]
  have stop : rest.takeWhile continuesWord = [] := by
    cases rest with
    | nil => rfl
    | cons d more => exact List.takeWhile_cons_of_neg (by simp [stops d rfl])
  rw [stop, List.append_nil]

theorem lexeme_word {o : Nat} {c : Char} {cs rest : List Char} (first : startsWord c = true)
    (word : ∀ d ∈ cs, continuesWord d = true) (stops : ∀ d, rest.head? = some d → continuesWord d = false) :
    lexeme o c (cs ++ rest) = .ok (wordKind (c :: cs), cs.length) := by
  rw [lexeme, if_neg (ne_of_startsWord first (by decide)), if_neg (ne_of_startsWord first (by decide)), if_pos first,
    takeWhile_word word stops]

theorem startsWord_of_mark {c : Char} {kind : TokenKind} (h : mark? c = some kind) : startsWord c = false := by
  unfold mark? at h
  split at h
  case h_11 => cases h
  all_goals decide +kernel

/-- A sign is a token by itself, unless it is the first of three dots. -/
theorem lexeme_mark {o : Nat} {c : Char} {kind : TokenKind} {rest : List Char} (h : mark? c = some kind)
    (noDots : ¬ (c = '.' ∧ rest.take 2 = ['.', '.'])) : lexeme o c rest = .ok (kind, 0) := by
  have notQuote : c ≠ '"' := by
    rintro rfl
    cases h
  have notBackQuote : c ≠ backQuote := by
    rintro rfl
    cases h
  rw [lexeme, if_neg notQuote, if_neg notBackQuote, startsWord_of_mark h, if_neg Bool.false_ne_true, if_neg noDots, h]

theorem skipGap_stop {o : Nat} {c : Char} {cs : List Char} (notSlash : c ≠ '/') (notBlank : Unicode.isWhiteSpace c = false) :
    skipGap .blank o (c :: cs) = .ok ⟨o, c :: cs⟩ := by
  rw [skipGap, notBlank]
  · rfl
  all_goals
    rintro _ rfl
    exact absurd rfl notSlash

theorem items_eq_nil {p : Cursor} (h : p.next? = none) : p.items = [] := by
  rw [Cursor.items]
  split
  · rfl
  · rename_i found
    rw [h] at found
    cases found

theorem items_eq_cons {p q : Cursor} {item : Item} (h : p.next? = some (item, q)) : p.items = item :: q.items := by
  rw [Cursor.items]
  split
  · rename_i found
    rw [h] at found
    cases found
  · rename_i found
    rw [h] at found
    cases found
    rfl

theorem isIdentifier_of_wordKind {c : Char} {cs : List Char} {text : String} (first : startsWord c = true)
    (word : ∀ d ∈ cs, continuesWord d = true) (h : wordKind (c :: cs) = .name text) : IsIdentifier text := by
  unfold wordKind at h
  split at h
  · cases h
  · rename_i notKeyword
    cases h
    refine ⟨fun same => notKeyword ?_, c, cs, String.toList_ofList, startsWord_iff.mp first,
      fun d member => continuesWord_iff.mp (word d member)⟩
    rw [← String.toList_ofList (l := c :: cs), same]
    rfl

theorem mark?_ne_name (c : Char) (text : String) : mark? c ≠ some (.name text) := by
  unfold mark?
  split <;> simp

end RegularGrammar.Source
