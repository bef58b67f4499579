import RegularGrammar.Proofs.Source.Scanning

/-!
# Written tokens

How every kind of token may be written, and that it is read back: a written token
that ends before a blank, or with the text, is the next one of the text.
-/

namespace RegularGrammar.Source

/-- A character between double quotes. -/
def escaped (c : Char) : List Char :=
  if c = '"' ∨ c = '\\' then ['\\', c]
  else if c = '\n' then ['\\', 'n']
  else [c]

/-- A literal in double quotes. -/
def inQuotes (value : List Char) : List Char := '"' :: value.flatMap escaped ++ ['"']

/-- A token may be written as some characters. -/
inductive Writes : TokenKind → List Char → Prop where
  | name {text : String} : IsIdentifier text → Writes (.name text) text.toList
  | literal (value : String) : Writes (.literal value) (inQuotes value.toList)
  | not : Writes .not ['n', 'o', 't']
  | equals : Writes .equals ['=']
  | period : Writes .period ['.']
  | ellipsis : Writes .ellipsis ['…']
  | threeDots : Writes .ellipsis ['.', '.', '.']
  | pipe : Writes .pipe ['|']
  | opening (bracket : Bracket) : Writes (.opening bracket) [bracket.opening]
  | closing (bracket : Bracket) : Writes (.closing bracket) [bracket.closing]

theorem exists_writes {kind : TokenKind} (named : ∀ text, kind = .name text → IsIdentifier text) :
    ∃ word, Writes kind word := by
  cases kind with
  | name text => exact ⟨_, .name (named text rfl)⟩
  | literal value => exact ⟨_, .literal value⟩
  | not => exact ⟨_, .not⟩
  | equals => exact ⟨_, .equals⟩
  | period => exact ⟨_, .period⟩
  | ellipsis => exact ⟨_, .ellipsis⟩
  | pipe => exact ⟨_, .pipe⟩
  | opening bracket => exact ⟨_, .opening bracket⟩
  | closing bracket => exact ⟨_, .closing bracket⟩

theorem spelled_escaped (value : List Char) : Spelled (value.flatMap escaped) value := by
  induction value with
  | nil => exact .nil
  | cons c value ih =>
    rw [List.flatMap_cons, escaped]
    split
    · rename_i sign
      have escape : escape? [c] = some (c, [c].length) := by
        rcases sign with rfl | rfl <;> rfl
      exact .escape escape ih
    split
    · rename_i lineFeed
      subst lineFeed
      have escape : escape? ['n'] = some ('\n', ['n'].length) := rfl
      exact .escape escape ih
    · rename_i notSign notLineFeed
      rw [not_or] at notSign
      exact .plain notSign.1 notSign.2 notLineFeed ih

theorem Writes.isLexeme {kind : TokenKind} {word : List Char} (h : Writes kind word) : IsLexeme kind word := by
  cases h with
  | @name text identifier =>
    obtain ⟨other, c, cs, spelled, first, others⟩ := identifier
    rw [spelled, ← wordKind_name spelled other]
    exact .word (startsWord_iff.mpr first) fun d member => continuesWord_iff.mpr (others d member)
  | literal value =>
    have quoted := IsLexeme.quoted (spelled_escaped value.toList)
    rwa [String.ofList_toList] at quoted
  | not =>
    have continues : ∀ d ∈ ['o', 't'], continuesWord d = true :=
      List.forall_mem_cons.mpr ⟨by decide, List.forall_mem_singleton.mpr (by decide)⟩
    have word : IsLexeme (wordKind ('n' :: ['o', 't'])) ('n' :: ['o', 't']) := .word (by decide) continues
    exact word
  | threeDots => exact .threeDots
  | opening bracket => cases bracket <;> exact .mark rfl
  | closing bracket => cases bracket <;> exact .mark rfl
  | _ => exact .mark rfl

/-- The rest of a text after a written token: it ends, or a blank comes next. -/
def Separated (rest : List Char) : Prop := rest = [] ∨ ∃ more, rest = ' ' :: more

theorem Separated.stops {rest : List Char} (separated : Separated rest) (d : Char) (first : rest.head? = some d) :
    continuesWord d = false := by
  rcases separated with rfl | ⟨more, rfl⟩
  · cases first
  · cases first
    decide

theorem Separated.noDots {rest : List Char} (separated : Separated rest) : rest.take 2 ≠ ['.', '.'] := by
  rcases separated with rfl | ⟨more, rfl⟩
  · simp
  · simp

theorem Separated.apart {rest : List Char} (separated : Separated rest) (kind : TokenKind) : Apart kind rest :=
  ⟨fun _ => separated.stops, fun _ => separated.noDots⟩

/-- At most one blank. -/
def Blank (gap : List Char) : Prop := gap = [] ∨ gap = [' ']

theorem Blank.trivia {gap : List Char} (blank : Blank gap) : Trivia gap := by
  rcases blank with rfl | rfl
  · exact .nil
  · exact .blank (by decide) .nil

/-- A written token is the next one of a text. -/
theorem items_written {kind : TokenKind} {gap word rest : List Char} (writes : Writes kind word) (blank : Blank gap)
    (separated : Separated rest) (o : Nat) : ∃ token o', token.kind = kind ∧
      Cursor.items ⟨o, gap ++ (word ++ rest)⟩ = .ok token :: Cursor.items ⟨o', rest⟩ := by
  have isLexeme := writes.isLexeme
  obtain ⟨c, more, rfl⟩ := List.exists_cons_of_ne_nil isLexeme.ne_nil
  exact ⟨_, _, rfl, items_of_lexeme blank.trivia isLexeme (separated.apart kind)⟩

/-- A text of at most one blank has no token. -/
theorem items_blank {gap : List Char} (blank : Blank gap) (o : Nat) : Cursor.items ⟨o, gap⟩ = [] :=
  (Scanned.finished (.closed blank.trivia)).items_eq

end RegularGrammar.Source
