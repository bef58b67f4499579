import RegularGrammar.Proofs.Source.Scanning

/-!
# The items of a text tile it

A text is the pieces that its items are read from, one after the other, with gaps
before and after them. Only after a string or a comment that is not closed, or a
backslash that begins no escape, is the rest of the text left out.
-/

namespace RegularGrammar.Source

/-- The rest of a text is cut into gaps and the pieces its items are read from, where `before` is all that stands
    before it. What a text holds after an error that ends the reading is in no piece. -/
inductive Tiled : (before rest : List Char) → List Item → Prop where
  | finished {before gap : List Char} : LastTrivia gap → Tiled before gap []
  | token {before gap more rest : List Char} {c : Char} {kind : TokenKind} {items : List Item} :
      Trivia gap → IsLexeme kind (c :: more) → (IsWord kind → ∀ d, rest.head? = some d → continuesWord d = false) →
        Tiled (before ++ gap ++ c :: more) rest items →
          Tiled before (gap ++ (c :: more ++ rest))
            (.ok ⟨kind, utf8Length (before ++ gap), String.ofList (c :: more)⟩ :: items)
  | unsupported {before gap rest : List Char} {c : Char} {items : List Item} :
      Trivia gap → (∀ kind more, ¬ IsLexeme kind (c :: more)) → Tiled (before ++ gap ++ [c]) rest items →
        Tiled before (gap ++ c :: rest) (.error (.unsupported (utf8Length (before ++ gap)) c) :: items)
  | unterminatedString {before gap rest : List Char} : Trivia gap → Unended rest →
      Tiled before (gap ++ rest) [.error (.unterminatedString (utf8Length (before ++ gap)))]
  | unterminatedComment {before gap body : List Char} : Trivia gap → Unclosed body →
      Tiled before (gap ++ '/' :: '*' :: body) [.error (.unterminatedComment (utf8Length (before ++ gap)))]
  | invalidEscape {before gap text value rest : List Char} : Trivia gap → Spelled text value → escape? rest = none →
      Tiled before (gap ++ ('"' :: text ++ '\\' :: rest))
        [.error (.invalidEscape (utf8Length (before ++ gap ++ '"' :: text)))]

/-- The items from a position on tile the rest of the text. -/
theorem tiled_items (p : Cursor) {before : List Char} (offset : p.offset = utf8Length before) :
    Tiled before p.rest p.items := by
  obtain ⟨o, cs⟩ := p
  have scanned := scanned_items o cs
  generalize Cursor.items ⟨o, cs⟩ = items at scanned
  induction scanned generalizing before with
  | finished last => exact .finished last
  | @token o gap more rest c kind items trivia isLexeme apart _ ih =>
    cases offset
    rw [← utf8Length_append]
    exact .token trivia isLexeme apart.word (ih (by simp))
  | @unsupported o gap rest c items trivia noLexeme _ _ _ ih =>
    cases offset
    rw [← utf8Length_append]
    exact .unsupported trivia noLexeme (ih (by simp))
  | unterminatedString trivia unended =>
    cases offset
    rw [← utf8Length_append]
    exact .unterminatedString trivia unended
  | unterminatedComment trivia unclosed =>
    cases offset
    rw [← utf8Length_append]
    exact .unterminatedComment trivia unclosed
  | invalidEscape trivia spelled none =>
    cases offset
    rw [← utf8Length_append, ← List.append_assoc before]
    exact .invalidEscape trivia spelled none

/-- What stands before an item of a text is tiled by the items before it. -/
theorem Tiled.skip {before rest : List Char} {earlier later : List Item} {item : Item}
    (h : Tiled before rest (earlier ++ item :: later)) :
    ∃ read after, rest = read ++ after ∧ Tiled (before ++ read) after (item :: later) := by
  induction earlier generalizing before rest with
  | nil => exact ⟨[], rest, rfl, by rwa [List.append_nil]⟩
  | cons first earlier ih =>
    rw [List.cons_append] at h
    generalize items : earlier ++ item :: later = others at h
    cases h with
    | @token _ gap more rest c kind _ _ _ _ tiled =>
      rw [← items] at tiled
      obtain ⟨read, after, rfl, onward⟩ := ih tiled
      exact ⟨gap ++ (c :: more) ++ read, after, by simp, by simpa using onward⟩
    | @unsupported _ gap rest c _ _ _ tiled =>
      rw [← items] at tiled
      obtain ⟨read, after, rfl, onward⟩ := ih tiled
      exact ⟨gap ++ [c] ++ read, after, by simp, by simpa using onward⟩
    | _ => simp at items

/-- A token stands at its offset, after a gap. -/
theorem Tiled.token_stands {before rest : List Char} {t : Token} {later : List Item}
    (h : Tiled before rest (.ok t :: later)) :
    ∃ gap after, rest = gap ++ (t.origin.toList ++ after) ∧ Trivia gap ∧ t.offset = utf8Length (before ++ gap) ∧
      IsLexeme t.kind t.origin.toList ∧ (IsWord t.kind → ∀ d, after.head? = some d → continuesWord d = false) ∧
        Tiled (before ++ gap ++ t.origin.toList) after later := by
  cases h with
  | @token _ gap more after c kind _ trivia isLexeme apart tiled =>
    have origin : (String.ofList (c :: more)).toList = c :: more := String.toList_ofList
    rw [origin]
    exact ⟨gap, after, rfl, trivia, rfl, isLexeme, apart, tiled⟩

/-- A token is what a text holds at its offset, which counts the bytes before it. -/
def Token.StandsIn (token : Token) (text : String) : Prop :=
  ∃ before after, text = before ++ token.origin ++ after ∧ before.utf8ByteSize = token.offset

theorem token_standsIn {text : String} {token : Token} (member : .ok token ∈ items text) : token.StandsIn text := by
  have tiled : Tiled [] text.toList (items text) := tiled_items (Cursor.start text) rfl
  obtain ⟨earlier, later, split⟩ := List.append_of_mem member
  rw [split] at tiled
  obtain ⟨read, rest, whole, atToken⟩ := tiled.skip
  obtain ⟨gap, after, rfl, -, offset, -⟩ := atToken.token_stands
  refine ⟨String.ofList (read ++ gap), String.ofList after, ?_, ?_⟩
  · apply String.toList_injective
    simp [whole]
  · simp [offset]

theorem IsLexeme.starts_word {kind : TokenKind} {word : List Char} (h : IsLexeme kind word) (isWord : IsWord kind) :
    ∃ c cs, word = c :: cs ∧ startsWord c = true := by
  cases h with
  | word starts => exact ⟨_, _, rfl, starts⟩
  | mark found => exact absurd isWord (not_isWord_of_mark found)
  | _ => simp [IsWord] at isWord

/-- The items of a text tile it, and between any two words that follow each other there is a gap. -/
theorem items_tile (text : String) :
    Tiled [] text.toList (items text) ∧
      ∀ earlier t u later, items text = earlier ++ .ok t :: .ok u :: later → IsWord t.kind → IsWord u.kind →
        ∃ before gap after, text.toList = before ++ t.origin.toList ++ gap ++ u.origin.toList ++ after ∧
          utf8Length before = t.offset ∧ Trivia gap ∧ gap ≠ [] := by
  have tiled : Tiled [] text.toList (items text) := tiled_items (Cursor.start text) rfl
  refine ⟨tiled, ?_⟩
  intro earlier t u later split isWord isWord'
  rw [split] at tiled
  obtain ⟨read, rest, whole, atFirst⟩ := tiled.skip
  obtain ⟨lead, afterFirst, rfl, -, offset, -, apart, atSecond⟩ := atFirst.token_stands
  obtain ⟨gap, after, rfl, trivia, -, isLexeme, -, -⟩ := atSecond.token_stands
  refine ⟨read ++ lead, gap, after, by simp [whole], by simp [offset], trivia, ?_⟩
  rintro rfl
  obtain ⟨c, cs, word, starts⟩ := isLexeme.starts_word isWord'
  have stops := apart isWord c (by simp [word])
  rw [continuesWord_of_startsWord starts] at stops
  cases stops

/-- Two words with nothing but a comment between them, and a sign that starts no token. -/
def twoWords : String := "x1/*é*/not;"

theorem items_tile_twoWords :
    items twoWords = [.ok ⟨.name "x1", 0, "x1"⟩, .ok ⟨.not, 8, "not"⟩, .error (.unsupported 11 ';')] ∧
      ∃ before gap after, twoWords.toList = before ++ "x1".toList ++ gap ++ "not".toList ++ after ∧
        utf8Length before = 0 ∧ Trivia gap ∧ gap ≠ [] := by
  have read : items twoWords = [.ok ⟨.name "x1", 0, "x1"⟩, .ok ⟨.not, 8, "not"⟩, .error (.unsupported 11 ';')] := by
    with_unfolding_all rfl
  obtain ⟨-, apart⟩ := items_tile twoWords
  have between := apart [] ⟨.name "x1", 0, "x1"⟩ ⟨.not, 8, "not"⟩ [.error (.unsupported 11 ';')] read
    (.inr ⟨"x1", rfl⟩) (.inl rfl)
  exact ⟨read, between⟩

end RegularGrammar.Source
