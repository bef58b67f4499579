import RegularGrammar.Proofs.Source.Lexeme

/-!
# How far a token extends

A token takes all it can: a word goes on while a word can, and a period takes two more
for an ellipsis. Nothing else of what follows a token has a say in it, and a character
that begins no token begins none whatever follows.
-/

namespace RegularGrammar.Source

/-- What is spelled is read, and then what follows it. -/
theorem quotedRest_append {text value : List Char} (spelled : Spelled text value) (openedAt o : Nat)
    (rest : List Char) : quotedRest openedAt o (text ++ rest) =
      (quotedRest openedAt (o + utf8Length text) rest).map fun (more, n) => (value ++ more, text.length + n) := by
  induction spelled generalizing o with
  | nil =>
    rw [List.nil_append, utf8Length, Nat.add_zero]
    cases quotedRest openedAt o rest <;> simp [Except.map]
  | @plain c text value notQuote notBackslash notLineFeed _ ih =>
    rw [List.cons_append, quotedRest, ih, utf8Length, Nat.add_assoc]
    · cases quotedRest openedAt (o + (c.utf8Size + utf8Length text)) rest with
      | error => rfl
      | ok => simp [Except.map]; omega
    · exact notQuote
    · exact notLineFeed
    · exact notBackslash
  | @escape c spelling text value escape _ ih =>
    have offset : o + utf8Length ('\\' :: spelling ++ text) = o + 1 + utf8Length spelling + utf8Length text := by
      rw [utf8Length_append, utf8Length, ← Nat.add_assoc, ← Nat.add_assoc]
      rfl
    rw [offset, List.cons_append, List.cons_append, List.append_assoc, quotedRest, escape?_append escape]
    simp only [List.take_left, List.drop_left, ih]
    cases quotedRest openedAt (o + 1 + utf8Length spelling + utf8Length text) rest with
    | error => rfl
    | ok => simp [Except.map]; omega

theorem takeWhile_raw {value : List Char} (noQuote : backQuote ∉ value) (rest : List Char) :
    (value ++ rest).takeWhile (· != backQuote) = value ++ rest.takeWhile (· != backQuote) := by
  apply List.takeWhile_append_of_pos
  intro c member
  simpa using fun same : c = backQuote => noQuote (same ▸ member)

theorem isWord_wordKind (word : List Char) : IsWord (wordKind word) := by
  unfold wordKind
  split
  · exact .inl rfl
  · exact .inr ⟨_, rfl⟩

@[simp]
theorem mark?_eq_period_iff {c : Char} : mark? c = some .period ↔ c = '.' := by
  constructor
  · intro h
    unfold mark? at h
    split at h <;> first | rfl | cases h
  · rintro rfl
    rfl

theorem IsLexeme.eq_period {kind : TokenKind} {word : List Char} (h : IsLexeme kind word) (isPeriod : kind = .period) :
    word = ['.'] := by
  cases h with
  | word =>
    unfold wordKind at isPeriod
    split at isPeriod <;> cases isPeriod
  | mark found =>
    subst isPeriod
    rw [mark?_eq_period_iff.mp found]
  | _ => cases isPeriod

/-- A token of a kind does not go on with what follows it. -/
structure Apart (kind : TokenKind) (rest : List Char) : Prop where
  word : IsWord kind → ∀ d, rest.head? = some d → continuesWord d = false
  period : kind = .period → rest.take 2 ≠ ['.', '.']

theorem lexeme_of_isLexeme {kind : TokenKind} {c : Char} {more rest : List Char} (isLexeme : IsLexeme kind (c :: more))
    (apart : Apart kind rest) (o : Nat) : lexeme o c (more ++ rest) = .ok (kind, more.length) := by
  generalize word : c :: more = word at isLexeme
  cases isLexeme with
  | word starts continues =>
    cases word
    exact lexeme_word starts continues (apart.word (isWord_wordKind _))
  | @quoted text value spelled =>
    obtain ⟨rfl, rfl⟩ := List.cons.inj (word.trans List.cons_append)
    rw [List.append_assoc, List.singleton_append, lexeme, if_pos rfl, quotedRest_append spelled,
      quotedRest]
    simp [Except.map]
  | @raw value inside =>
    obtain ⟨rfl, rfl⟩ := List.cons.inj (word.trans List.cons_append)
    have taken : (value ++ backQuote :: rest).takeWhile (· != backQuote) = value := by
      rw [takeWhile_raw inside, List.takeWhile_cons_of_neg (by simp), List.append_nil]
    rw [List.append_assoc, List.singleton_append, lexeme, if_neg (by decide), if_pos rfl, rawRest, taken, if_pos (by simp)]
    simp [Except.map]
  | threeDots =>
    cases word
    rw [lexeme, if_neg (by decide), if_neg (by decide), if_neg (by decide), if_pos ⟨rfl, rfl⟩]
    rfl
  | mark found =>
    cases word
    refine lexeme_mark found ?_
    rintro ⟨rfl, dots⟩
    cases found
    exact apart.period rfl dots

/-- A token is made of characters that it may be made of, and takes all it can. -/
theorem isLexeme_of_lexeme {kind : TokenKind} {o : Nat} {c : Char} {more rest : List Char}
    (read : lexeme o c (more ++ rest) = .ok (kind, more.length)) : IsLexeme kind (c :: more) ∧ Apart kind rest := by
  have lexed := lexeme_lexed o c (more ++ rest)
  rw [read] at lexed
  generalize whole : more ++ rest = cs at lexed
  generalize length : more.length = n at lexed
  cases lexed with
  | @token _ more' rest' isLexeme word =>
    obtain ⟨rfl, rfl⟩ := List.append_inj whole length
    refine ⟨isLexeme, word, ?_⟩
    intro isPeriod dots
    cases isLexeme.eq_period isPeriod
    rw [List.nil_append, lexeme, if_neg (by decide), if_neg (by decide), if_neg (by decide), if_pos ⟨rfl, dots⟩] at read
    cases read

/-- A text may go on differently after a token, or after some more of what follows it, with a character that neither
    continues a word nor is a period. -/
theorem Apart.cut {kind : TokenKind} {u v w : List Char} {d : Char} (apart : Apart kind (u ++ v))
    (noWord : continuesWord d = false) (noPeriod : d ≠ '.') : Apart kind (u ++ d :: w) := by
  refine ⟨fun isWord e first => ?_, fun isPeriod dots => ?_⟩
  · cases u with
    | nil =>
      cases first
      exact noWord
    | cons c u => exact apart.word isWord e first
  · match u with
    | [] => exact noPeriod (List.cons.inj dots).1
    | [_] => exact noPeriod (List.cons.inj (List.cons.inj dots).2).1
    | _ :: _ :: _ => exact apart.period isPeriod dots

theorem IsLexeme.ne_nil {kind : TokenKind} {word : List Char} (h : IsLexeme kind word) : word ≠ [] := by
  cases h <;> simp

theorem IsLexeme.begins {kind : TokenKind} {c : Char} {more : List Char} (h : IsLexeme kind (c :: more)) :
    c ≠ '/' ∧ Unicode.isWhiteSpace c = false := by
  generalize word : c :: more = word at h
  cases h with
  | word starts =>
    cases word
    exact ⟨ne_of_startsWord starts (by decide), isWhiteSpace_of_startsWord starts⟩
  | mark found =>
    cases word
    unfold mark? at found
    split at found
    case h_11 => cases found
    all_goals decide
  | _ =>
    cases (List.cons.inj word).1
    decide

theorem Unended.begins_lexeme {c : Char} {rest : List Char} (h : Unended (c :: rest)) :
    ∃ kind more, IsLexeme kind (c :: more) := by
  generalize text : c :: rest = text at h
  cases h with
  | raw =>
    cases text
    have empty : IsLexeme (.literal "") (backQuote :: [] ++ [backQuote]) := .raw List.not_mem_nil
    exact ⟨_, _, empty⟩
  | _ =>
    cases (List.cons.inj text).1
    exact ⟨_, ['"'], .quoted .nil⟩

/-- A character that begins no token is refused, whatever follows it. -/
theorem lexeme_unsupported {c : Char} (noLexeme : ∀ kind more, ¬ IsLexeme kind (c :: more)) (o : Nat) (cs : List Char) :
    lexeme o c cs = .error (.unsupported o c) := by
  have lexed := lexeme_lexed o c cs
  generalize lexeme o c cs = result at lexed
  cases lexed with
  | token isLexeme => exact absurd isLexeme (noLexeme _ _)
  | unsupported => rfl
  | unterminatedString unended =>
    obtain ⟨kind, more, isLexeme⟩ := unended.begins_lexeme
    exact absurd isLexeme (noLexeme kind more)
  | invalidEscape quote =>
    subst quote
    exact absurd (.quoted .nil) (noLexeme _ ['"'])

theorem lexeme_unended {c : Char} {rest : List Char} (h : Unended (c :: rest)) (o : Nat) :
    lexeme o c rest = .error (.unterminatedString o) := by
  generalize text : c :: rest = text at h
  cases h with
  | @textEnds inside value spelled =>
    cases text
    have read := quotedRest_append spelled o (o + 1) []
    rw [List.append_nil] at read
    rw [lexeme, if_pos rfl, read, quotedRest]
    rfl
  | lineEnds spelled =>
    obtain ⟨rfl, rfl⟩ := List.cons.inj (text.trans List.cons_append)
    rw [lexeme, if_pos rfl, quotedRest_append spelled, quotedRest]
    rfl
  | raw noQuote =>
    cases text
    have all : rest.takeWhile (· != backQuote) = rest := by
      simpa using takeWhile_raw noQuote []
    rw [lexeme, if_neg (by decide), if_pos rfl, rawRest, all, if_neg (Nat.lt_irrefl _)]
    rfl

theorem lexeme_noEscape {text value rest : List Char} (spelled : Spelled text value) (none : escape? rest = none)
    (o : Nat) : lexeme o '"' (text ++ '\\' :: rest) = .error (.invalidEscape (o + utf8Length ('"' :: text))) := by
  rw [lexeme, if_pos rfl, quotedRest_append spelled, quotedRest, none, utf8Length, ← Nat.add_assoc]
  rfl

end RegularGrammar.Source
