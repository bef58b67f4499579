import RegularGrammar.Proofs.Source.Escape
import RegularGrammar.Proofs.Source.Gap
import RegularGrammar.Proofs.Source.Words

/-!
# What a token is read from

The characters that make a token of each kind, and what is read at a character: the
token that begins there, with all characters it is made of, or the fault that keeps
it from being one.
-/

namespace RegularGrammar.Source

/-- What may stand between double quotes, and the characters it spells. -/
inductive Spelled : List Char → List Char → Prop where
  | nil : Spelled [] []
  | plain {c : Char} {text value : List Char} : c ≠ '"' → c ≠ '\\' → c ≠ '\n' → Spelled text value →
      Spelled (c :: text) (c :: value)
  | escape {c : Char} {spelling text value : List Char} : escape? spelling = some (c, spelling.length) →
      Spelled text value → Spelled ('\\' :: spelling ++ text) (c :: value)

/-- How a text goes on after a double quote, and what is read of it. -/
inductive Quoted (openedAt o : Nat) : List Char → Except LexicalError (List Char × Nat) → Prop where
  | closed {text value rest : List Char} : Spelled text value →
      Quoted openedAt o (text ++ '"' :: rest) (.ok (value, text.length + 1))
  | textEnds {text value : List Char} : Spelled text value → Quoted openedAt o text (.error (.unterminatedString openedAt))
  | lineEnds {text value rest : List Char} : Spelled text value →
      Quoted openedAt o (text ++ '\n' :: rest) (.error (.unterminatedString openedAt))
  | noEscape {text value rest : List Char} : Spelled text value → escape? rest = none →
      Quoted openedAt o (text ++ '\\' :: rest) (.error (.invalidEscape (o + utf8Length text)))

/-- One more spelling in front, whose character and length are counted in. -/
theorem Quoted.cons {openedAt o : Nat} {c : Char} {spelling rest : List Char}
    {result : Except LexicalError (List Char × Nat)} (h : Quoted openedAt (o + utf8Length spelling) rest result)
    (first : ∀ {text value}, Spelled text value → Spelled (spelling ++ text) (c :: value))
    {count : List Char × Nat → List Char × Nat}
    (counted : ∀ value n, count (value, n) = (c :: value, spelling.length + n)) :
    Quoted openedAt o (spelling ++ rest) (result.map count) := by
  cases h with
  | @closed text value rest spelled =>
    have closed : Quoted openedAt o (spelling ++ text ++ '"' :: rest) (.ok (c :: value, (spelling ++ text).length + 1)) :=
      .closed (first spelled)
    simpa [Except.map, counted, Nat.add_assoc] using closed
  | textEnds spelled => exact .textEnds (first spelled)
  | lineEnds spelled =>
    rw [← List.append_assoc]
    exact .lineEnds (first spelled)
  | noEscape spelled none =>
    rw [← List.append_assoc, Nat.add_assoc, ← utf8Length_append]
    exact .noEscape (first spelled) none

theorem quotedRest_quoted (openedAt o : Nat) (cs : List Char) : Quoted openedAt o cs (quotedRest openedAt o cs) := by
  fun_induction quotedRest openedAt o cs with
  | case1 => exact .textEnds .nil
  | case2 => exact .closed .nil
  | case3 => exact .lineEnds .nil
  | case4 o cs none => exact .noEscape .nil none
  | case5 o cs c width found ih =>
    obtain ⟨spelling, rest, rfl, rfl, escape⟩ := escape?_eq_some found
    rw [List.take_left, List.drop_left] at ih
    rw [List.take_left, List.drop_left]
    have offset : o + 1 + utf8Length spelling = o + utf8Length ('\\' :: spelling) := by
      rw [utf8Length, Nat.add_assoc]
      rfl
    rw [offset] at ih
    rw [offset]
    refine ih.cons (.escape escape) fun value n => ?_
    rw [List.length_cons, Nat.add_comm spelling.length 1]
  | case6 o c cs notQuote notLineFeed notBackslash ih =>
    have offset : o + c.utf8Size = o + utf8Length [c] := rfl
    rw [offset] at ih
    rw [offset]
    refine ih.cons (.plain notQuote notBackslash notLineFeed) fun value n => ?_
    exact congrArg (Prod.mk (c :: value)) (Nat.add_comm n 1)

/-- A token of a kind may be made of some characters. -/
inductive IsLexeme : TokenKind → List Char → Prop where
  | word {c : Char} {cs : List Char} : startsWord c = true → (∀ d ∈ cs, continuesWord d = true) →
      IsLexeme (wordKind (c :: cs)) (c :: cs)
  | quoted {text value : List Char} : Spelled text value →
      IsLexeme (.literal (String.ofList value)) ('"' :: text ++ ['"'])
  | raw {value : List Char} : backQuote ∉ value →
      IsLexeme (.literal (String.ofList value)) (backQuote :: value ++ [backQuote])
  | threeDots : IsLexeme .ellipsis ['.', '.', '.']
  | mark {c : Char} {kind : TokenKind} : mark? c = some kind → IsLexeme kind [c]

/-- The kinds of words. -/
def IsWord (kind : TokenKind) : Prop := kind = .not ∨ ∃ text, kind = .name text

/-- A quotation begins and is not closed: the text ends before, or the line where it has to end on the same line. -/
inductive Unended : List Char → Prop where
  | textEnds {text value : List Char} : Spelled text value → Unended ('"' :: text)
  | lineEnds {text value rest : List Char} : Spelled text value → Unended ('"' :: text ++ '\n' :: rest)
  | raw {rest : List Char} : backQuote ∉ rest → Unended (backQuote :: rest)

/-- What may be read at a character: a token, or why there is none. -/
inductive Lexed (o : Nat) (c : Char) : List Char → Except LexicalError (TokenKind × Nat) → Prop where
  | token {kind : TokenKind} {more rest : List Char} : IsLexeme kind (c :: more) →
      (IsWord kind → ∀ d, rest.head? = some d → continuesWord d = false) →
        Lexed o c (more ++ rest) (.ok (kind, more.length))
  | unsupported {rest : List Char} : (∀ kind more, ¬ IsLexeme kind (c :: more)) →
      Lexed o c rest (.error (.unsupported o c))
  | unterminatedString {rest : List Char} : Unended (c :: rest) → Lexed o c rest (.error (.unterminatedString o))
  | invalidEscape {text value rest : List Char} : c = '"' → Spelled text value → escape? rest = none →
      Lexed o c (text ++ '\\' :: rest) (.error (.invalidEscape (o + utf8Length ('"' :: text))))

@[simp]
theorem not_isWord_literal (value : String) : ¬ IsWord (.literal value) := by
  simp [IsWord]

theorem not_isWord_of_mark {c : Char} {kind : TokenKind} (h : mark? c = some kind) : ¬ IsWord kind := by
  rintro (rfl | ⟨text, rfl⟩)
  · unfold mark? at h
    split at h <;> simp at h
  · exact mark?_ne_name c text h

theorem lexed_quoted {o : Nat} {cs : List Char} :
    Lexed o '"' cs ((quotedRest o (o + 1) cs).map fun (value, n) => (.literal (String.ofList value), n)) := by
  have quoted := quotedRest_quoted o (o + 1) cs
  generalize quotedRest o (o + 1) cs = result at quoted
  cases quoted with
  | @closed text value rest spelled =>
    have token : Lexed o '"' (text ++ ['"'] ++ rest) (.ok (.literal (String.ofList value), (text ++ ['"']).length)) :=
      .token (.quoted spelled) fun word => absurd word (not_isWord_literal _)
    simpa [Except.map] using token
  | textEnds spelled => exact .unterminatedString (.textEnds spelled)
  | lineEnds spelled => exact .unterminatedString (.lineEnds spelled)
  | @noEscape text value rest spelled none =>
    have offset : o + 1 + utf8Length text = o + utf8Length ('"' :: text) := by
      rw [utf8Length, Nat.add_assoc]
      rfl
    rw [offset]
    exact .invalidEscape rfl spelled none

theorem lexed_raw {o : Nat} {cs : List Char} :
    Lexed o backQuote cs ((rawRest o cs).map fun (value, n) => (.literal (String.ofList value), n)) := by
  have inside : backQuote ∉ cs.takeWhile (· != backQuote) := by
    intro member
    simpa using List.all_eq_true.mp List.all_takeWhile _ member
  have split : cs.takeWhile (· != backQuote) ++ cs.dropWhile (· != backQuote) = cs := List.takeWhile_append_dropWhile
  rw [rawRest]
  split
  · rename_i shorter
    cases after : cs.dropWhile (· != backQuote) with
    | nil =>
      rw [after, List.append_nil] at split
      rw [split] at shorter
      omega
    | cons d rest =>
      have closes : d = backQuote := by simpa [after] using List.head?_dropWhile_not (· != backQuote) cs
      subst closes
      generalize cs.takeWhile (· != backQuote) = value at *
      have token : Lexed o backQuote (value ++ [backQuote] ++ rest)
          (.ok (.literal (String.ofList value), (value ++ [backQuote]).length)) :=
        .token (.raw inside) fun word => absurd word (not_isWord_literal _)
      rw [← split, after]
      simpa [Except.map] using token
  · rename_i whole
    have all : cs.takeWhile (· != backQuote) = cs :=
      (List.takeWhile_prefix _).eq_of_length_le (Nat.le_of_not_lt whole)
    rw [all] at inside
    exact .unterminatedString (.raw inside)

theorem lexed_word {o : Nat} {c : Char} {cs : List Char} (starts : startsWord c = true) :
    Lexed o c cs (.ok (wordKind (c :: cs.takeWhile continuesWord), (cs.takeWhile continuesWord).length)) := by
  have continues : ∀ d ∈ cs.takeWhile continuesWord, continuesWord d = true := List.all_eq_true.mp List.all_takeWhile
  have stops : ∀ d, (cs.dropWhile continuesWord).head? = some d → continuesWord d = false := by
    intro d first
    have stop := List.head?_dropWhile_not continuesWord cs
    rw [first] at stop
    simpa using stop
  have token : Lexed o c (cs.takeWhile continuesWord ++ cs.dropWhile continuesWord) _ :=
    .token (.word starts continues) fun _ => stops
  rwa [List.takeWhile_append_dropWhile] at token

theorem lexeme_lexed (o : Nat) (c : Char) (cs : List Char) : Lexed o c cs (lexeme o c cs) := by
  unfold lexeme
  split
  · rename_i quote
    subst quote
    exact lexed_quoted
  rename_i notQuote
  split
  · rename_i raw
    subst raw
    exact lexed_raw
  rename_i notRaw
  split
  · rename_i starts
    exact lexed_word starts
  rename_i noWord
  split
  · rename_i dots
    obtain ⟨rfl, dots⟩ := dots
    obtain ⟨rest, rfl⟩ : ∃ rest, cs = ['.', '.'] ++ rest := ⟨cs.drop 2, by rw [← dots, List.take_append_drop]⟩
    exact .token .threeDots fun word => absurd word (by simp [IsWord])
  split
  · rename_i kind found
    have token : Lexed o c ([] ++ cs) (.ok (kind, 0)) :=
      .token (.mark found) fun word => absurd word (not_isWord_of_mark found)
    exact token
  · rename_i none
    refine .unsupported fun kind more isLexeme => ?_
    generalize word : c :: more = word at isLexeme
    cases isLexeme with
    | word starts => cases word; exact noWord starts
    | quoted => cases word; exact notQuote rfl
    | raw => cases word; exact notRaw rfl
    | threeDots => cases word; cases none
    | mark found => cases word; rw [none] at found; cases found

end RegularGrammar.Source
