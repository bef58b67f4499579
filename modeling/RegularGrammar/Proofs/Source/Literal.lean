import Mathlib.Data.Nat.Digits.Defs
import RegularGrammar.Proofs.Source.Scanning

/-!
# How literals are spelled

Between double quotes a character stands for itself, or is spelled by an escape with a letter
or with its code point. The literals of a text are the spellings of their values, and whatever
else follows a double quote fails at the first backslash that begins no escape, or because the
quotation is not closed. Between back quotes every text stands for itself.
-/

namespace RegularGrammar.Source

theorem spelled_iff {text value : List Char} :
    Spelled text value ↔ ∃ spellings, List.Forall₂ CharSpelled spellings value ∧ text = spellings.flatten := by
  constructor
  · intro h
    induction h with
    | nil => exact ⟨[], .nil, rfl⟩
    | @plain c text value notQuote notBackslash notLineFeed _ ih =>
      obtain ⟨spellings, all, rfl⟩ := ih
      exact ⟨[c] :: spellings, .cons (.itself notQuote notBackslash notLineFeed) all, rfl⟩
    | @escape c spelling text value escape _ ih =>
      obtain ⟨spellings, all, rfl⟩ := ih
      exact ⟨('\\' :: spelling) :: spellings, .cons (escape?_spelling_iff.mp escape) all, rfl⟩
  · rintro ⟨spellings, all, rfl⟩
    induction all with
    | nil => exact .nil
    | @cons spelling c spellings value first _ ih =>
      rw [List.flatten_cons]
      cases first with
      | itself notQuote notBackslash notLineFeed => exact .plain notQuote notBackslash notLineFeed ih
      | named member => exact .escape (escape?_spelling_iff.mpr (.named member)) ih
      | codePoint announced areDigits number =>
        exact .escape (escape?_spelling_iff.mpr (.codePoint announced areDigits number)) ih

theorem apart_literal (value : String) (rest : List Char) : Apart (.literal value) rest :=
  ⟨fun word => absurd word (not_isWord_literal value), fun isPeriod => by cases isPeriod⟩

/-- Quoted text is a token, whatever follows the quotation. -/
theorem items_of_quoted {o : Nat} {sign : Char} {text rest : List Char} {value : String}
    (isLexeme : IsLexeme (.literal value) (sign :: text ++ [sign])) :
    Cursor.items ⟨o, sign :: (text ++ sign :: rest)⟩ =
      .ok ⟨.literal value, o, String.ofList (sign :: text ++ [sign])⟩ ::
        Cursor.items ⟨o + utf8Length (sign :: text ++ [sign]), rest⟩ := by
  have read : Cursor.items ⟨o, sign :: (text ++ [sign] ++ rest)⟩ =
      .ok ⟨.literal value, o, String.ofList (sign :: text ++ [sign])⟩ ::
        Cursor.items ⟨o + utf8Length (sign :: text ++ [sign]), rest⟩ :=
    items_of_lexeme .nil isLexeme (apart_literal value rest)
  rwa [List.append_assoc] at read

theorem items_of_noEscape {o : Nat} {text value rest : List Char} (spelled : Spelled text value)
    (noEscape : NoEscape rest) : Cursor.items ⟨o, '"' :: (text ++ '\\' :: rest)⟩ =
      [.error (.invalidEscape (o + utf8Length ('"' :: text)))] :=
  (Scanned.invalidEscape .nil spelled (escape?_eq_none_iff.mpr noEscape)).items_eq

theorem items_of_unended {o : Nat} {cs : List Char} (unended : Unended cs) :
    Cursor.items ⟨o, cs⟩ = [.error (.unterminatedString o)] :=
  (Scanned.unterminatedString .nil unended).items_eq

theorem unended_quoted {text value rest : List Char} (spelled : Spelled text value)
    (ends : rest = [] ∨ rest.head? = some '\n') : Unended ('"' :: (text ++ rest)) := by
  rcases ends with rfl | lineEnds
  · rw [List.append_nil]
    exact .textEnds spelled
  · obtain ⟨rest, rfl⟩ := List.head?_eq_some_iff.mp lineEnds
    exact .lineEnds spelled

theorem IsLexeme.of_literal {kind : TokenKind} {word : List Char} {value : String} (h : IsLexeme kind word)
    (isLiteral : kind = .literal value) :
    (∃ text, Spelled text value.toList ∧ word = '"' :: text ++ ['"']) ∨
      backQuote ∉ value.toList ∧ word = backQuote :: value.toList ++ [backQuote] := by
  cases h with
  | @word c cs =>
    have isWord := isWord_wordKind (c :: cs)
    rw [isLiteral] at isWord
    exact absurd isWord (not_isWord_literal value)
  | quoted spelled =>
    cases isLiteral
    exact .inl ⟨_, by rwa [String.toList_ofList], rfl⟩
  | raw inside =>
    cases isLiteral
    exact .inr (by rw [String.toList_ofList]; exact ⟨inside, rfl⟩)
  | threeDots => cases isLiteral
  | mark found =>
    subst isLiteral
    unfold mark? at found
    split at found <;> simp at found

/-- What stands between quotes is spelled, and ends with the quote, with the line or the text, or at a backslash that
    begins no escape. -/
theorem exists_spelled (cs : List Char) : ∃ text value rest, Spelled text value ∧ cs = text ++ rest ∧
    (rest.head? = some '"' ∨ (rest = [] ∨ rest.head? = some '\n') ∨ ∃ more, rest = '\\' :: more ∧ NoEscape more) := by
  have quoted := quotedRest_quoted 0 0 cs
  generalize quotedRest 0 0 cs = result at quoted
  cases quoted with
  | closed spelled => exact ⟨_, _, _, spelled, rfl, .inl rfl⟩
  | textEnds spelled => exact ⟨_, _, [], spelled, (List.append_nil _).symm, .inr (.inl (.inl rfl))⟩
  | lineEnds spelled => exact ⟨_, _, _, spelled, rfl, .inr (.inl (.inr rfl))⟩
  | noEscape spelled none => exact ⟨_, _, _, spelled, rfl, .inr (.inr ⟨_, rfl, escape?_eq_none_iff.mp none⟩)⟩

/-- Between double quotes any characters may be spelled in any way, between back quotes all but a back quote stand for
    themselves, and no literal is written otherwise. A double quote with no other after what is spelled is refused at
    the first backslash that begins no escape, or where it stands itself if the line or the text ends before. -/
theorem literals_spelled :
    (∀ o spellings value rest, List.Forall₂ CharSpelled spellings value →
      Cursor.items ⟨o, '"' :: (spellings.flatten ++ '"' :: rest)⟩ =
        .ok ⟨.literal (String.ofList value), o, String.ofList ('"' :: spellings.flatten ++ ['"'])⟩ ::
          Cursor.items ⟨o + utf8Length ('"' :: spellings.flatten ++ ['"']), rest⟩) ∧
    (∀ o value rest, backQuote ∉ value →
      Cursor.items ⟨o, backQuote :: (value ++ backQuote :: rest)⟩ =
        .ok ⟨.literal (String.ofList value), o, String.ofList (backQuote :: value ++ [backQuote])⟩ ::
          Cursor.items ⟨o + utf8Length (backQuote :: value ++ [backQuote]), rest⟩) ∧
    (∀ text t value, .ok t ∈ items text → t.kind = .literal value →
      (∃ spellings, List.Forall₂ CharSpelled spellings value.toList ∧
        t.origin.toList = '"' :: spellings.flatten ++ ['"']) ∨
      backQuote ∉ value.toList ∧ t.origin.toList = backQuote :: value.toList ++ [backQuote]) ∧
    (∀ cs, ∃ spellings value rest, List.Forall₂ CharSpelled spellings value ∧ cs = spellings.flatten ++ rest ∧
      (rest.head? = some '"' ∨ (rest = [] ∨ rest.head? = some '\n') ∨ ∃ more, rest = '\\' :: more ∧ NoEscape more)) ∧
    (∀ o spellings value rest, List.Forall₂ CharSpelled spellings value → NoEscape rest →
      Cursor.items ⟨o, '"' :: (spellings.flatten ++ '\\' :: rest)⟩ =
        [.error (.invalidEscape (o + utf8Length ('"' :: spellings.flatten)))]) ∧
    (∀ o spellings value rest, List.Forall₂ CharSpelled spellings value → rest = [] ∨ rest.head? = some '\n' →
      Cursor.items ⟨o, '"' :: (spellings.flatten ++ rest)⟩ = [.error (.unterminatedString o)]) ∧
    ∀ o cs, backQuote ∉ cs → Cursor.items ⟨o, backQuote :: cs⟩ = [.error (.unterminatedString o)] := by
  refine ⟨fun o spellings value rest all => ?_, fun o value rest inside => items_of_quoted (.raw inside),
    fun text t value member isLiteral => ?_, fun cs => ?_, fun o spellings value rest all noEscape => ?_,
    fun o spellings value rest all ends => ?_, fun o cs noQuote => items_of_unended (.raw noQuote)⟩
  · exact items_of_quoted (.quoted (spelled_iff.mpr ⟨spellings, all, rfl⟩))
  · rcases ((scanned_items 0 text.toList).isLexeme_origin member).of_literal isLiteral with
      ⟨quoted, spelled, origin⟩ | raw
    · obtain ⟨spellings, all, rfl⟩ := spelled_iff.mp spelled
      exact .inl ⟨spellings, all, origin⟩
    · exact .inr raw
  · obtain ⟨text, value, rest, spelled, rfl, ends⟩ := exists_spelled cs
    obtain ⟨spellings, all, rfl⟩ := spelled_iff.mp spelled
    exact ⟨spellings, value, rest, all, rfl, ends⟩
  · exact items_of_noEscape (spelled_iff.mpr ⟨spellings, all, rfl⟩) noEscape
  · exact items_of_unended (unended_quoted (spelled_iff.mpr ⟨spellings, all, rfl⟩) ends)

theorem literals_spelled_capital :
    let spellings := [['é'], ['\\', 'u', '0', '0', '4', 'a'], ['\\', '"']]
    (∃ later, Cursor.items ⟨3, '"' :: (spellings.flatten ++ ['"', ';'])⟩ =
        .ok ⟨.literal "éJ\"", 3, "\"é\\u004a\\\"\""⟩ :: later) ∧
      (∃ later, Cursor.items ⟨3, backQuote :: (['\\', '"'] ++ backQuote :: ['.'])⟩ =
        .ok ⟨.literal "\\\"", 3, "\x60\\\"\x60"⟩ :: later) ∧
      Cursor.items ⟨3, '"' :: (spellings.flatten ++ ['\\', 'x', '4', '"'])⟩ = [.error (.invalidEscape 14)] ∧
      Cursor.items ⟨3, '"' :: (spellings.flatten ++ ['\n', '"'])⟩ = [.error (.unterminatedString 3)] := by
  intro spellings
  have digits : List.Forall₂ IsHexDigit ['0', '0', '4', 'a'] [0, 0, 4, 10] := by simp +decide
  have all : List.Forall₂ CharSpelled spellings ['é', 'J', '"'] :=
    .cons (.itself (by decide) (by decide) (by decide))
      (.cons (.codePoint (by decide) digits (by decide)) (.cons (.named (by decide)) .nil))
  obtain ⟨closed, raw, -, -, broken, unended, -⟩ := literals_spelled
  have noEscape : NoEscape ['x', '4', '"'] := escape?_eq_none_iff.mp rfl
  exact ⟨⟨_, closed 3 spellings _ [';'] all⟩, ⟨_, raw 3 _ ['.'] (by decide)⟩, broken 3 spellings _ _ all noEscape,
    unended 3 spellings _ _ all (.inr rfl)⟩

end RegularGrammar.Source
