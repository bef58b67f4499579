import RegularGrammar.Proofs.Source.Extent

/-!
# The items of a text from an offset on

The items are told by the gaps and the characters that they are read from, each with all that
it takes, and by nothing else. So what is read of a text is known once it is cut into these
pieces, and every text can be cut in this way.
-/

namespace RegularGrammar.Source

@[simp]
theorem items_finish (p : Cursor) : p.finish.items = [] := by
  apply items_eq_nil
  have ends : p.finish.rest = [] := List.drop_length
  rw [Cursor.next?, ends, skipGap]

section

variable {p : Cursor} {gap rest : List Char} (here : p.rest = gap ++ rest) (trivia : Trivia gap)

include here trivia

theorem skipGap_here : skipGap .blank p.offset p.rest = skipGap .blank (p.offset + utf8Length gap) rest := by
  rw [here]
  exact skipGap_trivia trivia p.offset rest

theorem items_of_ends {q : Cursor} (ends : skipGap .blank (p.offset + utf8Length gap) rest = .ok q)
    (nothing : q.rest = []) : p.items = [] := by
  obtain ⟨offset, _⟩ := q
  cases nothing
  apply items_eq_nil
  rw [Cursor.next?, skipGap_here here trivia, ends]

theorem items_of_openComment {e : LexicalError}
    (failed : skipGap .blank (p.offset + utf8Length gap) rest = .error e) : p.items = [.error e] := by
  have next : p.next? = some (.error e, p.finish) := by
    rw [Cursor.next?, skipGap_here here trivia, failed]
  simp [items_eq_cons next]

end

section

variable {p : Cursor} {gap cs : List Char} {c : Char} (here : p.rest = gap ++ c :: cs) (trivia : Trivia gap)
  (stays : skipGap .blank (p.offset + utf8Length gap) (c :: cs) = .ok ⟨p.offset + utf8Length gap, c :: cs⟩)

include here trivia stays

theorem next?_of_token {kind : TokenKind} {n : Nat} (read : lexeme (p.offset + utf8Length gap) c cs = .ok (kind, n)) :
    p.next? = some (.ok ⟨kind, p.offset + utf8Length gap, String.ofList ((c :: cs).take (n + 1))⟩,
      Cursor.advance ⟨p.offset + utf8Length gap, c :: cs⟩ (n + 1)) := by
  rw [Cursor.next?, skipGap_here here trivia, stays]
  simp only [read]

theorem next?_of_unsupported {o : Nat} {found : Char}
    (failed : lexeme (p.offset + utf8Length gap) c cs = .error (.unsupported o found)) :
    p.next? = some (.error (.unsupported o found), Cursor.advance ⟨p.offset + utf8Length gap, c :: cs⟩ 1) := by
  rw [Cursor.next?, skipGap_here here trivia, stays]
  simp only [failed]

/-- After any other error the reading is at its end. -/
theorem items_of_fault {e : LexicalError} (failed : lexeme (p.offset + utf8Length gap) c cs = .error e)
    (other : ∀ o found, e ≠ .unsupported o found) : p.items = [.error e] := by
  have next : p.next? = some (.error e, Cursor.finish ⟨p.offset + utf8Length gap, c :: cs⟩) := by
    rw [Cursor.next?, skipGap_here here trivia, stays]
    cases e with
    | unsupported o found => exact absurd rfl (other o found)
    | _ => simp only [failed]
  simp [items_eq_cons next]

end

@[simp]
theorem advance_length (o : Nat) (word rest : List Char) :
    Cursor.advance ⟨o, word ++ rest⟩ word.length = ⟨o + utf8Length word, rest⟩ := by
  rw [Cursor.advance, List.take_left, List.drop_left]

theorem items_of_lexeme {o : Nat} {gap more rest : List Char} {c : Char} {kind : TokenKind} (trivia : Trivia gap)
    (isLexeme : IsLexeme kind (c :: more)) (apart : Apart kind rest) :
    Cursor.items ⟨o, gap ++ c :: (more ++ rest)⟩ =
      .ok ⟨kind, o + utf8Length gap, String.ofList (c :: more)⟩ ::
        Cursor.items ⟨o + utf8Length (gap ++ c :: more), rest⟩ := by
  obtain ⟨notSlash, notBlank⟩ := isLexeme.begins
  have next := next?_of_token (p := ⟨o, gap ++ c :: (more ++ rest)⟩) rfl trivia (skipGap_stop notSlash notBlank)
    (lexeme_of_isLexeme isLexeme apart _)
  have taken : (c :: (more ++ rest)).take (more.length + 1) = c :: more := by simp
  have advanced : Cursor.advance ⟨o + utf8Length gap, c :: (more ++ rest)⟩ (more.length + 1) =
      ⟨o + utf8Length gap + utf8Length (c :: more), rest⟩ := advance_length _ (c :: more) rest
  rw [taken, advanced, Nat.add_assoc, ← utf8Length_append] at next
  exact items_eq_cons next

theorem items_of_unsupported {o : Nat} {gap rest : List Char} {c : Char} (trivia : Trivia gap)
    (noLexeme : ∀ kind more, ¬ IsLexeme kind (c :: more)) (notBlank : Unicode.isWhiteSpace c = false)
    (noComment : c = '/' → rest.head? ≠ some '/' ∧ rest.head? ≠ some '*') :
    Cursor.items ⟨o, gap ++ c :: rest⟩ =
      .error (.unsupported (o + utf8Length gap) c) :: Cursor.items ⟨o + utf8Length (gap ++ [c]), rest⟩ := by
  have stays : skipGap .blank (o + utf8Length gap) (c :: rest) = .ok ⟨o + utf8Length gap, c :: rest⟩ := by
    rw [skipGap_cons noComment, notBlank]
    rfl
  have next := next?_of_unsupported (p := ⟨o, gap ++ c :: rest⟩) rfl trivia stays (lexeme_unsupported noLexeme _ rest)
  have advanced : Cursor.advance ⟨o + utf8Length gap, c :: rest⟩ 1 = ⟨o + utf8Length gap + utf8Length [c], rest⟩ :=
    advance_length _ [c] rest
  rw [advanced, Nat.add_assoc, ← utf8Length_append] at next
  exact items_eq_cons next

/-- What the items of a text are from offset `o` on, token by token, each with all the characters it takes. -/
inductive Scanned : (o : Nat) → List Char → List Item → Prop where
  | finished {o : Nat} {gap : List Char} : LastTrivia gap → Scanned o gap []
  | token {o : Nat} {gap more rest : List Char} {c : Char} {kind : TokenKind} {items : List Item} :
      Trivia gap → IsLexeme kind (c :: more) → Apart kind rest →
        Scanned (o + utf8Length (gap ++ c :: more)) rest items →
          Scanned o (gap ++ c :: (more ++ rest)) (.ok ⟨kind, o + utf8Length gap, String.ofList (c :: more)⟩ :: items)
  | unsupported {o : Nat} {gap rest : List Char} {c : Char} {items : List Item} :
      Trivia gap → (∀ kind more, ¬ IsLexeme kind (c :: more)) → Unicode.isWhiteSpace c = false →
        (c = '/' → rest.head? ≠ some '/' ∧ rest.head? ≠ some '*') →
          Scanned (o + utf8Length (gap ++ [c])) rest items →
            Scanned o (gap ++ c :: rest) (.error (.unsupported (o + utf8Length gap) c) :: items)
  | unterminatedString {o : Nat} {gap rest : List Char} : Trivia gap → Unended rest →
      Scanned o (gap ++ rest) [.error (.unterminatedString (o + utf8Length gap))]
  | unterminatedComment {o : Nat} {gap body : List Char} : Trivia gap → Unclosed body →
      Scanned o (gap ++ '/' :: '*' :: body) [.error (.unterminatedComment (o + utf8Length gap))]
  | invalidEscape {o : Nat} {gap text value rest : List Char} : Trivia gap → Spelled text value → escape? rest = none →
      Scanned o (gap ++ ('"' :: text ++ '\\' :: rest)) [.error (.invalidEscape (o + utf8Length (gap ++ '"' :: text)))]

/-- Every text is cut into such pieces. -/
theorem exists_scanned (o : Nat) (cs : List Char) : ∃ items, Scanned o cs items := by
  obtain ⟨gap, rest, rfl, trivia, stop⟩ := exists_gap cs
  cases stop with
  | ends => exact ⟨_, .finished (.closed (by rwa [List.append_nil]))⟩
  | lineComment noEnd => exact ⟨_, .finished (.lineComment trivia noEnd)⟩
  | openComment unclosed => exact ⟨_, .unterminatedComment trivia unclosed⟩
  | @other c cs notBlank noComment =>
    have lexed := lexeme_lexed o c cs
    generalize read : lexeme o c cs = result at lexed
    cases lexed with
    | @token kind more rest =>
      obtain ⟨isLexeme, apart⟩ := isLexeme_of_lexeme read
      obtain ⟨items, onward⟩ := exists_scanned (o + utf8Length (gap ++ c :: more)) rest
      exact ⟨_, .token trivia isLexeme apart onward⟩
    | unsupported noLexeme =>
      obtain ⟨items, onward⟩ := exists_scanned (o + utf8Length (gap ++ [c])) cs
      exact ⟨_, .unsupported trivia noLexeme notBlank noComment onward⟩
    | unterminatedString unended => exact ⟨_, .unterminatedString trivia unended⟩
    | invalidEscape quote spelled none =>
      subst quote
      exact ⟨_, .invalidEscape trivia spelled none⟩
termination_by cs.length
decreasing_by
  all_goals
    subst_vars
    simp only [List.length_append, List.length_cons]
    omega

/-- The pieces tell the items. -/
theorem Scanned.items_eq {o : Nat} {cs : List Char} {items : List Item} (h : Scanned o cs items) :
    Cursor.items ⟨o, cs⟩ = items := by
  induction h with
  | @finished o gap last =>
    cases last with
    | closed trivia => exact items_of_ends (List.append_nil gap).symm trivia rfl rfl
    | @lineComment gap body trivia noEnd =>
      have ends : skipGap .blank (o + utf8Length gap) ('/' :: '/' :: body) =
          .ok ⟨o + utf8Length gap + 2 + utf8Length body, []⟩ := by
        rw [skipGap, skipGap_lineComment_end noEnd]
      exact items_of_ends rfl trivia ends rfl
  | token trivia isLexeme apart _ ih => rw [items_of_lexeme trivia isLexeme apart, ih]
  | unsupported trivia noLexeme notBlank noComment _ ih =>
    rw [items_of_unsupported trivia noLexeme notBlank noComment, ih]
  | @unterminatedString o gap rest trivia unended =>
    cases rest with
    | nil => cases unended
    | cons c rest =>
      obtain ⟨_, _, isLexeme⟩ := unended.begins_lexeme
      obtain ⟨notSlash, notBlank⟩ := isLexeme.begins
      exact items_of_fault rfl trivia (skipGap_stop notSlash notBlank) (lexeme_unended unended _) (by simp)
  | unterminatedComment trivia unclosed =>
    refine items_of_openComment rfl trivia ?_
    rw [skipGap, skipGap_blockComment_open unclosed]
  | invalidEscape trivia spelled none =>
    rw [utf8Length_append, ← Nat.add_assoc]
    refine items_of_fault rfl trivia (skipGap_stop ?_ ?_) (lexeme_noEscape spelled none _) (by simp)
    · decide
    · decide

theorem scanned_items (o : Nat) (cs : List Char) : Scanned o cs (Cursor.items ⟨o, cs⟩) := by
  obtain ⟨items, scanned⟩ := exists_scanned o cs
  rw [scanned.items_eq]
  exact scanned

/-- After such an error nothing more is read. -/
def LexicalError.EndsReading : LexicalError → Prop
  | .unsupported _ _ => False
  | _ => True

theorem Scanned.eq_nil_after {o : Nat} {cs : List Char} {items earlier later : List Item} {e : LexicalError}
    (h : Scanned o cs items) (split : items = earlier ++ .error e :: later) (ends : e.EndsReading) : later = [] := by
  induction h generalizing earlier with
  | finished => simp at split
  | token _ _ _ _ ih =>
    cases earlier with
    | nil => cases split
    | cons first earlier => exact ih (List.cons.inj split).2
  | unsupported _ _ _ _ _ ih =>
    cases earlier with
    | nil =>
      cases split
      exact ends.elim
    | cons first earlier => exact ih (List.cons.inj split).2
  | _ =>
    cases earlier with
    | nil => exact (List.cons.inj split).2.symm
    | cons first earlier => simp at split

/-- Each item has characters of its own. -/
theorem Scanned.length_le {o : Nat} {cs : List Char} {items : List Item} (h : Scanned o cs items) :
    items.length ≤ cs.length := by
  induction h with
  | finished => exact Nat.zero_le _
  | token _ _ _ _ ih =>
    simp only [List.length_cons, List.length_append]
    omega
  | unsupported _ _ _ _ _ ih =>
    simp only [List.length_cons, List.length_append]
    omega
  | unterminatedString _ unended =>
    rw [List.length_append]
    exact Nat.le_add_left_of_le (List.length_pos_of_ne_nil (by rintro rfl; cases unended))
  | _ =>
    simp only [List.length_cons, List.length_append, List.length_nil]
    omega

theorem Scanned.isLexeme_origin {o : Nat} {cs : List Char} {items : List Item} {t : Token} (h : Scanned o cs items)
    (member : .ok t ∈ items) : IsLexeme t.kind t.origin.toList := by
  induction h with
  | token _ isLexeme _ _ ih =>
    rcases List.mem_cons.mp member with here | later
    · cases here
      rwa [String.toList_ofList]
    · exact ih later
  | unsupported _ _ _ _ _ ih =>
    rcases List.mem_cons.mp member with here | later
    · cases here
    · exact ih later
  | _ => simp at member

theorem IsLexeme.isIdentifier {kind : TokenKind} {word : List Char} {text : String} (h : IsLexeme kind word)
    (isName : kind = .name text) : IsIdentifier text := by
  cases h with
  | word first continues => exact isIdentifier_of_wordKind first continues isName
  | mark found =>
    subst isName
    exact absurd found (mark?_ne_name _ text)
  | _ => cases isName

/-- The names that are read are identifiers. -/
theorem isIdentifier_of_mem_items {p : Cursor} {token : Token} {text : String} (member : .ok token ∈ p.items)
    (isName : token.kind = .name text) : IsIdentifier text :=
  ((scanned_items p.offset p.rest).isLexeme_origin member).isIdentifier isName

end RegularGrammar.Source
