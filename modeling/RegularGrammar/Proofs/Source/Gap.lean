import RegularGrammar.Source.Cursor

/-!
# Gaps between tokens

What a gap is made of, said without reading it, and that a gap is read to its end:
from any position on, white space and comments are followed by the end of the text,
by a line comment that runs to that end, by a comment that is never closed, or by a
character that begins neither.
-/

namespace RegularGrammar.Source

@[simp]
theorem utf8Length_append (u v : List Char) : utf8Length (u ++ v) = utf8Length u + utf8Length v := by
  induction u with
  | nil => simp [utf8Length]
  | cons c rest ih => simp only [List.cons_append, utf8Length, ih]; omega

@[simp]
theorem utf8ByteSize_ofList (cs : List Char) : (String.ofList cs).utf8ByteSize = utf8Length cs := by
  induction cs with
  | nil => rfl
  | cons c rest ih => rw [String.ofList_cons, String.utf8ByteSize_append, String.utf8ByteSize_singleton, ih, utf8Length]

@[simp]
theorem utf8Length_toList (text : String) : utf8Length text.toList = text.utf8ByteSize := by
  rw [← utf8ByteSize_ofList, String.ofList_toList]

/-- The two characters that close a block comment are nowhere among some characters. -/
def Unclosed (cs : List Char) : Prop := ¬ ['*', '/'] <:+: cs

theorem unclosed_nil : Unclosed [] := by
  simp [Unclosed]

@[simp]
theorem unclosed_cons {c : Char} {cs : List Char} :
    Unclosed (c :: cs) ↔ Unclosed cs ∧ ¬ (c = '*' ∧ cs.head? = some '/') := by
  have here : ['*', '/'] <+: c :: cs ↔ c = '*' ∧ cs.head? = some '/' := by
    cases cs with
    | nil => simp
    | cons d rest =>
      simp only [List.cons_prefix_cons, List.nil_prefix, and_true, List.head?_cons, Option.some.injEq]
      constructor
      · rintro ⟨rfl, rfl⟩
        exact ⟨rfl, rfl⟩
      · rintro ⟨rfl, rfl⟩
        exact ⟨rfl, rfl⟩
  rw [Unclosed, List.infix_cons_iff, not_or, here]
  exact and_comm

/-- What comes after a comment does not close it before its end. -/
theorem not_closed_append {c : Char} {body : List Char} (here : ¬ (c = '*' ∧ body.head? = some '/')) (rest : List Char) :
    ¬ (c = '*' ∧ (body ++ '*' :: '/' :: rest).head? = some '/') := by
  rintro ⟨star, slash⟩
  cases body with
  | nil => cases slash
  | cons d body => exact here ⟨star, slash⟩

/-- A comment that is closed is closed a first time. -/
theorem exists_first_close {cs : List Char} (closed : ¬ Unclosed cs) :
    ∃ body rest, cs = body ++ '*' :: '/' :: rest ∧ Unclosed body := by
  induction cs with
  | nil => exact absurd unclosed_nil closed
  | cons c cs ih =>
    by_cases here : c = '*' ∧ cs.head? = some '/'
    · obtain ⟨rfl, next⟩ := here
      obtain ⟨rest, rfl⟩ := List.head?_eq_some_iff.mp next
      exact ⟨[], rest, rfl, unclosed_nil⟩
    · have later : ¬ Unclosed cs := fun unclosed => closed (unclosed_cons.mpr ⟨unclosed, here⟩)
      obtain ⟨body, rest, rfl, unclosed⟩ := ih later
      refine ⟨c :: body, rest, rfl, unclosed_cons.mpr ⟨unclosed, ?_⟩⟩
      rintro ⟨star, slash⟩
      apply here
      cases body with
      | nil => cases slash
      | cons d body => exact ⟨star, slash⟩

/-- White space, line comments through their line feeds, and block comments through the first `*/` after
    their opening. -/
inductive Trivia : List Char → Prop where
  | nil : Trivia []
  | blank {c : Char} {rest : List Char} : Unicode.isWhiteSpace c = true → Trivia rest → Trivia (c :: rest)
  | lineComment {body rest : List Char} : '\n' ∉ body → Trivia rest → Trivia ('/' :: '/' :: body ++ '\n' :: rest)
  | blockComment {body rest : List Char} : Unclosed body → Trivia rest →
      Trivia ('/' :: '*' :: body ++ '*' :: '/' :: rest)

/-- What may stand at the end of a text: a line comment there needs no line feed. -/
inductive LastTrivia : List Char → Prop where
  | closed {gap : List Char} : Trivia gap → LastTrivia gap
  | lineComment {gap body : List Char} : Trivia gap → '\n' ∉ body → LastTrivia (gap ++ '/' :: '/' :: body)

/-- Where a gap cannot go on as one that is closed. -/
inductive Stop : List Char → Prop where
  | ends : Stop []
  | lineComment {body : List Char} : '\n' ∉ body → Stop ('/' :: '/' :: body)
  | openComment {body : List Char} : Unclosed body → Stop ('/' :: '*' :: body)
  | other {c : Char} {cs : List Char} : Unicode.isWhiteSpace c = false →
      (c = '/' → cs.head? ≠ some '/' ∧ cs.head? ≠ some '*') → Stop (c :: cs)

/-- From any position on there is a gap, which may be empty, up to where none can go on. -/
theorem exists_gap (cs : List Char) : ∃ gap rest, cs = gap ++ rest ∧ Trivia gap ∧ Stop rest := by
  cases cs with
  | nil => exact ⟨[], [], rfl, .nil, .ends⟩
  | cons c cs =>
    by_cases blank : Unicode.isWhiteSpace c = true
    · obtain ⟨gap, rest, rfl, trivia, stop⟩ := exists_gap cs
      exact ⟨c :: gap, rest, rfl, .blank blank trivia, stop⟩
    rw [Bool.not_eq_true] at blank
    by_cases line : c = '/' ∧ cs.head? = some '/'
    · obtain ⟨rfl, next⟩ := line
      obtain ⟨cs, rfl⟩ := List.head?_eq_some_iff.mp next
      by_cases ends : '\n' ∈ cs
      · obtain ⟨body, after, rfl, first⟩ := List.eq_append_cons_of_mem ends
        obtain ⟨gap, rest, rfl, trivia, stop⟩ := exists_gap after
        exact ⟨'/' :: '/' :: body ++ '\n' :: gap, rest, by simp, .lineComment first trivia, stop⟩
      · exact ⟨[], _, rfl, .nil, .lineComment ends⟩
    by_cases block : c = '/' ∧ cs.head? = some '*'
    · obtain ⟨rfl, next⟩ := block
      obtain ⟨cs, rfl⟩ := List.head?_eq_some_iff.mp next
      by_cases unclosed : Unclosed cs
      · exact ⟨[], _, rfl, .nil, .openComment unclosed⟩
      · obtain ⟨body, after, rfl, first⟩ := exists_first_close unclosed
        obtain ⟨gap, rest, rfl, trivia, stop⟩ := exists_gap after
        exact ⟨'/' :: '*' :: body ++ '*' :: '/' :: gap, rest, by simp, .blockComment first trivia, stop⟩
    · have other : c = '/' → cs.head? ≠ some '/' ∧ cs.head? ≠ some '*' := by
        intro slash
        exact ⟨fun next => line ⟨slash, next⟩, fun next => block ⟨slash, next⟩⟩
      exact ⟨[], c :: cs, rfl, .nil, .other blank other⟩
termination_by cs.length
decreasing_by
  all_goals
    subst_vars
    simp only [List.length_cons, List.length_append]
    omega

theorem skipGap_lineComment {body : List Char} (first : '\n' ∉ body) (o : Nat) (rest : List Char) :
    skipGap .lineComment o (body ++ '\n' :: rest) = skipGap .blank (o + utf8Length body + 1) rest := by
  induction body generalizing o with
  | nil => rw [List.nil_append, skipGap, if_pos rfl, utf8Length, Nat.add_zero]
  | cons c body ih =>
    have ⟨other, others⟩ := List.ne_and_not_mem_of_not_mem_cons first
    rw [List.cons_append, skipGap, if_neg (Ne.symm other), ih others, utf8Length, ← Nat.add_assoc]

theorem skipGap_lineComment_end {body : List Char} (none : '\n' ∉ body) (o : Nat) :
    skipGap .lineComment o body = .ok ⟨o + utf8Length body, []⟩ := by
  induction body generalizing o with
  | nil => rfl
  | cons c body ih =>
    have ⟨other, others⟩ := List.ne_and_not_mem_of_not_mem_cons none
    rw [skipGap, if_neg (Ne.symm other), ih others, utf8Length, ← Nat.add_assoc]

theorem skipGap_blockComment_cons {openedAt o : Nat} {c : Char} {cs : List Char}
    (goesOn : ¬ (c = '*' ∧ cs.head? = some '/')) :
    skipGap (.blockComment openedAt) o (c :: cs) = skipGap (.blockComment openedAt) (o + c.utf8Size) cs := by
  rw [skipGap]
  rintro rest rfl rfl
  exact goesOn ⟨rfl, rfl⟩

theorem skipGap_blockComment {body : List Char} (first : Unclosed body) (openedAt o : Nat) (rest : List Char) :
    skipGap (.blockComment openedAt) o (body ++ '*' :: '/' :: rest) = skipGap .blank (o + utf8Length body + 2) rest := by
  induction body generalizing o with
  | nil => rw [List.nil_append, skipGap, utf8Length, Nat.add_zero]
  | cons c body ih =>
    have ⟨others, here⟩ := unclosed_cons.mp first
    rw [List.cons_append, skipGap_blockComment_cons (not_closed_append here rest), ih others, utf8Length, ← Nat.add_assoc]

theorem skipGap_blockComment_open {body : List Char} (unclosed : Unclosed body) (openedAt o : Nat) :
    skipGap (.blockComment openedAt) o body = .error (.unterminatedComment openedAt) := by
  induction body generalizing o with
  | nil => rfl
  | cons c body ih =>
    have ⟨others, goesOn⟩ := unclosed_cons.mp unclosed
    rw [skipGap_blockComment_cons goesOn, ih others]

/-- A character that begins no comment is white space, or the gap ends before it. -/
theorem skipGap_cons {c : Char} {cs : List Char} (noComment : c = '/' → cs.head? ≠ some '/' ∧ cs.head? ≠ some '*')
    (o : Nat) : skipGap .blank o (c :: cs) =
      if Unicode.isWhiteSpace c then skipGap .blank (o + c.utf8Size) cs else .ok ⟨o, c :: cs⟩ := by
  rw [skipGap]
  · rintro rest rfl rfl
    exact (noComment rfl).1 rfl
  · rintro rest rfl rfl
    exact (noComment rfl).2 rfl

theorem ne_slash_of_isWhiteSpace {c : Char} (blank : Unicode.isWhiteSpace c = true) : c ≠ '/' := by
  rintro rfl
  exact absurd blank (by decide)

/-- A gap is skipped, whatever follows. -/
theorem skipGap_trivia {gap : List Char} (trivia : Trivia gap) (o : Nat) (rest : List Char) :
    skipGap .blank o (gap ++ rest) = skipGap .blank (o + utf8Length gap) rest := by
  induction trivia generalizing o with
  | nil => rfl
  | @blank c gap blank _ ih =>
    have other := ne_slash_of_isWhiteSpace blank
    rw [List.cons_append, skipGap_cons (fun slash => absurd slash other), if_pos blank, ih, utf8Length, ← Nat.add_assoc]
  | @lineComment body gap first _ ih =>
    have length : utf8Length ('/' :: '/' :: body ++ '\n' :: gap) = 2 + utf8Length body + 1 + utf8Length gap := by
      rw [utf8Length_append]
      simp only [utf8Length, show '/'.utf8Size = 1 from rfl, show '\n'.utf8Size = 1 from rfl]
      omega
    rw [length, List.cons_append, List.cons_append, List.append_assoc, List.cons_append, List.cons_append, skipGap,
      skipGap_lineComment first, ih]
    congr 1
    omega
  | @blockComment body gap first _ ih =>
    have length : utf8Length ('/' :: '*' :: body ++ '*' :: '/' :: gap) = 2 + utf8Length body + 2 + utf8Length gap := by
      rw [utf8Length_append]
      simp only [utf8Length, show '/'.utf8Size = 1 from rfl, show '*'.utf8Size = 1 from rfl]
      omega
    rw [length, List.cons_append, List.cons_append, List.append_assoc, List.cons_append, List.cons_append,
      List.cons_append, skipGap, skipGap_blockComment first, ih]
    congr 1
    omega

end RegularGrammar.Source
