import RegularGrammar.Proofs.Source.Scan.Basic

/-!
# Scanning over gaps

How a scanner moves over white space and comments, whose lengths it works out in bytes, and that
it moves over each gap to its end.
-/

namespace RegularGrammar.Source

open Scanner (between)

namespace Scan

def skipBlanks : Scan Unit := do
  let s ← get
  let blanks ← minus (utf8Length s.rest) (utf8Length (s.rest.dropWhile Unicode.isWhiteSpace))
  skip blanks

/-- Moves over white space and comments, in so many rounds at most. -/
def skipTriviaIn : Nat → Scan (Except LexicalError Unit)
  | 0 => throw .endless
  | rounds + 1 => do
    skipBlanks
    let s ← get
    if ['/', '/'].isPrefixOf s.rest then
      skip ((seek? (goesOn (· = '\n')) s.rest).elim (utf8Length s.rest) (· + 1))
      skipTriviaIn rounds
    else if ['/', '*'].isPrefixOf s.rest then
      let body ← after s.rest 2
      match seek? closesComment body with
      | none => return .error (.unterminatedComment s.byte)
      | some close =>
        skip (close + 4)
        skipTriviaIn rounds
    else return .ok ()

/-- A comment has characters, so that there are no more rounds than what is left has room for. -/
def skipTrivia : Scan (Except LexicalError Unit) := do
  let s ← get
  skipTriviaIn (s.rest.length + 1)

theorem yields_skipBlanks (before cs : List Char) (held : Option Item) : Yields skipBlanks (between before cs held) ()
    (between (before ++ cs.takeWhile Unicode.isWhiteSpace) (cs.dropWhile Unicode.isWhiteSpace) held) := by
  have split : cs.takeWhile Unicode.isWhiteSpace ++ cs.dropWhile Unicode.isWhiteSpace = cs := List.takeWhile_append_dropWhile
  have length : utf8Length cs =
      utf8Length (cs.takeWhile Unicode.isWhiteSpace) + utf8Length (cs.dropWhile Unicode.isWhiteSpace) := by
    rw [← utf8Length_append, split]
  have skipped := yields_skip (Nat.eq_sub_of_add_eq length.symm) before (cs.dropWhile Unicode.isWhiteSpace) held
  rw [split] at skipped
  exact (yields_get _).bind ((yields_minus (length ▸ Nat.le_add_left _ _)).bind skipped)

/-- No white space is skipped where none stands. -/
theorem yields_skipBlanks_here {cs : List Char} (stays : ∀ c, cs.head? = some c → Unicode.isWhiteSpace c = false)
    (before : List Char) (held : Option Item) :
    Yields skipBlanks (between before cs held) () (between before cs held) := by
  have skipped := yields_skipBlanks before cs held
  cases cs with
  | nil => simpa using skipped
  | cons c cs => simpa [stays c rfl] using skipped

section

variable {before rest : List Char} {held : Option Item}

theorem yields_skipBlanks_slash : Yields skipBlanks (between before ('/' :: rest) held) ()
    (between before ('/' :: rest) held) := by
  refine yields_skipBlanks_here ?_ before held
  rintro _ ⟨⟩
  decide

theorem run_skipTriviaIn_blank {c : Char} (blank : Unicode.isWhiteSpace c = true) (rounds : Nat) :
    (skipTriviaIn rounds).run (between before (c :: rest) held) =
      (skipTriviaIn rounds).run (between (before ++ [c]) rest held) := by
  cases rounds with
  | zero => rfl
  | succ rounds =>
    have first := yields_skipBlanks before (c :: rest) held
    rw [List.takeWhile_cons_of_pos blank, List.dropWhile_cons_of_pos blank, List.append_cons] at first
    rw [skipTriviaIn, first.run_bind, (yields_skipBlanks (before ++ [c]) rest held).run_bind]

theorem run_skipTriviaIn_line {cs line : List Char} (split : '/' :: '/' :: cs = line ++ rest)
    (length : utf8Length line =
      (seek? (goesOn (· = '\n')) ('/' :: '/' :: cs)).elim (utf8Length ('/' :: '/' :: cs)) (· + 1)) (rounds : Nat) :
    (skipTriviaIn (rounds + 1)).run (between before ('/' :: '/' :: cs) held) =
      (skipTriviaIn rounds).run (between (before ++ line) rest held) := by
  have skipped := yields_skip length before rest held
  rw [← split] at skipped
  rw [skipTriviaIn, yields_skipBlanks_slash.run_bind, (yields_get _).run_bind, if_pos (by simp [between])]
  exact skipped.run_bind

theorem run_skipTriviaIn_lineComment {body : List Char} (first : '\n' ∉ body) (rounds : Nat) :
    (skipTriviaIn (rounds + 1)).run (between before ('/' :: '/' :: body ++ '\n' :: rest) held) =
      (skipTriviaIn rounds).run (between (before ++ ('/' :: '/' :: body ++ ['\n'])) rest held) := by
  have found := seek?_char (d := '\n') (u := '/' :: '/' :: body) (by simpa using first) rest
  rw [List.cons_append, List.cons_append] at found ⊢
  refine run_skipTriviaIn_line (by simp) ?_ rounds
  rw [found, utf8Length_append]
  rfl

theorem run_skipTriviaIn_lastComment {body : List Char} (noEnd : '\n' ∉ body) (rounds : Nat) :
    (skipTriviaIn (rounds + 1)).run (between before ('/' :: '/' :: body) held) =
      (skipTriviaIn rounds).run (between (before ++ '/' :: '/' :: body) [] held) := by
  refine run_skipTriviaIn_line (List.append_nil _).symm ?_ rounds
  rw [seek?_char_eq_none (by simpa using noEnd)]
  rfl

/-- What is done at a block comment. -/
theorem run_skipTriviaIn_block (body : List Char) (rounds : Nat) :
    (skipTriviaIn (rounds + 1)).run (between before ('/' :: '*' :: body) held) =
      StateT.run (match seek? closesComment body with
        | none => return .error (.unterminatedComment (utf8Length before))
        | some close => do
          skip (close + 4)
          skipTriviaIn rounds) (between before ('/' :: '*' :: body) held) := by
  have inside := yields_after ['/', '*'] body (between before ('/' :: '*' :: body) held)
  rw [skipTriviaIn, yields_skipBlanks_slash.run_bind, (yields_get _).run_bind,
    if_neg (by simp [between]), if_pos (by simp [between])]
  exact inside.run_bind

theorem run_skipTriviaIn_blockComment {body : List Char} (unclosed : Unclosed body) (rounds : Nat) :
    (skipTriviaIn (rounds + 1)).run (between before ('/' :: '*' :: body ++ '*' :: '/' :: rest) held) =
      (skipTriviaIn rounds).run (between (before ++ ('/' :: '*' :: body ++ ['*', '/'])) rest held) := by
  have length : utf8Length ('/' :: '*' :: body ++ ['*', '/']) = utf8Length body + 4 := by
    rw [utf8Length_append]
    simp only [utf8Length, show '/'.utf8Size = 1 from rfl, show '*'.utf8Size = 1 from rfl]
    omega
  have skipped := yields_skip length before rest held
  rw [List.append_assoc] at skipped
  rw [List.cons_append, List.cons_append, run_skipTriviaIn_block, seek?_closesComment unclosed]
  exact skipped.run_bind

section

variable {rounds : Nat}

/-- After a gap there are still rounds enough for what is left. -/
theorem run_skipTriviaIn_trivia {gap : List Char} (trivia : Trivia gap) (before : List Char) (held : Option Item)
    (enough : (gap ++ rest).length < rounds) : ∃ others, rest.length < others ∧
      (skipTriviaIn rounds).run (between before (gap ++ rest) held) =
        (skipTriviaIn others).run (between (before ++ gap) rest held) := by
  induction trivia generalizing before rounds with
  | nil => exact ⟨rounds, enough, by rw [List.nil_append, List.append_nil]⟩
  | @blank c gap blank _ ih =>
    obtain ⟨others, more, onward⟩ := ih (before ++ [c]) (Nat.lt_of_succ_lt enough)
    exact ⟨others, more, by rw [List.cons_append, run_skipTriviaIn_blank blank, onward, ← List.append_cons]⟩
  | @lineComment body gap first _ ih =>
    have around : '/' :: '/' :: body ++ '\n' :: gap ++ rest = '/' :: '/' :: body ++ '\n' :: (gap ++ rest) := by simp
    obtain _ | rounds := rounds
    · cases enough
    have fewer : (gap ++ rest).length < rounds := by
      simp only [List.cons_append, List.length_cons, List.length_append] at enough ⊢
      omega
    obtain ⟨others, more, onward⟩ := ih (before ++ ('/' :: '/' :: body ++ ['\n'])) fewer
    refine ⟨others, more, ?_⟩
    rw [around, run_skipTriviaIn_lineComment first, onward]
    simp
  | @blockComment body gap first _ ih =>
    have around : '/' :: '*' :: body ++ '*' :: '/' :: gap ++ rest = '/' :: '*' :: body ++ '*' :: '/' :: (gap ++ rest) := by
      simp
    obtain _ | rounds := rounds
    · cases enough
    have fewer : (gap ++ rest).length < rounds := by
      simp only [List.cons_append, List.length_cons, List.length_append] at enough ⊢
      omega
    obtain ⟨others, more, onward⟩ := ih (before ++ ('/' :: '*' :: body ++ ['*', '/'])) fewer
    refine ⟨others, more, ?_⟩
    rw [around, run_skipTriviaIn_blockComment first, onward]
    simp

/-- A gap ends before a character that begins nothing of one, and at the end of the text. -/
theorem yields_skipTriviaIn_end (stays : ∀ c, rest.head? = some c → Unicode.isWhiteSpace c = false)
    (noComment : ∀ cs, rest ≠ '/' :: '/' :: cs ∧ rest ≠ '/' :: '*' :: cs) (enough : rest.length < rounds) :
    Yields (skipTriviaIn rounds) (between before rest held) (.ok ()) (between before rest held) := by
  obtain _ | rounds := rounds
  · cases enough
  rw [skipTriviaIn]
  refine (yields_skipBlanks_here stays before held).bind ((yields_get _).bind ?_)
  have noLine : ¬ ['/', '/'].isPrefixOf rest = true := by
    rw [List.isPrefixOf_iff_prefix]
    rintro ⟨cs, rfl⟩
    exact (noComment cs).1 rfl
  have noBlock : ¬ ['/', '*'].isPrefixOf rest = true := by
    rw [List.isPrefixOf_iff_prefix]
    rintro ⟨cs, rfl⟩
    exact (noComment cs).2 rfl
  rw [Scanner.rest_between, if_neg noLine, if_neg noBlock]
  exact yields_pure _ _

theorem yields_skipTriviaIn_lastComment {body : List Char} (noEnd : '\n' ∉ body)
    (enough : ('/' :: '/' :: body).length < rounds) :
    Yields (skipTriviaIn rounds) (between before ('/' :: '/' :: body) held) (.ok ())
      (between (before ++ '/' :: '/' :: body) [] held) := by
  obtain _ | rounds := rounds
  · cases enough
  rw [Yields, run_skipTriviaIn_lastComment noEnd]
  exact yields_skipTriviaIn_end (by simp) (by simp) (Nat.zero_lt_of_lt (Nat.lt_of_succ_lt_succ enough))

theorem yields_skipTriviaIn_openComment {body : List Char} (unclosed : Unclosed body)
    (enough : ('/' :: '*' :: body).length < rounds) :
    Yields (skipTriviaIn rounds) (between before ('/' :: '*' :: body) held)
      (.error (.unterminatedComment (utf8Length before))) (between before ('/' :: '*' :: body) held) := by
  obtain _ | rounds := rounds
  · cases enough
  rw [Yields, run_skipTriviaIn_block, seek?_closesComment_eq_none unclosed]
  rfl

end

/-- What is done after a gap, whatever rounds are still left for it, is done where the gap begins. -/
theorem yields_skipTrivia {gap : List Char} {r : Except LexicalError Unit} {t : Scanner} (trivia : Trivia gap)
    (onward : ∀ rounds, rest.length < rounds → Yields (skipTriviaIn rounds) (between (before ++ gap) rest held) r t) :
    Yields skipTrivia (between before (gap ++ rest) held) r t := by
  obtain ⟨rounds, enough, same⟩ := run_skipTriviaIn_trivia trivia before held (Nat.lt_succ_self (gap ++ rest).length)
  refine (yields_get _).bind ?_
  rw [Yields, Scanner.rest_between, same]
  exact onward rounds enough

end

end Scan

end RegularGrammar.Source
