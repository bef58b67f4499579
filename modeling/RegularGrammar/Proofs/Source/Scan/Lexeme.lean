import RegularGrammar.Proofs.Source.Scanning
import RegularGrammar.Proofs.Source.Scan.Basic

/-!
# Scanning words and quotations

How a scanner finds the end of a word and of a quotation, and how it reads the escapes between
double quotes. What it finds is what the word or the quotation is made of.
-/

namespace RegularGrammar.Source

open Scanner (between)

namespace Scan

def word : Scan Token := do
  let s ← get
  let length := (seek? (goesOn (!continuesWord ·)) s.rest).getD (utf8Length s.rest)
  let parts ← cut s.rest length
  take (wordKind parts.1) length

/-- Reads so many hexadecimal digits. The code that they go on to write is counted up in 32 bits. -/
def hexCode (backslash : Nat) : Nat → Nat → Cursor → Scan (Except LexicalError (Nat × Cursor))
  | 0, code, p => return .ok (code, p)
  | count + 1, code, p =>
    match p.rest.head?.bind hexDigit? with
    | none => return .error (.invalidEscape backslash)
    | some digit => do
      let higher ← word32 (code * 16)
      let code ← word32 (higher + digit)
      hexCode backslash count code (p.advance 1)

/-- Reads what follows a backslash. -/
def unescape (backslash : Nat) (p : Cursor) : Scan (Except LexicalError (Char × Cursor)) :=
  match p.rest with
  | [] => return .error (.invalidEscape backslash)
  | letter :: _ =>
    match namedEscape? letter, digitCount? letter with
    | some c, _ => return .ok (c, p.advance 1)
    | none, none => return .error (.invalidEscape backslash)
    | none, some count => do
      match ← hexCode backslash count 0 (p.advance 1) with
      | .error e => return .error e
      | .ok (code, q) =>
        match scalar? code with
        | none => return .error (.invalidEscape backslash)
        | some c => return .ok (c, q)

/-- Reads on between double quotes, in so many rounds at most. The position counts its bytes from the opening quote on. -/
def quotedIn (openedAt : Nat) : Nat → List Char → Cursor → Scan Item
  | 0, _, _ => throw .endless
  | rounds + 1, value, p =>
    match p.rest with
    | [] => return .error (.unterminatedString openedAt)
    | c :: _ =>
      if c = '"' then do
        let token ← take (.literal (String.ofList value)) (p.offset + 2)
        return .ok token
      else if c = '\n' then return .error (.unterminatedString openedAt)
      else if c = '\\' then do
        match ← unescape (openedAt + 1 + p.offset) (p.advance 1) with
        | .error e => return .error e
        | .ok (d, q) => quotedIn openedAt rounds (value ++ [d]) q
      else quotedIn openedAt rounds (value ++ [c]) (p.advance 1)

def quoted : Scan Item := do
  let s ← get
  let inside ← after s.rest 1
  quotedIn s.byte (inside.length + 1) [] ⟨0, inside⟩

def raw : Scan Item := do
  let s ← get
  let inside ← after s.rest 1
  match seek? (goesOn (· = backQuote)) inside with
  | none => return .error (.unterminatedString s.byte)
  | some close =>
    let value ← slice s.rest 1 (close + 1)
    let token ← take (.literal (String.ofList value)) (close + 2)
    return .ok token

section

variable {before text rest : List Char} {held : Option Item}

theorem yields_word (continues : ∀ d ∈ text, continuesWord d = true)
    (stops : ∀ d, rest.head? = some d → continuesWord d = false) :
    Yields word (between before (text ++ rest) held) ⟨wordKind text, utf8Length before, String.ofList text⟩
      (between (before ++ text) rest held) := by
  have others : ∀ d ∈ text, (!continuesWord d) = false := by simpa using continues
  have length : (seek? (goesOn (!continuesWord ·)) (text ++ rest)).getD (utf8Length (text ++ rest)) = utf8Length text := by
    cases rest with
    | nil =>
      rw [List.append_nil, seek?_goesOn_eq_none others]
      rfl
    | cons d rest =>
      rw [seek?_goesOn others (by simp [stops d rfl])]
      rfl
  refine (yields_get _).bind ?_
  rw [Scanner.rest_between, length]
  exact (yields_cut text rest _).bind (yields_take rfl _ before rest held)

end

section

variable {s : Scanner}

@[simp]
theorem advance_one (o : Nat) (c : Char) (cs : List Char) : Cursor.advance ⟨o, c :: cs⟩ 1 = ⟨o + c.utf8Size, cs⟩ := by
  simp [Cursor.advance, utf8Length]

@[simp]
theorem advance_succ (o : Nat) (c : Char) (cs : List Char) (n : Nat) :
    Cursor.advance ⟨o, c :: cs⟩ (n + 1) = Cursor.advance ⟨o + c.utf8Size, cs⟩ n := by
  simp [Cursor.advance, utf8Length, Nat.add_assoc]

/-- The number that digits go on to write after a part of it was read. -/
def hexFrom? (code : Nat) (digits : List Char) : Option Nat :=
  digits.foldlM (fun value c => (hexDigit? c).map (16 * value + ·)) code

@[simp]
theorem hexFrom?_cons (code : Nat) (c : Char) (digits : List Char) :
    hexFrom? code (c :: digits) = (hexDigit? c).bind fun v => hexFrom? (16 * code + v) digits := by
  rw [hexFrom?, List.foldlM_cons]
  cases hexDigit? c <;> rfl

/-- A code has at most eight digits, so that it stays within 32 bits while it is counted up. -/
theorem yields_hexCode {backslash counted code : Nat} (small : code < 16 ^ counted) {count : Nat}
    (room : counted + count ≤ 8) (p : Cursor) :
    Yields (hexCode backslash count code p) s
      (if (p.rest.take count).length = count then
        (hexFrom? code (p.rest.take count)).elim (.error (.invalidEscape backslash)) fun code => .ok (code, p.advance count)
      else .error (.invalidEscape backslash)) s := by
  induction count generalizing code counted p with
  | zero =>
    have stays : p.advance 0 = p := by simp [Cursor.advance, utf8Length]
    rw [stays]
    exact yields_pure _ s
  | succ count ih =>
    obtain ⟨o, cs⟩ := p
    rw [hexCode]
    cases cs with
    | nil => exact yields_pure _ s
    | cons c cs =>
      rw [List.take_succ_cons, hexFrom?_cons, List.head?_cons, Option.bind_some, advance_one, advance_succ]
      cases digit : hexDigit? c with
      | none =>
        simp only [Option.bind_none, Option.elim_none, ite_self]
        exact yields_pure _ s
      | some v =>
        have below : v < 16 := (hexDigit?_eq_some_iff.mp digit).1
        have small' : 16 * code + v < 16 ^ (counted + 1) := by rw [Nat.pow_succ]; omega
        have bound : 16 ^ (counted + 1) ≤ 2 ^ 32 :=
          Nat.le_trans (Nat.pow_le_pow_right (by decide) (show counted + 1 ≤ 8 by omega)) (by decide)
        have onward := ih small' (by omega) ⟨o + c.utf8Size, cs⟩
        refine (yields_word32 (by omega)).bind ((yields_word32 (by omega)).bind ?_)
        rw [Nat.mul_comm code]
        simpa using onward

theorem digitCount?_le {letter : Char} {count : Nat} (h : digitCount? letter = some count) : count ≤ 8 := by
  have all : ∀ announcement ∈ announcements, announcement.2 ≤ 8 := by decide
  exact all _ (digitCount?_eq_some_iff.mp h)

/-- An escape is read as it stands, and nothing is read where none stands. -/
theorem yields_unescape (backslash : Nat) (p : Cursor) :
    Yields (unescape backslash p) s
      ((escape? p.rest).elim (.error (.invalidEscape backslash)) fun (c, width) => .ok (c, p.advance width)) s := by
  obtain ⟨o, cs⟩ := p
  rw [unescape]
  cases cs with
  | nil => exact yields_pure _ s
  | cons letter cs =>
    simp only [escape?, advance_one]
    cases named : namedEscape? letter with
    | some c =>
      simp only [Option.elim_some, advance_one]
      exact yields_pure _ s
    | none =>
      cases counted : digitCount? letter with
      | none => exact yields_pure _ s
      | some count =>
        have zero : 0 < 16 ^ 0 := by decide
        have small : 0 + count ≤ 8 := by
          rw [Nat.zero_add]
          exact digitCount?_le counted
        refine (yields_hexCode zero small _).bind ?_
        by_cases all : (cs.take count).length = count
        · have value : hexValue? (cs.take count) = hexFrom? 0 (cs.take count) := rfl
          simp only [all, if_true, value]
          cases hexFrom? 0 (cs.take count) with
          | none => exact yields_pure _ s
          | some code =>
            simp only [Option.elim_some, Option.bind_some]
            cases scalar? code with
            | none => exact yields_pure _ s
            | some c =>
              simp only [Option.map_some, Option.elim_some, advance_succ]
              exact yields_pure _ s
        · simp only [all, if_false]
          exact yields_pure _ s

theorem yields_unescape_spelling {backslash o : Nat} {spelling rest : List Char} {c : Char}
    (escape : escape? spelling = some (c, spelling.length)) :
    Yields (unescape backslash ⟨o, spelling ++ rest⟩) s (.ok (c, ⟨o + utf8Length spelling, rest⟩)) s := by
  have read := yields_unescape (s := s) backslash ⟨o, spelling ++ rest⟩
  rw [escape?_append escape] at read
  rwa [← advance_length]

theorem yields_unescape_none {backslash o : Nat} {rest : List Char} (none : escape? rest = none) :
    Yields (unescape backslash ⟨o, rest⟩) s (.error (.invalidEscape backslash)) s := by
  have read := yields_unescape (s := s) backslash ⟨o, rest⟩
  rwa [none] at read

end

section

variable {s : Scanner} {openedAt : Nat}

/-- What is done at a backslash. -/
theorem run_quotedIn_backslash {value cs : List Char} {o : Nat} {result : Except LexicalError (Char × Cursor)}
    (read : Yields (unescape (openedAt + 1 + o) ⟨o + 1, cs⟩) s result s) (rounds : Nat) :
    (quotedIn openedAt (rounds + 1) value ⟨o, '\\' :: cs⟩).run s =
      StateT.run (match result with
        | .error e => return .error e
        | .ok (d, q) => quotedIn openedAt rounds (value ++ [d]) q) s := by
  rw [quotedIn]
  simp only [advance_one, if_neg (show '\\' ≠ '"' by decide), if_neg (show '\\' ≠ '\n' by decide), if_true]
  exact read.run_bind

/-- What is spelled is read, and there are still rounds for what follows it. -/
theorem run_quotedIn_spelled {text spelled rest : List Char} (h : Spelled text spelled) {rounds : Nat}
    (enough : (text ++ rest).length < rounds) (openedAt : Nat) (value : List Char) (o : Nat) (s : Scanner) :
    ∃ others, (quotedIn openedAt rounds value ⟨o, text ++ rest⟩).run s =
      (quotedIn openedAt (others + 1) (value ++ spelled) ⟨o + utf8Length text, rest⟩).run s := by
  induction h generalizing value o rounds with
  | nil =>
    obtain ⟨others, rfl⟩ := Nat.exists_eq_add_of_lt (Nat.zero_lt_of_lt enough)
    exact ⟨others, by simp [utf8Length]⟩
  | @plain c text spelled notQuote notBackslash notLineFeed _ ih =>
    obtain _ | rounds := rounds
    · cases enough
    obtain ⟨others, onward⟩ := ih (Nat.lt_of_succ_lt_succ enough) (value ++ [c]) (o + c.utf8Size)
    refine ⟨others, ?_⟩
    rw [quotedIn]
    simp only [List.cons_append, if_neg notQuote, if_neg notBackslash, if_neg notLineFeed, advance_one]
    rw [onward, utf8Length, Nat.add_assoc, ← List.append_cons]
  | @escape c spelling text spelled escape _ ih =>
    have width : o + utf8Length ('\\' :: spelling ++ text) = o + 1 + utf8Length spelling + utf8Length text := by
      rw [utf8Length_append, utf8Length, ← Nat.add_assoc, ← Nat.add_assoc]
      rfl
    obtain _ | rounds := rounds
    · cases enough
    have fewer : (text ++ rest).length < rounds := by
      simp only [List.cons_append, List.length_cons, List.length_append] at enough ⊢
      omega
    obtain ⟨others, onward⟩ := ih fewer (value ++ [c]) (o + 1 + utf8Length spelling)
    refine ⟨others, ?_⟩
    rw [List.cons_append, List.cons_append, List.append_assoc, run_quotedIn_backslash (yields_unescape_spelling escape),
      ← List.cons_append, width, List.append_cons]
    exact onward

end

section

variable {before text value rest : List Char} {held : Option Item}

theorem run_quoted_spelled (spelled : Spelled text value) (before rest : List Char) (held : Option Item) : ∃ rounds,
    quoted.run (between before ('"' :: text ++ rest) held) =
      (quotedIn (utf8Length before) (rounds + 1) value ⟨utf8Length text, rest⟩).run
        (between before ('"' :: text ++ rest) held) := by
  have inside := yields_after ['"'] (text ++ rest) (between before ('"' :: text ++ rest) held)
  obtain ⟨rounds, onward⟩ := run_quotedIn_spelled spelled (Nat.lt_succ_self (text ++ rest).length) (utf8Length before) [] 0
    (between before ('"' :: text ++ rest) held)
  refine ⟨rounds, ?_⟩
  rw [quoted, (yields_get _).run_bind]
  refine inside.run_bind.trans (onward.trans ?_)
  rw [Nat.zero_add]
  rfl

theorem yields_quoted_closed (spelled : Spelled text value) :
    Yields quoted (between before ('"' :: text ++ ['"'] ++ rest) held)
      (.ok ⟨.literal (String.ofList value), utf8Length before, String.ofList ('"' :: text ++ ['"'])⟩)
      (between (before ++ ('"' :: text ++ ['"'])) rest held) := by
  have length : utf8Length ('"' :: text ++ ['"']) = utf8Length text + 2 := by
    rw [utf8Length_append]
    simp only [utf8Length, show '"'.utf8Size = 1 from rfl]
    omega
  have taken := yields_take length (.literal (String.ofList value)) before rest held
  obtain ⟨rounds, onward⟩ := run_quoted_spelled spelled before ('"' :: rest) held
  rw [List.append_assoc] at taken
  rw [Yields, List.append_assoc]
  refine onward.trans ?_
  rw [quotedIn]
  exact taken.bind (yields_pure _ _)

theorem yields_quoted_textEnds (spelled : Spelled text value) :
    Yields quoted (between before ('"' :: text) held) (.error (.unterminatedString (utf8Length before)))
      (between before ('"' :: text) held) := by
  obtain ⟨rounds, onward⟩ := run_quoted_spelled spelled before [] held
  rw [← List.append_nil ('"' :: text)]
  exact onward

theorem yields_quoted_lineEnds (spelled : Spelled text value) :
    Yields quoted (between before ('"' :: text ++ '\n' :: rest) held) (.error (.unterminatedString (utf8Length before)))
      (between before ('"' :: text ++ '\n' :: rest) held) := by
  obtain ⟨rounds, onward⟩ := run_quoted_spelled spelled before ('\n' :: rest) held
  exact onward

theorem yields_quoted_noEscape (spelled : Spelled text value) (none : escape? rest = none) :
    Yields quoted (between before ('"' :: text ++ '\\' :: rest) held)
      (.error (.invalidEscape (utf8Length (before ++ '"' :: text)))) (between before ('"' :: text ++ '\\' :: rest) held) := by
  have place : utf8Length (before ++ '"' :: text) = utf8Length before + 1 + utf8Length text := by
    rw [utf8Length_append, utf8Length, ← Nat.add_assoc]
    rfl
  obtain ⟨rounds, onward⟩ := run_quoted_spelled spelled before ('\\' :: rest) held
  rw [Yields, onward, run_quotedIn_backslash (yields_unescape_none none), place]
  rfl

theorem yields_raw_closed (noQuote : backQuote ∉ value) :
    Yields raw (between before (backQuote :: value ++ [backQuote] ++ rest) held)
      (.ok ⟨.literal (String.ofList value), utf8Length before, String.ofList (backQuote :: value ++ [backQuote])⟩)
      (between (before ++ (backQuote :: value ++ [backQuote])) rest held) := by
  have length : utf8Length (backQuote :: value ++ [backQuote]) = utf8Length value + 2 := by
    rw [utf8Length_append]
    simp only [utf8Length, show backQuote.utf8Size = 1 from rfl]
    omega
  have place : utf8Length ([backQuote] ++ value) = utf8Length value + 1 := Nat.add_comm 1 _
  have whole : backQuote :: value ++ [backQuote] ++ rest = backQuote :: (value ++ backQuote :: rest) := by simp
  have taken := yields_take length (.literal (String.ofList value)) before rest held
  have inside := yields_after [backQuote] (value ++ backQuote :: rest)
  have sliced := yields_slice [backQuote] value (backQuote :: rest)
  rw [place] at sliced
  rw [whole] at taken ⊢
  refine (yields_get _).bind ((inside _).bind ?_)
  rw [seek?_char noQuote]
  exact (sliced _).bind (taken.bind (yields_pure _ _))

theorem yields_raw_textEnds (noQuote : backQuote ∉ rest) :
    Yields raw (between before (backQuote :: rest) held) (.error (.unterminatedString (utf8Length before)))
      (between before (backQuote :: rest) held) := by
  have inside := yields_after [backQuote] rest (between before (backQuote :: rest) held)
  refine (yields_get _).bind (inside.bind ?_)
  rw [seek?_char_eq_none noQuote]
  exact yields_pure _ _

end

end Scan

end RegularGrammar.Source
