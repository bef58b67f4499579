import RegularGrammar.Source.Cursor

/-!
# Quoted text

Text between double quotes stays on one line and may spell characters by
escapes. Text between back quotes is taken as it stands, line breaks included.
-/

namespace RegularGrammar.Source

/-- The characters that have an escape of one letter, or are escaped by themselves. -/
def namedEscape? : Char → Option Char
  | 'a' => some '\x07'
  | 'b' => some '\x08'
  | 'f' => some '\x0c'
  | 'n' => some '\n'
  | 'r' => some '\r'
  | 't' => some '\t'
  | 'v' => some '\x0b'
  | '\\' => some '\\'
  | '\'' => some '\''
  | '"' => some '"'
  | _ => none

/-- How many hexadecimal digits follow the letter that announces a code point. -/
def digitCount? : Char → Option Nat
  | 'x' => some 2
  | 'u' => some 4
  | 'U' => some 8
  | _ => none

/-- The value of a hexadecimal digit in either case. -/
def hexDigit? (c : Char) : Option Nat :=
  if '0' ≤ c ∧ c ≤ '9' then some (c.toNat - '0'.toNat)
  else if 'a' ≤ c ∧ c ≤ 'f' then some (c.toNat - 'a'.toNat + 10)
  else if 'A' ≤ c ∧ c ≤ 'F' then some (c.toNat - 'A'.toNat + 10)
  else none

/-- The number that hexadecimal digits write, the first digit being the highest. -/
def hexValue? (digits : List Char) : Option Nat :=
  digits.foldlM (fun value c => (hexDigit? c).map (16 * value + ·)) 0

/-- The scalar value with a code point. -/
def scalar? (n : Nat) : Option Char := if n.isValidChar then some (Char.ofNat n) else none

@[simp]
theorem scalar?_eq_some_iff {n : Nat} {c : Char} : scalar? n = some c ↔ n = c.toNat := by
  unfold scalar?
  constructor
  · intro h
    split at h
    · rename_i valid
      cases h
      rw [Char.ofNat, dif_pos valid]
      rfl
    · cases h
  · rintro rfl
    have valid : c.toNat.isValidChar := c.valid
    rw [if_pos valid, Char.ofNat_toNat]

/-- What is spelled after a backslash, and in how many characters. -/
def escape? : List Char → Option (Char × Nat)
  | [] => none
  | letter :: cs =>
    match namedEscape? letter, digitCount? letter with
    | some c, _ => some (c, 1)
    | none, some count =>
      let digits := cs.take count
      if digits.length = count then
        ((hexValue? digits).bind scalar?).map (·, count + 1)
      else none
    | none, none => none

/-- The rest of a double-quoted text that opened at `openedAt`, read from offset `o` on:
    its value, and how many characters it takes with the closing quote. -/
def quotedRest (openedAt o : Nat) : List Char → Except LexicalError (List Char × Nat)
  | [] => .error (.unterminatedString openedAt)
  | '"' :: _ => .ok ([], 1)
  | '\n' :: _ => .error (.unterminatedString openedAt)
  | '\\' :: cs =>
    match escape? cs with
    | none => .error (.invalidEscape o)
    | some (c, width) =>
      (quotedRest openedAt (o + 1 + utf8Length (cs.take width)) (cs.drop width)).map
        fun (value, n) => (c :: value, 1 + width + n)
  | c :: cs => (quotedRest openedAt (o + c.utf8Size) cs).map fun (value, n) => (c :: value, n + 1)
termination_by cs => cs.length
decreasing_by
  · simp only [List.length_drop, List.length_cons]; omega
  · simp only [List.length_cons]; omega

/-- The sign around text that is taken as it stands. -/
def backQuote : Char := '\x60'

/-- The rest of a back-quoted text that opened at `openedAt`: its value, and how many
    characters it takes with the closing quote. -/
def rawRest (openedAt : Nat) (cs : List Char) : Except LexicalError (List Char × Nat) :=
  let value := cs.takeWhile (· != backQuote)
  if value.length < cs.length then .ok (value, value.length + 1)
  else .error (.unterminatedString openedAt)

end RegularGrammar.Source
