import RegularGrammar.Source.Quotation

/-!
# The tokens of a text

Tokens are read one at a time, each after the gap before it. A character that
starts no token is skipped after its error. After any other error nothing more
is read, because nobody knows where the next token would begin.
-/

namespace RegularGrammar.Source

/-- The tokens of one character. -/
def mark? : Char → Option TokenKind
  | '=' => some .equals
  | '.' => some .period
  | '…' => some .ellipsis
  | '|' => some .pipe
  | '(' => some (.opening .round)
  | '[' => some (.opening .square)
  | '{' => some (.opening .curly)
  | ')' => some (.closing .round)
  | ']' => some (.closing .square)
  | '}' => some (.closing .curly)
  | _ => none

def startsWord (c : Char) : Bool := c = '_' || Unicode.isAlphabetic c

def continuesWord (c : Char) : Bool := c = '_' || Unicode.isAlphanumeric c

/-- A word is a name, unless it is the word `not`. -/
def wordKind (word : List Char) : TokenKind :=
  if word = ['n', 'o', 't'] then .not else .name (String.ofList word)

/-- The token that begins with `c` at offset `o`, and how many of the characters `cs`
    that follow belong to it. -/
def lexeme (o : Nat) (c : Char) (cs : List Char) : Except LexicalError (TokenKind × Nat) :=
  if c = '"' then
    (quotedRest o (o + 1) cs).map fun (value, n) => (.literal (String.ofList value), n)
  else if c = backQuote then
    (rawRest o cs).map fun (value, n) => (.literal (String.ofList value), n)
  else if startsWord c then
    let more := cs.takeWhile continuesWord
    .ok (wordKind (c :: more), more.length)
  else if c = '.' ∧ cs.take 2 = ['.', '.'] then .ok (.ellipsis, 2)
  else
    match mark? c with
    | some kind => .ok (kind, 0)
    | none => .error (.unsupported o c)

/-- The item after a position and the position after it, unless the text ends. -/
def Cursor.next? (p : Cursor) : Option (Item × Cursor) :=
  match skipGap .blank p.offset p.rest with
  | .error e => some (.error e, p.finish)
  | .ok ⟨_, []⟩ => none
  | .ok ⟨o, c :: cs⟩ =>
    let here : Cursor := ⟨o, c :: cs⟩
    match lexeme o c cs with
    | .ok (kind, n) =>
      some (.ok ⟨kind, o, String.ofList (here.rest.take (n + 1))⟩, here.advance (n + 1))
    | .error (.unsupported offset found) => some (.error (.unsupported offset found), here.advance 1)
    | .error e => some (.error e, here.finish)

/-- Every item takes something off the text. -/
theorem Cursor.next?_length_lt {p q : Cursor} {item : Item} (h : p.next? = some (item, q)) :
    q.rest.length < p.rest.length := by
  unfold Cursor.next? at h
  split at h
  · rename_i e failed
    cases h
    cases rest : p.rest with
    | nil => rw [rest] at failed; cases failed
    | cons c cs => simp [Cursor.finish, Cursor.advance, rest]
  · cases h
  · rename_i o c cs skipped
    have shorter := skipGap_length_le skipped
    simp only [List.length_cons] at shorter
    split at h <;> cases h <;> simp only [Cursor.finish, Cursor.advance, List.length_drop, List.length_cons] <;> omega

/-- The items from a position to the end of the text. -/
def Cursor.items (p : Cursor) : List Item :=
  match _next : p.next? with
  | none => []
  | some (item, q) => item :: q.items
termination_by p.rest.length
decreasing_by exact Cursor.next?_length_lt _next

/-- The items of a text. -/
def items (text : String) : List Item := (Cursor.start text).items

/-- A reader of a text that may hold one item which it has read but not yet given away. -/
structure Reader where
  position : Cursor
  held : Option Item

namespace Reader

/-- A reader at the beginning of a text. -/
def start (text : String) : Reader := ⟨.start text, none⟩

/-- Gives the next item away. -/
def next (r : Reader) : Option Item × Reader :=
  match r.held with
  | some item => (some item, ⟨r.position, none⟩)
  | none =>
    match r.position.next? with
    | some (item, q) => (some item, ⟨q, none⟩)
    | none => (none, r)

/-- Shows the next item without giving it away. -/
def peek (r : Reader) : Option Item × Reader :=
  match r.held with
  | some item => (some item, r)
  | none =>
    match r.position.next? with
    | some (item, q) => (some item, ⟨q, some item⟩)
    | none => (none, r)

end Reader

end RegularGrammar.Source
