import RegularGrammar.Proofs.Source.Scanning

/-!
# Texts put together

The items of a text depend on where it begins by their offsets only. After a line feed the
items of one text follow those of another, whatever the first one ends with, unless an error
ends the reading before. A gap that is put where a token begins or ends moves the tokens
after it and does nothing else.
-/

namespace RegularGrammar.Source

/-- The same error in a text whose offsets are different. -/
def LexicalError.relocate (f : Nat → Nat) : LexicalError → LexicalError
  | .unsupported offset found => .unsupported (f offset) found
  | .unterminatedString offset => .unterminatedString (f offset)
  | .unterminatedComment offset => .unterminatedComment (f offset)
  | .invalidEscape offset => .invalidEscape (f offset)

/-- The same token in a text whose offsets are different. -/
def Token.relocate (f : Nat → Nat) (t : Token) : Token := { t with offset := f t.offset }

def Item.relocate (f : Nat → Nat) : Item → Item
  | .ok t => .ok (t.relocate f)
  | .error e => .error (e.relocate f)

/-- A text has the same items wherever it begins, at offsets that are relocated like its beginning. -/
theorem Scanned.relocate {f : Nat → Nat} {o o' : Nat} {cs : List Char} {items : List Item} (h : Scanned o cs items)
    (rigid : ∀ k, f (o + k) = o' + k) : Scanned o' cs (items.map (Item.relocate f)) := by
  induction h generalizing o' with
  | finished last => exact .finished last
  | token trivia isLexeme apart _ ih =>
    rw [List.map_cons, Item.relocate, Token.relocate, rigid]
    exact .token trivia isLexeme apart (ih fun k => by rw [Nat.add_assoc, rigid, Nat.add_assoc])
  | unsupported trivia noLexeme notBlank noComment _ ih =>
    rw [List.map_cons, Item.relocate, LexicalError.relocate, rigid]
    exact .unsupported trivia noLexeme notBlank noComment (ih fun k => by rw [Nat.add_assoc, rigid, Nat.add_assoc])
  | unterminatedString trivia unended =>
    rw [List.map_singleton, Item.relocate, LexicalError.relocate, rigid]
    exact .unterminatedString trivia unended
  | unterminatedComment trivia unclosed =>
    rw [List.map_singleton, Item.relocate, LexicalError.relocate, rigid]
    exact .unterminatedComment trivia unclosed
  | invalidEscape trivia spelled none =>
    rw [List.map_singleton, Item.relocate, LexicalError.relocate, rigid]
    exact .invalidEscape trivia spelled none

theorem items_of_gap {o : Nat} {gap cs : List Char} (trivia : Trivia gap) :
    Cursor.items ⟨o, gap ++ cs⟩ = Cursor.items ⟨o + utf8Length gap, cs⟩ := by
  have finish : Cursor.finish ⟨o, gap ++ cs⟩ = Cursor.finish ⟨o + utf8Length gap, cs⟩ := by
    simp only [Cursor.finish, Cursor.advance, List.take_length, List.drop_length, utf8Length_append, Nat.add_assoc]
  have same : Cursor.next? ⟨o, gap ++ cs⟩ = Cursor.next? ⟨o + utf8Length gap, cs⟩ := by
    simp only [Cursor.next?, skipGap_trivia trivia, finish]
  cases next : Cursor.next? ⟨o + utf8Length gap, cs⟩ with
  | none => rw [items_eq_nil next, items_eq_nil (same.trans next)]
  | some found => rw [items_eq_cons next, items_eq_cons (same.trans next)]

/-- What is read after a gap is read from before it on. -/
theorem Scanned.after_gap {o : Nat} {gap cs : List Char} {items : List Item}
    (h : Scanned (o + utf8Length gap) cs items) (trivia : Trivia gap) : Scanned o (gap ++ cs) items := by
  rw [← h.items_eq, ← items_of_gap trivia]
  exact scanned_items o (gap ++ cs)

/-- A line feed ends whatever stands at the end of a text. -/
theorem LastTrivia.lineFeed {gap : List Char} (h : LastTrivia gap) {o : Nat} {cs : List Char} {items : List Item}
    (next : Scanned (o + utf8Length (gap ++ ['\n'])) cs items) : Scanned o (gap ++ '\n' :: cs) items := by
  cases h with
  | closed trivia =>
    rw [utf8Length_append, ← Nat.add_assoc] at next
    exact (next.after_gap (.blank (by decide) .nil)).after_gap trivia
  | lineComment trivia noEnd =>
    rw [List.append_assoc, utf8Length_append, ← Nat.add_assoc] at next
    have line := next.after_gap (.lineComment noEnd .nil)
    rw [List.append_assoc, List.singleton_append] at line
    rw [List.append_assoc]
    exact line.after_gap trivia

/-- After a line feed reading goes on as if nothing stood before it. -/
theorem Scanned.lineFeed {o : Nat} {s t : List Char} {items later : List Item} (h : Scanned o s items)
    (goesOn : ∀ e, .error e ∈ items → ¬ e.EndsReading) (next : Scanned (o + utf8Length (s ++ ['\n'])) t later) :
    Scanned o (s ++ '\n' :: t) (items ++ later) := by
  induction h with
  | finished last =>
    exact last.lineFeed next
  | @token o gap more rest c kind items trivia isLexeme apart _ ih =>
    have split : gap ++ c :: (more ++ rest) ++ ['\n'] = gap ++ c :: more ++ (rest ++ ['\n']) := by simp
    have cut : Apart kind (rest ++ '\n' :: t) := by
      rw [← List.append_nil rest] at apart
      exact apart.cut (by decide) (by decide)
    rw [split, utf8Length_append, ← Nat.add_assoc] at next
    rw [List.append_assoc, List.cons_append, List.append_assoc]
    exact .token trivia isLexeme cut (ih (fun e member => goesOn e (List.mem_cons_of_mem _ member)) next)
  | @unsupported o gap rest c items trivia noLexeme notBlank noComment _ ih =>
    have split : gap ++ c :: rest ++ ['\n'] = gap ++ [c] ++ (rest ++ ['\n']) := by simp
    have stillNoComment : c = '/' → (rest ++ '\n' :: t).head? ≠ some '/' ∧ (rest ++ '\n' :: t).head? ≠ some '*' := by
      intro slash
      cases rest with
      | nil => simp
      | cons d rest => exact noComment slash
    rw [split, utf8Length_append, ← Nat.add_assoc] at next
    rw [List.append_assoc, List.cons_append]
    exact .unsupported trivia noLexeme notBlank stillNoComment
      (ih (fun e member => goesOn e (List.mem_cons_of_mem _ member)) next)
  | _ => exact absurd trivial (goesOn _ List.mem_cons_self)

/-- The items of two texts with a line feed between them are those of the one and then those of the other, at offsets
    that count what stands before. -/
theorem items_append_lineFeed {s : String} (goesOn : ∀ e, .error e ∈ items s → ¬ e.EndsReading) (t : String) :
    items (s ++ "\n" ++ t) = items s ++ (items t).map (Item.relocate (· + (s.utf8ByteSize + 1))) := by
  have first : Scanned 0 s.toList (items s) := scanned_items 0 s.toList
  have second : Scanned 0 t.toList (items t) := scanned_items 0 t.toList
  have moved : Scanned (0 + utf8Length (s.toList ++ ['\n'])) t.toList
      ((items t).map (Item.relocate (· + (s.utf8ByteSize + 1)))) := by
    refine second.relocate fun k => ?_
    rw [utf8Length_append, utf8Length_toList]
    simp only [utf8Length, show '\n'.utf8Size = 1 from rfl]
    omega
  have joined := (first.lineFeed goesOn moved).items_eq
  have toList : (s ++ "\n" ++ t).toList = s.toList ++ '\n' :: t.toList := by simp
  rw [← toList] at joined
  exact joined

/-- The offset in a text into which `n` bytes have been put at a position. -/
def moved (position n offset : Nat) : Nat := if position ≤ offset then offset + n else offset

theorem utf8Length_pos {cs : List Char} (nonempty : cs ≠ []) : 0 < utf8Length cs := by
  cases cs with
  | nil => exact absurd rfl nonempty
  | cons c cs => exact Nat.add_pos_left (Char.utf8Size_pos c) _

/-- Of two beginnings of a text the one with fewer bytes is the shorter one. -/
theorem exists_append_of_utf8Length_le {u v u' v' : List Char} (same : u ++ v = u' ++ v')
    (le : utf8Length u ≤ utf8Length u') : ∃ between, u' = u ++ between ∧ v = between ++ v' := by
  rcases List.append_eq_append_iff.mp same with ⟨between, longer, rest⟩ | ⟨between, longer, rest⟩
  · exact ⟨between, longer, rest⟩
  · cases between with
    | nil => exact ⟨[], by simp [longer], by simp [rest]⟩
    | cons c between =>
      have positive := utf8Length_pos (List.cons_ne_nil c between)
      rw [longer, utf8Length_append] at le
      omega

theorem append_inj_of_utf8Length_eq {u v u' v' : List Char} (same : u ++ v = u' ++ v')
    (length : utf8Length u = utf8Length u') : u = u' ∧ v = v' := by
  obtain ⟨between, rfl, rfl⟩ := exists_append_of_utf8Length_le same (Nat.le_of_eq length)
  cases between with
  | nil => exact ⟨(List.append_nil u).symm, rfl⟩
  | cons c between =>
    have positive := utf8Length_pos (List.cons_ne_nil c between)
    rw [utf8Length_append] at length
    omega

theorem Scanned.le_offset {o : Nat} {cs : List Char} {items : List Item} {t : Token} (h : Scanned o cs items)
    (member : .ok t ∈ items) : o ≤ t.offset := by
  induction h with
  | token _ _ _ _ ih =>
    rcases List.mem_cons.mp member with here | later
    · cases here
      exact Nat.le_add_right _ _
    · exact Nat.le_trans (Nat.le_add_right _ _) (ih later)
  | unsupported _ _ _ _ _ ih =>
    rcases List.mem_cons.mp member with here | later
    · cases here
    · exact Nat.le_trans (Nat.le_add_right _ _) (ih later)
  | _ => simp at member

/-- The first character of a gap that is not empty neither goes on with a word nor is a period. -/
theorem Trivia.begins {gap : List Char} (h : Trivia gap) (nonempty : gap ≠ []) :
    ∃ d rest, gap = d :: rest ∧ continuesWord d = false ∧ d ≠ '.' := by
  cases h with
  | nil => exact absurd rfl nonempty
  | @blank c rest isBlank _ =>
    refine ⟨c, rest, rfl, ?_, ?_⟩
    · rw [Bool.eq_false_iff]
      intro continues
      rw [isWhiteSpace_of_continuesWord continues] at isBlank
      cases isBlank
    · rintro rfl
      exact absurd isBlank (by decide)
  | lineComment => exact ⟨'/', _, rfl, by decide, by decide⟩
  | blockComment => exact ⟨'/', _, rfl, by decide, by decide⟩

theorem Apart.insert {kind : TokenKind} {u v gap : List Char} (apart : Apart kind (u ++ v)) (trivia : Trivia gap)
    (nonempty : gap ≠ []) : Apart kind (u ++ gap ++ v) := by
  obtain ⟨d, rest, rfl, noWord, noPeriod⟩ := trivia.begins nonempty
  rw [List.append_assoc, List.cons_append]
  exact apart.cut noWord noPeriod

/-- A token among some items begins or ends at a position. -/
def IsBoundary (items : List Item) (position : Nat) : Prop :=
  ∃ t, .ok t ∈ items ∧ (position = t.offset ∨ position = t.offset + t.origin.utf8ByteSize)

theorem Scanned.insert_front {o : Nat} {gap cs : List Char} {items : List Item} (h : Scanned o cs items)
    (trivia : Trivia gap) : Scanned o (gap ++ cs) (items.map (Item.relocate (moved o (utf8Length gap)))) := by
  refine (h.relocate fun k => ?_).after_gap trivia
  rw [moved, if_pos (Nat.le_add_right o k), Nat.add_right_comm]

/-- A gap that comes after a token does not touch it. -/
theorem Scanned.insert_after {o : Nat} {lead more before after gap : List Char} {c : Char} {kind : TokenKind}
    {items : List Item} (leading : Trivia lead) (isLexeme : IsLexeme kind (c :: more)) (apart : Apart kind (before ++ after))
    (trivia : Trivia gap) (nonempty : gap ≠ [])
    (onward : Scanned (o + utf8Length (lead ++ c :: more)) (before ++ gap ++ after)
      (items.map (Item.relocate (moved (o + utf8Length (lead ++ c :: more ++ before)) (utf8Length gap))))) :
    Scanned o (lead ++ c :: more ++ before ++ gap ++ after)
      ((.ok ⟨kind, o + utf8Length lead, String.ofList (c :: more)⟩ :: items).map
        (Item.relocate (moved (o + utf8Length (lead ++ c :: more ++ before)) (utf8Length gap)))) := by
  have stays : moved (o + utf8Length (lead ++ c :: more ++ before)) (utf8Length gap) (o + utf8Length lead) =
      o + utf8Length lead := by
    have positive := utf8Length_pos (List.cons_ne_nil c more)
    rw [utf8Length_append, utf8Length_append, moved, if_neg (by omega)]
  have split : lead ++ c :: more ++ before ++ gap ++ after = lead ++ c :: (more ++ (before ++ gap ++ after)) := by simp
  rw [split, List.map_cons, Item.relocate, Token.relocate, stays]
  exact .token leading isLexeme (apart.insert trivia nonempty) onward

/-- A gap that is put where a token begins or ends moves the tokens after it. The induction is on the tokens, of which the
    gap is put before the first, or after it and among the others. -/
theorem Scanned.insert {o : Nat} {before after gap : List Char} {items : List Item} (h : Scanned o (before ++ after) items)
    (tokens : ∀ e, .error e ∉ items) (boundary : before = [] ∨ IsBoundary items (o + utf8Length before))
    (trivia : Trivia gap) (nonempty : gap ≠ []) :
    Scanned o (before ++ gap ++ after)
      (items.map (Item.relocate (moved (o + utf8Length before) (utf8Length gap)))) := by
  generalize whole : before ++ after = cs at h
  induction h generalizing before with
  | @finished o cs last =>
    rcases boundary with rfl | ⟨t, member, -⟩
    · cases whole
      exact (Scanned.finished last).insert_front trivia
    · cases member
  | @token o lead more rest c kind items leading isLexeme apart onward ih =>
    have others : ∀ e, .error e ∉ items := fun e member => tokens e (List.mem_cons_of_mem _ member)
    have split : lead ++ c :: (more ++ rest) = lead ++ c :: more ++ rest := by simp
    rcases boundary with rfl | ⟨t, member, position⟩
    · cases whole
      exact (Scanned.token leading isLexeme apart onward).insert_front trivia
    rcases List.mem_cons.mp member with here | later
    · cases here
      rw [utf8ByteSize_ofList, Nat.add_assoc, ← utf8Length_append, Nat.add_left_cancel_iff, Nat.add_left_cancel_iff]
        at position
      rcases position with starts | ends
      · -- What is read from the token on comes after both gaps.
        obtain ⟨rfl, rfl⟩ := append_inj_of_utf8Length_eq whole starts
        rw [utf8Length_append, ← Nat.add_assoc] at onward
        have token := (Scanned.token .nil isLexeme apart onward).insert_front trivia
        rw [List.append_assoc]
        exact token.after_gap leading
      · rw [split] at whole
        obtain ⟨rfl, rfl⟩ := append_inj_of_utf8Length_eq whole ends
        rw [← List.append_nil (lead ++ c :: more)]
        refine .insert_after leading isLexeme apart trivia nonempty ?_
        rw [List.append_nil (lead ++ c :: more)]
        exact ih others (.inl rfl) rfl
    · -- A later token is a boundary of the rest of the text.
      have reached : o + utf8Length (lead ++ c :: more) ≤ o + utf8Length before := by
        have := onward.le_offset later
        omega
      rw [split] at whole
      obtain ⟨between, rfl, rfl⟩ := exists_append_of_utf8Length_le whole.symm (Nat.le_of_add_le_add_left reached)
      rw [utf8Length_append, ← Nat.add_assoc] at position
      refine .insert_after leading isLexeme apart trivia nonempty ?_
      rw [utf8Length_append (lead ++ c :: more), ← Nat.add_assoc]
      exact ih others (.inr ⟨t, later, position⟩) rfl
  | _ => exact absurd List.mem_cons_self (tokens _)

/-- White space and comments between tokens change offsets only. -/
theorem items_insert {before after gap : String} (tokens : ∀ e, .error e ∉ items (before ++ after))
    (boundary : IsBoundary (items (before ++ after)) before.utf8ByteSize) (trivia : Trivia gap.toList) (nonempty : gap ≠ "") :
    items (before ++ gap ++ after) =
      (items (before ++ after)).map (Item.relocate (moved before.utf8ByteSize gap.utf8ByteSize)) := by
  have scanned : Scanned 0 (before.toList ++ after.toList) (items (before ++ after)) := by
    rw [← String.toList_append]
    exact scanned_items 0 (before ++ after).toList
  rw [← utf8Length_toList before, ← Nat.zero_add (utf8Length before.toList)] at boundary
  have characters : gap.toList ≠ [] := fun empty => nonempty (String.toList_eq_nil_iff.mp empty)
  have inserted := (scanned.insert tokens (.inr boundary) trivia characters).items_eq
  rw [Nat.zero_add, utf8Length_toList, utf8Length_toList, ← String.toList_append, ← String.toList_append] at inserted
  exact inserted

end RegularGrammar.Source
