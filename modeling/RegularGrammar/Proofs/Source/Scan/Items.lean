import RegularGrammar.Proofs.Source.LookAhead
import RegularGrammar.Proofs.Source.Scan.Gap
import RegularGrammar.Proofs.Source.Scan.Lexeme

/-!
# Scanning items

Whatever the text is and whatever was looked at before, no scan is at fault: a scanner cuts its
text between characters only, and answers as a reader of the text does.
-/

namespace RegularGrammar.Source

open Scanner (between)

namespace Scan

/-- After a quotation that is broken there is nothing sensible to go on from. -/
def orSkipAll (x : Scan Item) : Scan Item := do
  match ← x with
  | .ok token => return .ok token
  | .error e =>
    skipAll
    return .error e

/-- Reads the item that begins with some character. -/
def item (c : Char) : Scan Item := do
  let s ← get
  if c = '.' ∧ ['.', '.', '.'].isPrefixOf s.rest then
    let token ← take .ellipsis 3
    return .ok token
  else
    match mark? c with
    | some kind =>
      let token ← take kind c.utf8Size
      return .ok token
    | none =>
      if c = '"' then orSkipAll quoted
      else if c = backQuote then orSkipAll raw
      else if startsWord c then
        let token ← word
        return .ok token
      else
        skip c.utf8Size
        return .error (.unsupported s.byte c)

def next : Scan (Option Item) := do
  let s ← get
  match s.held with
  | some item =>
    set { s with held := none }
    return some item
  | none =>
    match ← skipTrivia with
    | .error e =>
      skipAll
      return some (.error e)
    | .ok () =>
      let s ← get
      match s.rest with
      | [] => return none
      | c :: _ =>
        let item ← item c
        return some item

def peek : Scan (Option Item) := do
  let s ← get
  match s.held with
  | some item => return some item
  | none =>
    let item ← next
    modify fun s => { s with held := item }
    return item

section

variable {before : List Char} {c : Char} {cs more rest : List Char} {kind : TokenKind}

@[simp]
theorem utf8Length_singleton (c : Char) : utf8Length [c] = c.utf8Size := Nat.add_zero _

theorem yields_orSkipAll_ok {x : Scan Item} {s t : Scanner} {token : Token} (h : Yields x s (.ok token) t) :
    Yields (orSkipAll x) s (.ok token) t := h.bind (yields_pure _ _)

theorem yields_orSkipAll_error {x : Scan Item} {s : Scanner} {e : LexicalError} {held : Option Item}
    (h : Yields x s (.error e) (between before rest held)) :
    Yields (orSkipAll x) s (.error e) (between (before ++ rest) [] held) :=
  h.bind ((yields_skipAll _ _ _).bind (yields_pure _ _))

/-- What is done at a character that is no sign. -/
theorem run_item_of_mark?_eq_none (noMark : mark? c = none) (s : Scanner) :
    (item c).run s = StateT.run (if c = '"' then orSkipAll quoted
      else if c = backQuote then orSkipAll raw
      else if startsWord c then do
        let token ← word
        return .ok token
      else do
        skip c.utf8Size
        return .error (.unsupported s.byte c)) s := by
  have noPeriod : c ≠ '.' := by
    rintro rfl
    cases noMark
  rw [item, (yields_get s).run_bind, if_neg fun dots => noPeriod dots.1, noMark]

theorem mark?_eq_none_of_startsWord (starts : startsWord c = true) : mark? c = none := by
  cases found : mark? c with
  | none => rfl
  | some kind =>
    rw [startsWord_of_mark found] at starts
    cases starts

/-- A token is read to its end. -/
theorem yields_item_token (isLexeme : IsLexeme kind (c :: more)) (apart : Apart kind rest) :
    Yields (item c) (between before (c :: more ++ rest) none)
      (.ok ⟨kind, utf8Length before, String.ofList (c :: more)⟩) (between (before ++ c :: more) rest none) := by
  generalize text : c :: more = text at isLexeme
  cases isLexeme with
  | word starts continues =>
    cases text
    rw [Yields, run_item_of_mark?_eq_none (mark?_eq_none_of_startsWord starts), if_neg (ne_of_startsWord starts (by decide)),
      if_neg (ne_of_startsWord starts (by decide)), if_pos starts]
    have continues' : ∀ d ∈ c :: more, continuesWord d = true :=
      List.forall_mem_cons.mpr ⟨continuesWord_of_startsWord starts, continues⟩
    exact (yields_word continues' (apart.word (isWord_wordKind _))).bind (yields_pure _ _)
  | quoted spelled =>
    cases (List.cons.inj text).1
    rw [Yields, run_item_of_mark?_eq_none rfl, if_pos rfl]
    exact yields_orSkipAll_ok (yields_quoted_closed spelled)
  | raw inside =>
    cases (List.cons.inj text).1
    rw [Yields, run_item_of_mark?_eq_none rfl, if_neg (by decide), if_pos rfl]
    exact yields_orSkipAll_ok (yields_raw_closed inside)
  | threeDots =>
    cases text
    have threeDots : utf8Length ['.', '.', '.'] = 3 := rfl
    refine (yields_get _).bind ?_
    rw [if_pos (by simp [between])]
    exact (yields_take threeDots _ _ _ _).bind (yields_pure _ _)
  | mark found =>
    cases text
    have noDots : ¬ (c = '.' ∧ ['.', '.', '.'].isPrefixOf (c :: rest) = true) := by
      rintro ⟨rfl, dots⟩
      cases found
      rw [List.isPrefixOf_iff_prefix, List.cons_prefix_cons, List.prefix_iff_eq_take] at dots
      exact apart.period rfl dots.2.symm
    refine (yields_get _).bind ?_
    rw [Scanner.rest_between, List.singleton_append, if_neg noDots, found]
    exact (yields_take (utf8Length_singleton c) kind before rest none).bind (yields_pure _ _)

/-- A character that begins no token is skipped. -/
theorem yields_item_unsupported (noLexeme : ∀ kind more, ¬ IsLexeme kind (c :: more)) :
    Yields (item c) (between before (c :: rest) none) (.error (.unsupported (utf8Length before) c))
      (between (before ++ [c]) rest none) := by
  have noMark : mark? c = none := by
    cases found : mark? c with
    | none => rfl
    | some kind => exact absurd (.mark found) (noLexeme kind [])
  have notQuote : c ≠ '"' := by
    rintro rfl
    exact noLexeme _ ['"'] (.quoted .nil)
  have notBackQuote : c ≠ backQuote := by
    rintro rfl
    have empty : IsLexeme (.literal (String.ofList [])) (backQuote :: [] ++ [backQuote]) := .raw List.not_mem_nil
    exact noLexeme _ _ empty
  have noWord : ¬ startsWord c = true := fun starts => noLexeme _ [] (.word starts (by simp))
  rw [Yields, run_item_of_mark?_eq_none noMark, if_neg notQuote, if_neg notBackQuote, if_neg noWord]
  exact (yields_skip (utf8Length_singleton c) before rest none).bind (yields_pure _ _)

theorem yields_item_unended (unended : Unended (c :: rest)) :
    Yields (item c) (between before (c :: rest) none) (.error (.unterminatedString (utf8Length before)))
      (between (before ++ c :: rest) [] none) := by
  generalize text : c :: rest = text at unended
  cases unended with
  | textEnds spelled =>
    cases text
    rw [Yields, run_item_of_mark?_eq_none rfl, if_pos rfl]
    exact yields_orSkipAll_error (yields_quoted_textEnds spelled)
  | lineEnds spelled =>
    cases (List.cons.inj text).1
    rw [Yields, run_item_of_mark?_eq_none rfl, if_pos rfl]
    exact yields_orSkipAll_error (yields_quoted_lineEnds spelled)
  | raw noQuote =>
    cases text
    rw [Yields, run_item_of_mark?_eq_none rfl, if_neg (by decide), if_pos rfl]
    exact yields_orSkipAll_error (yields_raw_textEnds noQuote)

theorem yields_item_noEscape {text value : List Char} (spelled : Spelled text value) (none : escape? rest = none) :
    Yields (item '"') (between before ('"' :: text ++ '\\' :: rest) Option.none)
      (.error (.invalidEscape (utf8Length (before ++ '"' :: text))))
      (between (before ++ ('"' :: text ++ '\\' :: rest)) [] Option.none) := by
  rw [Yields, run_item_of_mark?_eq_none rfl, if_pos rfl]
  exact yields_orSkipAll_error (yields_quoted_noEscape spelled none)

end

section

variable {before gap rest : List Char}

/-- Where a gap ends before the end of the text, the item is read that begins there. -/
theorem yields_next_item {c : Char} {item : Item} {s : Scanner} (trivia : Trivia gap)
    (notBlank : Unicode.isWhiteSpace c = false) (noComment : c = '/' → rest.head? ≠ some '/' ∧ rest.head? ≠ some '*')
    (read : Yields (Scan.item c) (between (before ++ gap) (c :: rest) none) item s) :
    Yields next (between before (gap ++ c :: rest) none) (some item) s := by
  have gapEnds : Yields skipTrivia (between before (gap ++ c :: rest) none) (.ok ())
      (between (before ++ gap) (c :: rest) none) := by
    refine yields_skipTrivia trivia fun rounds enough => ?_
    refine yields_skipTriviaIn_end (by simpa using notBlank) (fun cs => ⟨?_, ?_⟩) enough
    · intro same
      cases same
      exact (noComment rfl).1 rfl
    · intro same
      cases same
      exact (noComment rfl).2 rfl
  exact (yields_get _).bind (gapEnds.bind ((yields_get _).bind (read.bind (yields_pure _ _))))

theorem yields_next_finished (last : LastTrivia rest) :
    Yields next (between before rest none) none (between (before ++ rest) [] none) := by
  have gapEnds : Yields skipTrivia (between before rest none) (.ok ()) (between (before ++ rest) [] none) := by
    cases last with
    | closed trivia =>
      rw [← List.append_nil rest]
      refine yields_skipTrivia trivia fun rounds enough => ?_
      rw [List.append_nil]
      exact yields_skipTriviaIn_end (by simp) (by simp) enough
    | lineComment trivia noEnd =>
      refine yields_skipTrivia trivia fun rounds enough => ?_
      rw [← List.append_assoc]
      exact yields_skipTriviaIn_lastComment noEnd enough
  exact (yields_get _).bind (gapEnds.bind ((yields_get _).bind (yields_pure _ _)))

theorem yields_next_openComment {body : List Char} (trivia : Trivia gap) (unclosed : Unclosed body) :
    Yields next (between before (gap ++ '/' :: '*' :: body) none)
      (some (.error (.unterminatedComment (utf8Length (before ++ gap)))))
      (between (before ++ gap ++ '/' :: '*' :: body) [] none) := by
  have gapEnds : Yields skipTrivia (between before (gap ++ '/' :: '*' :: body) none)
      (.error (.unterminatedComment (utf8Length (before ++ gap)))) (between (before ++ gap) ('/' :: '*' :: body) none) :=
    yields_skipTrivia trivia fun _ => yields_skipTriviaIn_openComment unclosed
  exact (yields_get _).bind (gapEnds.bind ((yields_skipAll _ _ _).bind (yields_pure _ _)))

end

end Scan

namespace Scanner

/-- A scanner at the beginning of a text. -/
def start (text : String) : Scanner := ⟨text.toList, text.toList, 0, none⟩

/-- What is left is what stands in a text after the bytes that were counted. -/
def Placed (s : Scanner) (text : String) : Prop :=
  s.whole = text.toList ∧ ∃ before, cut? s.whole s.byte = some (before, s.rest)

/-- The items that a scanner of a text has still to give: one that it holds back, and those of what is left. -/
def Offers (s : Scanner) (text : String) (items : List Item) : Prop :=
  ∃ before rest held later, s = between before rest held ∧ before ++ rest = text.toList ∧
    Scanned (utf8Length before) rest later ∧ items = held.toList ++ later

theorem start_offers (text : String) : (start text).Offers text (items text) :=
  ⟨[], text.toList, none, _, rfl, rfl, scanned_items 0 text.toList, rfl⟩

theorem Offers.placed {s : Scanner} {text : String} {items : List Item} (h : s.Offers text items) : s.Placed text := by
  obtain ⟨before, rest, held, later, rfl, whole, -, -⟩ := h
  exact ⟨whole, before, cut?_append before rest⟩

end Scanner

namespace Scan

theorem scanned_end (o : Nat) : Scanned o [] [] := .finished (.closed .nil)

/-- The next item of a text is read, and what is left makes the others. -/
theorem yields_next_scanned {o : Nat} {cs : List Char} {items : List Item} (h : Scanned o cs items) {before : List Char}
    (place : utf8Length before = o) : ∃ word rest, cs = word ++ rest ∧
      Yields next (between before cs none) items.head? (between (before ++ word) rest none) ∧
        Scanned (utf8Length (before ++ word)) rest items.tail := by
  cases h with
  | finished last => exact ⟨cs, [], (List.append_nil _).symm, yields_next_finished last, scanned_end _⟩
  | @token _ gap more rest c kind items trivia isLexeme apart onward =>
    obtain ⟨notSlash, notBlank⟩ := isLexeme.begins
    subst place
    rw [← utf8Length_append] at onward ⊢
    refine ⟨gap ++ c :: more, rest, by simp, ?_, onward⟩
    rw [← List.append_assoc before]
    exact yields_next_item trivia notBlank (fun slash => absurd slash notSlash) (yields_item_token isLexeme apart)
  | @unsupported _ gap rest c items trivia noLexeme notBlank noComment onward =>
    subst place
    rw [← utf8Length_append] at onward ⊢
    refine ⟨gap ++ [c], rest, by simp, ?_, onward⟩
    rw [← List.append_assoc before]
    exact yields_next_item trivia notBlank noComment (yields_item_unsupported noLexeme)
  | @unterminatedString _ gap rest trivia unended =>
    subst place
    rw [← utf8Length_append]
    refine ⟨gap ++ rest, [], (List.append_nil _).symm, ?_, scanned_end _⟩
    cases rest with
    | nil => cases unended
    | cons c rest =>
      obtain ⟨_, _, isLexeme⟩ := unended.begins_lexeme
      obtain ⟨notSlash, notBlank⟩ := isLexeme.begins
      rw [← List.append_assoc before]
      exact yields_next_item trivia notBlank (fun slash => absurd slash notSlash) (yields_item_unended unended)
  | @unterminatedComment _ gap body trivia unclosed =>
    subst place
    rw [← utf8Length_append]
    refine ⟨gap ++ '/' :: '*' :: body, [], (List.append_nil _).symm, ?_, scanned_end _⟩
    rw [← List.append_assoc before]
    exact yields_next_openComment trivia unclosed
  | @invalidEscape _ gap text value rest trivia spelled none =>
    subst place
    rw [← utf8Length_append, ← List.append_assoc before]
    refine ⟨gap ++ ('"' :: text ++ '\\' :: rest), [], (List.append_nil _).symm, ?_, scanned_end _⟩
    rw [← List.append_assoc before]
    exact yields_next_item trivia (by decide) (by simp) (yields_item_noEscape spelled none)

variable {s : Scanner} {text : String} {items : List Item}

theorem yields_next (h : s.Offers text items) : ∃ t, Yields next s items.head? t ∧ t.Offers text items.tail := by
  obtain ⟨before, rest, held, later, rfl, whole, scanned, rfl⟩ := h
  cases held with
  | some item => exact ⟨between before rest none, rfl, before, rest, none, later, rfl, whole, scanned, rfl⟩
  | none =>
    obtain ⟨word, rest, rfl, given, onward⟩ := yields_next_scanned scanned rfl
    refine ⟨_, given, before ++ word, rest, none, _, rfl, ?_, onward, rfl⟩
    rw [List.append_assoc, whole]

theorem yields_peek (h : s.Offers text items) : ∃ t, Yields peek s items.head? t ∧ t.Offers text items := by
  obtain ⟨before, rest, held, later, rfl, whole, scanned, rfl⟩ := h
  cases held with
  | some item => exact ⟨between before rest (some item), rfl, before, rest, some item, later, rfl, whole, scanned, rfl⟩
  | none =>
    obtain ⟨word, rest, rfl, given, onward⟩ := yields_next_scanned scanned rfl
    refine ⟨between (before ++ word) rest later.head?, ?_, before ++ word, rest, later.head?, later.tail, rfl, ?_, onward, ?_⟩
    · exact (yields_get _).bind (given.bind rfl)
    · rw [List.append_assoc, whole]
    · cases later <;> rfl

/-- What a scanner does when it is called. -/
def call : Reader.Call → Scan (Option Item)
  | .peek => peek
  | .next => next

/-- Calls one after the other, whose answers are left aside. -/
def calls : List Reader.Call → Scan Unit
  | [] => return ()
  | c :: cs => do
    let _ ← call c
    calls cs

theorem yields_call (c : Reader.Call) (h : s.Offers text items) :
    ∃ t, Yields (call c) s items.head? t ∧ t.Offers text (items.drop ([c].count .next)) := by
  cases c with
  | peek => exact yields_peek h
  | next =>
    rw [List.count_singleton_self, List.drop_one]
    exact yields_next h

theorem yields_calls (cs : List Reader.Call) (h : s.Offers text items) :
    ∃ t, Yields (calls cs) s () t ∧ t.Offers text (items.drop (cs.count .next)) := by
  induction cs generalizing s items with
  | nil => exact ⟨s, rfl, h⟩
  | cons c cs ih =>
    obtain ⟨t, answered, offers⟩ := yields_call c h
    obtain ⟨u, called, offers⟩ := ih offers
    rw [List.drop_drop, ← List.count_append, List.singleton_append] at offers
    exact ⟨u, answered.bind called, offers⟩

/-- After any calls, each call is answered as a reader answers it. -/
theorem yields_answer (text : String) (cs : List Reader.Call) (c : Reader.Call) :
    ∃ s t, Yields (calls cs) (.start text) () s ∧ s.Placed text ∧ Yields (call c) s (Reader.answer text cs c) t ∧
      t.Placed text := by
  obtain ⟨s, called, offers⟩ := yields_calls cs (Scanner.start_offers text)
  obtain ⟨t, answered, offers'⟩ := yields_call c offers
  rw [List.head?_drop, ← Reader.answer_eq text cs c] at answered
  exact ⟨s, t, called, offers.placed, answered, offers'.placed⟩

end Scan

end RegularGrammar.Source
