import RegularGrammar.Proofs.Source.Scanning

/-!
# Looking ahead

A reader shows the next item of a text as often as it is asked to, and gives it away once.
What it has to give are the items it holds back and those of the rest of the text: showing
takes nothing away from them, and giving away takes the first.
-/

namespace RegularGrammar.Source

namespace Reader

/-- What a reader can be asked for. -/
inductive Call where
  | peek
  | next
deriving DecidableEq

/-- What a call answers, and the reader after it. -/
def call (r : Reader) : Call → Option Item × Reader
  | .peek => r.peek
  | .next => r.next

/-- The reader after some calls. -/
def after (r : Reader) (calls : List Call) : Reader := calls.foldl (fun r c => (r.call c).2) r

/-- What is answered to a call that comes after some others, from the beginning of a text on. -/
def answer (text : String) (calls : List Call) (c : Call) : Option Item := (((start text).after calls).call c).1

/-- The items that a reader has still to give away. -/
def upcoming (r : Reader) : List Item := r.held.toList ++ r.position.items

@[simp]
theorem call_fst (r : Reader) (c : Call) : (r.call c).1 = r.upcoming.head? := by
  obtain ⟨position, held⟩ := r
  cases held with
  | some item => cases c <;> rfl
  | none =>
    cases next : position.next? with
    | none => cases c <;> simp [call, peek, Reader.next, upcoming, next, items_eq_nil next]
    | some found => cases c <;> simp [call, peek, Reader.next, upcoming, next, items_eq_cons next]

@[simp]
theorem upcoming_call (r : Reader) (c : Call) :
    (r.call c).2.upcoming = match c with
      | .peek => r.upcoming
      | .next => r.upcoming.tail := by
  obtain ⟨position, held⟩ := r
  cases held with
  | some item => cases c <;> rfl
  | none =>
    cases next : position.next? with
    | none => cases c <;> simp [call, peek, Reader.next, upcoming, next, items_eq_nil next]
    | some found => cases c <;> simp [call, peek, Reader.next, upcoming, next, items_eq_cons next]

/-- After some calls as many items are gone as were given away. -/
@[simp]
theorem upcoming_after (r : Reader) (calls : List Call) :
    (r.after calls).upcoming = r.upcoming.drop (calls.count .next) := by
  induction calls generalizing r with
  | nil => rfl
  | cons c calls ih =>
    have later : (r.after (c :: calls)).upcoming = (r.call c).2.upcoming.drop (calls.count .next) := ih _
    rw [later, upcoming_call]
    cases c with
    | peek => simp
    | next => simp

theorem answer_eq (text : String) (calls : List Call) (c : Call) :
    answer text calls c = (items text)[calls.count .next]? := by
  rw [answer, call_fst, upcoming_after, List.head?_drop]
  rfl

theorem answer_of_count_eq (text : String) {calls others : List Call} (c d : Call)
    (same : calls.count .next = others.count .next) : answer text calls c = answer text others d := by
  rw [answer_eq, answer_eq, same]

/-- Once there is no item any more, there is none for ever. -/
theorem answer_eq_none_of_le (text : String) {calls others : List Call} {c : Call} (d : Call)
    (ended : answer text calls c = none) (later : calls.count .next ≤ others.count .next) :
    answer text others d = none := by
  rw [answer_eq, List.getElem?_eq_none_iff] at ended ⊢
  exact Nat.le_trans ended later

/-- The error that ends the reading of a text is its last item. -/
theorem getElem?_after_end {text : String} {n : Nat} {e : LexicalError} (found : (items text)[n]? = some (.error e))
    (ends : e.EndsReading) : (items text)[n + 1]? = none := by
  obtain ⟨inside, here⟩ := List.getElem?_eq_some_iff.mp found
  have split : items text = (items text).take n ++ .error e :: (items text).drop (n + 1) := by
    rw [← here, List.getElem_cons_drop, List.take_append_drop]
  have last : (items text).drop (n + 1) = [] := (scanned_items 0 text.toList).eq_nil_after split ends
  rw [List.getElem?_eq_none_iff]
  exact List.drop_eq_nil_iff.mp last

/-- Whatever is called on a reader before, it answers with the item that is next after as many calls of `next` alone.
    Looking ahead changes no answer, and after the last item there is none for ever. -/
theorem answers_without_peek (text : String) :
    (∀ calls c, answer text calls c = (items text)[calls.count .next]? ∧
      answer text calls c = answer text (List.replicate (calls.count .next) .next) .next) ∧
    (∀ calls more c, answer text (calls ++ .peek :: more) c = answer text (calls ++ more) c) ∧
    (∀ calls c more d, answer text calls c = none → answer text (calls ++ c :: more) d = none) ∧
      ∀ calls e more d, answer text calls .next = some (.error e) → e.EndsReading →
        answer text (calls ++ .next :: more) d = none := by
  refine ⟨fun calls c => ⟨answer_eq text calls c, ?_⟩, fun calls more c => ?_, fun calls c more d ended => ?_,
    fun calls e more d failed ends => ?_⟩
  · exact answer_of_count_eq text c .next (by simp)
  · exact answer_of_count_eq text c c (by simp)
  · exact answer_eq_none_of_le text d ended ((List.sublist_append_left calls _).count_le _)
  · rw [answer_eq] at failed
    have ended : answer text (calls ++ [.next]) .next = none := by
      rw [answer_eq, List.count_append]
      exact getElem?_after_end failed ends
    refine answer_eq_none_of_le text d ended ?_
    rw [List.append_cons calls .next more]
    exact (List.sublist_append_left _ more).count_le _

/-- A sign that starts no token, and a comment that is not closed. -/
def brokenOff : String := "x/*é*/; /* y"

theorem answers_without_peek_brokenOff :
    [[], [.peek], [.next, .peek], [.next, .next]].map (answer brokenOff · .peek) =
        [some (.ok ⟨.name "x", 0, "x"⟩), some (.ok ⟨.name "x", 0, "x"⟩), some (.error (.unsupported 7 ';')),
          some (.error (.unterminatedComment 9))] ∧
      (∀ more c, answer brokenOff ([.next, .peek, .next] ++ .next :: more) c = none) ∧
        ∀ more c, answer brokenOff ([.next, .next, .next] ++ .peek :: more) c = none := by
  have read : items brokenOff =
      [.ok ⟨.name "x", 0, "x"⟩, .error (.unsupported 7 ';'), .error (.unterminatedComment 9)] := by with_unfolding_all rfl
  obtain ⟨shown, -, ended, broken⟩ := answers_without_peek brokenOff
  have failed : answer brokenOff [.next, .peek, .next] .next = some (.error (.unterminatedComment 9)) := by
    rw [(shown _ _).1, read]
    rfl
  have nothing : answer brokenOff [.next, .next, .next] .peek = none := by
    rw [(shown _ _).1, read]
    rfl
  refine ⟨?_, fun more c => broken _ _ more c failed trivial, fun more c => ended _ _ more c nothing⟩
  simp only [List.map_cons, List.map_nil, (shown _ _).1, read]
  rfl

end Reader

end RegularGrammar.Source
