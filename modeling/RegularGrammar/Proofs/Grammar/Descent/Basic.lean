import RegularGrammar.Proofs.Source.Scan.Items
import RegularGrammar.Grammar.Reading

/-!
# Descents

A grammar can also be read by functions that call each other as its parts contain each other. They
look one token ahead and count on what they saw: the token is there when it is taken, and it
begins a term if it was seen to. That they may count on it is not said by what they do.
-/

namespace RegularGrammar

open Source (Item Token TokenKind Fault Scan Scanner Yields)

/-- A scan that ends where the items of a text are not those of a grammar. -/
abbrev Descent := ExceptT ParseError Scan

/-- The error at the next item, where something else should come. -/
def refusal (expected : Expected) : Option Item → ParseError
  | none => .unexpectedEnd expected
  | some (.ok token) => .unexpected expected token.origin token.offset
  | some (.error e) => .invalidToken e

/-- The tokens that a term begins with. -/
def startsTerm : TokenKind → Bool
  | .name _ | .literal _ | .not | .opening _ => true
  | .equals | .period | .ellipsis | .pipe | .closing _ => false

namespace Descent

/-- A place that the look at a token before it excludes. -/
def unreachable {α : Type} : Descent α := throwThe Fault .unreachable

/-- A call that is nested too deep. -/
def endless {α : Type} : Descent α := throwThe Fault .endless

/-- The kind of the next token, which stays the next one. -/
def peekKind : Descent (Option TokenKind) := do
  match ← Scan.peek with
  | none => return none
  | some (.ok token) => return some token.kind
  | some (.error e) => throw (.invalidToken e)

/-- Refuses the next item. -/
def missing {α : Type} (expected : Expected) : Descent α := do
  let item ← Scan.next
  throw (refusal expected item)

def expect (kind : TokenKind) (expected : Expected) : Descent Unit := do
  let item ← Scan.next
  match item with
  | some (.ok token) => if token.kind = kind then return () else throw (refusal expected item)
  | _ => throw (refusal expected item)

/-- Reads the last bound of a range. -/
def rangeEnd (first : String) : Descent Expr := do
  let item ← Scan.next
  match item with
  | some (.ok ⟨.literal last, _, _⟩) => return .range first last
  | _ => throw (refusal .rangeEnd item)

/-- Reads what may follow a literal to make a range of it. -/
def literalOrRange (first : String) : Descent Expr := do
  if (← peekKind) = some .ellipsis then
    let _ ← Scan.next
    rangeEnd first
  else return .literal first

mutual

/-- Reads an expression. The calls nest to some depth at most. -/
def expression : Nat → Descent Expr
  | 0 => endless
  | depth + 1 => do
    let first ← sequence depth []
    alternatives depth [first]

/-- Reads more alternatives than were read. -/
def alternatives : Nat → List Expr → Descent Expr
  | 0, _ => endless
  | depth + 1, read => do
    if (← peekKind) = some .pipe then
      let _ ← Scan.next
      let e ← sequence depth []
      alternatives depth (read ++ [e])
    else return .alternativeOf read

/-- Reads more terms than were read. -/
def sequence : Nat → List Expr → Descent Expr
  | 0, _ => endless
  | depth + 1, read => do
    match ← term depth with
    | some e => sequence depth (read ++ [e])
    | none => if read.isEmpty then missing .term else return .sequenceOf read

/-- Reads a term if one begins here. -/
def term : Nat → Descent (Option Expr)
  | 0 => endless
  | depth + 1 => do
    match ← peekKind with
    | none => return none
    | some kind =>
      if startsTerm kind then
        match ← Scan.next with
        | some (.ok token) =>
          let e ← termFrom depth token.kind
          return some e
        | _ => unreachable
      else return none

/-- Reads a term after its first token. -/
def termFrom : Nat → TokenKind → Descent Expr
  | 0, _ => endless
  | depth + 1, kind =>
    match kind with
    | .name text => return .name text
    | .literal first => literalOrRange first
    | .not => do
      match ← term depth with
      | some body => return .complement body
      | none => missing .negatedTerm
    | .opening bracket => do
      let body ← expression depth
      expect (.closing bracket) (.closing bracket)
      return body.enclose bracket
    | _ => unreachable

end

/-- Reads a production after its equals sign. -/
def body (depth : Nat) : Descent Expr := do
  if (← peekKind) = some .period then
    expect .period .period
    return .sequence []
  else
    let e ← expression depth
    expect .period .period
    return e

/-- Reads a production after its name. -/
def production (depth : Nat) : Descent Expr := do
  expect .equals .equals
  body depth

/-- Reads more productions than were read. -/
def productions : Nat → Grammar → Descent Grammar
  | 0, _ => endless
  | depth + 1, done => do
    let item ← Scan.next
    match item with
    | none => return done
    | some (.ok ⟨.name name, offset, _⟩) =>
      let body ← production depth
      if (done.get? name).isSome then throw (.redefined name offset)
      else productions depth (done.insert ⟨name, body⟩)
    | _ => throw (refusal .productionName item)

/-- Reads a grammar. From one item to the next no more than five calls are nested in each other, and a text has no more
    items than characters. -/
def grammar (text : String) : Descent Grammar := productions (5 * (text.toList.length + 1)) .empty

end Descent

section

variable {α β : Type} {text : String} {x : Descent α} {f : α → Descent β} {items later rest : List Item} {a : α}
  {r : Except ParseError β} {e : ParseError}

/-- Where some items of a text are still to come, a descent comes to a result and to later items, and not to a fault. -/
def Gives (text : String) (x : Descent α) (items : List Item) (r : Except ParseError α) (later : List Item) : Prop :=
  ∀ s : Scanner, s.Offers text items → ∃ t, Yields x.run s r t ∧ t.Offers text later

theorem Gives.bind (h : Gives text x items (.ok a) later) (h' : Gives text (f a) later r rest) :
    Gives text (x >>= f) items r rest := by
  intro s offers
  obtain ⟨t, read, offers⟩ := h s offers
  obtain ⟨u, onward, offers⟩ := h' t offers
  refine ⟨u, ?_, offers⟩
  rw [ExceptT.run_bind]
  exact read.bind onward

theorem Gives.bind_error (h : Gives text x items (.error e) later) : Gives text (x >>= f) items (.error e) later := by
  intro s offers
  obtain ⟨t, read, offers⟩ := h s offers
  refine ⟨t, ?_, offers⟩
  rw [ExceptT.run_bind]
  exact read.bind (Source.yields_pure _ t)

theorem gives_pure (a : α) (items : List Item) : Gives text (pure a) items (.ok a) items :=
  fun s offers => ⟨s, Source.yields_pure _ s, offers⟩

theorem gives_throw (e : ParseError) (items : List Item) : Gives text (throw e : Descent α) items (.error e) items :=
  fun s offers => ⟨s, Source.yields_pure _ s, offers⟩

/-- What a scan of items does, a descent does that is nothing else. -/
theorem gives_scan {x : Scan α} (h : ∀ s : Scanner, s.Offers text items → ∃ t, Yields x s a t ∧ t.Offers text later) :
    Gives text (liftM x : Descent α) items (.ok a) later := by
  intro s offers
  obtain ⟨t, read, offers⟩ := h s offers
  refine ⟨t, ?_, offers⟩
  have lifted : (liftM x : Descent α).run = x >>= fun a => pure (.ok a) := map_eq_pure_bind _ x
  rw [lifted]
  exact read.bind (Source.yields_pure _ t)

theorem gives_peek (items : List Item) : Gives text (Scan.peek : Descent (Option Item)) items (.ok items.head?) items :=
  gives_scan fun _ => Scan.yields_peek

theorem gives_next (items : List Item) :
    Gives text (Scan.next : Descent (Option Item)) items (.ok items.head?) items.tail :=
  gives_scan fun _ => Scan.yields_next

end

namespace Descent

variable {text : String} {items : List Item}

theorem gives_missing {α : Type} (expected : Expected) (items : List Item) :
    Gives text (missing expected : Descent α) items (.error (refusal expected items.head?)) items.tail :=
  (gives_next items).bind (gives_throw _ _)

/-- The kind of the next token, unless there is an error in its place. -/
def headKind : List Item → Except ParseError (Option TokenKind)
  | [] => .ok none
  | .ok token :: _ => .ok (some token.kind)
  | .error e :: _ => .error (.invalidToken e)

theorem gives_peekKind (items : List Item) : Gives text peekKind items (headKind items) items := by
  refine (gives_peek items).bind ?_
  match items with
  | [] => exact gives_pure _ _
  | .ok token :: rest => exact gives_pure _ _
  | .error e :: rest => exact gives_throw _ _

theorem gives_expect {token : Token} {kind : TokenKind} (same : token.kind = kind) (expected : Expected) (rest : List Item) :
    Gives text (expect kind expected) (.ok token :: rest) (.ok ()) rest := by
  refine (gives_next _).bind ?_
  simp only [List.head?_cons, if_pos same]
  exact gives_pure _ _

/-- A token of a kind is taken where one comes next, and any other item is refused. -/
theorem expect_cases (text : String) (kind : TokenKind) (expected : Expected) (items : List Item) :
    (∃ token rest, items = .ok token :: rest ∧ token.kind = kind ∧
      Gives text (expect kind expected) items (.ok ()) rest) ∨
      (∀ token, items.head? = some (.ok token) → token.kind ≠ kind) ∧
        Gives text (expect kind expected) items (.error (refusal expected items.head?)) items.tail := by
  match items with
  | [] => exact .inr ⟨by simp, (gives_next []).bind (gives_throw _ _)⟩
  | .error e :: rest => exact .inr ⟨by simp, (gives_next _).bind (gives_throw _ _)⟩
  | .ok token :: rest =>
    by_cases same : token.kind = kind
    · exact .inl ⟨token, rest, rfl, same, gives_expect same expected rest⟩
    · refine .inr ⟨by simpa using same, (gives_next _).bind ?_⟩
      simp only [List.head?_cons, if_neg same]
      exact gives_throw _ _

end Descent

end RegularGrammar
