import RegularGrammar.Proofs.Pattern.Printing
import RegularGrammar.Regex.Reading

/-!
# Reading a pattern back

A well-formed pattern is read into an expression that can be printed and that
matches what its items match. Whatever groups are open, an atom goes into the
innermost one, and the rest of the pattern is read as if it stood alone.
-/

namespace RegularGrammar.Pattern

/-! ## Characters and classes -/

theorem Spelling.WellFormed.exists_value {metas : List Char} {s : Spelling} (h : s.WellFormed metas) :
    ∃ c, s.value? = some c := by
  cases s with
  | codePoint digits => exact h.2
  | _ => exact ⟨_, rfl⟩

theorem readCodePoint?_append {metas digits : List Char} (h : (Spelling.codePoint digits).WellFormed metas) {c : Char}
    (value : (Spelling.codePoint digits).value? = some c) (rest : List Char) :
    readCodePoint? (digits ++ '}' :: rest) = some (c, rest) := by
  have inside : ∀ e ∈ digits, (e != '}') = true := by
    intro e member
    simpa using fun same : e = '}' => h.ne_brace (same ▸ member)
  have taken : (digits ++ '}' :: rest).takeWhile (· != '}') = digits := by
    rw [List.takeWhile_append_of_pos inside, List.takeWhile_cons_of_neg (by simp), List.append_nil]
  rw [Spelling.value?] at value
  simp [readCodePoint?, taken, h.1, value]

variable {special : Char → Bool} {metas : List Char}

theorem readChar?_append (same : ∀ c, special c = true ↔ c ∈ metas) (distinct : Distinct metas) {s : Spelling}
    (h : s.WellFormed metas) {c : Char} (value : s.value? = some c) (rest : List Char) :
    readChar? special (s.text .rust ++ rest) = some (c, rest) := by
  obtain ⟨backslash, letters⟩ := distinct
  simp only [List.forall_mem_cons] at letters
  cases s with
  | plain e =>
    cases value
    have other : c ≠ '\\' := fun is => h (is ▸ backslash)
    have notSpecial : ¬ special c = true := fun is => h ((same c).mp is)
    simp [Spelling.text, readChar?, other, notSpecial]
  | escaped e =>
    cases value
    have isSpecial : special c = true := (same c).mpr h
    have notLetter (l : Char) (none : l ∉ metas) : c ≠ l := fun is => none (is ▸ h)
    simp [Spelling.text, readChar?, isSpecial, notLetter _ letters.1, notLetter _ letters.2.1, notLetter _ letters.2.2.1,
      notLetter _ letters.2.2.2.1]
  | codePoint digits => simpa [Spelling.text, readChar?] using readCodePoint?_append h value rest
  | _ =>
    cases value
    rfl

theorem Member.WellFormed.exists_range {m : Member} (h : m.WellFormed .rust) : ∃ r, m.range? = some r := by
  cases m with
  | single s =>
    obtain ⟨c, value⟩ := Spelling.WellFormed.exists_value h
    exact ⟨.single c, by simp [Member.range?, value]⟩
  | span first last =>
    obtain ⟨-, -, lo, hi, valueFirst, valueLast, ordered⟩ := h
    exact ⟨⟨lo, hi, ordered⟩, by simp [Member.range?, valueFirst, valueLast, ordered]⟩

theorem exists_ranges {ms : List Member} (h : ∀ m ∈ ms, m.WellFormed .rust) : ∃ rs, ms.mapM Member.range? = some rs := by
  induction ms with
  | nil => exact ⟨[], rfl⟩
  | cons m rest ih =>
    obtain ⟨here, others⟩ := List.forall_mem_cons.mp h
    obtain ⟨r, range⟩ := here.exists_range
    obtain ⟨rs, ranges⟩ := ih others
    exact ⟨r :: rs, by simp [range, ranges]⟩

theorem readRange?_append {m : Member} (h : m.WellFormed .rust) {r : CharRange} (range : m.range? = some r)
    {rest : List Char} (ends : ∀ w, rest ≠ '-' :: w) : readRange? (m.text .rust ++ rest) = some (r, rest) := by
  have read {s : Spelling} := readChar?_append (s := s) (fun _ => isSpecialInClass_iff) (distinct_classMetacharacters .rust)
  cases m with
  | single s =>
    obtain ⟨c, value, rfl⟩ := Option.map_eq_some_iff.mp range
    rw [Member.text, readRange?, read h value]
    split
    · rename_i none
      cases none
    · rename_i found
      cases found
      exact absurd rfl (ends _)
    · rename_i found
      cases found
      rfl
  | span first last =>
    obtain ⟨spelledFirst, spelledLast, lo, hi, valueFirst, valueLast, ordered⟩ := h
    simp only [Member.range?, valueFirst, valueLast, ordered, dif_pos, Option.some.injEq] at range
    simp only [Member.text, List.append_assoc, List.cons_append, readRange?, read spelledFirst valueFirst,
      read spelledLast valueLast, ordered, dif_pos, range]

theorem readRanges?_append {ms : List Member} (h : ∀ m ∈ ms, m.WellFormed .rust) {rs : List CharRange}
    (ranges : ms.mapM Member.range? = some rs) (rest : List Char) :
    readRanges? (membersText .rust ms ++ ']' :: rest) = some (rs, rest) := by
  induction ms generalizing rs with
  | nil =>
    cases ranges
    simp [membersText, readRanges?]
  | cons m ms ih =>
    obtain ⟨here, others⟩ := List.forall_mem_cons.mp h
    simp only [List.mapM_cons, Option.bind_eq_bind, Option.bind_eq_some_iff] at ranges
    obtain ⟨r, range, later, rangesLater, same⟩ := ranges
    cases same
    have notDash (w : List Char) : membersText .rust ms ++ ']' :: rest ≠ '-' :: w :=
      members_ne_cons others (dash_mem .rust) (by decide) (by decide)
    have read := readRange?_append here range notDash
    have notEnd (w : List Char) : m.text .rust ++ (membersText .rust ms ++ ']' :: rest) ≠ ']' :: w :=
      here.ne_cons (bracket_mem .rust) (by decide)
    rw [membersText, List.flatMap_cons, List.append_assoc, ← membersText]
    generalize m.text .rust ++ (membersText .rust ms ++ ']' :: rest) = cs at read notEnd
    cases cs with
    | nil => cases read
    | cons c cs =>
      have other : c ≠ ']' := fun is => notEnd cs (is ▸ rfl)
      rw [readRanges?, if_neg other]
      split
      · rename_i none
        rw [read] at none
        cases none
      · rename_i found
        rw [read] at found
        cases found
        rw [ih others rangesLater, Option.map_some]

theorem classOf_built (negated : Bool) (rs : List CharRange) : (classOf negated rs).Built := by
  cases negated with
  | false => exact .ofRanges rs
  | true =>
    cases found : (CharClass.ofRanges rs).complement? with
    | none =>
      simp only [classOf, found]
      exact .empty
    | some outside =>
      simp only [classOf, found]
      exact .complement (.ofRanges rs) found

theorem mem_classOf {negated : Bool} {ms : List Member} {rs : List CharRange} (ranges : ms.mapM Member.range? = some rs)
    (c : Char) : c ∈ classOf negated rs ↔ SetHolds negated ms c := by
  have holds := holds_iff_of_ranges ranges c
  rw [← CharClass.mem_ofRanges] at holds
  have ascending : (CharClass.ofRanges rs).Ascending := CharClass.ofRanges_ascending
  unfold classOf SetHolds
  cases negated with
  | false => exact holds.symm
  | true =>
    have outside : (∀ m ∈ ms, ¬ m.Holds c) ↔ c ∉ CharClass.ofRanges rs := by
      rw [← holds]
      simp
    simp only [if_true, outside]
    cases found : (CharClass.ofRanges rs).complement? with
    | none =>
      have all := (CharClass.complement?_eq_none_iff ascending).mp found c
      simp [all, CharClass.mem_def, CharClass.empty]
    | some outside => exact CharClass.mem_complement? ascending found

/-! ## Pieces -/

theorem readClass?_append (negated : Bool) {ms : List Member} (nonempty : ms ≠ []) (h : ∀ m ∈ ms, m.WellFormed .rust)
    {rs : List CharRange} (ranges : ms.mapM Member.range? = some rs) (rest : List Char) :
    readClass? negated (membersText .rust ms ++ ']' :: rest) = some (.set (classOf negated rs), rest) := by
  have some : rs ≠ [] := by
    rintro rfl
    obtain ⟨m, others, rfl⟩ := List.exists_cons_of_ne_nil nonempty
    simp [List.mapM_cons, Option.bind_eq_some_iff] at ranges
  obtain ⟨r, others, rfl⟩ := List.exists_cons_of_ne_nil some
  rw [readClass?, readRanges?_append h ranges]

theorem readPiece?_set {negated : Bool} {ms : List Member} (nonempty : ms ≠ []) (h : ∀ m ∈ ms, m.WellFormed .rust)
    {rs : List CharRange} (ranges : ms.mapM Member.range? = some rs) (rest : List Char) :
    readPiece? (setText .rust negated ms ++ rest) = some (.atom (.set (classOf negated rs)), rest) := by
  have read := readClass?_append negated nonempty h ranges rest
  rw [setText_append]
  cases negated with
  | true => simp [readPiece?, read]
  | false =>
    have notCaret (w : List Char) : membersText .rust ms ++ ']' :: rest ≠ '^' :: w :=
      members_ne_cons h (caret_mem .rust) (by decide) (by decide)
    simp only [Bool.false_eq_true, if_false, List.nil_append]
    generalize membersText .rust ms ++ ']' :: rest = cs at read notCaret
    rw [readPiece?, read]
    · rfl
    · exact notCaret

theorem readPiece?_char {s : Spelling} (h : s.WellFormed (metacharacters .rust)) {c : Char} (value : s.value? = some c)
    (rest : List Char) :
    readPiece? (s.text .rust ++ rest) = some (.atom (.literal (String.singleton c)), rest) := by
  have distinct := distinct_metacharacters .rust
  have read := readChar?_append (fun _ => isSpecial_iff) distinct h value rest
  unfold readPiece?
  split
  case h_12 => rw [read, Option.map_some]
  all_goals
    rename_i same
    first
    | exact absurd same (h.ne_cons (by decide) (by decide))
    | exact absurd same (h.ne_backslash_cons distinct (by decide) (by decide))

theorem readFrom?_piece {inner next : Group} {outer others : List Group} {cs rest : List Char} {p : Piece}
    (read : readPiece? cs = some (p, rest)) (applied : p.apply inner outer = some (next, others)) :
    readFrom? inner outer cs = readFrom? next others rest := by
  cases cs with
  | nil => cases read
  | cons c cs =>
    rw [readFrom?]
    split
    · rename_i none
      rw [read] at none
      cases none
    · rename_i found
      rw [read] at found
      cases found
      rw [applied, Option.bind_some]

/-! ## Trees -/

/-- A text is read as an expression, which goes into the innermost group and matches the spans of a relation. -/
structure ReadAs (text : List Char) (spans : List Char → Nat → Nat → Prop) (r : Regex) : Prop where
  printable : r.Printable
  spans_iff : ∀ subject i j, r.Spans subject i j ↔ spans subject i j
  read : ∀ inner outer rest, readFrom? inner outer (text ++ rest) = readFrom? (inner.push r) outer rest

theorem readAs_piece {text : List Char} {spans : List Char → Nat → Nat → Prop} {r : Regex} (printable : r.Printable)
    (spans_iff : ∀ subject i j, r.Spans subject i j ↔ spans subject i j)
    (piece : ∀ rest, readPiece? (text ++ rest) = some (.atom r, rest)) : ReadAs text spans r :=
  ⟨printable, spans_iff, fun _ _ rest => readFrom?_piece (piece rest) rfl⟩

theorem exists_readAs_char {s : Spelling} (h : s.WellFormed (metacharacters .rust)) :
    ∃ r, ReadAs (s.text .rust) (fun subject => (Atom.char s).Spans subject) r := by
  obtain ⟨c, value⟩ := h.exists_value
  refine ⟨_, readAs_piece (r := .literal _) trivial (fun subject i j => ?_) (readPiece?_char h value)⟩
  simp only [Regex.Spans, Regex.Stands, String.toList_singleton, Atom.Spans, Regex.OneChar, value, Option.some.injEq]
  constructor
  · rintro ⟨here, after⟩
    exact ⟨c, here, rfl, after⟩
  · rintro ⟨_, here, rfl, after⟩
    exact ⟨here, after⟩

theorem exists_readAs_set (negated : Bool) {ms : List Member} (nonempty : ms ≠ []) (h : ∀ m ∈ ms, m.WellFormed .rust) :
    ∃ r, ReadAs (setText .rust negated ms) (fun subject => Regex.OneChar subject (SetHolds negated ms)) r := by
  obtain ⟨rs, ranges⟩ := exists_ranges h
  refine ⟨_, readAs_piece (r := .set (classOf negated rs)) (classOf_built negated rs) (fun subject i j => ?_)
    (readPiece?_set nonempty h ranges)⟩
  simp only [Regex.Spans, mem_classOf ranges]

theorem exists_readAs_token (t : Token) : ∃ r, ReadAs (t.text .rust) (fun subject => t.Spans subject) r := by
  cases t with
  | anyCharacter => exact ⟨.any, readAs_piece trivial (fun _ _ _ => Iff.rfl) fun _ => rfl⟩
  | beginText => exact ⟨.beginText, readAs_piece trivial (fun _ _ _ => Iff.rfl) fun _ => rfl⟩
  | endText => exact ⟨.endText, readAs_piece trivial (fun _ _ _ => Iff.rfl) fun _ => rfl⟩
  | noCharacter =>
    obtain ⟨r, reads⟩ := exists_readAs_set true (List.cons_ne_nil noMember [])
      (List.forall_mem_singleton.mpr noMember_wellFormed)
    refine ⟨r, reads.printable, fun subject i j => ?_, reads.read⟩
    rw [reads.spans_iff]
    constructor
    · rintro ⟨c, -, outside, -⟩
      exact List.forall_mem_singleton.mp outside ⟨_, _, rfl, rfl, Scalar.first_le c, Scalar.le_last c⟩
    · exact False.elim

/-- A text is read as expressions, which go into the innermost group and match the spans of a relation. -/
structure ReadThrough (text : List Char) (spans : List Char → Nat → Nat → Prop) (rs : List Regex) : Prop where
  printable : Regex.PrintableAll rs
  spans_iff : ∀ subject i j, Regex.SpansThrough subject rs i j ↔ spans subject i j
  read : ∀ sides items outer rest,
    readFrom? ⟨sides, items⟩ outer (text ++ rest) = readFrom? ⟨sides, rs.reverse ++ items⟩ outer rest

/-- The sides of a group are read up to its closing parenthesis, and the group goes into the one around it. -/
structure ReadSides (text : List Char) (spans : List Char → Nat → Nat → Prop) (rs : List Regex) : Prop where
  nonempty : rs ≠ []
  printable : Regex.PrintableAll rs
  spans_iff : ∀ subject i j, Regex.SpansAny subject rs i j ↔ spans subject i j
  read : ∀ sides next outer rest, readFrom? ⟨sides, []⟩ (next :: outer) (text ++ ')' :: rest) =
    readFrom? (next.push (.alt (sides.reverse ++ rs))) outer rest

/-- What a sign makes of the expression before it. -/
def Quantifier.repeated : Quantifier → Regex → Regex
  | star => .star
  | plus => .plus
  | opt => .opt

@[simp]
theorem readPiece?_sign (q : Quantifier) (rest : List Char) :
    readPiece? (q.sign :: rest) = some (.sign q.repeated, rest) := by
  cases q <;> rfl

theorem repeated_printable (q : Quantifier) {r : Regex} (h : r.Printable) : (q.repeated r).Printable := by
  cases q <;> exact h

theorem repeated_spans (q : Quantifier) {r : Regex} {subject : List Char} :
    (q.repeated r).Spans subject = Quantified (r.Spans subject) (some q) := by
  cases q <;> rfl

/-- An expression takes the sign that comes after it. -/
theorem ReadAs.quantified {text : List Char} {spans : List Char → Nat → Nat → Prop} {r : Regex} (h : ReadAs text spans r)
    (quantifier : Option Quantifier) :
    ∃ t, ReadAs (text ++ quantifierText quantifier) (fun subject => Quantified (spans subject) quantifier) t := by
  cases quantifier with
  | none => exact ⟨r, h.printable, h.spans_iff, fun inner outer rest => by rw [quantifierText, List.append_nil, h.read]⟩
  | some q =>
    have same (subject : List Char) : r.Spans subject = spans subject := by
      funext i j
      exact propext (h.spans_iff subject i j)
    refine ⟨q.repeated r, repeated_printable q h.printable, fun subject i j => ?_, fun inner outer rest => ?_⟩
    · rw [repeated_spans, same]
    · rw [quantifierText, List.append_assoc, List.singleton_append, h.read, readFrom?_piece (readPiece?_sign q rest) rfl]
      rfl

theorem ReadThrough.cons {u v : List Char} {first later : List Char → Nat → Nat → Prop} {r : Regex} {rs : List Regex}
    (here : ReadAs u first r) (others : ReadThrough v later rs) :
    ReadThrough (u ++ v) (fun subject i j => ∃ k, first subject i k ∧ later subject k j) (r :: rs) where
  printable := ⟨here.printable, others.printable⟩
  spans_iff subject i j := by simp only [Regex.SpansThrough, here.spans_iff, others.spans_iff]
  read sides items outer rest := by
    rw [List.append_assoc, here.read, Group.push, others.read, List.reverse_cons, List.append_assoc]
    rfl

theorem ReadThrough.last {text : List Char} {spans : List Char → Nat → Nat → Prop} {rs : List Regex}
    (h : ReadThrough text spans rs) : ReadSides text spans [.concat rs] where
  nonempty := List.cons_ne_nil _ _
  printable := ⟨h.printable, trivial⟩
  spans_iff subject i j := by simp only [Regex.SpansAny, Regex.Spans, h.spans_iff, or_false]
  read sides next outer rest := by
    rw [h.read, readFrom?_piece (p := .closing) rfl rfl]
    simp [Group.regex, Group.closedSides]

theorem ReadThrough.more {u v : List Char} {first later : List Char → Nat → Nat → Prop} {rs ts : List Regex}
    (here : ReadThrough u first rs) (others : ReadSides v later ts) :
    ReadSides (u ++ '|' :: v) (fun subject i j => first subject i j ∨ later subject i j) (.concat rs :: ts) where
  nonempty := List.cons_ne_nil _ _
  printable := ⟨here.printable, others.printable⟩
  spans_iff subject i j := by simp only [Regex.SpansAny, Regex.Spans, here.spans_iff, others.spans_iff]
  read sides next outer rest := by
    rw [List.append_assoc, here.read, List.cons_append, readFrom?_piece (p := .bar) rfl rfl, others.read]
    simp [Group.closedSides]

theorem ReadSides.group {text : List Char} {spans : List Char → Nat → Nat → Prop} {rs : List Regex}
    (h : ReadSides text spans rs) : ReadAs (['(', '?', ':'] ++ text ++ [')']) spans (.alt rs) where
  printable := ⟨h.nonempty, h.printable⟩
  spans_iff subject i j := by rw [Regex.Spans, h.spans_iff]
  read inner outer rest := by
    have opens : readPiece? ('(' :: '?' :: ':' :: (text ++ ')' :: rest)) = some (.opening, text ++ ')' :: rest) := rfl
    simp only [List.append_assoc, List.cons_append, List.nil_append]
    rw [readFrom?_piece opens rfl, Group.new, h.read]
    rfl

mutual

theorem exists_readAs : (a : Atom) → a.WellFormed .rust →
    ∃ r, ReadAs (a.text .rust) (fun subject => a.Spans subject) r
  | .char _, h => exists_readAs_char h
  | .set negated _, h => exists_readAs_set negated h.1 h.2.1
  | .token t, _ => exists_readAs_token t
  | .group branches, h => by
    obtain ⟨rs, reads⟩ := exists_readSides branches h
    exact ⟨_, reads.group⟩

theorem exists_readThrough : (p : Items) → p.WellFormed .rust →
    ∃ rs, ReadThrough (p.text .rust) (fun subject => p.Spans subject) rs
  | .nil, _ => ⟨[], trivial, fun _ _ _ => Iff.rfl, fun _ _ _ _ => rfl⟩
  | .cons a quantifier rest, h => by
    obtain ⟨r, here⟩ := exists_readAs a h.1
    obtain ⟨t, quantified⟩ := here.quantified quantifier
    obtain ⟨rs, others⟩ := exists_readThrough rest h.2
    exact ⟨t :: rs, .cons quantified others⟩

theorem exists_readSides : (b : Branches) → b.WellFormed .rust →
    ∃ rs, ReadSides (b.text .rust) (fun subject => b.Spans subject) rs
  | .last items, h => by
    obtain ⟨rs, reads⟩ := exists_readThrough items h
    exact ⟨_, reads.last⟩
  | .more items rest, h => by
    obtain ⟨rs, here⟩ := exists_readThrough items h.1
    obtain ⟨ts, others⟩ := exists_readSides rest h.2
    exact ⟨_, here.more others⟩

end

/-- A pattern that can be read as items is read into an expression that matches what they match. -/
theorem Reads.ofPattern? {pattern : String} {p : Items} (h : Reads .rust pattern.toList p) :
    ∃ r, Regex.ofPattern? pattern = some r ∧ r.Printable ∧ ∀ subject i j, r.Spans subject i j ↔ p.Spans subject i j := by
  obtain ⟨rs, reads⟩ := exists_readThrough p h.wellFormed
  have read := reads.read [] [] [] []
  rw [h.text_eq, List.append_nil, List.append_nil] at read
  refine ⟨.alt [.concat rs], ?_, ⟨List.cons_ne_nil _ _, reads.printable, trivial⟩, fun subject i j => ?_⟩
  · rw [Regex.ofPattern?, Group.new, read, readFrom?]
    simp [Group.regex, Group.closedSides]
  · simp only [Regex.Spans, Regex.SpansAny, reads.spans_iff, or_false]

end RegularGrammar.Pattern
