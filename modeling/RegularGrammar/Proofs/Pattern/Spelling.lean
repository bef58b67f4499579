import RegularGrammar.Dialect
import RegularGrammar.Proofs.Text.Separator
import RegularGrammar.Source.Quotation

/-!
# Written characters and members of classes

How a pattern spells single characters, inside and outside of brackets, and what
may stand between brackets. A spelling ends where it ends whatever follows it, and
so do the members of a class, so `spelling_append_inj` and `members_append_inj`
leave one way to take a text apart.
-/

namespace RegularGrammar.Pattern

/-- The characters that need a backslash outside of brackets. -/
def metacharacters : Dialect → List Char
  | .rust => ['\\', '.', '+', '*', '?', '(', ')', '|', '[', ']', '{', '}', '^', '$']
  | .ecmaScript => ['^', '$', '\\', '.', '*', '+', '?', '(', ')', '[', ']', '{', '}', '|', '/']

/-- The characters that need a backslash between brackets. -/
def classMetacharacters : Dialect → List Char
  | .rust => ['\\', ']', '[', '^', '-', '&', '~']
  | .ecmaScript => ['\\', ']', '[', '^', '-']

/-- The ways to write one character. -/
inductive Spelling where
  | plain (c : Char)
  | escaped (c : Char)
  | lineFeed
  | carriageReturn
  | tab
  /-- By the hexadecimal digits of its code point. -/
  | codePoint (digits : List Char)

namespace Spelling

def text (d : Dialect) : Spelling → List Char
  | plain c => [c]
  | escaped c => ['\\', c]
  | lineFeed => ['\\', 'n']
  | carriageReturn => ['\\', 'r']
  | tab => ['\\', 't']
  | codePoint digits =>
    match d with
    | .rust => ['\\', 'x', '{'] ++ digits ++ ['}']
    | .ecmaScript => ['\\', 'u', '{'] ++ digits ++ ['}']

/-- The character that is written. -/
def value? : Spelling → Option Char
  | plain c => some c
  | escaped c => some c
  | lineFeed => some '\n'
  | carriageReturn => some '\r'
  | tab => some '\t'
  | codePoint digits => (Source.hexValue? digits).bind Source.scalar?

/-- Exactly the metacharacters stand after a backslash, and digits write a code point. -/
def WellFormed (metas : List Char) : Spelling → Prop
  | plain c => c ∉ metas
  | escaped c => c ∈ metas
  | codePoint digits => digits ≠ [] ∧ ∃ c, value? (codePoint digits) = some c
  | _ => True

end Spelling

/-- Metacharacters among which is the backslash, and none of the letters that may follow one. -/
def Distinct (metas : List Char) : Prop := '\\' ∈ metas ∧ ∀ c ∈ ['n', 'r', 't', 'x', 'u'], c ∉ metas

theorem distinct_metacharacters (d : Dialect) : Distinct (metacharacters d) := by
  cases d <;> simp [Distinct, metacharacters]

theorem distinct_classMetacharacters (d : Dialect) : Distinct (classMetacharacters d) := by
  cases d <;> simp [Distinct, classMetacharacters]

/-- No digit closes the braces around the digits. -/
theorem hexValue?_ne_brace {digits : List Char} {n : Nat} (h : Source.hexValue? digits = some n) :
    '}' ∉ digits := by
  have fold (digits : List Char) (value : Nat)
      (h : digits.foldlM (fun value c => (Source.hexDigit? c).map (16 * value + ·)) value = some n) :
      '}' ∉ digits := by
    induction digits generalizing value with
    | nil => simp
    | cons c cs ih =>
      rw [List.foldlM_cons, Option.bind_eq_bind, Option.bind_eq_some_iff] at h
      obtain ⟨next, digit, others⟩ := h
      obtain ⟨v, isDigit, -⟩ := Option.map_eq_some_iff.mp digit
      rw [List.mem_cons, not_or]
      refine ⟨?_, ih next others⟩
      rintro rfl
      cases isDigit
  exact fold digits 0 h

theorem Spelling.WellFormed.ne_brace {metas digits : List Char} (h : WellFormed metas (codePoint digits)) :
    '}' ∉ digits := by
  obtain ⟨-, c, found⟩ := h
  obtain ⟨n, digitsValue, -⟩ := Option.bind_eq_some_iff.mp found
  exact hexValue?_ne_brace digitsValue

/-- The digits of a code point can be told from what comes after the brace. -/
theorem codePoint_append_inj {d : Dialect} {metas ds es u v : List Char}
    (left : (Spelling.codePoint ds).WellFormed metas) (right : (Spelling.codePoint es).WellFormed metas)
    (h : (Spelling.codePoint ds).text d ++ u = (Spelling.codePoint es).text d ++ v) : ds = es ∧ u = v := by
  apply append_separator_inj left.ne_brace right.ne_brace
  cases d <;> simpa [Spelling.text] using h

/-- A spelling ends where it ends, whatever comes after it. -/
theorem spelling_append_inj {d : Dialect} {metas : List Char} (distinct : Distinct metas) {s t : Spelling}
    (left : s.WellFormed metas) (right : t.WellFormed metas) {u v : List Char}
    (h : s.text d ++ u = t.text d ++ v) : s = t ∧ u = v := by
  obtain ⟨backslash, letters⟩ := distinct
  cases s <;> cases t
  case codePoint.codePoint ds es =>
    obtain ⟨rfl, rfl⟩ := codePoint_append_inj left right h
    exact ⟨rfl, rfl⟩
  -- The first two characters differ, or are those of one and the same spelling.
  all_goals
    cases d <;> simp only [Spelling.text, Spelling.WellFormed, List.forall_mem_cons, List.cons_append,
      List.nil_append, List.cons.injEq] at h left right letters <;> grind

/-- A metacharacter other than the backslash begins no spelling. -/
theorem Spelling.WellFormed.ne_cons {d : Dialect} {metas : List Char} {s : Spelling} (h : s.WellFormed metas)
    {c : Char} (special : c ∈ metas) (other : c ≠ '\\') {u v : List Char} : s.text d ++ u ≠ c :: v := by
  intro same
  cases s with
  | plain e =>
    obtain ⟨rfl, -⟩ := List.cons.inj same
    exact h special
  | codePoint digits =>
    cases d <;> exact other (List.cons.inj same).1.symm
  | _ => exact other (List.cons.inj same).1.symm

/-- No spelling has a backslash before a character that is neither a metacharacter nor one of its letters. -/
theorem Spelling.WellFormed.ne_backslash_cons {d : Dialect} {metas : List Char} (distinct : Distinct metas)
    {s : Spelling} (h : s.WellFormed metas) {c : Char} (other : c ∉ metas) (notLetter : c ∉ ['n', 'r', 't', 'x', 'u'])
    {u v : List Char} : s.text d ++ u ≠ '\\' :: c :: v := by
  intro same
  simp only [List.mem_cons, not_or] at notLetter
  obtain ⟨notN, notR, notT, notX, notU, -⟩ := notLetter
  cases s with
  | plain e =>
    obtain ⟨rfl, -⟩ := List.cons.inj same
    exact h distinct.1
  | escaped e =>
    obtain ⟨rfl, -⟩ := List.cons.inj (List.cons.inj same).2
    exact other h
  | lineFeed => exact notN (List.cons.inj (List.cons.inj same).2).1.symm
  | carriageReturn => exact notR (List.cons.inj (List.cons.inj same).2).1.symm
  | tab => exact notT (List.cons.inj (List.cons.inj same).2).1.symm
  | codePoint digits =>
    cases d with
    | rust => exact notX (List.cons.inj (List.cons.inj same).2).1.symm
    | ecmaScript => exact notU (List.cons.inj (List.cons.inj same).2).1.symm

/-- What may stand between brackets: one character, or a first and a last one. -/
inductive Member where
  | single (s : Spelling)
  | span (first last : Spelling)

namespace Member

def text (d : Dialect) : Member → List Char
  | single s => s.text d
  | span first last => first.text d ++ '-' :: last.text d

def Holds (c : Char) : Member → Prop
  | single s => s.value? = some c
  | span first last => ∃ lo hi, first.value? = some lo ∧ last.value? = some hi ∧ lo ≤ c ∧ c ≤ hi

/-- Characters are spelled as in classes, and no span runs backwards. -/
def WellFormed (d : Dialect) : Member → Prop
  | single s => s.WellFormed (classMetacharacters d)
  | span first last =>
    first.WellFormed (classMetacharacters d) ∧ last.WellFormed (classMetacharacters d) ∧
      ∃ lo hi, first.value? = some lo ∧ last.value? = some hi ∧ lo ≤ hi

end Member

/-- The text of members, one after the other. -/
def membersText (d : Dialect) (ms : List Member) : List Char := ms.flatMap (·.text d)

theorem dash_mem (d : Dialect) : '-' ∈ classMetacharacters d := by cases d <;> decide

theorem bracket_mem (d : Dialect) : ']' ∈ classMetacharacters d := by cases d <;> decide

theorem caret_mem (d : Dialect) : '^' ∈ classMetacharacters d := by cases d <;> decide

theorem Member.WellFormed.ne_cons {d : Dialect} {m : Member} (h : m.WellFormed d) {c : Char}
    (special : c ∈ classMetacharacters d) (other : c ≠ '\\') {u v : List Char} : m.text d ++ u ≠ c :: v := by
  cases m with
  | single s => exact Spelling.WellFormed.ne_cons h special other
  | span first last =>
    intro same
    rw [Member.text, List.append_assoc] at same
    exact h.1.ne_cons special other same

theorem Member.WellFormed.ne_backslash_cons {d : Dialect} {m : Member} (h : m.WellFormed d) {c : Char}
    (other : c ∉ classMetacharacters d) (notLetter : c ∉ ['n', 'r', 't', 'x', 'u']) {u v : List Char} :
    m.text d ++ u ≠ '\\' :: c :: v := by
  have distinct := distinct_classMetacharacters d
  cases m with
  | single s => exact Spelling.WellFormed.ne_backslash_cons distinct h other notLetter
  | span first last =>
    intro same
    rw [Member.text, List.append_assoc] at same
    exact h.1.ne_backslash_cons distinct other notLetter same

/-- What stands between brackets begins with no metacharacter but a backslash. -/
theorem members_ne_cons {d : Dialect} {ms : List Member} (h : ∀ m ∈ ms, m.WellFormed d) {c : Char}
    (special : c ∈ classMetacharacters d) (other : c ≠ '\\') (notEnd : c ≠ ']') {u v : List Char} :
    membersText d ms ++ ']' :: u ≠ c :: v := by
  intro same
  cases ms with
  | nil => exact notEnd (List.cons.inj same).1.symm
  | cons m rest =>
    rw [membersText, List.flatMap_cons, List.append_assoc] at same
    exact (h m List.mem_cons_self).ne_cons special other same

/-- A member ends where it ends, if no dash comes after it. -/
theorem member_append_inj {d : Dialect} {m n : Member} (left : m.WellFormed d) (right : n.WellFormed d)
    {u v : List Char} (leftEnds : ∀ w, u ≠ '-' :: w) (rightEnds : ∀ w, v ≠ '-' :: w)
    (h : m.text d ++ u = n.text d ++ v) : m = n ∧ u = v := by
  have distinct := distinct_classMetacharacters d
  cases m with
  | single s =>
    cases n with
    | single t =>
      obtain ⟨rfl, rest⟩ := spelling_append_inj distinct left right h
      exact ⟨rfl, rest⟩
    | span first last =>
      rw [Member.text, Member.text, List.append_assoc] at h
      exact absurd (spelling_append_inj distinct left right.1 h).2 (leftEnds _)
  | span first last =>
    cases n with
    | single t =>
      rw [Member.text, Member.text, List.append_assoc] at h
      exact absurd (spelling_append_inj distinct left.1 right h).2.symm (rightEnds _)
    | span first' last' =>
      simp only [Member.text, List.append_assoc, List.cons_append] at h
      obtain ⟨rfl, afterFirst⟩ := spelling_append_inj distinct left.1 right.1 h
      obtain ⟨rfl, rest⟩ := spelling_append_inj distinct left.2.1 right.2.1 (List.cons.inj afterFirst).2
      exact ⟨rfl, rest⟩

/-- The members of a class can be told from each other and from what comes after the bracket. -/
theorem members_append_inj {d : Dialect} {ms ns : List Member} (left : ∀ m ∈ ms, m.WellFormed d)
    (right : ∀ n ∈ ns, n.WellFormed d) {u v : List Char}
    (h : membersText d ms ++ ']' :: u = membersText d ns ++ ']' :: v) : ms = ns ∧ u = v := by
  induction ms generalizing ns with
  | nil =>
    cases ns with
    | nil => exact ⟨rfl, (List.cons.inj h).2⟩
    | cons n ns =>
      simp only [membersText, List.flatMap_cons, List.append_assoc] at h
      exact absurd h.symm ((right n List.mem_cons_self).ne_cons (bracket_mem d) (by decide))
  | cons m ms ih =>
    cases ns with
    | nil =>
      simp only [membersText, List.flatMap_cons, List.append_assoc] at h
      exact absurd h ((left m List.mem_cons_self).ne_cons (bracket_mem d) (by decide))
    | cons n ns =>
      have ⟨leftHere, leftRest⟩ := List.forall_mem_cons.mp left
      have ⟨rightHere, rightRest⟩ := List.forall_mem_cons.mp right
      simp only [membersText, List.flatMap_cons, List.append_assoc] at h
      obtain ⟨rfl, others⟩ := member_append_inj leftHere rightHere
        (fun _ => members_ne_cons leftRest (dash_mem d) (by decide) (by decide))
        (fun _ => members_ne_cons rightRest (dash_mem d) (by decide) (by decide)) h
      obtain ⟨rfl, rest⟩ := ih leftRest rightRest others
      exact ⟨rfl, rest⟩

end RegularGrammar.Pattern
