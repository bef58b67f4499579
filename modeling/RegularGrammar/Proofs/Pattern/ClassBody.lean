import Mathlib.Data.List.Chain
import RegularGrammar.Proofs.Pattern.Printing

/-!
# What stands between the brackets of a class

The body of a class is read from left to right, one member after the other. The members are
the only ones with its text, and they give back the ranges it was written from. Seen without
its escapes, a body shows no character with a meaning of its own but the dashes of its spans.
-/

namespace RegularGrammar.Pattern

variable {d : Dialect}

/-! ## Reading members -/

/-- A code point between braces, and what comes after them. -/
def readDigits? : List Char → Option (Spelling × List Char)
  | '{' :: cs =>
    let digits := cs.takeWhile (· != '}')
    match cs.dropWhile (· != '}') with
    | [] => none
    | _ :: rest =>
      if digits ≠ [] ∧ (Spelling.value? (.codePoint digits)).isSome then some (.codePoint digits, rest) else none
  | _ => none

/-- What is spelled after a backslash, and what comes after it. -/
def readEscape? (d : Dialect) : List Char → Option (Spelling × List Char)
  | [] => none
  | c :: cs =>
    if c ∈ classMetacharacters d then some (.escaped c, cs)
    else if c = 'n' then some (.lineFeed, cs)
    else if c = 'r' then some (.carriageReturn, cs)
    else if c = 't' then some (.tab, cs)
    else if c = d.codePointLetter then readDigits? cs
    else none

/-- The first character of a class body, as it is spelled, and what comes after it. -/
def readSpelling? (d : Dialect) : List Char → Option (Spelling × List Char)
  | [] => none
  | c :: cs =>
    if c = '\\' then readEscape? d cs
    else if c ∈ classMetacharacters d then none
    else some (.plain c, cs)

/-- The first member of a class body, and what comes after it: a dash after a character asks for another one. -/
def readMember? (d : Dialect) (cs : List Char) : Option (Member × List Char) :=
  match readSpelling? d cs with
  | none => none
  | some (first, '-' :: rest) => (readSpelling? d rest).map fun (last, after) => (.span first last, after)
  | some (first, rest) => some (.single first, rest)

theorem codePoint_text (digits : List Char) :
    (Spelling.codePoint digits).text d = '\\' :: d.codePointLetter :: '{' :: (digits ++ ['}']) := by
  cases d <;> simp [Spelling.text, Dialect.codePointLetter]

theorem codePointLetter_plain (d : Dialect) :
    d.codePointLetter ∉ classMetacharacters d ∧ d.codePointLetter ∉ ['n', 'r', 't'] := by
  cases d <;> decide

theorem readDigits?_append {metas digits : List Char} (h : (Spelling.codePoint digits).WellFormed metas)
    (rest : List Char) : readDigits? ('{' :: (digits ++ '}' :: rest)) = some (.codePoint digits, rest) := by
  have open' : ∀ c ∈ digits, (c != '}') = true := by
    intro c member
    simpa using fun same : c = '}' => h.ne_brace (same ▸ member)
  have taken : (digits ++ '}' :: rest).takeWhile (· != '}') = digits := by
    rw [List.takeWhile_append_of_pos open', List.takeWhile_cons_of_neg (by simp), List.append_nil]
  have dropped : (digits ++ '}' :: rest).dropWhile (· != '}') = '}' :: rest := by
    rw [List.dropWhile_append_of_pos open', List.dropWhile_cons_of_neg (by simp)]
  obtain ⟨nonempty, c, value⟩ := h
  simp [readDigits?, taken, dropped, nonempty, value]

theorem readSpelling?_append {s : Spelling} (h : s.WellFormed (classMetacharacters d)) (rest : List Char) :
    readSpelling? d (s.text d ++ rest) = some (s, rest) := by
  obtain ⟨backslash, letters⟩ := distinct_classMetacharacters d
  simp only [List.forall_mem_cons] at letters
  cases s with
  | plain c =>
    have other : c ≠ '\\' := fun same => h (same ▸ backslash)
    simp only [Spelling.WellFormed] at h
    simp [Spelling.text, readSpelling?, other, h]
  | escaped c =>
    simp only [Spelling.WellFormed] at h
    simp [Spelling.text, readSpelling?, readEscape?, h]
  | codePoint digits =>
    obtain ⟨notMeta, notLetter⟩ := codePointLetter_plain d
    simp only [List.mem_cons, List.not_mem_nil, or_false, not_or] at notLetter
    have read := readDigits?_append h rest
    rw [codePoint_text]
    simpa [readSpelling?, readEscape?, notMeta, notLetter] using read
  | _ => simp [Spelling.text, readSpelling?, readEscape?, letters]

/-- The characters of a member. -/
def Member.bounds : Member → List Spelling
  | single s => [s]
  | span first last => [first, last]

/-- The characters of a member are spelled as in classes. -/
def Member.Spelled (d : Dialect) (m : Member) : Prop := ∀ s ∈ m.bounds, s.WellFormed (classMetacharacters d)

theorem Member.WellFormed.spelled {m : Member} (h : m.WellFormed d) : m.Spelled d := by
  cases m with
  | single s => exact List.forall_mem_singleton.mpr h
  | span first last => exact List.forall_mem_cons.mpr ⟨h.1, List.forall_mem_singleton.mpr h.2.1⟩

theorem readMember?_append {m : Member} (h : m.Spelled d) {rest : List Char} (ends : rest.head? ≠ some '-') :
    readMember? d (m.text d ++ rest) = some (m, rest) := by
  cases m with
  | single s =>
    have read := readSpelling?_append (List.forall_mem_singleton.mp h) rest
    rw [Member.text, readMember?, read]
    split
    · rename_i none
      cases none
    · rename_i found
      cases found
      exact absurd rfl ends
    · rename_i found
      cases found
      rfl
  | span first last =>
    obtain ⟨here, later⟩ := List.forall_mem_cons.mp h
    have readFirst := readSpelling?_append here ('-' :: (last.text d ++ rest))
    have readLast := readSpelling?_append (List.forall_mem_singleton.mp later) rest
    rw [Member.text, List.append_assoc, List.cons_append, readMember?, readFirst]
    simp only [readLast, Option.map_some]

theorem readDigits?_eq_some {cs rest : List Char} {s : Spelling} (h : readDigits? cs = some (s, rest)) :
    s.WellFormed (classMetacharacters d) ∧ s.text d ++ rest = '\\' :: d.codePointLetter :: cs := by
  unfold readDigits? at h
  split at h
  · rename_i cs
    dsimp only at h
    split at h
    · cases h
    · rename_i e after dropped
      have closes : e = '}' := by simpa [dropped] using List.head?_dropWhile_not (· != '}') cs
      subst closes
      have split : cs.takeWhile (· != '}') ++ '}' :: after = cs := by
        rw [← dropped, List.takeWhile_append_dropWhile]
      split at h
      · rename_i found
        cases h
        refine ⟨⟨found.1, Option.isSome_iff_exists.mp found.2⟩, ?_⟩
        rw [codePoint_text]
        simpa using split
      · cases h
  · cases h

theorem readEscape?_eq_some {cs rest : List Char} {s : Spelling} (h : readEscape? d cs = some (s, rest)) :
    s.WellFormed (classMetacharacters d) ∧ s.text d ++ rest = '\\' :: cs := by
  cases cs with
  | nil => cases h
  | cons c cs =>
    rw [readEscape?] at h
    split at h
    · rename_i special
      cases h
      exact ⟨special, rfl⟩
    split at h
    · rename_i letter
      cases h
      exact ⟨trivial, by rw [letter]; rfl⟩
    split at h
    · rename_i letter
      cases h
      exact ⟨trivial, by rw [letter]; rfl⟩
    split at h
    · rename_i letter
      cases h
      exact ⟨trivial, by rw [letter]; rfl⟩
    split at h
    · rename_i letter
      rw [letter]
      exact readDigits?_eq_some h
    · cases h

theorem readSpelling?_eq_some {cs rest : List Char} {s : Spelling} (h : readSpelling? d cs = some (s, rest)) :
    s.WellFormed (classMetacharacters d) ∧ s.text d ++ rest = cs := by
  cases cs with
  | nil => cases h
  | cons c cs =>
    rw [readSpelling?] at h
    split at h
    · rename_i backslash
      rw [backslash]
      exact readEscape?_eq_some h
    split at h
    · cases h
    · rename_i plain
      cases h
      exact ⟨plain, rfl⟩

theorem readMember?_eq_some {cs rest : List Char} {m : Member} (h : readMember? d cs = some (m, rest)) :
    m.Spelled d ∧ m.text d ++ rest = cs := by
  unfold readMember? at h
  split at h
  · cases h
  · rename_i first after read
    obtain ⟨wellFormed, text⟩ := readSpelling?_eq_some read
    obtain ⟨⟨last, _⟩, readLast, same⟩ := Option.map_eq_some_iff.mp h
    cases same
    obtain ⟨lastWellFormed, lastText⟩ := readSpelling?_eq_some readLast
    refine ⟨List.forall_mem_cons.mpr ⟨wellFormed, List.forall_mem_singleton.mpr lastWellFormed⟩, ?_⟩
    rw [← text, ← lastText, Member.text, List.append_assoc, List.cons_append]
  · rename_i read
    cases h
    obtain ⟨wellFormed, text⟩ := readSpelling?_eq_some read
    exact ⟨List.forall_mem_singleton.mpr wellFormed, text⟩

theorem Member.text_ne_nil {m : Member} : m.text d ≠ [] := by
  cases m with
  | single s => exact Spelling.text_ne_nil
  | span first last => simp [Member.text]

theorem readMember?_length_lt {cs rest : List Char} {m : Member} (h : readMember? d cs = some (m, rest)) :
    rest.length < cs.length := by
  obtain ⟨-, rfl⟩ := readMember?_eq_some h
  have := List.length_pos_iff.mpr (Member.text_ne_nil (d := d) (m := m))
  rw [List.length_append]
  omega

/-- The members of a class body. -/
def readMembers? (d : Dialect) : List Char → Option (List Member)
  | [] => some []
  | c :: cs =>
    match _read : readMember? d (c :: cs) with
    | none => none
    | some (m, rest) => (readMembers? d rest).map (m :: ·)
termination_by cs => cs.length
decreasing_by exact readMember?_length_lt _read

/-- A class body is cut into members. -/
structure Decomposes (d : Dialect) (body : List Char) (ms : List Member) : Prop where
  spelled : ∀ m ∈ ms, m.Spelled d
  text_eq : membersText d ms = body

theorem Member.Spelled.head?_ne_dash {m : Member} (h : m.Spelled d) (rest : List Char) :
    (m.text d ++ rest).head? ≠ some '-' := by
  have first : ∃ (s : Spelling) (after : List Char), s.WellFormed (classMetacharacters d) ∧
      m.text d ++ rest = s.text d ++ after := by
    cases m with
    | single s => exact ⟨s, rest, List.forall_mem_singleton.mp h, rfl⟩
    | span first last => exact ⟨first, _, (List.forall_mem_cons.mp h).1, by rw [Member.text, List.append_assoc]⟩
  obtain ⟨s, after, wellFormed, same⟩ := first
  intro dash
  obtain ⟨tail, begins⟩ := List.head?_eq_some_iff.mp dash
  exact wellFormed.ne_cons (dash_mem d) (by decide) (same.symm.trans begins)

theorem membersText_head?_ne_dash {ms : List Member} (h : ∀ m ∈ ms, m.Spelled d) :
    (membersText d ms).head? ≠ some '-' := by
  cases ms with
  | nil => simp [membersText]
  | cons m rest =>
    rw [membersText, List.flatMap_cons]
    exact (h m List.mem_cons_self).head?_ne_dash _

/-- A class body is read as the members it is cut into. -/
theorem readMembers?_eq_some_iff {body : List Char} {ms : List Member} :
    readMembers? d body = some ms ↔ Decomposes d body ms := by
  constructor
  · intro read
    fun_induction readMembers? d body generalizing ms with
    | case1 =>
      cases read
      exact ⟨List.forall_mem_nil _, rfl⟩
    | case2 => cases read
    | case3 c cs m rest here ih =>
      obtain ⟨others, readOthers, rfl⟩ := Option.map_eq_some_iff.mp read
      obtain ⟨spelled, text⟩ := readMember?_eq_some here
      obtain ⟨spelledOthers, textOthers⟩ := ih readOthers
      refine ⟨List.forall_mem_cons.mpr ⟨spelled, spelledOthers⟩, ?_⟩
      rw [membersText, List.flatMap_cons, ← text, ← textOthers]
      rfl
  · rintro ⟨spelled, rfl⟩
    induction ms with
    | nil => simp [membersText, readMembers?]
    | cons m ms ih =>
      obtain ⟨here, others⟩ := List.forall_mem_cons.mp spelled
      have read := readMember?_append here (membersText_head?_ne_dash others)
      obtain ⟨c, cs, text⟩ := List.exists_cons_of_ne_nil (Member.text_ne_nil (d := d) (m := m))
      rw [membersText, List.flatMap_cons, ← membersText]
      rw [text, List.cons_append] at read ⊢
      rw [readMembers?]
      split
      · rename_i none
        rw [read] at none
        cases none
      · rename_i found
        rw [read] at found
        cases found
        rw [ih others, Option.map_some]

theorem Decomposes.unique {body : List Char} {ms ns : List Member} (left : Decomposes d body ms)
    (right : Decomposes d body ns) : ms = ns := by
  have first := readMembers?_eq_some_iff.mpr left
  rw [readMembers?_eq_some_iff.mpr right] at first
  exact (Option.some.inj first).symm

theorem Restores.decomposes {ms : List Member} {body : List Char} {rs : List CharRange} (h : Restores d ms body rs) :
    Decomposes d body ms :=
  ⟨fun m member => (h.wellFormed m member).spelled, h.text_eq⟩

/-! ## Looking past escapes -/

/-- What a class body shows to one who takes each escape for one sign. -/
inductive Sign where
  | escape
  | bare (c : Char)
deriving DecidableEq

/-- What comes after an escape, where a brace after the letter of a code point opens a part of the escape. -/
def afterEscape (d : Dialect) (c : Char) (cs : List Char) : List Char :=
  if c = d.codePointLetter ∧ cs.head? = some '{' then (cs.dropWhile (· != '}')).tail else cs

theorem afterEscape_length_le (c : Char) (cs : List Char) : (afterEscape d c cs).length ≤ cs.length := by
  unfold afterEscape
  split
  · have := (List.dropWhile_suffix (· != '}') (l := cs)).length_le
    rw [List.length_tail]
    omega
  · exact Nat.le_refl _

/-- The signs of a class body. A backslash belongs to an escape if anything comes after it. -/
def signs (d : Dialect) : List Char → List Sign
  | [] => []
  | [c] => [.bare c]
  | c :: e :: cs => if c = '\\' then .escape :: signs d (afterEscape d e cs) else .bare c :: signs d (e :: cs)
termination_by cs => cs.length
decreasing_by
  · have := afterEscape_length_le (d := d) e cs
    simp only [List.length_cons]
    omega
  · simp

def Spelling.sign : Spelling → Sign
  | plain c => .bare c
  | _ => .escape

def Member.signs : Member → List Sign
  | single s => [s.sign]
  | span first last => [first.sign, .bare '-', last.sign]

theorem signs_bare {c : Char} (other : c ≠ '\\') (rest : List Char) :
    signs d (c :: rest) = .bare c :: signs d rest := by
  cases rest with
  | nil => simp [signs]
  | cons e rest => rw [signs, if_neg other]

@[simp]
theorem signs_escape (c : Char) (rest : List Char) :
    signs d ('\\' :: c :: rest) = .escape :: signs d (afterEscape d c rest) := by
  rw [signs, if_pos rfl]

theorem signs_spelling {s : Spelling} (h : s.WellFormed (classMetacharacters d)) (rest : List Char) :
    signs d (s.text d ++ rest) = s.sign :: signs d rest := by
  obtain ⟨backslash, letters⟩ := distinct_classMetacharacters d
  have noLetter {c : Char} (other : c ≠ d.codePointLetter) : afterEscape d c rest = rest :=
    if_neg fun both => other both.1
  obtain ⟨notMeta, notNamed⟩ := codePointLetter_plain d
  simp only [List.mem_cons, List.not_mem_nil, or_false, not_or] at notNamed
  cases s with
  | plain c =>
    have other : c ≠ '\\' := fun same => h (same ▸ backslash)
    exact signs_bare other rest
  | escaped c =>
    have other : c ≠ d.codePointLetter := fun same => notMeta (same ▸ h)
    rw [Spelling.text, List.cons_append, List.singleton_append, signs_escape, noLetter other]
    rfl
  | codePoint digits =>
    have closed : ((digits ++ '}' :: rest).dropWhile (· != '}')).tail = rest := by
      rw [List.dropWhile_append_of_pos, List.dropWhile_cons_of_neg (by simp), List.tail_cons]
      intro c member
      simpa using fun same : c = '}' => h.ne_brace (same ▸ member)
    rw [codePoint_text]
    simp only [List.cons_append, List.append_assoc, List.nil_append, signs_escape, afterEscape, List.head?_cons, and_self,
      if_true]
    rw [List.dropWhile_cons_of_pos (by decide), closed]
    rfl
  | lineFeed =>
    rw [Spelling.text, List.cons_append, List.singleton_append, signs_escape, noLetter (Ne.symm notNamed.1)]
    rfl
  | carriageReturn =>
    rw [Spelling.text, List.cons_append, List.singleton_append, signs_escape, noLetter (Ne.symm notNamed.2.1)]
    rfl
  | tab =>
    rw [Spelling.text, List.cons_append, List.singleton_append, signs_escape, noLetter (Ne.symm notNamed.2.2)]
    rfl

theorem signs_member {m : Member} (h : m.Spelled d) (rest : List Char) :
    signs d (m.text d ++ rest) = m.signs ++ signs d rest := by
  cases m with
  | single s => exact signs_spelling (List.forall_mem_singleton.mp h) rest
  | span first last =>
    obtain ⟨here, later⟩ := List.forall_mem_cons.mp h
    rw [Member.text, List.append_assoc, List.cons_append, signs_spelling here, signs_bare (by decide),
      signs_spelling (List.forall_mem_singleton.mp later)]
    rfl

/-- Members show their signs one after the other. -/
theorem Decomposes.signs_eq {body : List Char} {ms : List Member} (h : Decomposes d body ms) :
    signs d body = ms.flatMap Member.signs := by
  obtain ⟨spelled, rfl⟩ := h
  induction ms with
  | nil => simp [membersText, signs]
  | cons m ms ih =>
    obtain ⟨here, others⟩ := List.forall_mem_cons.mp spelled
    rw [membersText, List.flatMap_cons, signs_member here, List.flatMap_cons, ← ih others]
    rfl

/-- No character of a member shows a character with a meaning of its own. -/
theorem Member.Spelled.sign_ne {m : Member} (h : m.Spelled d) {s : Spelling} (bound : s ∈ m.bounds) {c : Char}
    (special : c ∈ classMetacharacters d) : s.sign ≠ .bare c := by
  intro shown
  have wellFormed := h s bound
  cases s with
  | plain e =>
    cases shown
    exact wellFormed special
  | _ => cases shown

/-- Of the characters with a meaning of their own a class body shows dashes only. -/
theorem Decomposes.eq_dash_of_bare {body : List Char} {ms : List Member} (h : Decomposes d body ms) {c : Char}
    (special : c ∈ classMetacharacters d) (shown : .bare c ∈ signs d body) : c = '-' := by
  rw [h.signs_eq] at shown
  obtain ⟨m, member, inside⟩ := List.mem_flatMap.mp shown
  have hidden {s : Spelling} (bound : s ∈ m.bounds) : .bare c ≠ s.sign :=
    Ne.symm ((h.spelled m member).sign_ne bound special)
  cases m with
  | single s => exact absurd (List.mem_singleton.mp inside) (hidden (List.mem_singleton_self s))
  | span first last =>
    simp only [Member.signs, List.mem_cons, List.not_mem_nil, or_false] at inside
    rcases inside with isFirst | dash | isLast
    · exact absurd isFirst (hidden List.mem_cons_self)
    · cases dash
      rfl
    · exact absurd isLast (hidden (List.mem_cons_of_mem _ (List.mem_singleton_self last)))

/-- Two dashes, one right after the other. -/
def TwoDashes (a b : Sign) : Prop := a = .bare '-' ∧ b = .bare '-'

/-- No dash that a class body shows comes right after another. -/
theorem Decomposes.no_two_dashes {body : List Char} {ms : List Member} (h : Decomposes d body ms) :
    (signs d body).IsChain fun a b => ¬ TwoDashes a b := by
  rw [h.signs_eq]
  have spelled := h.spelled
  clear h
  induction ms with
  | nil => exact .nil
  | cons m ms ih =>
    obtain ⟨here, others⟩ := List.forall_mem_cons.mp spelled
    have noDash {s : Spelling} (bound : s ∈ m.bounds) : s.sign ≠ .bare '-' := here.sign_ne bound (dash_mem d)
    rw [List.flatMap_cons]
    cases m with
    | single s =>
      have first := noDash (List.mem_singleton_self s)
      exact (ih others).cons fun _ _ both => first both.1
    | span first last =>
      have before := noDash (s := first) List.mem_cons_self
      have after := noDash (s := last) (List.mem_cons_of_mem _ (List.mem_singleton_self last))
      refine .cons_cons (fun both => before both.1) (.cons_cons (fun both => after both.2) ?_)
      exact (ih others).cons fun _ _ both => after both.1

/-! ## Class bodies and classes -/

/-- A class body is read back: it is cut into members in one way, a reader that goes from left to right finds them, they
    give back the ranges, and what they show of characters with a meaning of their own are the dashes of their spans. -/
structure ReadBack (d : Dialect) (body : List Char) (rs : List CharRange) (ms : List Member) : Prop where
  decomposes : Decomposes d body ms
  unique : ∀ ns, Decomposes d body ns → ns = ms
  read : readMembers? d body = some ms
  ranges : ms.mapM Member.range? = some (rs.flatMap parted)
  shows : signs d body = ms.flatMap Member.signs
  hides : ∀ m ∈ ms, ∀ s ∈ m.bounds, ∀ c ∈ classMetacharacters d, s.sign ≠ .bare c

/-- The body of a class is read back as its ranges, two neighbours as two single characters. No character with a meaning
    of its own is left without a backslash, and so a class denotes its values in each of the forms it is written in. -/
theorem classBody_readBack (d : Dialect) :
    (∀ rs : List CharRange, (∃ ms, ReadBack d (d.membersText rs) rs ms) ∧
      (∀ c ∈ classMetacharacters d, .bare c ∈ signs d (d.membersText rs) → c = '-') ∧
      (signs d (d.membersText rs)).IsChain fun a b => ¬ TwoDashes a b) ∧
    ∀ s : CharClass, s.Ascending →
      ∃ a, ClassForm d s a ∧ a.WellFormed d ∧ a.text d = d.classText s ∧
        (∀ b : Atom, b.WellFormed d → b.text d = d.classText s → b = a) ∧
        ∀ subject i j, a.Spans subject i j ↔ Regex.OneChar subject (· ∈ s) i j := by
  refine ⟨fun rs => ?_, fun s ascending => ?_⟩
  · obtain ⟨ms, restores⟩ := exists_restores d rs
    have decomposes := restores.decomposes
    refine ⟨⟨ms, decomposes, fun ns other => other.unique decomposes, readMembers?_eq_some_iff.mpr decomposes,
      restores.ranges, decomposes.signs_eq, ?_⟩, fun c => decomposes.eq_dash_of_bare, decomposes.no_two_dashes⟩
    intro m member s bound c special
    exact (decomposes.spelled m member).sign_ne bound special
  · obtain ⟨a, reads, form⟩ := exists_class_atom d ascending
    refine ⟨a, form, reads.wellFormed, reads.text_eq, fun b wellFormed text => ?_, reads.spans_iff⟩
    have same : b.text d ++ [] = a.text d ++ [] := by rw [text, reads.text_eq]
    exact (atom_append_inj wellFormed reads.wellFormed same).1

/-- Signs with a meaning of their own next to each other, with a span between two of them, and the neighbours around the
    surrogates. -/
def crowded : CharClass := ⟨[.single '&', .between '-' '.', .between '[' ']', .between '\uD7FF' '\uE000']⟩

theorem classBody_readBack_crowded : crowded.Ascending ∧
    (∃ ms, ReadBack .rust ['\\', '&', '\\', '-', '.', '\\', '[', '-', '\\', ']', '\uD7FF', '\uE000'] crowded.ranges ms) ∧
    crowded.ranges.flatMap parted =
      [.single '&', .single '-', .single '.', .between '[' ']', .single '\uD7FF', .single '\uE000'] ∧
    ∃ a, ClassForm .rust crowded a ∧ a.WellFormed .rust ∧ a.text .rust = Dialect.rust.classText crowded ∧
      (∀ b : Atom, b.WellFormed .rust → b.text .rust = Dialect.rust.classText crowded → b = a) ∧
      ∀ subject i j, a.Spans subject i j ↔ Regex.OneChar subject (· ∈ crowded) i j := by
  have ascending : crowded.Ascending := by unfold CharClass.Ascending; decide
  have body : Dialect.rust.membersText crowded.ranges =
      ['\\', '&', '\\', '-', '.', '\\', '[', '-', '\\', ']', '\uD7FF', '\uE000'] := by decide +kernel
  obtain ⟨bodies, classes⟩ := classBody_readBack .rust
  have read := (bodies crowded.ranges).1
  rw [body] at read
  exact ⟨ascending, read, by decide +kernel, classes crowded ascending⟩

end RegularGrammar.Pattern
