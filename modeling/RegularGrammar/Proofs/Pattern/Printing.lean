import RegularGrammar.Proofs.CharClass.Built
import RegularGrammar.Proofs.Pattern.Unambiguity
import RegularGrammar.Regex.Pattern

/-!
# The pattern of an expression

The text of an expression is read as items in one way, and what is read matches
what the expression matches: characters first, then classes, then expressions by
induction.
-/

namespace RegularGrammar.Pattern

/-! ## Characters -/

@[simp]
theorem isSpecial_iff {d : Dialect} {c : Char} : d.isSpecial c = true ↔ c ∈ metacharacters d := by
  cases d with
  | rust => simp [Dialect.isSpecial, metacharacters]
  | ecmaScript =>
    simp only [Dialect.isSpecial, metacharacters, List.mem_cons, List.not_mem_nil, Bool.or_eq_true, decide_eq_true_eq]
    grind

@[simp]
theorem isSpecialInClass_iff {d : Dialect} {c : Char} : d.isSpecialInClass c = true ↔ c ∈ classMetacharacters d := by
  cases d with
  | rust =>
    simp only [Dialect.isSpecialInClass, classMetacharacters, List.mem_cons, List.not_mem_nil, Bool.or_eq_true,
      Bool.and_eq_true, decide_eq_true_eq]
    grind
  | ecmaScript => simp [Dialect.isSpecialInClass, classMetacharacters]

/-- The capital digits of a number write that number. -/
@[simp]
theorem hexValue?_toDigits (n : Nat) : Source.hexValue? ((Nat.toDigits 16 n).map Char.toUpper) = some n := by
  have digit : ∀ n < 16, Source.hexDigit? (Nat.digitChar n).toUpper = some n := by decide
  induction n using Nat.strongRecOn with
  | ind n ih =>
    rw [Nat.toDigits_eq_if (by decide)]
    split
    · rename_i small
      simp [Source.hexValue?, digit n small]
    · rename_i large
      have upper := ih (n / 16) (by omega)
      have lower := digit (n % 16) (Nat.mod_lt n (by decide))
      simp only [Source.hexValue?] at upper ⊢
      rw [List.map_append, List.foldlM_append, upper]
      simp [lower]
      omega

/-- A spelling writes a character, as a dialect writes it where some characters are special. -/
structure Spells (d : Dialect) (metas : List Char) (s : Spelling) (text : List Char) (c : Char) : Prop where
  wellFormed : s.WellFormed metas
  text_eq : s.text d = text
  value : s.value? = some c

theorem exists_spelling (d : Dialect) {metas : List Char} {special : Char → Bool}
    (same : ∀ c, special c = true ↔ c ∈ metas) (c : Char) : ∃ s, Spells d metas s (d.charText special c) c := by
  unfold Dialect.charText
  split
  · rename_i lineFeed
    exact ⟨.lineFeed, trivial, rfl, congrArg some lineFeed.symm⟩
  split
  · rename_i carriageReturn
    exact ⟨.carriageReturn, trivial, rfl, congrArg some carriageReturn.symm⟩
  split
  · rename_i tab
    exact ⟨.tab, trivial, rfl, congrArg some tab.symm⟩
  split
  · have value : Spelling.value? (.codePoint ((Nat.toDigits 16 c.toNat).map Char.toUpper)) = some c := by
      simp [Spelling.value?]
    refine ⟨.codePoint _, ⟨?_, c, value⟩, ?_, value⟩
    · simp [Nat.toDigits_ne_nil]
    · cases d <;> rfl
  split
  · rename_i isSpecial
    exact ⟨.escaped c, (same c).mp isSpecial, rfl, rfl⟩
  · rename_i notSpecial
    exact ⟨.plain c, fun special => notSpecial ((same c).mpr special), rfl, rfl⟩

/-! ## Classes -/

/-- The range of a member. -/
def Member.range? : Member → Option CharRange
  | single s => s.value?.map .single
  | span first last =>
    match first.value?, last.value? with
    | some lo, some hi => if ordered : lo ≤ hi then some ⟨lo, hi, ordered⟩ else none
    | _, _ => none

theorem Member.holds_iff_of_range? {m : Member} {r : CharRange} (h : m.range? = some r) (c : Char) :
    m.Holds c ↔ c ∈ r := by
  cases m with
  | single s =>
    obtain ⟨v, value, rfl⟩ := Option.map_eq_some_iff.mp h
    simp [Member.Holds, value, eq_comm]
  | span first last =>
    simp only [Member.range?] at h
    split at h
    · rename_i lo hi valueFirst valueLast
      split at h
      · cases h
        simp [Member.Holds, valueFirst, valueLast, CharRange.mem_def]
      · cases h
    · cases h

/-- The ranges that members write which are written for a range: two neighbours stand side by side, like two ranges. -/
def parted (r : CharRange) : List CharRange :=
  if Scalar.next? r.lo = some r.hi then [.single r.lo, .single r.hi] else [r]

@[simp]
theorem mem_parted {r : CharRange} {c : Char} : (∃ t ∈ parted r, c ∈ t) ↔ c ∈ r := by
  unfold parted
  split
  · rename_i neighbours
    rw [CharRange.mem_def, Scalar.between_next?_iff neighbours]
    simp only [List.mem_cons, List.not_mem_nil, or_false, exists_eq_or_imp, exists_eq_left, CharRange.mem_single,
      eq_comm]
  · simp

/-- Members have a text and write ranges, one each. -/
structure Restores (d : Dialect) (ms : List Member) (text : List Char) (rs : List CharRange) : Prop where
  wellFormed : ∀ m ∈ ms, m.WellFormed d
  text_eq : membersText d ms = text
  ranges : ms.mapM Member.range? = some rs

theorem Restores.append {d : Dialect} {ms ns : List Member} {u v : List Char} {rs ts : List CharRange}
    (first : Restores d ms u rs) (second : Restores d ns v ts) : Restores d (ms ++ ns) (u ++ v) (rs ++ ts) where
  wellFormed := List.forall_mem_append.mpr ⟨first.wellFormed, second.wellFormed⟩
  text_eq := by rw [membersText, List.flatMap_append, ← first.text_eq, ← second.text_eq]; rfl
  ranges := by simp [List.mapM_append, first.ranges, second.ranges]

/-- A range is one value, or two neighbours and nothing else, or it is a span. -/
theorem exists_restores_range (d : Dialect) (r : CharRange) : ∃ ms, Restores d ms (d.rangeText r) (parted r) := by
  obtain ⟨first, spellsFirst⟩ := exists_spelling d (fun _ => isSpecialInClass_iff (d := d)) r.lo
  obtain ⟨last, spellsLast⟩ := exists_spelling d (fun _ => isSpecialInClass_iff (d := d)) r.hi
  unfold Dialect.rangeText parted
  split
  · rename_i equal
    have alone : r = .single r.lo := by cases r; cases equal; rfl
    have noNeighbour : Scalar.next? r.lo ≠ some r.hi := by
      rw [← equal, ne_eq, Scalar.next?_eq_some_iff]
      omega
    refine ⟨[.single first], List.forall_mem_singleton.mpr spellsFirst.wellFormed, ?_, ?_⟩
    · simp [membersText, Member.text, spellsFirst.text_eq]
    · rw [if_neg noNeighbour]
      simpa [Member.range?, spellsFirst.value] using alone.symm
  split
  · refine ⟨[.single first, .single last], ?_, ?_, ?_⟩
    · exact List.forall_mem_cons.mpr ⟨spellsFirst.wellFormed, List.forall_mem_singleton.mpr spellsLast.wellFormed⟩
    · simp [membersText, Member.text, spellsFirst.text_eq, spellsLast.text_eq]
    · simp [Member.range?, spellsFirst.value, spellsLast.value]
  · refine ⟨[.span first last], List.forall_mem_singleton.mpr ?_, ?_, ?_⟩
    · exact ⟨spellsFirst.wellFormed, spellsLast.wellFormed, _, _, spellsFirst.value, spellsLast.value, r.lo_le_hi⟩
    · simp [membersText, Member.text, spellsFirst.text_eq, spellsLast.text_eq]
    · simp [Member.range?, spellsFirst.value, spellsLast.value, r.lo_le_hi]

theorem exists_restores (d : Dialect) (rs : List CharRange) :
    ∃ ms, Restores d ms (d.membersText rs) (rs.flatMap parted) := by
  induction rs with
  | nil => exact ⟨[], by simp, rfl, rfl⟩
  | cons r rest ih =>
    obtain ⟨ms, here⟩ := exists_restores_range d r
    obtain ⟨ns, others⟩ := ih
    exact ⟨ms ++ ns, here.append others⟩

/-- Members write ranges, as a dialect writes them. -/
structure Lists (d : Dialect) (ms : List Member) (text : List Char) (rs : List CharRange) : Prop where
  wellFormed : ∀ m ∈ ms, m.WellFormed d
  text_eq : membersText d ms = text
  holds_iff : ∀ c, (∃ m ∈ ms, m.Holds c) ↔ ∃ r ∈ rs, c ∈ r

theorem holds_iff_of_ranges {ms : List Member} {rs : List CharRange} (h : ms.mapM Member.range? = some rs) (c : Char) :
    (∃ m ∈ ms, m.Holds c) ↔ ∃ r ∈ rs, c ∈ r := by
  induction ms generalizing rs with
  | nil =>
    cases h
    simp
  | cons m ms ih =>
    simp only [List.mapM_cons, Option.bind_eq_bind, Option.bind_eq_some_iff] at h
    obtain ⟨r, range, rest, ranges, same⟩ := h
    cases same
    simp only [List.mem_cons, exists_eq_or_imp, ih ranges, Member.holds_iff_of_range? range]

theorem Restores.lists {d : Dialect} {ms : List Member} {text : List Char} {rs : List CharRange}
    (h : Restores d ms text (rs.flatMap parted)) : Lists d ms text rs where
  wellFormed := h.wellFormed
  text_eq := h.text_eq
  holds_iff c := by
    rw [holds_iff_of_ranges h.ranges]
    simp only [List.mem_flatMap]
    constructor
    · rintro ⟨t, ⟨r, member, part⟩, inside⟩
      exact ⟨r, member, mem_parted.mp ⟨t, part, inside⟩⟩
    · rintro ⟨r, member, inside⟩
      obtain ⟨t, part, inside⟩ := mem_parted.mpr inside
      exact ⟨t, ⟨r, member, part⟩, inside⟩

/-- A class with a character in it is not the token of no character. -/
theorem set_wellFormed {d : Dialect} {negated : Bool} {ms : List Member} (members : ∀ m ∈ ms, m.WellFormed d)
    (nonempty : ms ≠ []) {c : Char} (holds : SetHolds negated ms c) : (Atom.set negated ms).WellFormed d := by
  refine ⟨nonempty, members, fun same => ?_⟩
  cases d with
  | rust =>
    rw [noCharacter_rust] at same
    obtain ⟨rfl, rfl, -⟩ := set_append_inj members (List.forall_mem_singleton.mpr noMember_wellFormed)
      (congrArg (· ++ []) same)
    exact List.forall_mem_singleton.mp holds ⟨_, _, rfl, rfl, Scalar.first_le c, Scalar.le_last c⟩
  | ecmaScript => exact set_ne_brackets (u := []) nonempty members (by rw [List.append_nil, same]; rfl)

/-- An atom has a text and matches the characters of a class. -/
structure ReadsClass (d : Dialect) (text : List Char) (s : CharClass) (a : Atom) : Prop where
  wellFormed : a.WellFormed d
  text_eq : a.text d = text
  spans_iff : ∀ subject i j, a.Spans subject i j ↔ Regex.OneChar subject (· ∈ s) i j

theorem readsClass_set {d : Dialect} {s : CharClass} (someValue : ∃ c, c ∈ s) {negated : Bool} {ms : List Member}
    {text : List Char} {rs : List CharRange} (lists : Lists d ms text rs) (nonempty : ∃ c, ∃ r ∈ rs, c ∈ r)
    (same : ∀ c, SetHolds negated ms c ↔ c ∈ s) : ReadsClass d (setText d negated ms) s (.set negated ms) where
  wellFormed := by
    obtain ⟨c, inside⟩ := someValue
    obtain ⟨e, listed⟩ := nonempty
    obtain ⟨m, member, -⟩ := (lists.holds_iff e).mpr listed
    exact set_wellFormed lists.wellFormed (List.ne_nil_of_mem member) ((same c).mpr inside)
  text_eq := by rw [Atom.text]
  spans_iff subject i j := by simp only [Atom.Spans, Regex.OneChar, same]

/-- The forms in which a class stands in a pattern: the token of no character, that of any character, or brackets with
    what is in the class or what it leaves out. -/
inductive ClassForm (d : Dialect) (s : CharClass) : Atom → Prop where
  | nothing : (∀ c, c ∉ s) → ClassForm d s (.token .noCharacter)
  | everything : (∀ c, c ∈ s) → ClassForm d s (.token .anyCharacter)
  | negated {outside : CharClass} {ms : List Member} : Scalar.first ∈ s → Scalar.last ∈ s →
      s.complement? = some outside → Restores d ms (d.membersText outside.ranges) (outside.ranges.flatMap parted) →
        ClassForm d s (.set true ms)
  | plain {ms : List Member} : (∃ c, c ∈ s) → ¬ (Scalar.first ∈ s ∧ Scalar.last ∈ s) →
      Restores d ms (d.membersText s.ranges) (s.ranges.flatMap parted) → ClassForm d s (.set false ms)

theorem exists_class_atom (d : Dialect) {s : CharClass} (ascending : s.Ascending) :
    ∃ a, ReadsClass d (d.classText s) s a ∧ ClassForm d s a := by
  unfold Dialect.classText
  split
  · rename_i isEmpty
    have none := CharClass.isEmpty_iff.mp isEmpty
    refine ⟨.token .noCharacter, ⟨trivial, by cases d <;> rfl, fun subject i j => ?_⟩, .nothing none⟩
    simp [Atom.Spans, Token.Spans, Regex.OneChar, none]
  rename_i notEmpty
  have someValue : ∃ c, c ∈ s := by
    rw [CharClass.isEmpty_iff] at notEmpty
    simpa using notEmpty
  split
  · rename_i bothEnds
    rw [Bool.and_eq_true, CharClass.contains_iff ascending, CharClass.contains_iff ascending] at bothEnds
    split
    · rename_i full
      have all := (CharClass.complement?_eq_none_iff ascending).mp full
      refine ⟨.token .anyCharacter, ⟨trivial, by cases d <;> rfl, fun subject i j => ?_⟩, .everything all⟩
      simp [Atom.Spans, Token.Spans, all]
    · rename_i outside found
      obtain ⟨ms, restores⟩ := exists_restores d outside.ranges
      have mem_outside : ∀ c, c ∈ outside ↔ c ∉ s := fun c => CharClass.mem_complement? ascending found
      have notFull : ¬ ∀ c, c ∈ s := by simp [← CharClass.complement?_eq_none_iff ascending, found]
      obtain ⟨e, notIn⟩ := Classical.not_forall.mp notFull
      have same (c : Char) : SetHolds true ms c ↔ c ∈ s := by
        have listed := restores.lists.holds_iff c
        rw [← CharClass.mem_def, mem_outside] at listed
        simpa [SetHolds] using not_congr listed
      have reads := readsClass_set someValue restores.lists ⟨e, (mem_outside e).mpr notIn⟩ same
      rw [setText, restores.text_eq] at reads
      exact ⟨_, reads, .negated bothEnds.1 bothEnds.2 found restores⟩
  · rename_i notBoth
    rw [Bool.and_eq_true, CharClass.contains_iff ascending, CharClass.contains_iff ascending] at notBoth
    obtain ⟨ms, restores⟩ := exists_restores d s.ranges
    have same (c : Char) : SetHolds false ms c ↔ c ∈ s := by
      simpa [SetHolds, CharClass.mem_def] using restores.lists.holds_iff c
    have reads := readsClass_set someValue restores.lists someValue same
    rw [setText, restores.text_eq] at reads
    exact ⟨_, reads, .plain someValue notBoth restores⟩

/-! ## Items -/

def Items.single (a : Atom) : Items := .cons a none .nil

/-- The items of both, one after the other. -/
def Items.append : Items → Items → Items
  | .nil, q => q
  | .cons atom quantifier rest, q => .cons atom quantifier (rest.append q)

theorem Items.append_wellFormed {d : Dialect} : {p q : Items} → p.WellFormed d → q.WellFormed d →
    (p.append q).WellFormed d
  | .nil, _, _, right => right
  | .cons _ _ _, _, left, right => ⟨left.1, append_wellFormed left.2 right⟩

@[simp]
theorem Items.append_text {d : Dialect} : (p q : Items) → (p.append q).text d = p.text d ++ q.text d
  | .nil, _ => rfl
  | .cons atom quantifier rest, q => by
    simp only [Items.append, Items.text, append_text rest q, List.append_assoc]

@[simp]
theorem Items.append_spans {subject : List Char} : (p q : Items) → {i j : Nat} →
    ((p.append q).Spans subject i j ↔ ∃ k, p.Spans subject i k ∧ q.Spans subject k j)
  | .nil, q, i, j => by simp [Items.append, Items.Spans]
  | .cons atom quantifier rest, q, i, j => by
    simp only [Items.append, Items.Spans, append_spans rest q]
    constructor
    · rintro ⟨k, here, l, others, after⟩
      exact ⟨l, ⟨k, here, others⟩, after⟩
    · rintro ⟨l, ⟨k, here, others⟩, after⟩
      exact ⟨k, here, l, others, after⟩

@[simp]
theorem Items.single_spans {subject : List Char} {a : Atom} {i j : Nat} :
    (Items.single a).Spans subject i j ↔ a.Spans subject i j := by
  simp [Items.single, Items.Spans, Quantified]

/-- Items read a text and match the spans of a relation. -/
structure Denotes (d : Dialect) (text : List Char) (spans : List Char → Nat → Nat → Prop) (p : Items) : Prop where
  reads : Reads d text p
  spans_iff : ∀ subject i j, p.Spans subject i j ↔ spans subject i j

theorem denotes_single {d : Dialect} {a : Atom} {text : List Char} {spans : List Char → Nat → Nat → Prop}
    (wellFormed : a.WellFormed d) (text_eq : a.text d = text)
    (spans_iff : ∀ subject i j, a.Spans subject i j ↔ spans subject i j) : Denotes d text spans (.single a) where
  reads := ⟨⟨wellFormed, trivial⟩, by simp [Items.single, Items.text, quantifierText, text_eq]⟩
  spans_iff subject i j := by simp [spans_iff]

theorem Denotes.append {d : Dialect} {u v : List Char} {first second : List Char → Nat → Nat → Prop} {p q : Items}
    (left : Denotes d u first p) (right : Denotes d v second q) :
    Denotes d (u ++ v) (fun subject i j => ∃ k, first subject i k ∧ second subject k j) (p.append q) where
  reads :=
    { wellFormed := Items.append_wellFormed left.reads.wellFormed right.reads.wellFormed
      text_eq := by rw [Items.append_text, left.reads.text_eq, right.reads.text_eq] }
  spans_iff subject i j := by simp [left.spans_iff, right.spans_iff]

theorem Denotes.congr {d : Dialect} {text : List Char} {k l : List Char → Nat → Nat → Prop} {p : Items}
    (h : Denotes d text k p) (same : ∀ subject i j, k subject i j ↔ l subject i j) : Denotes d text l p where
  reads := h.reads
  spans_iff subject i j := by rw [h.spans_iff, same]

theorem exists_char (d : Dialect) (c : Char) :
    ∃ a, Denotes d (d.charText d.isSpecial c) (fun subject => Regex.Stands subject [c]) (.single a) := by
  obtain ⟨s, spells⟩ := exists_spelling d (fun _ => isSpecial_iff (d := d)) c
  refine ⟨.char s, denotes_single spells.wellFormed spells.text_eq fun subject i j => ?_⟩
  simp only [Atom.Spans, Regex.OneChar, Regex.Stands, spells.value, Option.some.injEq]
  constructor
  · rintro ⟨_, here, rfl, after⟩
    exact ⟨here, after⟩
  · rintro ⟨here, after⟩
    exact ⟨c, here, rfl, after⟩

/-- Characters are one item each. -/
theorem exists_literal (d : Dialect) (text : List Char) :
    ∃ p, Denotes d (text.flatMap (d.charText d.isSpecial)) (fun subject => Regex.Stands subject text) p := by
  induction text with
  | nil =>
    refine ⟨.nil, ⟨trivial, rfl⟩, fun subject i j => ?_⟩
    simp only [Items.Spans, Regex.Stands, eq_comm]
  | cons c cs ih =>
    obtain ⟨a, here⟩ := exists_char d c
    obtain ⟨rest, others⟩ := ih
    refine ⟨_, (here.append others).congr fun subject i j => ?_⟩
    simp only [Regex.Stands, and_assoc, exists_and_left, exists_eq_left]

/-- An atom takes a quantifier, and everything else takes one in a group. -/
theorem exists_quantified {d : Dialect} {text : List Char} {spans : List Char → Nat → Nat → Prop} {p : Items}
    (h : Denotes d text spans p) {atomic : Bool} (single : atomic = true → ∃ a, p = .single a) (q : Quantifier) :
    ∃ p', Denotes d ((if atomic then text else Regex.grouped text) ++ [q.sign])
      (fun subject => Quantified (spans subject) (some q)) p' := by
  obtain ⟨a, wellFormed, text_eq, spans_eq⟩ : ∃ a : Atom, a.WellFormed d ∧
      a.text d = (if atomic then text else Regex.grouped text) ∧ ∀ subject, a.Spans subject = spans subject := by
    cases atomic with
    | true =>
      obtain ⟨a, rfl⟩ := single rfl
      refine ⟨a, h.reads.wellFormed.1, ?_, fun subject => ?_⟩
      · simpa [Items.single, Items.text, quantifierText] using h.reads.text_eq
      · funext i j
        rw [← Items.single_spans, h.spans_iff]
    | false =>
      refine ⟨.group (.last p), h.reads.wellFormed, ?_, fun subject => ?_⟩
      · simp [Atom.text, Branches.text, h.reads.text_eq, Regex.grouped]
      · funext i j
        rw [Atom.Spans, Branches.Spans, h.spans_iff]
  refine ⟨.cons a (some q) .nil, ⟨⟨wellFormed, trivial⟩, ?_⟩, fun subject i j => ?_⟩
  · simp [Items.text, quantifierText, text_eq]
  · simp [Items.Spans, spans_eq]

/-! ## Expressions -/

end RegularGrammar.Pattern

namespace RegularGrammar

mutual

/-- The expressions with a pattern: their classes are built by operations, and no alternation is empty. -/
def Regex.Printable : Regex → Prop
  | .set s => s.Built
  | .concat items => PrintableAll items
  | .star body => Printable body
  | .plus body => Printable body
  | .opt body => Printable body
  | .alt items => items ≠ [] ∧ PrintableAll items
  | _ => True

def Regex.PrintableAll : List Regex → Prop
  | [] => True
  | r :: rest => Printable r ∧ PrintableAll rest

end

namespace Pattern

mutual

theorem exists_items (d : Dialect) : (r : Regex) → r.Printable →
    ∃ p, Denotes d (r.text d) (fun subject => r.Spans subject) p ∧ (r.isAtom = true → ∃ a, p = .single a)
  | .set s, h => by
    obtain ⟨a, reads, -⟩ := exists_class_atom d (CharClass.Built.ascending h)
    exact ⟨.single a, denotes_single reads.wellFormed reads.text_eq reads.spans_iff, fun _ => ⟨a, rfl⟩⟩
  | .any, _ =>
    ⟨.single (.token .anyCharacter), denotes_single trivial (by cases d <;> rfl) fun _ _ _ => Iff.rfl, fun _ => ⟨_, rfl⟩⟩
  | .literal text, _ => by
    by_cases one : text.toList.length = 1
    · obtain ⟨c, single⟩ := List.length_eq_one_iff.mp one
      obtain ⟨a, denotes⟩ := exists_char d c
      refine ⟨.single a, ?_, fun _ => ⟨a, rfl⟩⟩
      simpa [Regex.text, Regex.Spans, single] using denotes
    · obtain ⟨p, denotes⟩ := exists_literal d text.toList
      exact ⟨p, denotes, fun atom => absurd (of_decide_eq_true atom) one⟩
  | .concat items, h => by
    obtain ⟨p, denotes⟩ := exists_through d items h
    exact ⟨p, denotes, fun atom => by cases atom⟩
  | .star body, h => by
    obtain ⟨p, denotes, single⟩ := exists_items d body h
    obtain ⟨p', quantified⟩ := exists_quantified denotes single .star
    exact ⟨p', quantified, fun atom => by cases atom⟩
  | .plus body, h => by
    obtain ⟨p, denotes, single⟩ := exists_items d body h
    obtain ⟨p', quantified⟩ := exists_quantified denotes single .plus
    exact ⟨p', quantified, fun atom => by cases atom⟩
  | .opt body, h => by
    obtain ⟨p, denotes, single⟩ := exists_items d body h
    obtain ⟨p', quantified⟩ := exists_quantified denotes single .opt
    exact ⟨p', quantified, fun atom => by cases atom⟩
  | .alt items, h => by
    obtain ⟨b, wellFormed, text_eq, spans_iff⟩ := exists_branches d items h.1 h.2
    refine ⟨.single (.group b), denotes_single wellFormed ?_ spans_iff, fun _ => ⟨_, rfl⟩⟩
    simp [Atom.text, text_eq, Regex.text, Regex.grouped]
  | .beginText, _ =>
    ⟨.single (.token .beginText), denotes_single trivial (by cases d <;> rfl) fun _ _ _ => Iff.rfl, fun _ => ⟨_, rfl⟩⟩
  | .endText, _ =>
    ⟨.single (.token .endText), denotes_single trivial (by cases d <;> rfl) fun _ _ _ => Iff.rfl, fun _ => ⟨_, rfl⟩⟩

theorem exists_through (d : Dialect) : (rs : List Regex) → Regex.PrintableAll rs →
    ∃ p, Denotes d (Regex.texts d rs).flatten (fun subject => Regex.SpansThrough subject rs) p
  | [], _ => ⟨.nil, ⟨trivial, rfl⟩, fun _ _ _ => Iff.rfl⟩
  | r :: rest, h => by
    obtain ⟨p, here, -⟩ := exists_items d r h.1
    obtain ⟨q, others⟩ := exists_through d rest h.2
    exact ⟨p.append q, here.append others⟩

theorem exists_branches (d : Dialect) : (rs : List Regex) → rs ≠ [] → Regex.PrintableAll rs →
    ∃ b : Branches, b.WellFormed d ∧ b.text d = List.intercalate ['|'] (Regex.texts d rs) ∧
      ∀ subject i j, b.Spans subject i j ↔ Regex.SpansAny subject rs i j
  | [], nonempty, _ => absurd rfl nonempty
  | [r], _, h => by
    obtain ⟨p, here, -⟩ := exists_items d r h.1
    refine ⟨.last p, here.reads.wellFormed, ?_, fun subject i j => ?_⟩
    · simp [Branches.text, here.reads.text_eq, Regex.texts]
    · simp [Branches.Spans, here.spans_iff, Regex.SpansAny]
  | r :: s :: rest, _, h => by
    obtain ⟨p, here, -⟩ := exists_items d r h.1
    obtain ⟨b, wellFormed, text_eq, spans_iff⟩ := exists_branches d (s :: rest) (List.cons_ne_nil s rest) h.2
    refine ⟨.more p b, ⟨here.reads.wellFormed, wellFormed⟩, ?_, fun subject i j => ?_⟩
    · rw [Branches.text, here.reads.text_eq, text_eq]
      simp [Regex.texts, List.intercalate_cons_cons]
    · rw [Branches.Spans, here.spans_iff, spans_iff]
      rfl

end

/-- The pattern of an expression is read as items in exactly one way, and they match what it matches. -/
theorem pattern_denotes (d : Dialect) (r : Regex) (printable : r.Printable) :
    ∃ p, Reads d (r.pattern d).toList p ∧ (∀ q, Reads d (r.pattern d).toList q → q = p) ∧
      ∀ subject i j, p.Spans subject i j ↔ r.Spans subject i j := by
  obtain ⟨p, denotes, -⟩ := exists_items d r printable
  rw [Regex.pattern, String.toList_ofList]
  exact ⟨p, denotes.reads, fun q reads => reads.unique denotes.reads, denotes.spans_iff⟩

/-- Digits after an optional sign, or dashes and brackets. -/
def dashes : Regex :=
  .alt [.concat [.opt (.literal "+-"), .plus (.set (.ofRange (.between '0' '9')))],
    .star (.set (.ofRanges [.single '-', .single ']']))]

theorem pattern_denotes_dashes : dashes.Printable ∧ ∃ p, Reads .rust (dashes.pattern .rust).toList p ∧
    (∀ q, Reads .rust (dashes.pattern .rust).toList q → q = p) ∧
      ∀ subject i j, p.Spans subject i j ↔ dashes.Spans subject i j := by
  have printable : dashes.Printable :=
    ⟨List.cons_ne_nil _ _, ⟨trivial, .ofRange _, trivial⟩, .ofRanges _, trivial⟩
  exact ⟨printable, pattern_denotes .rust dashes printable⟩

end Pattern

end RegularGrammar
