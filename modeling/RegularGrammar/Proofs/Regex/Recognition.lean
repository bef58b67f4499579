import RegularGrammar.CharClass.Lemmas
import RegularGrammar.Grammar.Expansion
import RegularGrammar.Grammar.Language
import RegularGrammar.Proofs.Regex.Repeats

/-!
# Expressions that recognize a language

An expression without anchors matches a span exactly when a word of its language
stands there. Classes, choices, negations and collapsed repeats are shown to
recognize what they are built for.
-/

namespace RegularGrammar

@[simp]
theorem singleChar?_eq_some_iff {text : String} {c : Char} : singleChar? text = some c ↔ text.toList = [c] := by
  unfold singleChar?
  split
  · rename_i found
    simp [found]
  · rename_i notSingle
    simpa using notSingle c

namespace Regex

@[simp]
theorem stands_append {subject u v : List Char} {i j : Nat} :
    Stands subject (u ++ v) i j ↔ ∃ k, Stands subject u i k ∧ Stands subject v k j := by
  induction u generalizing i with
  | nil => simp [Stands]
  | cons c cs ih =>
    simp only [List.cons_append, Stands, ih]
    constructor
    · rintro ⟨here, k, first, second⟩
      exact ⟨k, ⟨here, first⟩, second⟩
    · rintro ⟨k, ⟨here, first⟩, second⟩
      exact ⟨here, k, first, second⟩

@[simp]
theorem stands_succ {subject w : List Char} {c : Char} {i j : Nat} :
    Stands (c :: subject) w (i + 1) (j + 1) ↔ Stands subject w i j := by
  induction w generalizing i with
  | nil => simp [Stands]
  | cons d ds ih => simp [Stands, ih]

/-- The word that stands from one end of a text to the other is the text. -/
@[simp]
theorem stands_whole {subject w : List Char} : Stands subject w 0 subject.length ↔ w = subject := by
  induction subject generalizing w with
  | nil => cases w <;> simp [Stands]
  | cons c cs ih =>
    cases w with
    | nil => simp [Stands]
    | cons d ds => simp [Stands, ih, eq_comm]

theorem oneChar_iff {subject : List Char} {property : Char → Prop} {i j : Nat} :
    OneChar subject property i j ↔ ∃ w, (∃ c, property c ∧ w = [c]) ∧ Stands subject w i j := by
  constructor
  · rintro ⟨c, here, holds, after⟩
    exact ⟨[c], ⟨c, holds, rfl⟩, here, after⟩
  · rintro ⟨_, ⟨c, holds, rfl⟩, here, after⟩
    exact ⟨c, here, holds, after⟩

theorem oneChar_congr {subject : List Char} {p q : Char → Prop} (same : ∀ c, p c ↔ q c) {i j : Nat} :
    OneChar subject p i j ↔ OneChar subject q i j := by
  simp only [OneChar, same]

/-- An expression matches exactly the spans where a word of a language stands, and its class, if it is
    one, is in order. -/
structure Recognizes (r : Regex) (l : Language) : Prop where
  spans_iff : ∀ subject i j, Spans subject r i j ↔ ∃ w, l w ∧ Stands subject w i j
  ascending : ∀ s, r.class? = some s → s.Ascending

/-- Expressions of which the concatenation and the alternation match the words of two languages. -/
structure RecognizeAll (rs : List Regex) (through any : Language) : Prop where
  through_iff : ∀ subject i j, SpansThrough subject rs i j ↔ ∃ w, through w ∧ Stands subject w i j
  any_iff : ∀ subject i j, SpansAny subject rs i j ↔ ∃ w, any w ∧ Stands subject w i j
  ascending : ∀ r ∈ rs, ∀ s, r.class? = some s → s.Ascending

theorem Recognizes.congr {r : Regex} {k l : Language} (h : r.Recognizes k) (same : ∀ w, k w ↔ l w) :
    r.Recognizes l where
  spans_iff subject i j := by simp only [h.spans_iff, same]
  ascending := h.ascending

theorem Recognizes.matches_iff {r : Regex} {l : Language} (h : r.Recognizes l) (text : String) :
    r.Matches text ↔ l text.toList := by
  simp [Matches, h.spans_iff]

/-- Between two anchors an expression is found nowhere but in a text that it matches as a whole. -/
theorem Recognizes.found_iff {r : Regex} {l : Language} (h : r.Recognizes l) (text : String) :
    (Regex.concat [.beginText, r, .endText]).FoundIn text ↔ l text.toList := by
  rw [← h.matches_iff]
  simp only [FoundIn, Spans, SpansThrough, Matches]
  constructor
  · rintro ⟨_, _, _, _, ⟨rfl, rfl⟩, _, inside, _, ⟨rfl, _⟩, _⟩
    exact inside
  · intro inside
    exact ⟨0, _, Nat.zero_le _, 0, ⟨rfl, rfl⟩, _, inside, _, ⟨rfl, rfl⟩, rfl⟩

theorem Recognizes.star {r : Regex} {l : Language} (h : r.Recognizes l) :
    (Regex.star r).Recognizes (Language.Star l) where
  spans_iff subject i j := by
    constructor
    · intro repeated
      induction repeated with
      | done => exact ⟨[], .nil, rfl⟩
      | more first _ ih =>
        obtain ⟨u, inL, standsU⟩ := (h.spans_iff ..).mp first
        obtain ⟨v, inStar, standsV⟩ := ih
        exact ⟨u ++ v, .append inL inStar, stands_append.mpr ⟨_, standsU, standsV⟩⟩
    · rintro ⟨w, inStar, stands⟩
      induction inStar generalizing i with
      | nil => exact stands ▸ .done
      | append inL _ ih =>
        obtain ⟨k, standsU, standsV⟩ := stands_append.mp stands
        exact .more ((h.spans_iff ..).mpr ⟨_, inL, standsU⟩) (ih k standsV)
  ascending _ isClass := by cases isClass

theorem Recognizes.opt {r : Regex} {l : Language} (h : r.Recognizes l) :
    (Regex.opt r).Recognizes fun w => w = [] ∨ l w where
  spans_iff subject i j := by
    simp only [Spans, h.spans_iff, or_and_right, exists_or, exists_eq_left, Stands, @eq_comm _ j]
  ascending _ isClass := by cases isClass

theorem recognizes_literal {text : String} : (Regex.literal text).Recognizes fun w => w = text.toList where
  spans_iff subject i j := by simp only [Spans, exists_eq_left]
  ascending s isClass := by
    obtain ⟨c, -, rfl⟩ := Option.map_eq_some_iff.mp isClass
    exact CharClass.ofRange_ascending

theorem spans_of_class? {r : Regex} {s : CharClass} (isClass : r.class? = some s) {subject : List Char} {i j : Nat} :
    Spans subject r i j ↔ OneChar subject (· ∈ s) i j := by
  cases r with
  | set t =>
    cases isClass
    rfl
  | literal text =>
    obtain ⟨c, single, rfl⟩ := Option.map_eq_some_iff.mp isClass
    rw [oneChar_iff]
    simp only [Spans, singleChar?_eq_some_iff.mp single, CharClass.ofChar, CharClass.mem_ofRange,
      CharRange.mem_single, exists_eq_left]
  | _ => cases isClass

/-- The words of a class are the single characters in it. -/
theorem Recognizes.mem_iff {r : Regex} {l : Language} (h : r.Recognizes l) {s : CharClass}
    (isClass : r.class? = some s) (c : Char) : c ∈ s ↔ l [c] := by
  have whole : Spans [c] r 0 [c].length ↔ l [c] := by
    simp only [h.spans_iff, stands_whole, exists_eq_right]
  rw [← whole, spans_of_class? isClass]
  simp [OneChar]

theorem spans_ofClass {s : CharClass} (ascending : s.Ascending) {subject : List Char} {i j : Nat} :
    Spans subject (ofClass s) i j ↔ OneChar subject (· ∈ s) i j := by
  unfold ofClass
  split
  · rename_i full
    have all := (CharClass.isFull_iff ascending).mp full
    exact oneChar_congr fun c => iff_of_true trivial (all c)
  · rfl

@[simp]
theorem class?_ofClass {s : CharClass} : (ofClass s).class? = if s.isFull then none else some s := by
  unfold ofClass
  split <;> rfl

/-- An expression is a class, or a literal of one character. -/
def IsCharacters (r : Regex) : Prop := (∃ s, r = .set s) ∨ ∃ c, r = .literal (String.singleton c)

theorem isCharacters_iff {r : Regex} : r.IsCharacters ↔ ∃ s, r.class? = some s := by
  constructor
  · rintro (⟨s, rfl⟩ | ⟨c, rfl⟩)
    · exact ⟨s, rfl⟩
    · have single : singleChar? (String.singleton c) = some c := singleChar?_eq_some_iff.mpr (String.toList_singleton c)
      exact ⟨.ofChar c, by rw [class?, single, Option.map_some]⟩
  · rintro ⟨s, isClass⟩
    cases r with
    | set t => exact .inl ⟨t, rfl⟩
    | literal text =>
      obtain ⟨c, single, -⟩ := Option.map_eq_some_iff.mp isClass
      refine .inr ⟨c, congrArg literal (String.toList_inj.mp ?_)⟩
      rw [singleChar?_eq_some_iff.mp single, String.toList_singleton]
    | _ => cases isClass

/-- The classes of some expressions, if each has one, from left to right. -/
theorem classes_eq_some_iff {rs : List Regex} {ss : List CharClass} :
    rs.mapM class? = some ss ↔ rs.map class? = ss.map some := by
  induction rs generalizing ss with
  | nil => cases ss <;> simp
  | cons r rest ih =>
    simp only [List.mapM_cons, Option.bind_eq_bind, Option.bind_eq_some_iff, Option.pure_def, Option.some.injEq, ih]
    cases ss with
    | nil => simp
    | cons s others =>
      simp only [List.cons.injEq, List.map_cons]
      constructor
      · rintro ⟨t, isClass, ts, later, rfl, rfl⟩
        exact ⟨isClass, later⟩
      · rintro ⟨isClass, later⟩
        exact ⟨s, isClass, others, later, rfl, rfl⟩

theorem mem_classes_iff {rs : List Regex} {ss : List CharClass} (classes : rs.mapM class? = some ss) {s : CharClass} :
    s ∈ ss ↔ ∃ r ∈ rs, r.class? = some s := by
  have member : some s ∈ ss.map some ↔ s ∈ ss := by simp
  rw [← member, ← classes_eq_some_iff.mp classes, List.mem_map]

theorem exists_classes {rs : List Regex} (each : ∀ r ∈ rs, ∃ s, r.class? = some s) :
    ∃ ss, rs.mapM class? = some ss := by
  induction rs with
  | nil => exact ⟨[], rfl⟩
  | cons r rest ih =>
    have ⟨first, others⟩ := List.forall_mem_cons.mp each
    obtain ⟨s, isClass⟩ := first
    obtain ⟨ss, later⟩ := ih others
    exact ⟨s :: ss, by simp [isClass, later]⟩

theorem recognizes_ofClass {s : CharClass} (ascending : s.Ascending) {l : Language}
    (words : ∀ w, l w ↔ ∃ c, c ∈ s ∧ w = [c]) : (ofClass s).Recognizes l where
  spans_iff subject i j := by simp only [spans_ofClass ascending, oneChar_iff, words]
  ascending t isClass := by
    rw [class?_ofClass] at isClass
    split at isClass
    · cases isClass
    · cases isClass
      exact ascending

theorem spansAny_classes {rs : List Regex} {ss : List CharClass} (classes : rs.mapM class? = some ss)
    {subject : List Char} {i j : Nat} :
    SpansAny subject rs i j ↔ OneChar subject (fun c => ∃ s ∈ ss, c ∈ s) i j := by
  induction rs generalizing ss with
  | nil =>
    simp only [List.mapM_nil, Option.pure_def, Option.some.injEq] at classes
    subst classes
    simp [SpansAny, OneChar]
  | cons r rest ih =>
    simp only [List.mapM_cons, Option.bind_eq_bind, Option.bind_eq_some_iff, Option.pure_def,
      Option.some.injEq] at classes
    obtain ⟨s, isClass, ts, others, rfl⟩ := classes
    rw [SpansAny, spans_of_class? isClass, ih others]
    simp only [OneChar, List.mem_cons, exists_eq_or_imp]
    constructor
    · rintro (⟨c, here, inside, after⟩ | ⟨c, here, inside, after⟩)
      · exact ⟨c, here, .inl inside, after⟩
      · exact ⟨c, here, .inr inside, after⟩
    · rintro ⟨c, here, inside | inside, after⟩
      · exact .inl ⟨c, here, inside, after⟩
      · exact .inr ⟨c, here, inside, after⟩

theorem RecognizeAll.choice {rs : List Regex} {through any : Language} (h : RecognizeAll rs through any) :
    (Regex.choice rs).Recognizes any := by
  unfold Regex.choice
  split
  · rename_i ss classes
    have words (subject : List Char) (i j : Nat) :
        OneChar subject (· ∈ CharClass.unionAll ss) i j ↔ ∃ w, any w ∧ Stands subject w i j := by
      rw [← h.any_iff, spansAny_classes classes]
      exact oneChar_congr fun c => CharClass.mem_unionAll
    constructor
    · intro subject i j
      rw [spans_ofClass CharClass.unionAll_ascending, words]
    · exact (recognizes_ofClass CharClass.unionAll_ascending fun w => Iff.rfl).ascending
  · exact ⟨h.any_iff, fun s isClass => by cases isClass⟩

/-- Exactly the classes and single characters with something outside them can be negated. -/
theorem negate_eq_ok_iff {r t : Regex} :
    r.negate = .ok t ↔ ∃ s, r.class? = some s ∧ ∃ u, s.complement? = some u ∧ t = ofClass u := by
  have outside_iff (s : CharClass) : outside s = .ok t ↔ ∃ u, s.complement? = some u ∧ t = ofClass u := by
    unfold outside
    cases s.complement? <;> simp [eq_comm]
  cases r with
  | set s => simp [negate, class?, outside_iff]
  | literal text => cases single : singleChar? text <;> simp [negate, class?, single, outside_iff]
  | _ => simp [negate, class?]

theorem Recognizes.negate {r t : Regex} {l : Language} (h : r.Recognizes l) (negated : r.negate = .ok t) :
    t.Recognizes fun w => ∃ c, w = [c] ∧ ¬ l [c] := by
  obtain ⟨s, isClass, u, outside, rfl⟩ := negate_eq_ok_iff.mp negated
  have ascending := h.ascending s isClass
  refine recognizes_ofClass (CharClass.complement?_ascending ascending outside) fun w => exists_congr fun c => ?_
  rw [CharClass.mem_complement? ascending outside, h.mem_iff isClass, and_comm]

theorem recognizes_range {lo hi : Char} (ordered : lo ≤ hi) :
    (ofClass (.ofRange (.between lo hi))).Recognizes fun w => ∃ c, lo ≤ c ∧ c ≤ hi ∧ w = [c] := by
  refine recognizes_ofClass CharClass.ofRange_ascending fun w => exists_congr fun c => ?_
  simp [CharRange.mem_between ordered, and_assoc]

theorem RecognizeAll.concat {rs : List Regex} {through any : Language} (h : RecognizeAll rs through any) :
    (Regex.concat (collapseRepeats rs)).Recognizes through where
  spans_iff subject i j := by simp [Spans, h.through_iff]
  ascending _ isClass := by cases isClass

theorem recognizeAll_nil : RecognizeAll [] (fun w => w = []) fun _ => False where
  through_iff subject i j := by simp only [SpansThrough, exists_eq_left, Stands, eq_comm]
  any_iff subject i j := by simp only [SpansAny, false_and, exists_false]
  ascending _ member := by cases member

theorem Recognizes.cons {r : Regex} {rs : List Regex} {l through any : Language} (h : r.Recognizes l)
    (others : RecognizeAll rs through any) :
    RecognizeAll (r :: rs) (fun w => ∃ u v, w = u ++ v ∧ l u ∧ through v) fun w => l w ∨ any w where
  through_iff subject i j := by
    simp only [SpansThrough, h.spans_iff, others.through_iff]
    constructor
    · rintro ⟨k, ⟨u, inL, standsU⟩, v, inRest, standsV⟩
      exact ⟨u ++ v, ⟨u, v, rfl, inL, inRest⟩, stands_append.mpr ⟨k, standsU, standsV⟩⟩
    · rintro ⟨_, ⟨u, v, rfl, inL, inRest⟩, stands⟩
      obtain ⟨k, standsU, standsV⟩ := stands_append.mp stands
      exact ⟨k, ⟨u, inL, standsU⟩, v, inRest, standsV⟩
  any_iff subject i j := by
    simp only [SpansAny, h.spans_iff, others.any_iff, or_and_right, exists_or]
  ascending s member := by
    rcases List.mem_cons.mp member with rfl | member
    · exact h.ascending
    · exact others.ascending s member

end Regex

end RegularGrammar
