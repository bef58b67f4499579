import RegularGrammar.Grammar.Flaw
import RegularGrammar.Proofs.Grammar.Expansion

/-!
# Which productions have a regular expression

A production has a regular expression exactly if every name it depends on is
defined, no chain of references among them closes, every range has proper bounds,
and every complement is taken of something shaped like a class. All four are said
of the grammar as it is written, without its regular expressions.
-/

namespace RegularGrammar

theorem exists_char_ne (a : Char) : ∃ c, c ≠ a := by
  apply Classical.not_forall.mp
  intro all
  exact absurd ((all 'a').trans (all 'b').symm) (by decide)

namespace Expr

/-- An expression is a part of another one, or all of it. Names are not followed. -/
inductive Within (part : Expr) : Expr → Prop where
  | all : Within part part
  | sequence {items : List Expr} {e : Expr} : e ∈ items → Within part e → Within part (.sequence items)
  | alternative {items : List Expr} {e : Expr} : e ∈ items → Within part e → Within part (.alternative items)
  | repetition {body : Expr} : Within part body → Within part (.repetition body)
  | option {body : Expr} : Within part body → Within part (.option body)
  | group {body : Expr} : Within part body → Within part (.group body)
  | complement {body : Expr} : Within part body → Within part (.complement body)

/-- The bounds of a range are single characters in ascending order. -/
def Ordered (first last : String) : Prop := ∃ lo hi, first.toList = [lo] ∧ last.toList = [hi] ∧ lo ≤ hi

/-- An expression is written like a class of some characters, which are not all characters. -/
inductive ClassShaped (g : Grammar) : Expr → (Char → Prop) → Prop where
  | range {first last : String} {lo hi : Char} : first.toList = [lo] → last.toList = [hi] → lo ≤ hi →
      ¬ (∀ c, lo ≤ c ∧ c ≤ hi) → ClassShaped g (.range first last) fun c => lo ≤ c ∧ c ≤ hi
  | literal {text : String} {a : Char} : text.toList = [a] → ClassShaped g (.literal text) fun c => c = a
  | group {body : Expr} {set : Char → Prop} : ClassShaped g body set → ClassShaped g (.group body) set
  | name {n : String} {p : Production} {set : Char → Prop} : g.get? n = some p → ClassShaped g p.body set →
      ClassShaped g (.name n) set
  | alternative {items : List Expr} {sets : Expr → Char → Prop} : (∀ e ∈ items, ClassShaped g e (sets e)) →
      ¬ (∀ c, ∃ e ∈ items, sets e c) → ClassShaped g (.alternative items) fun c => ∃ e ∈ items, sets e c
  | complement {body : Expr} {set : Char → Prop} : ClassShaped g body set → (∃ c, set c) →
      ClassShaped g (.complement body) fun c => ¬ set c

variable {g : Grammar} {owner : String}

theorem ClassShaped.proper {e : Expr} {set : Char → Prop} (h : ClassShaped g e set) : ∃ c, ¬ set c := by
  induction h with
  | range _ _ _ proper => exact Classical.not_forall.mp proper
  | @literal text a _ => exact exists_char_ne a
  | group _ ih => exact ih
  | name _ _ ih => exact ih
  | alternative _ proper => exact Classical.not_forall.mp proper
  | complement _ inhabited =>
    obtain ⟨c, inside⟩ := inhabited
    exact ⟨c, fun outside => outside inside⟩

/-- An expression has turned into the class of some characters. -/
def IsClassOf (r : Regex) (set : Char → Prop) : Prop := ∃ s, r.class? = some s ∧ s.Ascending ∧ ∀ c, c ∈ s ↔ set c

theorem isClassOf_ofClass {s : CharClass} {set : Char → Prop} (ascending : s.Ascending) (same : ∀ c, c ∈ s ↔ set c)
    (proper : ∃ c, ¬ set c) : IsClassOf (.ofClass s) set := by
  refine ⟨s, ?_, ascending, same⟩
  obtain ⟨c, outside⟩ := proper
  rw [Regex.class?_ofClass, if_neg]
  exact fun full => outside ((same c).mp ((CharClass.isFull_iff ascending).mp full c))

theorem toRegexes_classes {items : List Expr} {sets : Expr → Char → Prop} {rs : List Regex}
    (found : toRegexes owner g.regex items = .ok rs)
    (classes : ∀ e ∈ items, ∀ r, toRegex owner g.regex e = .ok r → IsClassOf r (sets e)) :
    ∃ ss, rs.mapM Regex.class? = some ss ∧ ∀ c, (∃ s ∈ ss, c ∈ s) ↔ ∃ e ∈ items, sets e c := by
  induction items generalizing rs with
  | nil =>
    cases found
    exact ⟨[], rfl, by simp⟩
  | cons e rest ih =>
    obtain ⟨r, first, others, later, rfl⟩ := toRegexes_cons_iff.mp found
    obtain ⟨s, isClass, -, same⟩ := classes e List.mem_cons_self r first
    obtain ⟨ss, areClasses, union⟩ := ih later fun e member => classes e (List.mem_cons_of_mem _ member)
    refine ⟨s :: ss, by simp [isClass, areClasses], fun c => ?_⟩
    simp only [List.mem_cons, exists_eq_or_imp, same, union]

theorem ClassShaped.isClassOf {e : Expr} {set : Char → Prop} (h : ClassShaped g e set) {owner : String} {r : Regex}
    (found : toRegex owner g.regex e = .ok r) : IsClassOf r set := by
  induction h generalizing owner r with
  | range lower upper ordered proper =>
    obtain ⟨lo, hi, lower', upper', _, rfl⟩ := toRegex_range_iff.mp found
    cases lower.symm.trans lower'
    cases upper.symm.trans upper'
    refine isClassOf_ofClass CharClass.ofRange_ascending (fun c => ?_) (Classical.not_forall.mp proper)
    simp [CharRange.mem_between ordered]
  | @literal text a single =>
    cases found
    refine ⟨.ofChar a, ?_, CharClass.ofRange_ascending, fun c => ?_⟩
    · rw [Regex.class?, singleChar?_eq_some_iff.mpr single, Option.map_some]
    · simp [CharClass.ofChar]
  | group _ ih => exact ih found
  | name defined _ ih => exact ih (Grammar.toRegex_of_found found defined)
  | alternative _ proper ih =>
    obtain ⟨rs, each, rfl⟩ := toRegex_alternative_iff.mp found
    obtain ⟨ss, classes, union⟩ := toRegexes_classes each fun e member r => ih e member
    simp only [Regex.choice, classes]
    refine isClassOf_ofClass CharClass.unionAll_ascending (fun c => ?_) (Classical.not_forall.mp proper)
    simp [union]
  | complement _ inhabited ih =>
    obtain ⟨s, body, negated⟩ := toRegex_complement_iff.mp found
    obtain ⟨t, isClass, ascending, same⟩ := ih body
    obtain ⟨t', isClass', u, outside, rfl⟩ := Regex.negate_eq_ok_iff.mp negated
    rw [isClass] at isClass'
    cases isClass'
    refine isClassOf_ofClass (CharClass.complement?_ascending ascending outside) (fun c => ?_) ?_
    · rw [CharClass.mem_complement? ascending outside, same]
    · obtain ⟨c, inside⟩ := inhabited
      exact ⟨c, fun outside => outside inside⟩

/-- Sets of characters for all items, one for each. -/
theorem exists_sets {items : List Expr} (shaped : ∀ e ∈ items, ∃ set, ClassShaped g e set) :
    ∃ sets : Expr → Char → Prop, ∀ e ∈ items, ClassShaped g e (sets e) := by
  have each (e : Expr) : ∃ set, e ∈ items → ClassShaped g e set := by
    by_cases member : e ∈ items
    · obtain ⟨set, shape⟩ := shaped e member
      exact ⟨set, fun _ => shape⟩
    · exact ⟨fun _ => False, fun member' => absurd member' member⟩
  exact ⟨fun e => (each e).choose, fun e => (each e).choose_spec⟩

mutual

/-- Only what is shaped like a class turns into one, if that holds of the names in it. -/
theorem classShaped_of_class? : (e : Expr) → {r : Regex} → toRegex owner g.regex e = .ok r →
    (∀ n ∈ e.references, ∀ t s, g.regex n = .ok t → t.class? = some s → ∃ set, ClassShaped g (.name n) set) →
      ∀ s, r.class? = some s → ∃ set, ClassShaped g e set
  | .range first last, r, found, _, s, isClass => by
    obtain ⟨lo, hi, lower, upper, ordered, rfl⟩ := toRegex_range_iff.mp found
    rw [Regex.class?_ofClass] at isClass
    split at isClass
    · cases isClass
    · rename_i notFull
      refine ⟨_, .range lower upper ordered fun all => notFull ?_⟩
      rw [CharClass.isFull_iff CharClass.ofRange_ascending]
      intro c
      rw [CharClass.mem_ofRange, CharRange.mem_between ordered]
      exact all c
  | .literal text, r, found, _, s, isClass => by
    cases found
    obtain ⟨a, single, -⟩ := Option.map_eq_some_iff.mp isClass
    exact ⟨_, .literal (singleChar?_eq_some_iff.mp single)⟩
  | .sequence items, r, found, _, s, isClass => by
    obtain ⟨rs, -, rfl⟩ := toRegex_sequence_iff.mp found
    cases isClass
  | .alternative items, r, found, given, s, isClass => by
    obtain ⟨rs, each, rfl⟩ := toRegex_alternative_iff.mp found
    unfold Regex.choice at isClass
    split at isClass
    · rename_i ss classes
      rw [Regex.class?_ofClass] at isClass
      split at isClass
      · cases isClass
      · rename_i notFull
        obtain ⟨sets, shaped⟩ := exists_sets (allClassShaped_of_classes items each given classes)
        refine ⟨_, .alternative shaped fun all => notFull ?_⟩
        obtain ⟨ss', classes', union⟩ := toRegexes_classes each fun e member r => (shaped e member).isClassOf
        rw [classes] at classes'
        cases classes'
        rw [CharClass.isFull_iff CharClass.unionAll_ascending]
        exact fun c => CharClass.mem_unionAll.mpr ((union c).mpr (all c))
    · cases isClass
  | .repetition body, r, found, _, s, isClass => by
    obtain ⟨t, -, rfl⟩ := toRegex_repetition_iff.mp found
    cases isClass
  | .option body, r, found, _, s, isClass => by
    obtain ⟨t, -, rfl⟩ := toRegex_option_iff.mp found
    cases isClass
  | .group body, r, found, given, s, isClass => by
    obtain ⟨set, shape⟩ := classShaped_of_class? body found given s isClass
    exact ⟨set, .group shape⟩
  | .name n, r, found, given, s, isClass => given n (List.mem_singleton_self n) r s found isClass
  | .complement body, r, found, given, s, isClass => by
    obtain ⟨t, inner, negated⟩ := toRegex_complement_iff.mp found
    obtain ⟨u, isClass', v, outside, rfl⟩ := Regex.negate_eq_ok_iff.mp negated
    obtain ⟨set, shape⟩ := classShaped_of_class? body inner given u isClass'
    refine ⟨_, .complement shape ?_⟩
    obtain ⟨u', isClass'', ascending, same⟩ := shape.isClassOf inner
    rw [isClass'] at isClass''
    cases isClass''
    rw [Regex.class?_ofClass] at isClass
    split at isClass
    · cases isClass
    · rename_i notFull
      rw [CharClass.isFull_iff (CharClass.complement?_ascending ascending outside)] at notFull
      obtain ⟨c, notOutside⟩ := Classical.not_forall.mp notFull
      rw [CharClass.mem_complement? ascending outside, Classical.not_not] at notOutside
      exact ⟨c, (same c).mp notOutside⟩

theorem allClassShaped_of_classes : (es : List Expr) → {rs : List Regex} → toRegexes owner g.regex es = .ok rs →
    (∀ n ∈ referencesAll es, ∀ t s, g.regex n = .ok t → t.class? = some s → ∃ set, ClassShaped g (.name n) set) →
      ∀ {ss}, rs.mapM Regex.class? = some ss → ∀ e ∈ es, ∃ set, ClassShaped g e set
  | [], _, _, _, _, _ => by simp
  | e :: rest, rs, found, given, ss, classes => by
    obtain ⟨r, first, others, later, rfl⟩ := toRegexes_cons_iff.mp found
    simp only [List.mapM_cons, Option.bind_eq_bind, Option.bind_eq_some_iff, Option.pure_def,
      Option.some.injEq] at classes
    obtain ⟨s, isClass, ts, areClasses, rfl⟩ := classes
    have here := classShaped_of_class? e first (fun n member => given n (List.mem_append_left _ member)) s isClass
    intro e' member
    rcases List.mem_cons.mp member with same | member
    · exact same ▸ here
    · exact allClassShaped_of_classes rest later (fun n member => given n (List.mem_append_right _ member))
        areClasses e' member

end

variable {lookUp : String → Except Irregularity Regex}

theorem toRegex_of_mem {items : List Expr} {e : Expr} (member : e ∈ items) {rs : List Regex}
    (each : toRegexes owner lookUp items = .ok rs) : ∃ r, toRegex owner lookUp e = .ok r := by
  induction items generalizing rs with
  | nil => cases member
  | cons d rest ih =>
    obtain ⟨r, first, others, later, -⟩ := toRegexes_cons_iff.mp each
    rcases List.mem_cons.mp member with rfl | member
    · exact ⟨r, first⟩
    · exact ih member later

/-- With an expression all its parts have a regular expression. -/
theorem Within.toRegex_ok {part e : Expr} (h : Within part e) {r : Regex} (found : toRegex owner lookUp e = .ok r) :
    ∃ s, toRegex owner lookUp part = .ok s := by
  induction h generalizing r with
  | all => exact ⟨r, found⟩
  | sequence member _ ih =>
    obtain ⟨rs, each, -⟩ := toRegex_sequence_iff.mp found
    obtain ⟨s, item⟩ := toRegex_of_mem member each
    exact ih item
  | alternative member _ ih =>
    obtain ⟨rs, each, -⟩ := toRegex_alternative_iff.mp found
    obtain ⟨s, item⟩ := toRegex_of_mem member each
    exact ih item
  | repetition _ ih =>
    obtain ⟨s, body, -⟩ := toRegex_repetition_iff.mp found
    exact ih body
  | option _ ih =>
    obtain ⟨s, body, -⟩ := toRegex_option_iff.mp found
    exact ih body
  | group _ ih => exact ih found
  | complement _ ih =>
    obtain ⟨s, body, -⟩ := toRegex_complement_iff.mp found
    exact ih body

theorem Within.trans {a b c : Expr} (inner : Within a b) (outer : Within b c) : Within a c := by
  induction outer with
  | all => exact inner
  | sequence member _ ih => exact .sequence member ih
  | alternative member _ ih => exact .alternative member ih
  | repetition _ ih => exact .repetition ih
  | option _ ih => exact .option ih
  | group _ ih => exact .group ih
  | complement _ ih => exact .complement ih

/-- Nothing but a name stands in the way of a regular expression. -/
structure Unobstructed (owner : String) (lookUp : String → Except Irregularity Regex) (e : Expr) : Prop where
  ordered : ∀ first last, Within (.range first last) e → Ordered first last
  negatable : ∀ body s, Within (.complement body) e → toRegex owner lookUp body = .ok s → ∃ t, s.negate = .ok t

theorem Unobstructed.part {part e : Expr} (h : Unobstructed owner lookUp e) (within : Within part e) :
    Unobstructed owner lookUp part where
  ordered first last inside := h.ordered first last (inside.trans within)
  negatable body s inside := h.negatable body s (inside.trans within)

mutual

theorem toRegex_ok : (e : Expr) → (∀ n ∈ e.references, ∃ s, lookUp n = .ok s) → Unobstructed owner lookUp e →
    ∃ r, toRegex owner lookUp e = .ok r
  | .range first last, _, free => by
    obtain ⟨lo, hi, lower, upper, le⟩ := free.ordered first last .all
    exact ⟨_, toRegex_range_iff.mpr ⟨lo, hi, lower, upper, le, rfl⟩⟩
  | .literal text, _, _ => ⟨.literal text, rfl⟩
  | .sequence items, names, free => by
    obtain ⟨rs, each⟩ := toRegexes_ok items names fun e member => free.part (.sequence member .all)
    exact ⟨_, toRegex_sequence_iff.mpr ⟨rs, each, rfl⟩⟩
  | .alternative items, names, free => by
    obtain ⟨rs, each⟩ := toRegexes_ok items names fun e member => free.part (.alternative member .all)
    exact ⟨_, toRegex_alternative_iff.mpr ⟨rs, each, rfl⟩⟩
  | .repetition body, names, free => by
    obtain ⟨r, found⟩ := toRegex_ok body names (free.part (.repetition .all))
    exact ⟨_, toRegex_repetition_iff.mpr ⟨r, found, rfl⟩⟩
  | .option body, names, free => by
    obtain ⟨r, found⟩ := toRegex_ok body names (free.part (.option .all))
    exact ⟨_, toRegex_option_iff.mpr ⟨r, found, rfl⟩⟩
  | .group body, names, free => toRegex_ok body names (free.part (.group .all))
  | .name n, names, _ => names n (List.mem_singleton_self n)
  | .complement body, names, free => by
    obtain ⟨s, found⟩ := toRegex_ok body names (free.part (.complement .all))
    obtain ⟨r, negated⟩ := free.negatable body s .all found
    exact ⟨r, toRegex_complement_iff.mpr ⟨s, found, negated⟩⟩

theorem toRegexes_ok : (es : List Expr) → (∀ n ∈ referencesAll es, ∃ s, lookUp n = .ok s) →
    (∀ e ∈ es, Unobstructed owner lookUp e) → ∃ rs, toRegexes owner lookUp es = .ok rs
  | [], _, _ => ⟨[], rfl⟩
  | e :: rest, names, free => by
    have ⟨here, later⟩ := List.forall_mem_cons.mp free
    obtain ⟨r, first⟩ := toRegex_ok e (fun n member => names n (List.mem_append_left _ member)) here
    obtain ⟨rs, others⟩ := toRegexes_ok rest (fun n member => names n (List.mem_append_right _ member)) later
    exact ⟨r :: rs, toRegexes_cons_iff.mpr ⟨r, first, rs, others, rfl⟩⟩

end

end Expr

namespace Grammar

open RegularGrammar.Expr (Within Ordered ClassShaped IsClassOf)

variable {g : Grammar}

/-- Nothing that a name depends on stands in the way of a regular expression. -/
structure Regular (g : Grammar) (n : String) : Prop where
  defined : ∀ m, g.Reaches n m → g.Defines m
  acyclic : ∀ a b, g.Reaches n a → g.Refers a b → ¬ g.Reaches b a
  ordered : ∀ m p first last, g.Reaches n m → g.get? m = some p → Within (.range first last) p.body → Ordered first last
  classes : ∀ m p body, g.Reaches n m → g.get? m = some p → Within (.complement body) p.body →
    ∃ set, ClassShaped g body set

theorem Regular.of_reaches {n m : String} (h : g.Regular n) (chain : g.Reaches n m) : g.Regular m where
  defined k later := h.defined k (chain.trans later)
  acyclic a b later := h.acyclic a b (chain.trans later)
  ordered k p first last later := h.ordered k p first last (chain.trans later)
  classes k p body later := h.classes k p body (chain.trans later)

theorem classShaped_of_regex {n : String} {r : Regex} (h : g.regex n = .ok r) :
    ∀ s, r.class? = some s → ∃ set, ClassShaped g (.name n) set := by
  induction h using regex_induction with
  | step n p r _ found body ih =>
    intro s isClass
    have given : ∀ m ∈ p.body.references, ∀ t u, g.regex m = .ok t → t.class? = some u →
        ∃ set, ClassShaped g (.name m) set := fun m member t u inner => ih m member t inner u
    obtain ⟨set, shape⟩ := Expr.classShaped_of_class? p.body body given s isClass
    exact ⟨set, .name found shape⟩

theorem regular_of_regex {n : String} {r : Regex} (h : g.regex n = .ok r) : g.Regular n where
  defined m chain := by
    obtain ⟨s, whole⟩ := regex_of_reaches h chain
    obtain ⟨p, found, -⟩ := toRegex_of_regex whole
    simp [Defines, found]
  acyclic a b chain refers := by
    obtain ⟨s, whole⟩ := regex_of_reaches h chain
    obtain ⟨p, found, -, body⟩ := expand_eq_ok_iff.mp whole
    obtain ⟨t, inner⟩ := Expr.lookUp_of_toRegex _ body b (refers.mem found)
    exact fun back => not_mem_of_reaches inner back List.mem_cons_self
  ordered m p first last chain found inside := by
    obtain ⟨s, -, body⟩ := toRegex_of_reaches h chain found
    obtain ⟨t, range⟩ := inside.toRegex_ok body
    obtain ⟨lo, hi, lower, upper, le, -⟩ := Expr.toRegex_range_iff.mp range
    exact ⟨lo, hi, lower, upper, le⟩
  classes m p inner chain found inside := by
    obtain ⟨s, -, body⟩ := toRegex_of_reaches h chain found
    obtain ⟨t, complement⟩ := inside.toRegex_ok body
    obtain ⟨u, operand, negated⟩ := Expr.toRegex_complement_iff.mp complement
    obtain ⟨v, isClass, -⟩ := Regex.negate_eq_ok_iff.mp negated
    exact Expr.classShaped_of_class? inner operand (fun k _ t u whole => classShaped_of_regex whole u) v isClass

/-- What has turned into a class of not all characters can be negated. -/
theorem negate_of_isClassOf {r : Regex} {set : Char → Prop} (h : IsClassOf r set) (proper : ∃ c, ¬ set c) :
    ∃ t, r.negate = .ok t := by
  obtain ⟨s, isClass, ascending, same⟩ := h
  obtain ⟨c, outside⟩ := proper
  cases complement : s.complement? with
  | none => exact absurd ((same c).mp ((CharClass.complement?_eq_none_iff ascending).mp complement c)) outside
  | some u => exact ⟨.ofClass u, Regex.negate_eq_ok_iff.mpr ⟨s, isClass, u, complement, rfl⟩⟩

/-- A name that is regular can be expanded inside all productions that it does not lead back to. -/
theorem expand_of_regular {active : List String} {n : String} (regular : g.Regular n)
    (away : ∀ m, g.Reaches n m → m ∉ active) : ∃ r, g.expand active n = .ok r := by
  induction active, n using Grammar.expand.induct g with
  | case1 active n missing =>
    have defined := regular.defined n .refl
    simp [Defines, missing] at defined
  | case2 active n p found cyclic => exact absurd cyclic (away n .refl)
  | case3 active n p found fresh ih =>
    have names (m : String) (member : m ∈ p.body.references) : ∃ s, g.expand (n :: active) m = .ok s := by
      have refers : g.Refers n m := ⟨p, found, member⟩
      refine ih m (regular.of_reaches (.single refers)) fun k chain => ?_
      rw [List.mem_cons, not_or]
      refine ⟨fun same => ?_, away k (.head refers chain)⟩
      exact regular.acyclic n m .refl refers (same ▸ chain)
    have free : Expr.Unobstructed n (g.expand (n :: active)) p.body := by
      refine ⟨fun first last => regular.ordered n p first last .refl found, fun body s inside operand => ?_⟩
      obtain ⟨set, shape⟩ := regular.classes n p body .refl found inside
      have alone := Expr.toRegex_mono (fun _ _ _ inner => regex_of_expand inner) operand
      exact negate_of_isClassOf (shape.isClassOf alone) shape.proper
    obtain ⟨r, body⟩ := Expr.toRegex_ok p.body names free
    exact ⟨r, expand_eq_ok_iff.mpr ⟨p, found, fresh, body⟩⟩

/-- Exactly the regular names have a regular expression. -/
theorem regex_ok_iff {n : String} : (∃ r, g.regex n = .ok r) ↔ g.Regular n := by
  constructor
  · rintro ⟨r, h⟩
    exact regular_of_regex h
  · intro regular
    exact expand_of_regular regular fun _ _ member => nomatch member

end Grammar

end RegularGrammar
