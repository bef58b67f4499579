import RegularGrammar.Proofs.Grammar.Language
import RegularGrammar.Proofs.Pattern.Printing
import RegularGrammar.Proofs.Pattern.Visible

/-!
# The pattern of a production

What a grammar turns into can be printed: its classes are built from ranges by
operations on classes, and a choice of nothing is a class. So the pattern of a
start production is read in one way, and a text where it is found is a text of
the production.
-/

namespace RegularGrammar

theorem CharClass.built_unionAll {ss : List CharClass} (each : ∀ s ∈ ss, s.Built) : (CharClass.unionAll ss).Built := by
  have grows (ss : List CharClass) (each : ∀ s ∈ ss, s.Built) (s : CharClass) (h : s.Built) : (ss.foldl union s).Built := by
    induction ss generalizing s with
    | nil => exact h
    | cons t rest ih =>
      have ⟨first, others⟩ := List.forall_mem_cons.mp each
      exact ih others _ (.union h first)
  exact grows ss each _ .empty

namespace Regex

theorem printable_ofClass {s : CharClass} (h : s.Built) : (ofClass s).Printable := by
  unfold ofClass
  split
  · trivial
  · exact h

theorem Printable.class?_built {r : Regex} (h : r.Printable) {s : CharClass} (isClass : r.class? = some s) : s.Built := by
  cases r with
  | set t =>
    cases isClass
    exact h
  | literal text =>
    obtain ⟨c, -, rfl⟩ := Option.map_eq_some_iff.mp isClass
    exact .ofChar c
  | _ => cases isClass

@[simp]
theorem printableAll_iff {rs : List Regex} : PrintableAll rs ↔ ∀ r ∈ rs, r.Printable := by
  induction rs with
  | nil => simp [PrintableAll]
  | cons r rest ih => rw [PrintableAll, ih, List.forall_mem_cons]

theorem printable_choice {rs : List Regex} (h : ∀ r ∈ rs, r.Printable) : (Regex.choice rs).Printable := by
  unfold Regex.choice
  cases classes : rs.mapM class? with
  | some ss =>
    refine printable_ofClass (CharClass.built_unionAll ?_)
    intro s member
    obtain ⟨r, inside, isClass⟩ := (mem_classes_iff classes).mp member
    exact (h r inside).class?_built isClass
  | none =>
    refine ⟨?_, printableAll_iff.mpr h⟩
    rintro rfl
    simp at classes

theorem Printable.negate {r t : Regex} (h : r.Printable) (negated : r.negate = .ok t) : t.Printable := by
  obtain ⟨s, isClass, u, outside, rfl⟩ := negate_eq_ok_iff.mp negated
  exact printable_ofClass (.complement (h.class?_built isClass) outside)

theorem PrintableAll.collapseFrom {x : Regex} {rest : List Regex} (h : PrintableAll (x :: rest)) :
    PrintableAll (Regex.collapseFrom x rest) := by
  fun_induction Regex.collapseFrom x rest with
  | case1 => exact h
  | case2 y rest ih => exact ih ⟨h.1, h.2.2⟩
  | case3 x y rest different ih => exact ⟨h.1, ih h.2⟩
  | case4 x y rest notStar ih => exact ⟨h.1, ih h.2⟩

theorem PrintableAll.collapseRepeats {rs : List Regex} (h : PrintableAll rs) : PrintableAll (Regex.collapseRepeats rs) := by
  cases rs with
  | nil => exact h
  | cons x rest => exact h.collapseFrom

/-- Whatever is made of expressions that can be printed can be printed. -/
theorem inherited_printable : Expr.Inherited Printable where
  range r := printable_ofClass (.ofRange r)
  literal _ := trivial
  concat _ h := (printableAll_iff.mpr h).collapseRepeats
  choice _ h := printable_choice h
  star _ h := h
  opt _ h := h
  negate _ _ h negated := h.negate negated

end Regex

namespace Grammar

theorem regex_printable {g : Grammar} {n : String} {r : Regex} (h : g.regex n = .ok r) : r.Printable :=
  inherited_regex Regex.inherited_printable h

end Grammar

/-- Items match some part of a text. -/
def Pattern.Items.FoundIn (p : Pattern.Items) (text : String) : Prop :=
  ∃ i j, i ≤ text.toList.length ∧ p.Spans text.toList i j

namespace Grammar

variable {g : Grammar}

/-- A text in the language of a production. -/
def HasText (g : Grammar) (n : String) (text : String) : Prop := ∃ names, g.Solves n names ∧ names n text.toList

/-- The pattern of a start production, on one line and read in one way: it is found in the texts of the production
    and in no others. -/
structure Prints (g : Grammar) (start : String) (d : Dialect) (pattern : String) : Prop where
  printed : g.pattern start d = .ok pattern
  visible : Visible pattern.toList
  reads : ∃ items, Pattern.Reads d pattern.toList items ∧ (∀ others, Pattern.Reads d pattern.toList others → others = items) ∧
    ∀ text, items.FoundIn text ↔ g.HasText start text
  solvable : ∃ names, g.Solves start names
  hasText_iff : ∀ names, g.Solves start names → ∀ text, g.HasText start text ↔ names start text.toList

theorem prints_of_pattern {start : String} {d : Dialect} {pattern : String} (h : g.pattern start d = .ok pattern) :
    g.Prints start d pattern := by
  obtain ⟨whole, isWhole, rfl⟩ := map_eq_ok_iff.mp h
  obtain ⟨r, found, isAnchored⟩ := map_eq_ok_iff.mp isWhole
  have printable : whole.Printable := isAnchored ▸ ⟨trivial, regex_printable found, trivial, trivial⟩
  obtain ⟨items, denotes, -⟩ := Pattern.exists_items d whole printable
  have text_eq : (whole.pattern d).toList = whole.text d := String.toList_ofList
  have solves : g.Solves start g.matched := matched_solves found
  have found_iff (names) (solves : g.Solves start names) (text : String) : whole.FoundIn text ↔ names start text.toList :=
    isAnchored ▸ (recognizes_of_solves found solves).found_iff text
  have found_iff_hasText (text : String) : whole.FoundIn text ↔ g.HasText start text := by
    constructor
    · exact fun inside => ⟨_, solves, (found_iff _ solves text).mp inside⟩
    · rintro ⟨names, others, inside⟩
      exact (found_iff names others text).mpr inside
  constructor
  · exact h
  · exact whole.pattern_visible d
  · rw [text_eq]
    refine ⟨items, denotes.reads, fun others reads => reads.unique denotes.reads, fun text => ?_⟩
    simp only [← found_iff_hasText, Regex.FoundIn, Pattern.Items.FoundIn, denotes.spans_iff]
  · exact ⟨_, solves⟩
  · intro names others text
    rw [← found_iff_hasText, found_iff names others]

end Grammar

end RegularGrammar
