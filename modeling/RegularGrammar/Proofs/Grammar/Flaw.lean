import RegularGrammar.Grammar.Flaw
import RegularGrammar.Proofs.Grammar.Regularity

/-!
# The first flaw of a grammar

A grammar has no flaw exactly if its start production is defined, every name in it
is, and every production is reached from the start. Otherwise the flaw that is told
is the first one: an undefined start comes before an undefined name and that before
an unreachable production, and of two productions the one with the lesser name
counts.
-/

namespace RegularGrammar

/-! ## Names in expressions -/

namespace Expr

mutual

/-- The references of an expression are the names that occur in it, however deep. -/
theorem mem_references_iff {n : String} : (e : Expr) → (n ∈ e.references ↔ Within (.name n) e)
  | .range _ _ => by
    simp only [references, List.not_mem_nil, false_iff]
    rintro ⟨⟩
  | .literal _ => by
    simp only [references, List.not_mem_nil, false_iff]
    rintro ⟨⟩
  | .sequence items => by
    rw [references, mem_referencesAll_iff items]
    constructor
    · rintro ⟨e, member, inside⟩
      exact .sequence member inside
    · rintro (_ | ⟨member, inside⟩)
      exact ⟨_, member, inside⟩
  | .alternative items => by
    rw [references, mem_referencesAll_iff items]
    constructor
    · rintro ⟨e, member, inside⟩
      exact .alternative member inside
    · rintro (_ | _ | ⟨member, inside⟩)
      exact ⟨_, member, inside⟩
  | .repetition body => by
    rw [references, mem_references_iff body]
    constructor
    · exact .repetition
    · rintro ⟨⟩
      assumption
  | .option body => by
    rw [references, mem_references_iff body]
    constructor
    · exact .option
    · rintro ⟨⟩
      assumption
  | .group body => by
    rw [references, mem_references_iff body]
    constructor
    · exact .group
    · rintro ⟨⟩
      assumption
  | .name m => by
    rw [references, List.mem_singleton]
    constructor
    · rintro rfl
      exact .all
    · rintro ⟨⟩
      rfl
  | .complement body => by
    rw [references, mem_references_iff body]
    constructor
    · exact .complement
    · rintro ⟨⟩
      assumption

theorem mem_referencesAll_iff {n : String} :
    (es : List Expr) → (n ∈ referencesAll es ↔ ∃ e ∈ es, Within (.name n) e)
  | [] => by simp [referencesAll]
  | e :: rest => by
    rw [referencesAll, List.mem_append, mem_references_iff e, mem_referencesAll_iff rest]
    simp

end

mutual

/-- A name is the first one in an expression, from left to right, that has a property. -/
inductive Leftmost (property : String → Prop) : Expr → String → Prop where
  | name {n : String} : property n → Leftmost property (.name n) n
  | sequence {items : List Expr} {n : String} : LeftmostAmong property items n → Leftmost property (.sequence items) n
  | alternative {items : List Expr} {n : String} : LeftmostAmong property items n →
      Leftmost property (.alternative items) n
  | repetition {body : Expr} {n : String} : Leftmost property body n → Leftmost property (.repetition body) n
  | option {body : Expr} {n : String} : Leftmost property body n → Leftmost property (.option body) n
  | group {body : Expr} {n : String} : Leftmost property body n → Leftmost property (.group body) n
  | complement {body : Expr} {n : String} : Leftmost property body n → Leftmost property (.complement body) n

/-- A name is the first one in a row of expressions that has a property. -/
inductive LeftmostAmong (property : String → Prop) : List Expr → String → Prop where
  | here {e : Expr} {rest : List Expr} {n : String} : Leftmost property e n → LeftmostAmong property (e :: rest) n
  | later {e : Expr} {rest : List Expr} {n : String} : (∀ m, Within (.name m) e → ¬ property m) →
      LeftmostAmong property rest n → LeftmostAmong property (e :: rest) n

end

variable {property : String → Prop} [DecidablePred property]

mutual

theorem find?_references_iff {n : String} :
    (e : Expr) → (e.references.find? (property ·) = some n ↔ Leftmost property e n)
  | .range _ _ => by
    simp only [references, List.find?_nil, reduceCtorEq, false_iff]
    rintro ⟨⟩
  | .literal _ => by
    simp only [references, List.find?_nil, reduceCtorEq, false_iff]
    rintro ⟨⟩
  | .sequence items => by
    rw [references, find?_referencesAll_iff items]
    constructor
    · exact .sequence
    · rintro ⟨⟩
      assumption
  | .alternative items => by
    rw [references, find?_referencesAll_iff items]
    constructor
    · exact .alternative
    · rintro ⟨⟩
      assumption
  | .repetition body => by
    rw [references, find?_references_iff body]
    constructor
    · exact .repetition
    · rintro ⟨⟩
      assumption
  | .option body => by
    rw [references, find?_references_iff body]
    constructor
    · exact .option
    · rintro ⟨⟩
      assumption
  | .group body => by
    rw [references, find?_references_iff body]
    constructor
    · exact .group
    · rintro ⟨⟩
      assumption
  | .name m => by
    rw [references, List.find?_singleton]
    constructor
    · intro found
      split at found
      · rename_i holds
        cases found
        exact .name (of_decide_eq_true holds)
      · cases found
    · rintro ⟨holds⟩
      exact if_pos (decide_eq_true holds)
  | .complement body => by
    rw [references, find?_references_iff body]
    constructor
    · exact .complement
    · rintro ⟨⟩
      assumption

theorem find?_referencesAll_iff {n : String} :
    (es : List Expr) → ((referencesAll es).find? (property ·) = some n ↔ LeftmostAmong property es n)
  | [] => by
    simp only [referencesAll, List.find?_nil, reduceCtorEq, false_iff]
    rintro ⟨⟩
  | e :: rest => by
    have none : e.references.find? (property ·) = none ↔ ∀ m, Within (.name m) e → ¬ property m := by
      simp [List.find?_eq_none, mem_references_iff]
    rw [referencesAll, List.find?_append, Option.or_eq_some_iff, find?_references_iff e, none,
      find?_referencesAll_iff rest]
    constructor
    · rintro (here | ⟨nothing, later⟩)
      · exact .here here
      · exact .later nothing later
    · rintro (here | ⟨nothing, later⟩)
      · exact .inl here
      · exact .inr ⟨nothing, later⟩

end

end Expr

namespace Grammar

variable {g : Grammar} {start : String}

/-! ## Productions by their names -/

theorem get?_of_mem {p : Production} (member : p ∈ g.productions) : g.get? p.name = some p := by
  obtain ⟨ps, ascending⟩ := g
  simp only [get?] at *
  induction ps with
  | nil => cases member
  | cons q rest ih =>
    have ⟨first, others⟩ := List.pairwise_cons.mp ascending
    rcases List.mem_cons.mp member with rfl | later
    · exact List.find?_cons_of_pos (decide_eq_true rfl)
    · have other : q.name ≠ p.name := Std.ne_of_lt (first p later)
      rw [List.find?_cons_of_neg (by simpa using other)]
      exact ih others later

theorem mem_of_get? {n : String} {p : Production} (found : g.get? n = some p) : p ∈ g.productions :=
  List.mem_of_find?_eq_some found

theorem defines_of_mem {p : Production} (member : p ∈ g.productions) : g.Defines p.name := by
  simp [Defines, get?_of_mem member]

theorem refers_iff {a b : String} : g.Refers a b ↔ ∃ p ∈ g.productions, p.name = a ∧ Expr.Within (.name b) p.body := by
  constructor
  · rintro ⟨p, found, member⟩
    exact ⟨p, mem_of_get? found, name_of_get? found, (Expr.mem_references_iff p.body).mp member⟩
  · rintro ⟨p, member, rfl, inside⟩
    exact ⟨p, get?_of_mem member, (Expr.mem_references_iff p.body).mpr inside⟩

/-! ## What a search leaves over -/

/-- A production of a name is left over. -/
def IsLeft (left : List Production) (n : String) : Prop := ∃ p ∈ left, p.name = n

theorem not_isLeft_iff {left : List Production} {n : String} :
    ¬ IsLeft left n ↔ left.find? (·.name = n) = none := by
  simp [IsLeft]

/-- A search from `start` stands at some productions that are left over and some names that are pending: it has
    gone nowhere but along chains of references, and every reference it has not followed is pending. -/
structure Searched (g : Grammar) (start : String) (left : List Production) (pending : List String) : Prop where
  sublist : left.Sublist g.productions
  pending_reached : ∀ n ∈ pending, g.Reaches start n
  taken_reached : ∀ p ∈ g.productions, p ∉ left → g.Reaches start p.name
  start_met : IsLeft left start → start ∈ pending
  references_met : ∀ a b, ¬ IsLeft left a → g.Refers a b → IsLeft left b → b ∈ pending

theorem searched_start : g.Searched start g.productions [start] where
  sublist := List.Sublist.refl _
  pending_reached n member := by
    rw [List.mem_singleton.mp member]
    exact .refl
  taken_reached p member missing := absurd member missing
  start_met _ := List.mem_singleton_self start
  references_met a b taken refers := by
    obtain ⟨p, member, named, -⟩ := refers_iff.mp refers
    exact absurd ⟨p, member, named⟩ taken

theorem Searched.drop {left : List Production} {n : String} {pending : List String}
    (h : g.Searched start left (n :: pending)) (missing : left.find? (·.name = n) = none) :
    g.Searched start left pending where
  sublist := h.sublist
  pending_reached m member := h.pending_reached m (List.mem_cons_of_mem n member)
  taken_reached := h.taken_reached
  start_met isLeft := by
    rcases List.mem_cons.mp (h.start_met isLeft) with rfl | later
    · exact absurd isLeft (not_isLeft_iff.mpr missing)
    · exact later
  references_met a b taken refers isLeft := by
    rcases List.mem_cons.mp (h.references_met a b taken refers isLeft) with rfl | later
    · exact absurd isLeft (not_isLeft_iff.mpr missing)
    · exact later

theorem Searched.take {left : List Production} {n : String} {pending : List String} {p : Production}
    (h : g.Searched start left (n :: pending)) (found : left.find? (·.name = n) = some p) :
    g.Searched start (without n left) (p.body.references ++ pending) := by
  have named : p.name = n := by simpa using List.find?_some found
  have member : p ∈ g.productions := h.sublist.subset (List.mem_of_find?_eq_some found)
  have reached : g.Reaches start n := h.pending_reached n List.mem_cons_self
  have isLeft_of_without {m : String} (isLeft : IsLeft (without n left) m) : IsLeft left m ∧ m ≠ n := by
    obtain ⟨q, among, rfl⟩ := isLeft
    simp only [without, List.mem_filter, decide_eq_true_eq] at among
    exact ⟨⟨q, among.1, rfl⟩, among.2⟩
  refine ⟨List.filter_sublist.trans h.sublist, ?_, ?_, ?_, ?_⟩
  · intro m among
    rcases List.mem_append.mp among with here | later
    · have refers : g.Refers n m := ⟨p, named ▸ get?_of_mem member, here⟩
      exact .step reached refers
    · exact h.pending_reached m (List.mem_cons_of_mem n later)
  · intro q among taken
    by_cases before : q ∈ left
    · have same : q.name = n := by simpa [without, before] using taken
      rw [same]
      exact reached
    · exact h.taken_reached q among before
  · intro isLeft
    have ⟨before, other⟩ := isLeft_of_without isLeft
    rcases List.mem_cons.mp (h.start_met before) with same | later
    · exact absurd same other
    · exact List.mem_append_right _ later
  · intro a b taken refers isLeft
    have ⟨before, other⟩ := isLeft_of_without isLeft
    by_cases here : a = n
    · obtain ⟨q, found', inside⟩ := refers
      rw [here, ← named, get?_of_mem member] at found'
      cases found'
      exact List.mem_append_left _ inside
    · have takenBefore : ¬ IsLeft left a := by
        rintro ⟨q, among, rfl⟩
        exact taken ⟨q, by simp [without, among, here], rfl⟩
      rcases List.mem_cons.mp (h.references_met a b takenBefore refers before) with same | later
      · exact absurd same other
      · exact List.mem_append_right _ later

theorem Searched.run {left : List Production} {pending : List String} (h : g.Searched start left pending) :
    g.Searched start (unreached left pending) [] := by
  induction left, pending using unreached.induct with
  | case1 left =>
    rw [unreached]
    exact h
  | case2 left n pending missing ih =>
    rw [unreached]
    split
    · exact ih (h.drop missing)
    · rename_i p found
      rw [missing] at found
      cases found
  | case3 left n pending p found ih =>
    rw [unreached]
    split
    · rename_i missing
      rw [found] at missing
      cases missing
    · rename_i q again
      rw [found] at again
      cases again
      exact ih (h.take found)

/-- Where nothing is pending, nothing that is reached is left over. -/
theorem Searched.not_isLeft_of_reaches {left : List Production} (h : g.Searched start left []) {n : String}
    (chain : g.Reaches start n) : ¬ IsLeft left n := by
  induction chain with
  | refl => exact fun isLeft => List.not_mem_nil (h.start_met isLeft)
  | step _ refers ih => exact fun isLeft => List.not_mem_nil (h.references_met _ _ ih refers isLeft)

/-- The productions that a search from the start leaves over are those that no chain of references leads to. -/
theorem mem_unreached_iff {p : Production} :
    p ∈ unreached g.productions [start] ↔ p ∈ g.productions ∧ ¬ g.Reaches start p.name := by
  have searched : g.Searched start (unreached g.productions [start]) [] := searched_start.run
  constructor
  · intro member
    exact ⟨searched.sublist.subset member, fun chain => searched.not_isLeft_of_reaches chain ⟨p, member, rfl⟩⟩
  · rintro ⟨member, away⟩
    by_cases isLeft : p ∈ unreached g.productions [start]
    · exact isLeft
    · exact absurd (searched.taken_reached p member isLeft) away

/-! ## Flaws -/

/-- A name without a definition occurs in a production. -/
def Dangling (g : Grammar) (p : Production) : Prop := ∃ n, Expr.Within (.name n) p.body ∧ ¬ g.Defines n

/-- The start is defined, every name that occurs is, and every production is reached from the start. -/
structure Flawless (g : Grammar) (start : String) : Prop where
  defined : g.Defines start
  closed : ∀ p ∈ g.productions, ¬ g.Dangling p
  connected : ∀ p ∈ g.productions, g.Reaches start p.name

/-- A production has a property, and of those that have it its name is the least. -/
def IsLeast (g : Grammar) (property : Production → Prop) (p : Production) : Prop :=
  (p ∈ g.productions ∧ property p) ∧ ∀ q ∈ g.productions, property q → p.name ≤ q.name

theorem IsLeast.unique {property : Production → Prop} {p q : Production} (left : g.IsLeast property p)
    (right : g.IsLeast property q) : p = q := by
  have same : p.name = q.name :=
    Std.le_antisymm (left.2 q right.1.1 right.1.2) (right.2 p left.1.1 left.1.2)
  have found := get?_of_mem left.1.1
  rw [same, get?_of_mem right.1.1] at found
  exact (Option.some.inj found).symm

/-- What is wrong with a grammar, and comes before all else that is. -/
inductive FirstFlaw (g : Grammar) (start : String) : Flaw → Prop where
  | missingStart : ¬ g.Defines start → FirstFlaw g start (.missingStart start)
  | undefined {p : Production} {missing : String} : g.Defines start → g.IsLeast g.Dangling p →
      p.body.Leftmost (¬ g.Defines ·) missing → FirstFlaw g start (.undefined p.name missing)
  | unreachable {p : Production} : g.Defines start → (∀ q ∈ g.productions, ¬ g.Dangling q) →
      g.IsLeast (¬ g.Reaches start ·.name) p → FirstFlaw g start (.unreachable p.name start)

theorem undefinedReference?_eq_some_iff {p : Production} {flaw : Flaw} :
    g.undefinedReference? p = some flaw ↔
      ∃ missing, p.body.Leftmost (¬ g.Defines ·) missing ∧ flaw = .undefined p.name missing := by
  rw [undefinedReference?, Option.map_eq_some_iff]
  constructor
  · rintro ⟨missing, found, rfl⟩
    exact ⟨missing, (Expr.find?_references_iff p.body).mp found, rfl⟩
  · rintro ⟨missing, leftmost, rfl⟩
    exact ⟨missing, (Expr.find?_references_iff p.body).mpr leftmost, rfl⟩

theorem undefinedReference?_eq_none_iff {p : Production} : g.undefinedReference? p = none ↔ ¬ g.Dangling p := by
  simp [undefinedReference?, List.find?_eq_none, Dangling, Expr.mem_references_iff]

/-- The production that stands first with a property is the least one. -/
theorem isLeast_of_first {ps qs : List Production} {p : Production} {property : Production → Prop}
    (split : g.productions = ps ++ p :: qs) (holds : property p) (before : ∀ q ∈ ps, ¬ property q) :
    g.IsLeast property p := by
  have ascending := g.ascending
  rw [split, List.pairwise_append, List.pairwise_cons] at ascending
  refine ⟨⟨by simp [split], holds⟩, ?_⟩
  intro q member other
  rw [split] at member
  rcases List.mem_append.mp member with earlier | later
  · exact absurd other (before q earlier)
  rcases List.mem_cons.mp later with rfl | later
  · exact Std.le_refl _
  · exact Std.le_of_lt (ascending.2.1.1 q later)

theorem isLeast_of_head? {p : Production} (head : (unreached g.productions [start]).head? = some p) :
    g.IsLeast (¬ g.Reaches start ·.name) p := by
  obtain ⟨others, split⟩ := List.head?_eq_some_iff.mp head
  have searched : g.Searched start (unreached g.productions [start]) [] := searched_start.run
  have ascending := g.ascending.sublist searched.sublist
  rw [split] at ascending
  refine ⟨mem_unreached_iff.mp (split ▸ List.mem_cons_self), ?_⟩
  intro q member away
  have left := mem_unreached_iff.mpr ⟨member, away⟩
  rw [split] at left
  rcases List.mem_cons.mp left with rfl | later
  · exact Std.le_refl _
  · exact Std.le_of_lt ((List.pairwise_cons.mp ascending).1 q later)

theorem flawless_of_flaw? (h : g.flaw? start = none) : g.Flawless start := by
  unfold flaw? at h
  split at h
  · cases h
  rename_i defined
  split at h
  · cases h
  rename_i closed
  rw [Option.map_eq_none_iff, List.head?_eq_none_iff] at h
  refine ⟨Classical.not_not.mp defined, ?_, ?_⟩
  · intro p member
    exact undefinedReference?_eq_none_iff.mp (List.findSome?_eq_none_iff.mp closed p member)
  · intro p member
    apply Classical.not_not.mp
    intro away
    have left := mem_unreached_iff.mpr ⟨member, away⟩
    rw [h] at left
    exact List.not_mem_nil left

theorem firstFlaw_of_flaw? {flaw : Flaw} (h : g.flaw? start = some flaw) : g.FirstFlaw start flaw := by
  unfold flaw? at h
  split at h
  · rename_i missing
    cases h
    exact .missingStart missing
  rename_i defined
  rw [Classical.not_not] at defined
  split at h
  · rename_i found
    cases h
    obtain ⟨ps, p, qs, split, here, before⟩ := List.findSome?_eq_some_iff.mp found
    obtain ⟨missing, leftmost, rfl⟩ := undefinedReference?_eq_some_iff.mp here
    have dangling : g.Dangling p := by
      by_cases closed : g.Dangling p
      · exact closed
      · rw [undefinedReference?_eq_none_iff.mpr closed] at here
        cases here
    have least : g.IsLeast g.Dangling p :=
      isLeast_of_first split dangling fun q earlier => undefinedReference?_eq_none_iff.mp (before q earlier)
    exact .undefined defined least leftmost
  · rename_i closed
    obtain ⟨p, head, rfl⟩ := Option.map_eq_some_iff.mp h
    refine .unreachable defined ?_ (isLeast_of_head? head)
    intro q member
    exact undefinedReference?_eq_none_iff.mp (List.findSome?_eq_none_iff.mp closed q member)

theorem Flawless.not_firstFlaw (h : g.Flawless start) (flaw : Flaw) : ¬ g.FirstFlaw start flaw := by
  rintro (missing | ⟨-, least, -⟩ | ⟨-, -, least⟩)
  · exact missing h.defined
  · exact h.closed _ least.1.1 least.1.2
  · exact least.1.2 (h.connected _ least.1.1)

theorem FirstFlaw.unique {flaw flaw' : Flaw} (left : g.FirstFlaw start flaw) (right : g.FirstFlaw start flaw') :
    flaw = flaw' := by
  cases left with
  | missingStart missing =>
    cases right with
    | missingStart _ => rfl
    | undefined defined => exact absurd defined missing
    | unreachable defined => exact absurd defined missing
  | undefined defined least leftmost =>
    cases right with
    | missingStart missing => exact absurd defined missing
    | undefined _ least' leftmost' =>
      cases least.unique least'
      have found := (Expr.find?_references_iff _).mpr leftmost
      rw [(Expr.find?_references_iff _).mpr leftmost'] at found
      rw [Option.some.inj found]
    | unreachable _ closed => exact absurd least.1.2 (closed _ least.1.1)
  | unreachable defined closed least =>
    cases right with
    | missingStart missing => exact absurd defined missing
    | undefined _ least' => exact absurd least'.1.2 (closed _ least'.1.1)
    | unreachable _ _ least' => rw [least.unique least']

/-- A grammar is told to have no flaw if it has none, and otherwise the first one it has. -/
theorem flaw?_tells_first (g : Grammar) (start : String) :
    (g.flaw? start = none ↔ g.Flawless start) ∧ ∀ flaw, g.flaw? start = some flaw ↔ g.FirstFlaw start flaw := by
  refine ⟨⟨flawless_of_flaw?, ?_⟩, fun flaw => ⟨firstFlaw_of_flaw?, ?_⟩⟩
  · intro flawless
    cases told : g.flaw? start with
    | none => rfl
    | some flaw => exact absurd (firstFlaw_of_flaw? told) (flawless.not_firstFlaw flaw)
  · intro first
    cases told : g.flaw? start with
    | none => exact absurd first ((flawless_of_flaw? told).not_firstFlaw flaw)
    | some other => rw [(firstFlaw_of_flaw? told).unique first]

end Grammar

end RegularGrammar
