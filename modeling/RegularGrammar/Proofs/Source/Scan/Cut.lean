import RegularGrammar.Proofs.Source.Gap

/-!
# Text measured in bytes

A place in a text can be told by the bytes before it. The text can be cut there if some of its
characters take exactly these bytes, and the first place of a kind is told by its bytes as well.
-/

namespace RegularGrammar.Source

/-- What stands before and after a number of bytes, if no character lies across. -/
def cut? : List Char → Nat → Option (List Char × List Char)
  | cs, 0 => some ([], cs)
  | [], _ + 1 => none
  | c :: cs, n + 1 =>
    if c.utf8Size ≤ n + 1 then (cut? cs (n + 1 - c.utf8Size)).map fun (u, v) => (c :: u, v) else none

theorem cut?_eq_some_iff {cs u v : List Char} {n : Nat} : cut? cs n = some (u, v) ↔ cs = u ++ v ∧ utf8Length u = n := by
  fun_induction cut? cs n generalizing u with
  | case1 cs =>
    cases u with
    | nil => simp [utf8Length]
    | cons d u =>
      have := d.utf8Size_pos
      simp only [Option.some.injEq, Prod.mk.injEq, List.nil_eq, List.cons_ne_nil, false_and, false_iff, utf8Length]
      omega
  | case2 n =>
    simp only [reduceCtorEq, List.nil_eq_append_iff, false_iff]
    rintro ⟨⟨rfl, -⟩, length⟩
    cases length
  | case3 c cs n fits ih =>
    rw [Option.map_eq_some_iff]
    constructor
    · rintro ⟨⟨u, v⟩, found, same⟩
      cases same
      obtain ⟨rfl, length⟩ := ih.mp found
      refine ⟨rfl, ?_⟩
      rw [utf8Length, length]
      omega
    · rintro ⟨split, length⟩
      cases u with
      | nil => cases length
      | cons d u =>
        obtain ⟨rfl, rest⟩ := List.cons.inj split
        rw [utf8Length] at length
        exact ⟨(u, v), ih.mpr ⟨rest, by omega⟩, rfl⟩
  | case4 c cs n across =>
    simp only [reduceCtorEq, false_iff]
    rintro ⟨split, length⟩
    cases u with
    | nil => cases length
    | cons d u =>
      obtain ⟨rfl, -⟩ := List.cons.inj split
      rw [utf8Length] at length
      omega

@[simp]
theorem cut?_append (u v : List Char) : cut? (u ++ v) (utf8Length u) = some (u, v) := cut?_eq_some_iff.mpr ⟨rfl, rfl⟩

/-- Characters can be cut at the positions that are valid in their encoding, and at no others. -/
theorem cut?_isSome_iff {cs : List Char} {n : Nat} :
    (cut? cs n).isSome = true ↔ (⟨n⟩ : String.Pos.Raw).IsValid (String.ofList cs) := by
  rw [Option.isSome_iff_exists, String.Pos.Raw.isValid_iff_exists_append]
  constructor
  · rintro ⟨⟨u, v⟩, cut⟩
    obtain ⟨rfl, rfl⟩ := cut?_eq_some_iff.mp cut
    refine ⟨String.ofList u, String.ofList v, String.ofList_append, ?_⟩
    simp [String.rawEndPos]
  · rintro ⟨u, v, same, place⟩
    refine ⟨(u.toList, v.toList), cut?_eq_some_iff.mpr ⟨?_, ?_⟩⟩
    · rw [← String.toList_append, ← same, String.toList_ofList]
    · rw [utf8Length_toList]
      exact (congrArg String.Pos.Raw.byteIdx place).symm

/-- The bytes before the first place from where the text goes on as it is wanted to. -/
def seek? (wanted : List Char → Bool) : List Char → Option Nat
  | [] => none
  | c :: cs => if wanted (c :: cs) then some 0 else (seek? wanted cs).map (c.utf8Size + ·)

/-- The text goes on with a character of some kind. -/
def goesOn (kind : Char → Bool) (cs : List Char) : Bool := cs.head?.any kind

/-- The text goes on with the sign that closes a block comment. -/
def closesComment (cs : List Char) : Bool := ['*', '/'].isPrefixOf cs

theorem seek?_goesOn {kind : Char → Bool} {u : List Char} (others : ∀ c ∈ u, kind c = false) {d : Char}
    (here : kind d = true) (v : List Char) : seek? (goesOn kind) (u ++ d :: v) = some (utf8Length u) := by
  induction u with
  | nil => simp [seek?, goesOn, here, utf8Length]
  | cons c u ih =>
    rw [List.forall_mem_cons] at others
    simp [seek?, goesOn, others.1, ih others.2, utf8Length]

theorem seek?_goesOn_eq_none {kind : Char → Bool} {cs : List Char} (others : ∀ c ∈ cs, kind c = false) :
    seek? (goesOn kind) cs = none := by
  induction cs with
  | nil => rfl
  | cons c cs ih =>
    rw [List.forall_mem_cons] at others
    simp [seek?, goesOn, others.1, ih others.2]

section

variable {d : Char}

theorem decide_eq_false_of_not_mem {cs : List Char} (absent : d ∉ cs) : ∀ c ∈ cs, decide (c = d) = false := by
  intro c member
  rw [decide_eq_false_iff_not]
  rintro rfl
  exact absent member

theorem seek?_char {u : List Char} (first : d ∉ u) (v : List Char) :
    seek? (goesOn (· = d)) (u ++ d :: v) = some (utf8Length u) :=
  seek?_goesOn (decide_eq_false_of_not_mem first) (decide_eq_true rfl) v

theorem seek?_char_eq_none {cs : List Char} (absent : d ∉ cs) : seek? (goesOn (· = d)) cs = none :=
  seek?_goesOn_eq_none (decide_eq_false_of_not_mem absent)

end

@[simp]
theorem closesComment_cons {c : Char} {cs : List Char} :
    closesComment (c :: cs) = true ↔ c = '*' ∧ cs.head? = some '/' := by
  cases cs with
  | nil => simp [closesComment, List.isPrefixOf]
  | cons d cs =>
    simp only [closesComment, List.isPrefixOf_iff_prefix, List.cons_prefix_cons, List.nil_prefix, and_true, List.head?_cons,
      Option.some.injEq]
    exact and_congr eq_comm eq_comm

theorem seek?_closesComment {body : List Char} (unclosed : Unclosed body) (rest : List Char) :
    seek? closesComment (body ++ '*' :: '/' :: rest) = some (utf8Length body) := by
  induction body with
  | nil => rfl
  | cons c body ih =>
    obtain ⟨others, here⟩ := unclosed_cons.mp unclosed
    rw [List.cons_append, seek?, if_neg (mt closesComment_cons.mp (not_closed_append here rest)), ih others]
    rfl

theorem seek?_closesComment_eq_none {body : List Char} (unclosed : Unclosed body) : seek? closesComment body = none := by
  induction body with
  | nil => rfl
  | cons c body ih =>
    obtain ⟨others, here⟩ := unclosed_cons.mp unclosed
    rw [seek?, if_neg (mt closesComment_cons.mp here), ih others]
    rfl

end RegularGrammar.Source
