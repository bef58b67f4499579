import RegularGrammar.Proofs.Pattern.Items

/-!
# Patterns are read in one way

Two patterns of one text are one pattern. What may come after an atom is known:
a quantifier, another atom, or the end of the items, which is the end of the text,
a bar or a parenthesis. No atom begins with any of the last.
-/

namespace RegularGrammar.Pattern

theorem opening_mem (d : Dialect) : '[' ∈ metacharacters d ∧ '(' ∈ metacharacters d := by
  cases d <;> decide

theorem Spelling.WellFormed.ne_token {d : Dialect} {s : Spelling} (h : s.WellFormed (metacharacters d))
    (t : Token) {u v : List Char} : s.text d ++ u ≠ t.text d ++ v := by
  have distinct := distinct_metacharacters d
  cases d <;> cases t
  case rust.beginText => exact h.ne_backslash_cons distinct (by decide) (by decide)
  case rust.endText => exact h.ne_backslash_cons distinct (by decide) (by decide)
  all_goals exact h.ne_cons (by decide) (by decide)

theorem setText_append {d : Dialect} {negated : Bool} {members : List Member} {u : List Char} :
    setText d negated members ++ u =
      '[' :: ((if negated then ['^'] else []) ++ (membersText d members ++ ']' :: u)) := by
  cases negated <;> simp [setText]

/-- The members of a class never begin with a caret, so it is seen whether the class is negated. -/
theorem set_append_inj {d : Dialect} {b c : Bool} {ms ns : List Member} (left : ∀ m ∈ ms, m.WellFormed d)
    (right : ∀ n ∈ ns, n.WellFormed d) {u v : List Char}
    (h : setText d b ms ++ u = setText d c ns ++ v) : b = c ∧ ms = ns ∧ u = v := by
  rw [setText_append, setText_append] at h
  have inside := (List.cons.inj h).2
  cases b <;> cases c
  · exact ⟨rfl, members_append_inj left right inside⟩
  · exact absurd inside (members_ne_cons left (caret_mem d) (by decide) (by decide))
  · exact absurd inside.symm (members_ne_cons right (caret_mem d) (by decide) (by decide))
  · exact ⟨rfl, members_append_inj left right (List.cons.inj inside).2⟩

/-- The token of no character in `rust`, taken as a class. -/
def noMember : Member := .span (.codePoint ['0']) (.codePoint ['1', '0', 'F', 'F', 'F', 'F'])

theorem noMember_wellFormed : noMember.WellFormed .rust := by
  have first : Spelling.value? (.codePoint ['0']) = some Scalar.first := by decide
  have last : Spelling.value? (.codePoint ['1', '0', 'F', 'F', 'F', 'F']) = some Scalar.last := by decide
  exact ⟨⟨by decide, _, first⟩, ⟨by decide, _, last⟩, _, _, first, last, Scalar.first_le _⟩

/-- A class that has members shows one of them. -/
theorem set_ne_brackets {d : Dialect} {negated : Bool} {ms : List Member} (nonempty : ms ≠ [])
    (members : ∀ m ∈ ms, m.WellFormed d) {u v : List Char} : setText d negated ms ++ u ≠ '[' :: ']' :: v := by
  obtain ⟨m, rest, rfl⟩ := List.exists_cons_of_ne_nil nonempty
  intro same
  rw [setText_append] at same
  cases negated
  · simp only [membersText, List.flatMap_cons, List.append_assoc] at same
    exact (members m List.mem_cons_self).ne_cons (bracket_mem d) (by decide) (List.cons.inj same).2
  · cases (List.cons.inj (List.cons.inj same).2).1

/-- The token of no character in `rust` is written like a class. -/
theorem noCharacter_rust : Token.noCharacter.text .rust = setText .rust true [noMember] := rfl

theorem set_ne_token {d : Dialect} {negated : Bool} {ms : List Member}
    (h : (Atom.set negated ms).WellFormed d) (t : Token) {u v : List Char} :
    setText d negated ms ++ u ≠ t.text d ++ v := by
  obtain ⟨nonempty, members, notToken⟩ := h
  intro same
  cases d <;> cases t
  case rust.noCharacter =>
    rw [noCharacter_rust] at same notToken
    obtain ⟨rfl, rfl, -⟩ := set_append_inj members (List.forall_mem_singleton.mpr noMember_wellFormed) same
    exact notToken rfl
  case ecmaScript.noCharacter => exact set_ne_brackets nonempty members same
  case ecmaScript.anyCharacter =>
    rw [setText_append] at same
    obtain ⟨m, rest, rfl⟩ := List.exists_cons_of_ne_nil nonempty
    cases negated
    · simp only [membersText, List.flatMap_cons, List.append_assoc] at same
      exact (members m List.mem_cons_self).ne_backslash_cons (by decide) (by decide) (List.cons.inj same).2
    · cases (List.cons.inj (List.cons.inj same).2).1
  all_goals
    rw [setText_append] at same
    cases (List.cons.inj same).1

theorem token_append_inj {d : Dialect} {s t : Token} {u v : List Char} (h : s.text d ++ u = t.text d ++ v) :
    s = t ∧ u = v := by
  cases d <;> cases s <;> cases t <;> simp_all [Token.text]

theorem token_ne_group {d : Dialect} {t : Token} {u v : List Char} : t.text d ++ u ≠ '(' :: '?' :: ':' :: v := by
  cases d <;> cases t <;> simp [Token.text]

/-- The characters that no atom begins with. -/
def trailers : List Char := ['|', ')', '*', '+', '?']

theorem trailer_mem (d : Dialect) : ∀ c ∈ trailers, c ∈ metacharacters d ∧ c ≠ '\\' := by
  cases d <;> simp [trailers, metacharacters]

theorem token_ne_trailer {d : Dialect} {t : Token} {c : Char} (trailer : c ∈ trailers) {u v : List Char} :
    t.text d ++ u ≠ c :: v := by
  have first : ∀ c ∈ trailers, (t.text d).head? ≠ some c := by cases d <;> cases t <;> simp [trailers, Token.text]
  have nonempty : t.text d ≠ [] := by cases d <;> cases t <;> decide
  obtain ⟨e, rest, begins⟩ := List.exists_cons_of_ne_nil nonempty
  intro same
  rw [begins] at same first
  obtain ⟨rfl, -⟩ := List.cons.inj same
  exact first _ trailer rfl

theorem Atom.WellFormed.ne_trailer {d : Dialect} {a : Atom} (h : a.WellFormed d) {c : Char} (trailer : c ∈ trailers)
    {u v : List Char} : a.text d ++ u ≠ c :: v := by
  intro same
  cases a with
  | char s =>
    obtain ⟨special, other⟩ := trailer_mem d c trailer
    exact Spelling.WellFormed.ne_cons h special other same
  | set negated members =>
    rw [Atom.text, setText_append] at same
    obtain ⟨rfl, -⟩ := List.cons.inj same
    exact absurd trailer (by decide)
  | token t => exact token_ne_trailer trailer same
  | group branches =>
    obtain ⟨rfl, -⟩ := List.cons.inj same
    exact absurd trailer (by decide)

/-- A text may come after items: it is empty, or begins with a bar or a parenthesis. -/
def Ends (u : List Char) : Prop := ∀ c v, u = c :: v → c = '|' ∨ c = ')'

theorem ends_nil : Ends [] := by
  intro c v same
  cases same

theorem ends_bar {u : List Char} : Ends ('|' :: u) := by
  rintro c v ⟨⟩
  exact .inl rfl

theorem ends_parenthesis {u : List Char} : Ends (')' :: u) := by
  rintro c v ⟨⟩
  exact .inr rfl

theorem Spelling.text_ne_nil {d : Dialect} {s : Spelling} : s.text d ≠ [] := by
  cases s <;> cases d <;> simp [Spelling.text]

theorem Atom.text_ne_nil {d : Dialect} {a : Atom} : a.text d ≠ [] := by
  cases a with
  | char s => exact Spelling.text_ne_nil
  | set negated members => simp [Atom.text, setText]
  | token t => cases d <;> cases t <;> simp [Atom.text, Token.text]
  | group branches => simp [Atom.text]

theorem Atom.WellFormed.ne_end {d : Dialect} {a : Atom} (h : a.WellFormed d) {u v : List Char} (ends : Ends u) :
    a.text d ++ v ≠ u := by
  rintro rfl
  obtain ⟨c, rest, begins⟩ := List.exists_cons_of_ne_nil (Atom.text_ne_nil (d := d) (a := a))
  have same : a.text d ++ v = c :: (rest ++ v) := by rw [begins, List.cons_append]
  rcases ends c _ same with rfl | rfl
  · exact h.ne_trailer (by decide) same
  · exact h.ne_trailer (by decide) same

theorem quantifier_trailer (q : Quantifier) : q.sign ∈ trailers ∧ q.sign ≠ '|' ∧ q.sign ≠ ')' := by
  cases q <;> decide

/-- The sign of a quantifier comes after an atom and nowhere else. -/
theorem items_ne_sign {d : Dialect} {p : Items} (h : p.WellFormed d) {u : List Char} (ends : Ends u)
    (q : Quantifier) {v : List Char} : p.text d ++ u ≠ q.sign :: v := by
  obtain ⟨trailer, notBar, notParenthesis⟩ := quantifier_trailer q
  intro same
  cases p with
  | nil =>
    rcases ends _ _ same with bar | parenthesis
    · exact notBar bar
    · exact notParenthesis parenthesis
  | cons atom quantifier rest =>
    rw [Items.text, List.append_assoc, List.append_assoc] at same
    exact h.1.ne_trailer trailer same

theorem quantifierText_append_inj {p q : Option Quantifier} {u v : List Char} (left : ∀ s w, u ≠ Quantifier.sign s :: w)
    (right : ∀ s w, v ≠ Quantifier.sign s :: w) (h : quantifierText p ++ u = quantifierText q ++ v) :
    p = q ∧ u = v := by
  cases p with
  | none =>
    cases q with
    | none => exact ⟨rfl, h⟩
    | some t => exact absurd h (left t _)
  | some s =>
    cases q with
    | none => exact absurd h.symm (right s _)
    | some t =>
      obtain ⟨sign, rest⟩ := List.cons.inj h
      refine ⟨?_, rest⟩
      cases s <;> cases t <;> simp_all [Quantifier.sign]

theorem Atom.group_text {d : Dialect} {branches : Branches} {u : List Char} :
    (Atom.group branches).text d ++ u = '(' :: '?' :: ':' :: (branches.text d ++ ')' :: u) := by
  simp [Atom.text]

mutual

theorem atom_append_inj {d : Dialect} : {a b : Atom} → a.WellFormed d → b.WellFormed d → {u v : List Char} →
    a.text d ++ u = b.text d ++ v → a = b ∧ u = v
  | .char s, b, left, right, u, v, h => by
    cases b with
    | char t =>
      obtain ⟨rfl, rest⟩ := spelling_append_inj (distinct_metacharacters d) left right h
      exact ⟨rfl, rest⟩
    | set negated members =>
      rw [Atom.text, Atom.text, setText_append] at h
      exact absurd h (Spelling.WellFormed.ne_cons left (opening_mem d).1 (by decide))
    | token t => exact absurd h (Spelling.WellFormed.ne_token left t)
    | group branches => exact absurd h (Spelling.WellFormed.ne_cons left (opening_mem d).2 (by decide))
  | .set negated members, b, left, right, u, v, h => by
    cases b with
    | char t =>
      rw [Atom.text, Atom.text, setText_append] at h
      exact absurd h.symm (Spelling.WellFormed.ne_cons right (opening_mem d).1 (by decide))
    | set negated' members' =>
      obtain ⟨rfl, rfl, rest⟩ := set_append_inj left.2.1 right.2.1 h
      exact ⟨rfl, rest⟩
    | token t => exact absurd h (set_ne_token left t)
    | group branches =>
      rw [Atom.text, setText_append] at h
      cases (List.cons.inj h).1
  | .token s, b, left, right, u, v, h => by
    cases b with
    | char t => exact absurd h.symm (Spelling.WellFormed.ne_token right s)
    | set negated members => exact absurd h.symm (set_ne_token right s)
    | token t =>
      obtain ⟨rfl, rest⟩ := token_append_inj h
      exact ⟨rfl, rest⟩
    | group branches => exact absurd h token_ne_group
  | .group branches, b, left, right, u, v, h => by
    cases b with
    | char t => exact absurd h.symm (Spelling.WellFormed.ne_cons right (opening_mem d).2 (by decide))
    | set negated members =>
      rw [Atom.text, Atom.text, setText_append] at h
      cases (List.cons.inj h).1
    | token t => exact absurd h.symm token_ne_group
    | group branches' =>
      rw [Atom.group_text, Atom.group_text] at h
      simp only [List.cons.injEq, true_and] at h
      obtain ⟨rfl, rest⟩ := branches_append_inj left right h
      exact ⟨rfl, rest⟩

theorem items_append_inj {d : Dialect} : {p q : Items} → p.WellFormed d → q.WellFormed d → {u v : List Char} →
    Ends u → Ends v → p.text d ++ u = q.text d ++ v → p = q ∧ u = v
  | .nil, q, left, right, u, v, leftEnds, rightEnds, h => by
    cases q with
    | nil => exact ⟨rfl, h⟩
    | cons atom quantifier rest =>
      rw [Items.text, Items.text, List.append_assoc, List.append_assoc] at h
      exact absurd h.symm (right.1.ne_end leftEnds)
  | .cons atom quantifier rest, q, left, right, u, v, leftEnds, rightEnds, h => by
    cases q with
    | nil =>
      rw [Items.text, Items.text, List.append_assoc, List.append_assoc] at h
      exact absurd h (left.1.ne_end rightEnds)
    | cons atom' quantifier' rest' =>
      simp only [Items.text, List.append_assoc] at h
      obtain ⟨rfl, afterAtom⟩ := atom_append_inj left.1 right.1 h
      obtain ⟨rfl, afterQuantifier⟩ := quantifierText_append_inj (fun s _ => items_ne_sign left.2 leftEnds s)
        (fun s _ => items_ne_sign right.2 rightEnds s) afterAtom
      obtain ⟨rfl, after⟩ := items_append_inj left.2 right.2 leftEnds rightEnds afterQuantifier
      exact ⟨rfl, after⟩

theorem branches_append_inj {d : Dialect} : {p q : Branches} → p.WellFormed d → q.WellFormed d → {u v : List Char} →
    p.text d ++ ')' :: u = q.text d ++ ')' :: v → p = q ∧ u = v
  | .last items, q, left, right, u, v, h => by
    cases q with
    | last items' =>
      obtain ⟨rfl, rest⟩ := items_append_inj left right ends_parenthesis ends_parenthesis h
      exact ⟨rfl, (List.cons.inj rest).2⟩
    | more items' rest' =>
      simp only [Branches.text, List.append_assoc, List.cons_append] at h
      obtain ⟨-, after⟩ := items_append_inj left right.1 ends_parenthesis ends_bar h
      cases (List.cons.inj after).1
  | .more items rest, q, left, right, u, v, h => by
    cases q with
    | last items' =>
      simp only [Branches.text, List.append_assoc, List.cons_append] at h
      obtain ⟨-, after⟩ := items_append_inj left.1 right ends_bar ends_parenthesis h
      cases (List.cons.inj after).1
    | more items' rest' =>
      simp only [Branches.text, List.append_assoc, List.cons_append] at h
      obtain ⟨rfl, others⟩ := items_append_inj left.1 right.1 ends_bar ends_bar h
      obtain ⟨rfl, after⟩ := branches_append_inj left.2 right.2 (List.cons.inj others).2
      exact ⟨rfl, after⟩

end

/-- A text is read as items in at most one way. -/
theorem Reads.unique {d : Dialect} {text : List Char} {p q : Items} (left : Reads d text p) (right : Reads d text q) :
    p = q := by
  have same : p.text d ++ [] = q.text d ++ [] := by rw [left.text_eq, right.text_eq]
  exact (items_append_inj left.wellFormed right.wellFormed ends_nil ends_nil same).1

end RegularGrammar.Pattern
