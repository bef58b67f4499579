import RegularGrammar.Expr

/-!
# Grammars

A grammar holds productions with pairwise different names, in the order of their
names by code points.
-/

namespace RegularGrammar

structure Production where
  name : String
  body : Expr

structure Grammar where
  productions : List Production
  ascending : productions.Pairwise (·.name < ·.name)

namespace Grammar

/-- The grammar of no production. -/
def empty : Grammar := ⟨[], .nil⟩

/-- Puts a production among productions that ascend by name, in place of one of its name. -/
def insertInto (p : Production) : List Production → List Production
  | [] => [p]
  | q :: rest =>
    if p.name < q.name then p :: q :: rest
    else if p.name = q.name then p :: rest
    else q :: insertInto p rest

theorem mem_of_mem_insertInto {p q : Production} {ps : List Production} (h : q ∈ insertInto p ps) :
    q = p ∨ q ∈ ps := by
  induction ps with
  | nil => exact .inl (List.mem_singleton.mp h)
  | cons r rest ih =>
    rw [insertInto] at h
    split at h
    · exact List.mem_cons.mp h
    · split at h
      · rcases List.mem_cons.mp h with same | member
        · exact .inl same
        · exact .inr (List.mem_cons_of_mem _ member)
      · rcases List.mem_cons.mp h with same | member
        · exact .inr (same ▸ List.mem_cons_self)
        · rcases ih member with same | member
          · exact .inl same
          · exact .inr (List.mem_cons_of_mem _ member)

theorem insertInto_ascending (p : Production) {ps : List Production}
    (ascending : ps.Pairwise (·.name < ·.name)) : (insertInto p ps).Pairwise (·.name < ·.name) := by
  induction ps with
  | nil => exact List.pairwise_singleton ..
  | cons q rest ih =>
    have ⟨first, others⟩ := List.pairwise_cons.mp ascending
    rw [insertInto]
    split
    · rename_i before
      refine List.pairwise_cons.mpr ⟨fun r member => ?_, ascending⟩
      rcases List.mem_cons.mp member with rfl | member
      · exact before
      · exact String.lt_trans before (first r member)
    · rename_i notBefore
      split
      · rename_i same
        exact List.pairwise_cons.mpr ⟨fun r member => same ▸ first r member, others⟩
      · rename_i different
        refine List.pairwise_cons.mpr ⟨fun r member => ?_, ih others⟩
        rcases mem_of_mem_insertInto member with rfl | member
        · exact Std.lt_of_le_of_ne (String.not_lt.mp notBefore) (Ne.symm different)
        · exact first r member

/-- The grammar with a production, which replaces one of the same name. -/
def insert (g : Grammar) (p : Production) : Grammar :=
  ⟨insertInto p g.productions, insertInto_ascending p g.ascending⟩

/-- The grammar of some productions; of those with one name, the last one counts. -/
def ofList (ps : List Production) : Grammar := ps.foldl insert empty

/-- The production of a name. -/
def get? (g : Grammar) (name : String) : Option Production := g.productions.find? (·.name = name)

@[simp]
theorem get?_empty (name : String) : empty.get? name = none := rfl

theorem find?_insertInto (p : Production) (name : String) {ps : List Production}
    (ascending : ps.Pairwise (·.name < ·.name)) :
    (insertInto p ps).find? (·.name = name) =
      if p.name = name then some p else ps.find? (·.name = name) := by
  induction ps with
  | nil => by_cases same : p.name = name <;> simp [insertInto, same]
  | cons q rest ih =>
    have later := ih (List.pairwise_cons.mp ascending).2
    rw [insertInto]
    by_cases same : p.name = name
    · split
      · simp [same]
      · split
        · simp [same]
        · rename_i different
          have other : q.name ≠ name := fun h => different (same.trans h.symm)
          simp [later, same, other]
    · split
      · simp [same]
      · split
        · rename_i replaced
          have other : q.name ≠ name := replaced ▸ same
          simp [same, other]
        · simp [List.find?_cons, later, same]

/-- A production that is put in is found under its name, and the others stay what they were. -/
@[simp]
theorem get?_insert (g : Grammar) (p : Production) (name : String) :
    (g.insert p).get? name = if p.name = name then some p else g.get? name :=
  find?_insertInto p name g.ascending

/-- How many productions there are. -/
def size (g : Grammar) : Nat := g.productions.length

def isEmpty (g : Grammar) : Bool := g.productions.isEmpty

end Grammar

end RegularGrammar
