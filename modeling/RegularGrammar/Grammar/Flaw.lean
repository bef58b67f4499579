import RegularGrammar.Grammar

/-!
# Flaws of a grammar

A grammar with a start production is sound if the start production exists, every
name that is referred to is defined, and every production is reached from the
start. Otherwise its first flaw is told, in this order.
-/

namespace RegularGrammar

inductive Flaw where
  | missingStart (start : String)
  | undefined (production missing : String)
  | unreachable (production start : String)
deriving DecidableEq

def Flaw.message : Flaw → String
  | .missingStart start => s!"Start production '{start}' not found"
  | .undefined production missing => s!"Production '{production}' refers to undefined production '{missing}'"
  | .unreachable production start => s!"Production '{production}' is unreachable from '{start}'"

namespace Grammar

def Defines (g : Grammar) (name : String) : Prop := (g.get? name).isSome

instance (g : Grammar) (name : String) : Decidable (g.Defines name) :=
  inferInstanceAs (Decidable ((g.get? name).isSome = true))

/-- The first name without a definition that a production refers to, from left to right. -/
def undefinedReference? (g : Grammar) (p : Production) : Option Flaw :=
  (p.body.references.find? fun name => ¬ g.Defines name).map (.undefined p.name)

/-- The productions of other names. -/
def without (name : String) (ps : List Production) : List Production := ps.filter (·.name ≠ name)

theorem without_length_lt {name : String} {ps : List Production} {p : Production}
    (found : ps.find? (·.name = name) = some p) : (without name ps).length < ps.length := by
  have same := List.find?_some found
  refine List.length_filter_lt_length_iff_exists.mpr ⟨p, List.mem_of_find?_eq_some found, ?_⟩
  simpa using same

/-- Those of `left` that no chain of references reaches from the names `pending`, where a
    chain runs through productions of `left` alone. -/
def unreached (left : List Production) : List String → List Production
  | [] => left
  | name :: pending =>
    match _found : left.find? (·.name = name) with
    | none => unreached left pending
    | some p => unreached (without name left) (p.body.references ++ pending)
termination_by pending => (left.length, pending.length)
decreasing_by
  · exact Prod.Lex.right _ (Nat.lt_succ_self _)
  · exact Prod.Lex.left _ _ (without_length_lt _found)

/-- The first flaw of a grammar whose start production is `start`. -/
def flaw? (g : Grammar) (start : String) : Option Flaw :=
  if ¬ g.Defines start then some (.missingStart start)
  else
    match g.productions.findSome? g.undefinedReference? with
    | some flaw => some flaw
    | none => (unreached g.productions [start]).head?.map fun p => .unreachable p.name start

end Grammar

end RegularGrammar
