import Mathlib.Data.List.Nodup
import Mathlib.Data.List.TakeWhile
import RegularGrammar.Proofs.Grammar.Defect

/-!
# Cycles of productions

A cycle is told where a name is met in a body that is being expanded inside its own. What
is told is the part of the stack from that body on: a chain of references back to where it
began, in which no other name stands twice. Every cycle that an expansion can come to
keeps it from a regular expression, and is told if nothing else is in the way.
-/

namespace RegularGrammar

namespace Grammar

open RegularGrammar.Expr (Within Ordered)

variable {g : Grammar} {start : String}

/-- Names of productions, each in the body of the one before it, of which the first and the last are the same and no
    others are. -/
structure IsCycle (g : Grammar) (path : List String) : Prop where
  long : 2 ≤ path.length
  closed : path.head? = path.getLast?
  different : path.dropLast.Nodup
  defined : ∀ m ∈ path, g.Defines m
  linked : path.IsChain g.Refers

theorem Refers.defines {a b : String} (refers : g.Refers a b) : g.Defines a := by
  obtain ⟨p, found, -⟩ := refers
  simp [Defines, found]

theorem Chain.defines {active : List String} {n : String} (chain : g.Chain start active n) : ∀ m ∈ active, g.Defines m := by
  induction chain with
  | start => exact fun m member => (List.not_mem_nil member).elim
  | step _ refers ih => exact List.forall_mem_cons.mpr ⟨refers.defines, ih⟩

/-- The names from one of those whose bodies are being expanded to the innermost. -/
def arc (name : String) (active : List String) : List String := name :: (active.takeWhile (· ≠ name)).reverse

theorem cyclePath_eq (name : String) (active : List String) : cyclePath name active = arc name active ++ [name] := rfl

@[simp]
theorem arc_cons_self (name : String) (active : List String) : arc name (name :: active) = [name] := by simp [arc]

theorem arc_cons_of_ne {a name : String} (other : a ≠ name) (active : List String) :
    arc name (a :: active) = arc name active ++ [a] := by simp [arc, other]

theorem getLast?_arc {name : String} {active : List String} (member : name ∈ active) :
    (arc name active).getLast? = some (active.headD name) := by
  cases active with
  | nil => cases member
  | cons a outer =>
    by_cases same : a = name
    · rw [same, arc_cons_self]
      rfl
    · rw [arc_cons_of_ne same, List.getLast?_concat]
      rfl

theorem arc_nodup {active : List String} (different : active.Nodup) (name : String) : (arc name active).Nodup := by
  rw [arc, List.nodup_cons, List.mem_reverse, List.nodup_reverse]
  refine ⟨?_, different.sublist (List.takeWhile_sublist _)⟩
  intro inside
  simpa using List.mem_takeWhile_imp inside

theorem mem_of_mem_arc {name m : String} {active : List String} (member : name ∈ active) (inside : m ∈ arc name active) :
    m ∈ active := by
  rcases List.mem_cons.mp inside with rfl | inside
  · exact member
  · exact (List.takeWhile_sublist _).subset (List.mem_reverse.mp inside)

/-- From any of the bodies references lead through all further inside to the end of the chain. -/
theorem Chain.arc_linked {active : List String} {n m : String} (chain : g.Chain start active n) (member : m ∈ active) :
    (arc m active ++ [n]).IsChain g.Refers := by
  induction chain with
  | start => cases member
  | @step active a b _ refers ih =>
    by_cases same : a = m
    · subst same
      rw [arc_cons_self]
      exact List.isChain_pair.mpr refers
    · have before := ih (List.mem_of_ne_of_mem (Ne.symm same) member)
      rw [arc_cons_of_ne same]
      refine List.isChain_append.mpr ⟨before, List.isChain_singleton b, ?_⟩
      rw [List.getLast?_concat]
      simpa using refers

theorem Chain.isCycle {active : List String} {n : String} (chain : g.Chain start active n) (different : active.Nodup)
    (member : n ∈ active) : g.IsCycle (cyclePath n active) := by
  rw [cyclePath_eq]
  refine ⟨?_, ?_, ?_, ?_, chain.arc_linked member⟩
  · simp [arc]
  · rw [List.getLast?_concat]
    rfl
  · rw [List.dropLast_concat]
    exact arc_nodup different n
  · intro m inside
    rw [List.mem_append, List.mem_singleton] at inside
    rcases inside with inside | rfl
    · exact chain.defines m (mem_of_mem_arc member inside)
    · exact chain.defines m member

theorem Stops.isCycle {active : List String} {n owner : String} {path : List String}
    (stops : g.Stops active n ⟨owner, .cycle path⟩) (chain : g.Chain start active n) (different : active.Nodup) :
    g.IsCycle path ∧ (∀ m, path.head? = some m → g.Reaches start m) ∧ path.dropLast.getLast? = some owner := by
  cases stops with
  | cyclic _ member =>
    refine ⟨chain.isCycle different member, ?_, ?_⟩
    · intro m first
      cases first
      exact chain.reaches
    · rw [cyclePath_eq, List.dropLast_concat, getLast?_arc member]
  | obstructed _ obstructed => rcases obstructed.kind with ⟨_, _, same⟩ | ⟨_, same⟩ | ⟨_, same⟩ <;> cases same

/-- All names that a name leads to are defined, all ranges there have proper bounds, and no complement is taken. -/
structure Plain (g : Grammar) (n : String) : Prop where
  defined : ∀ m, g.Reaches n m → g.Defines m
  ordered : ∀ m p first last, g.Reaches n m → g.get? m = some p → Within (.range first last) p.body → Ordered first last
  positive : ∀ m p body, g.Reaches n m → g.get? m = some p → ¬ Within (.complement body) p.body

/-- Nothing but a cycle stops an expansion where all is plain. -/
theorem Plain.stops {active : List String} {n : String} {i : Irregularity} (plain : g.Plain start)
    (chain : g.Chain start active n) (stops : g.Stops active n i) : ∃ p path, i = ⟨p, .cycle path⟩ := by
  cases stops with
  | missing undefined => exact absurd (plain.defined n chain.reaches) undefined
  | cyclic => exact ⟨_, _, rfl⟩
  | @obstructed p o found obstructed =>
    cases obstructed with
    | range inside improper => exact absurd (plain.ordered n p _ _ chain.reaches found inside) improper
    | complement inside => exact absurd inside (plain.positive n p _ chain.reaches found)

/-- A cycle that is told is one: each name stands in the body of the one before it, none but the first and the last
    are the same, the start leads to the first, and the production that is told is the last but one. And a cycle that
    the start leads to leaves no regular expression, so that where nothing else is in the way a cycle is told. -/
theorem regex_tells_cycle (g : Grammar) (n : String) :
    (∀ p path, g.regex n = .error ⟨p, .cycle path⟩ →
      g.IsCycle path ∧ (∀ m, path.head? = some m → g.Reaches n m) ∧ path.dropLast.getLast? = some p) ∧
    ((∃ a b, g.Reaches n a ∧ g.Refers a b ∧ g.Reaches b a) →
      (∀ r, g.regex n ≠ .ok r) ∧ (g.Plain n → ∃ p path, g.regex n = .error ⟨p, .cycle path⟩)) := by
  constructor
  · intro p path told
    obtain ⟨inner, m, chain, different, stops⟩ := exists_stops_of_regex told
    exact stops.isCycle chain different
  · rintro ⟨a, b, reached, refers, back⟩
    have never : ∀ r, g.regex n ≠ .ok r := fun r found => (regular_of_regex found).acyclic a b reached refers back
    refine ⟨never, ?_⟩
    intro plain
    cases outcome : g.regex n with
    | ok r => exact absurd outcome (never r)
    | error i =>
      obtain ⟨inner, m, chain, -, stops⟩ := exists_stops_of_regex outcome
      obtain ⟨p, path, rfl⟩ := plain.stops chain stops
      exact ⟨p, path, rfl⟩

theorem entangled_plain : entangled.Plain "start" := by
  have productions : entangled.productions =
      [⟨"digit", .range "0" "9"⟩, ⟨"left", .repetition (.name "right")⟩, ⟨"right", .group (.name "left")⟩,
        ⟨"start", .sequence [.name "left", .option (.name "digit")]⟩] := by cbv
  have parts {m : String} {p : Production} {part : Expr} (found : entangled.get? m = some p) (inside : Within part p.body) :
      (∀ first last, part = .range first last → Ordered first last) ∧ ∀ body, part ≠ .complement body := by
    have member := mem_of_get? found
    simp only [productions, List.mem_cons, List.not_mem_nil, or_false] at member
    rcases member with rfl | rfl | rfl | rfl
    · cases inside
      refine ⟨?_, by simp⟩
      rintro _ _ ⟨⟩
      exact ⟨'0', '9', by decide, by decide, by decide⟩
    · cases inside with
      | all => simp
      | repetition inside =>
        cases inside
        simp
    · cases inside with
      | all => simp
      | group inside =>
        cases inside
        simp
    · cases inside with
      | all => simp
      | sequence member inside =>
        rcases List.mem_pair.mp member with rfl | rfl
        · cases inside
          simp
        · cases inside with
          | all => simp
          | option inside =>
            cases inside
            simp
  have flawless : entangled.Flawless "start" := flawless_of_flaw? (by cbv)
  refine ⟨fun m => flawless.defines_of_reaches flawless.defined, ?_, ?_⟩
  · intro m p first last _ found inside
    exact (parts found inside).1 first last rfl
  · intro m p body _ found inside
    exact (parts found inside).2 body rfl

theorem regex_tells_cycle_entangled :
    entangled.regex "start" = .error ⟨"right", .cycle ["left", "right", "left"]⟩ ∧
    entangled.IsCycle ["left", "right", "left"] ∧ entangled.Reaches "start" "left" ∧
    (∃ a b, entangled.Reaches "start" a ∧ entangled.Refers a b ∧ entangled.Reaches b a) ∧
    (∀ r, entangled.regex "start" ≠ .ok r) ∧ ∃ p path, entangled.regex "start" = .error ⟨p, .cycle path⟩ := by
  have told : entangled.regex "start" = .error ⟨"right", .cycle ["left", "right", "left"]⟩ := by cbv
  obtain ⟨real, never⟩ := regex_tells_cycle entangled "start"
  obtain ⟨isCycle, reached, -⟩ := real _ _ told
  have left := reached "left" rfl
  obtain ⟨refers, back⟩ := List.isChain_cons_cons.mp isCycle.linked
  have closed : ∃ a b, entangled.Reaches "start" a ∧ entangled.Refers a b ∧ entangled.Reaches b a :=
    ⟨"left", "right", left, refers, .single (List.isChain_pair.mp back)⟩
  obtain ⟨noRegex, plain⟩ := never closed
  exact ⟨told, isCycle, left, closed, noRegex, plain entangled_plain⟩

end Grammar

end RegularGrammar
