import Mathlib.Data.List.Chain
import Mathlib.Data.List.Perm.Subperm
import RegularGrammar.Grammar.Language
import RegularGrammar.Proofs.Grammar.Walk

/-!
# The stack of an expansion

What lies on the stack of a walk: different names of productions, each referred to
in the body before it. So the stack is never higher than the grammar is large, and
since every call leaves the stack as it found it, every expansion comes to its end.
-/

namespace RegularGrammar

namespace Walk

variable {g : Grammar}

/-- The names of productions whose bodies may be expanded at a time, the latest first. -/
structure Stacked (g : Grammar) (active : List String) : Prop where
  different : active.Nodup
  defined : ∀ n ∈ active, g.Defines n
  linked : active.IsChain fun inner outer => g.Refers outer inner

theorem Stacked.length_le {active : List String} (h : Stacked g active) : active.length ≤ g.size := by
  have among : active ⊆ g.productions.map (·.name) := by
    intro n member
    obtain ⟨p, found⟩ := Option.isSome_iff_exists.mp (h.defined n member)
    exact List.mem_map.mpr ⟨p, List.mem_of_find?_eq_some found, Grammar.name_of_get? found⟩
  have fits := (List.subperm_of_subset h.different among).length_le
  rwa [List.length_map] at fits

theorem Stacked.tail {active : List String} (h : Stacked g active) : Stacked g active.tail where
  different := h.different.tail
  defined n member := h.defined n (List.mem_of_mem_tail member)
  linked := h.linked.tail

/-- Names in the body that is being expanded, if there is one. -/
def Own (g : Grammar) (active : List String) (names : List String) : Prop :=
  ∃ n, active.head? = some n ∧ ∀ m ∈ names, g.Refers n m

/-- A production that is referred to in the latest body goes on the stack if it does not lie there. -/
theorem Stacked.push {active : List String} {p : Production} (h : Stacked g active) (found : g.get? p.name = some p)
    (called : active = [] ∨ Own g active [p.name]) (fresh : p.name ∉ active) : Stacked g (p.name :: active) where
  different := List.nodup_cons.mpr ⟨fresh, h.different⟩
  defined n member := by
    rcases List.mem_cons.mp member with rfl | member
    · simp [Grammar.Defines, found]
    · exact h.defined n member
  linked := by
    refine List.isChain_cons.mpr ⟨fun outer latest => ?_, h.linked⟩
    rcases called with rfl | ⟨n, head, refers⟩
    · cases latest
    · rw [head] at latest
      cases latest
      exact refers p.name (List.mem_singleton_self _)

/-- The names that are left to expand stand in the bodies to which they are left. -/
def Pending (g : Grammar) : List String → List Frame → Prop
  | _, [] => True
  | active, .leave :: frames => Pending g active.tail frames
  | active, .items _ _ rest :: frames => Own g active (Expr.referencesAll rest) ∧ Pending g active frames
  | active, .repetition :: frames => Pending g active frames
  | active, .option :: frames => Pending g active frames
  | active, .complement :: frames => Pending g active frames

/-- What is expanded next stands in the latest body. -/
def Called (g : Grammar) (active : List String) : Focus → Prop
  | .production p => g.get? p.name = some p ∧ (active = [] ∨ Own g active [p.name])
  | .expression e => Own g active e.references
  | .outcome _ => True

structure Sound (g : Grammar) (w : Walk) : Prop where
  stacked : Stacked g w.active
  pending : Pending g w.active w.frames
  called : Called g w.active w.focus

variable {active : List String} {frames : List Frame}

theorem Sound.start (g : Grammar) (name : String) : Sound g (start g name) := by
  have nothing : Stacked g [] := ⟨List.nodup_nil, fun _ member => (List.not_mem_nil member).elim, .nil⟩
  unfold Walk.start
  cases found : g.get? name with
  | none => exact ⟨nothing, trivial, trivial⟩
  | some p =>
    have named := Grammar.name_of_get? found
    exact ⟨nothing, trivial, named ▸ found, .inl rfl⟩

theorem Sound.enterProduction {p : Production} (h : Sound g ⟨active, frames, .production p⟩) :
    Sound g (enterProduction active frames p) := by
  obtain ⟨found, called⟩ := h.called
  rw [Walk.enterProduction]
  split
  · exact ⟨h.stacked, h.pending, trivial⟩
  · rename_i fresh
    exact ⟨h.stacked.push found called fresh, h.pending, p.name, rfl, fun m member => ⟨p, found, member⟩⟩

theorem Sound.items {row : Row} {done : List Regex} {es : List Expr} (stacked : Stacked g active)
    (pending : Pending g active frames) (own : Own g active (Expr.referencesAll es)) :
    Sound g (items active frames row done es) := by
  cases es with
  | nil => exact ⟨stacked, pending, trivial⟩
  | cons e rest =>
    obtain ⟨n, head, refers⟩ := own
    have first : Own g active e.references := ⟨n, head, fun m member => refers m (List.mem_append_left _ member)⟩
    have others : Own g active (Expr.referencesAll rest) :=
      ⟨n, head, fun m member => refers m (List.mem_append_right _ member)⟩
    exact ⟨stacked, ⟨others, pending⟩, first⟩

theorem Sound.enterExpression {e : Expr} (h : Sound g ⟨active, frames, .expression e⟩) :
    Sound g (enterExpression g active frames e) := by
  have done (result : Except Irregularity Regex) : Sound g ⟨active, frames, .outcome result⟩ :=
    ⟨h.stacked, h.pending, trivial⟩
  cases e with
  | range first last =>
    rw [enterExpression_range]
    exact done _
  | literal text => exact done _
  | sequence es => exact .items h.stacked h.pending h.called
  | alternative es => exact .items h.stacked h.pending h.called
  | repetition body => exact ⟨h.stacked, h.pending, h.called⟩
  | option body => exact ⟨h.stacked, h.pending, h.called⟩
  | group body => exact ⟨h.stacked, h.pending, h.called⟩
  | name n =>
    simp only [Walk.enterExpression]
    cases found : g.get? n with
    | none => exact done _
    | some p =>
      have named := Grammar.name_of_get? found
      exact ⟨h.stacked, h.pending, named ▸ found, .inr (named ▸ h.called)⟩
  | complement body => exact ⟨h.stacked, h.pending, h.called⟩

theorem Sound.resume {frame : Frame} {result : Except Irregularity Regex}
    (h : Sound g ⟨active, frame :: frames, .outcome result⟩) : Sound g (resume active frames frame result) := by
  cases frame with
  -- What is pending below was left to the body below, and stays with it.
  | leave => exact ⟨h.stacked.tail, h.pending, trivial⟩
  | items row done rest =>
    obtain ⟨own, pending⟩ := h.pending
    cases result with
    | error i => exact ⟨h.stacked, pending, trivial⟩
    | ok r => exact .items h.stacked pending own
  | repetition => cases result <;> exact ⟨h.stacked, h.pending, trivial⟩
  | option => cases result <;> exact ⟨h.stacked, h.pending, trivial⟩
  | complement => cases result <;> exact ⟨h.stacked, h.pending, trivial⟩

theorem Sound.step {u v : Walk} (h : Sound g u) (stepped : u.step g = some v) : Sound g v := by
  obtain ⟨active, frames, focus⟩ := u
  cases focus with
  | production p =>
    cases stepped
    exact h.enterProduction
  | expression e =>
    cases stepped
    exact h.enterExpression
  | outcome result =>
    cases frames with
    | nil => cases stepped
    | cons frame frames =>
      cases stepped
      exact h.resume

theorem Sound.run {w : Walk} (h : Sound g w) (n : Nat) : Sound g (w.run g n) := by
  induction n generalizing w with
  | zero => exact h
  | succ n ih =>
    rw [Walk.run]
    cases stepped : w.step g with
    | none => exact h
    | some next => exact ih (h.step stepped)

theorem start_leads (g : Grammar) (name : String) : Leads g [] (start g name) ⟨[], [], .outcome (g.regex name)⟩ := by
  unfold Walk.start
  cases found : g.get? name with
  | none =>
    have missing : g.regex name = .error ⟨name, .undefinedProduction name⟩ := Grammar.expand_of_missing found []
    rw [missing]
    exact .stay List.suffix_rfl
  | some p =>
    have whole : nameOutcome g [] name = g.regex name := if_pos (by simp [Grammar.Defines, found])
    rw [← whole, nameOutcome_of_found found]
    exact leads_production fun _ frames => leads_expression _ frames p.body

/-- A call that is over after some steps leaves the stack as it found it. -/
def Returns (g : Grammar) (active : List String) (frames : List Frame) (call : Focus) : Prop :=
  ∃ n result, run g n ⟨active, frames, call⟩ = ⟨active, frames, .outcome result⟩ ∧
    ∀ k ≤ n, frames <:+ (run g k ⟨active, frames, call⟩).frames

theorem Leads.returns {call : Focus} {result : Except Irregularity Regex}
    (h : Leads g frames ⟨active, frames, call⟩ ⟨active, frames, .outcome result⟩) : Returns g active frames call := by
  obtain ⟨n, arrives, kept⟩ := h.arrives
  exact ⟨n, result, arrives, kept⟩

/-- On every grammar, with cycles or without, the stack of an expansion holds different names of
    productions, each of them in the body of the one below, and so never more than there are productions.
    The expansion comes to its end, and so does each call on its way, which leaves the stack as it found it. -/
theorem expansion_ends (g : Grammar) (name : String) :
    (∀ n, Stacked g (run g n (start g name)).active ∧ (run g n (start g name)).active.length ≤ g.size) ∧
      (∃ n, run g n (start g name) = ⟨[], [], .outcome (g.regex name)⟩) ∧
      ∀ active frames, (∀ p, Returns g active frames (.production p)) ∧ ∀ e, Returns g active frames (.expression e) := by
  refine ⟨fun n => ?_, ?_, fun active frames => ⟨fun p => ?_, fun e => ?_⟩⟩
  · have stacked := ((Sound.start g name).run n).stacked
    exact ⟨stacked, stacked.length_le⟩
  · obtain ⟨n, ends, -⟩ := (start_leads g name).arrives
    exact ⟨n, ends⟩
  · exact (leads_production fun _ frames => leads_expression (p.name :: active) frames p.body).returns
  · exact (leads_expression active frames e).returns

end Walk

end RegularGrammar
