import RegularGrammar.Grammar.Flaw
import RegularGrammar.Proofs.Grammar.Expansion

/-!
# Expanding step by step

An expansion as a walk through the bodies of productions. The names of the
productions whose bodies are being expanded lie on a stack: a production is put on
it before its body and taken off after it. What is left to do once a part is
expanded lies on a second stack, of frames. A call is over when all frames above
those it found are gone again, with a regular expression or with an irregularity.
-/

namespace RegularGrammar

/-! ## Walks -/

/-- The expressions with a row of items. -/
inductive Row where
  | sequence
  | alternative

def Row.regex : Row → List Regex → Regex
  | .sequence, rs => .concat (Regex.collapseRepeats rs)
  | .alternative, rs => .choice rs

/-- What is left to do with the outcome of a part. -/
inductive Frame where
  /-- To take the production off the stack whose body it was. -/
  | leave
  /-- To go on with the next item of a row. -/
  | items (row : Row) (done : List Regex) (rest : List Expr)
  | repetition
  | option
  | complement

/-- What comes next: to expand a production or an expression, or to use an outcome. -/
inductive Focus where
  | production (p : Production)
  | expression (e : Expr)
  | outcome (result : Except Irregularity Regex)

/-- A point of a walk. The names on the stack are those of the productions whose bodies are being
    expanded, and the latest names and frames come first. -/
structure Walk where
  active : List String
  frames : List Frame
  focus : Focus

namespace Walk

/-- The point at which a production is to be expanded. -/
def start (g : Grammar) (name : String) : Walk :=
  match g.get? name with
  | some p => ⟨[], [], .production p⟩
  | none => ⟨[], [], .outcome (.error ⟨name, .undefinedProduction name⟩)⟩

/-- An obstacle in the body that is being expanded. -/
def obstructed (active : List String) (o : Obstacle) : Irregularity := ⟨active.headD "", o⟩

/-- A row with some of its items expanded. -/
def items (active : List String) (frames : List Frame) (row : Row) (done : List Regex) : List Expr → Walk
  | [] => ⟨active, frames, .outcome (.ok (row.regex done))⟩
  | e :: rest => ⟨active, .items row done rest :: frames, .expression e⟩

def enterProduction (active : List String) (frames : List Frame) (p : Production) : Walk :=
  if p.name ∈ active then ⟨active, frames, .outcome (.error (obstructed active (.cycle (Grammar.cyclePath p.name active))))⟩
  else ⟨p.name :: active, .leave :: frames, .expression p.body⟩

def enterExpression (g : Grammar) (active : List String) (frames : List Frame) : Expr → Walk
  | .range first last =>
    match singleChar? first, singleChar? last with
    | some lo, some hi =>
      if lo ≤ hi then ⟨active, frames, .outcome (.ok (.ofClass (.ofRange (.between lo hi))))⟩
      else ⟨active, frames, .outcome (.error (obstructed active (.invalidRange first last)))⟩
    | _, _ => ⟨active, frames, .outcome (.error (obstructed active (.invalidRange first last)))⟩
  | .literal text => ⟨active, frames, .outcome (.ok (.literal text))⟩
  | .sequence es => items active frames .sequence [] es
  | .alternative es => items active frames .alternative [] es
  | .repetition body => ⟨active, .repetition :: frames, .expression body⟩
  | .option body => ⟨active, .option :: frames, .expression body⟩
  | .group body => ⟨active, frames, .expression body⟩
  | .name n =>
    match g.get? n with
    | some p => ⟨active, frames, .production p⟩
    | none => ⟨active, frames, .outcome (.error (obstructed active (.undefinedProduction n)))⟩
  | .complement body => ⟨active, .complement :: frames, .expression body⟩

/-- Uses an outcome for the latest frame. A name leaves the stack after its body, whatever the outcome. -/
def resume (active : List String) (frames : List Frame) : Frame → Except Irregularity Regex → Walk
  | .leave, result => ⟨active.tail, frames, .outcome result⟩
  | _, .error i => ⟨active, frames, .outcome (.error i)⟩
  | .items row done rest, .ok r => items active frames row (done ++ [r]) rest
  | .repetition, .ok r => ⟨active, frames, .outcome (.ok (.star r))⟩
  | .option, .ok r => ⟨active, frames, .outcome (.ok (.opt r))⟩
  | .complement, .ok r => ⟨active, frames, .outcome (r.negate.mapError (obstructed active))⟩

/-- The next point of a walk; there is none after the last outcome. -/
def step (g : Grammar) (w : Walk) : Option Walk :=
  match w.focus, w.frames with
  | .production p, frames => some (enterProduction w.active frames p)
  | .expression e, frames => some (enterExpression g w.active frames e)
  | .outcome result, frame :: frames => some (resume w.active frames frame result)
  | .outcome _, [] => none

/-- The point after some steps, or the last one. -/
def run (g : Grammar) : Nat → Walk → Walk
  | 0, w => w
  | n + 1, w =>
    match w.step g with
    | some next => run g n next
    | none => w

/-! ## Calls -/

variable {g : Grammar}

/-- A walk leads from one point to another and keeps some frames all the way. -/
inductive Leads (g : Grammar) (kept : List Frame) : Walk → Walk → Prop where
  | stay {w : Walk} : kept <:+ w.frames → Leads g kept w w
  | step {w next last : Walk} : kept <:+ w.frames → w.step g = some next → Leads g kept next last → Leads g kept w last

theorem Leads.trans {kept : List Frame} {u v w : Walk} (first : Leads g kept u v) (second : Leads g kept v w) :
    Leads g kept u w := by
  induction first with
  | stay => exact second
  | step keeps stepped _ ih => exact .step keeps stepped (ih second)

theorem Leads.weaken {kept fewer : List Frame} {u v : Walk} (h : Leads g kept u v) (less : fewer <:+ kept) :
    Leads g fewer u v := by
  induction h with
  | stay keeps => exact .stay (less.trans keeps)
  | step keeps stepped _ ih => exact .step (less.trans keeps) stepped ih

theorem Leads.arrives {kept : List Frame} {u v : Walk} (h : Leads g kept u v) :
    ∃ n, run g n u = v ∧ ∀ k ≤ n, kept <:+ (run g k u).frames := by
  induction h with
  | @stay w keeps =>
    refine ⟨0, rfl, fun k before => ?_⟩
    rw [Nat.le_zero.mp before]
    exact keeps
  | @step w next last keeps stepped _ ih =>
    obtain ⟨n, arrives, kept⟩ := ih
    have onward (k : Nat) : run g (k + 1) w = run g k next := by simp only [run, stepped]
    refine ⟨n + 1, (onward n).trans arrives, fun k before => ?_⟩
    cases k with
    | zero => exact keeps
    | succ k =>
      rw [onward k]
      exact kept k (Nat.le_of_succ_le_succ before)

/-- What a name comes to inside the bodies of `active`. -/
def nameOutcome (g : Grammar) (active : List String) (n : String) : Except Irregularity Regex :=
  if g.Defines n then g.expand active n else .error (obstructed active (.undefinedProduction n))

def expressionOutcome (g : Grammar) (active : List String) (e : Expr) : Except Irregularity Regex :=
  e.toRegex (active.headD "") (nameOutcome g active)

def productionOutcome (g : Grammar) (active : List String) (p : Production) : Except Irregularity Regex :=
  if p.name ∈ active then .error (obstructed active (.cycle (Grammar.cyclePath p.name active)))
  else expressionOutcome g (p.name :: active) p.body

def rowOutcome (g : Grammar) (active : List String) (row : Row) (done : List Regex) (es : List Expr) :
    Except Irregularity Regex :=
  (Expr.toRegexes (active.headD "") (nameOutcome g active) es).map fun rs => row.regex (done ++ rs)

theorem nameOutcome_of_missing {active : List String} {n : String} (missing : g.get? n = none) :
    nameOutcome g active n = .error (obstructed active (.undefinedProduction n)) :=
  if_neg (by simp [Grammar.Defines, missing])

/-- Inside a body, a name comes to what it is expanded to. -/
theorem nameOutcome_cons (name : String) (active : List String) :
    nameOutcome g (name :: active) = g.expand (name :: active) := by
  funext n
  cases found : g.get? n with
  | none =>
    rw [nameOutcome_of_missing found, Grammar.expand_of_missing found]
    rfl
  | some p => exact if_pos (by simp [Grammar.Defines, found])

/-- A name comes to what its production comes to. -/
theorem nameOutcome_of_found {active : List String} {n : String} {p : Production} (found : g.get? n = some p) :
    nameOutcome g active n = productionOutcome g active p := by
  obtain rfl := Grammar.name_of_get? found
  rw [nameOutcome, if_pos (by simp [Grammar.Defines, found]), Grammar.expand_of_found found]
  by_cases cyclic : p.name ∈ active
  · obtain ⟨latest, earlier, rfl⟩ := List.exists_cons_of_ne_nil (List.ne_nil_of_mem cyclic)
    simp [productionOutcome, cyclic, obstructed]
  · simp [productionOutcome, cyclic, expressionOutcome, nameOutcome_cons]

/-! ## Calls return -/

variable {active : List String} {frames : List Frame} {v : Walk}

theorem leads_of_enter {e : Expr} (h : Leads g frames (enterExpression g active frames e) v) :
    Leads g frames ⟨active, frames, .expression e⟩ v := .step List.suffix_rfl rfl h

theorem leads_of_resume {frame : Frame} {result : Except Irregularity Regex}
    (h : Leads g frames (resume active frames frame result) v) :
    Leads g frames ⟨active, frame :: frames, .outcome result⟩ v := .step (List.suffix_cons ..) rfl h

/-- A production is called as its body is. -/
theorem leads_production {p : Production}
    (body : p.name ∉ active → ∀ frames, Leads g frames ⟨p.name :: active, frames, .expression p.body⟩
      ⟨p.name :: active, frames, .outcome (expressionOutcome g (p.name :: active) p.body)⟩) :
    Leads g frames ⟨active, frames, .production p⟩ ⟨active, frames, .outcome (productionOutcome g active p)⟩ := by
  refine .step List.suffix_rfl rfl ?_
  by_cases cyclic : p.name ∈ active
  · simp only [enterProduction, productionOutcome, if_pos cyclic]
    exact .stay List.suffix_rfl
  · simp only [enterProduction, productionOutcome, if_neg cyclic]
    refine ((body cyclic _).weaken (List.suffix_cons ..)).trans (leads_of_resume ?_)
    exact .stay List.suffix_rfl

theorem enterExpression_range (first last : String) :
    enterExpression g active frames (.range first last) =
      ⟨active, frames, .outcome (expressionOutcome g active (.range first last))⟩ := by
  simp only [enterExpression, expressionOutcome, Expr.toRegex]
  cases singleChar? first with
  | none => rfl
  | some lo =>
    cases singleChar? last with
    | none => rfl
    | some hi => by_cases ordered : lo ≤ hi <;> simp only [ordered, if_true, if_false, obstructed]

theorem rowOutcome_of_error {row : Row} {done : List Regex} {e : Expr} {rest : List Expr} {i : Irregularity}
    (first : expressionOutcome g active e = .error i) : rowOutcome g active row done (e :: rest) = .error i := by
  simp only [expressionOutcome] at first
  simp only [rowOutcome, Expr.toRegexes, first, Except.map]

theorem rowOutcome_of_ok {row : Row} {done : List Regex} {e : Expr} {rest : List Expr} {r : Regex}
    (first : expressionOutcome g active e = .ok r) :
    rowOutcome g active row done (e :: rest) = rowOutcome g active row (done ++ [r]) rest := by
  simp only [expressionOutcome] at first
  simp only [rowOutcome, Expr.toRegexes, first]
  cases Expr.toRegexes (active.headD "") (nameOutcome g active) rest with
  | error i => rfl
  | ok rs => simp only [Except.map, List.append_assoc, List.singleton_append]

/-- Where a part returns, what is left to do goes on with its outcome. -/
theorem leads_of_part {e : Expr} {frame : Frame}
    (part : Leads g (frame :: frames) ⟨active, frame :: frames, .expression e⟩
      ⟨active, frame :: frames, .outcome (expressionOutcome g active e)⟩)
    (later : Leads g frames (resume active frames frame (expressionOutcome g active e)) v) :
    Leads g frames ⟨active, frame :: frames, .expression e⟩ v :=
  (part.weaken (List.suffix_cons ..)).trans (leads_of_resume later)

/-- Inside the bodies of `active`, the productions of a grammar return what they come to. -/
def ProductionsReturn (g : Grammar) (active : List String) : Prop :=
  ∀ p : Production, g.get? p.name = some p → ∀ frames : List Frame,
    Leads g frames ⟨active, frames, .production p⟩ ⟨active, frames, .outcome (productionOutcome g active p)⟩

mutual

/-- Where the productions return, so do the expressions. -/
theorem leads_expression_of (productions : ProductionsReturn g active) (frames : List Frame) : (e : Expr) →
    Leads g frames ⟨active, frames, .expression e⟩ ⟨active, frames, .outcome (expressionOutcome g active e)⟩
  | .range first last => by
    refine leads_of_enter ?_
    rw [enterExpression_range]
    exact .stay List.suffix_rfl
  | .literal _ => leads_of_enter (.stay List.suffix_rfl)
  | .sequence es => by
    refine leads_of_enter ?_
    simp only [enterExpression, expressionOutcome, Expr.toRegex]
    exact leads_items_of productions frames .sequence [] es
  | .alternative es => by
    refine leads_of_enter ?_
    simp only [enterExpression, expressionOutcome, Expr.toRegex]
    exact leads_items_of productions frames .alternative [] es
  | .repetition body => by
    refine leads_of_enter (leads_of_part (leads_expression_of productions _ body) ?_)
    simp only [expressionOutcome, Expr.toRegex]
    cases Expr.toRegex (active.headD "") (nameOutcome g active) body <;> exact .stay List.suffix_rfl
  | .option body => by
    refine leads_of_enter (leads_of_part (leads_expression_of productions _ body) ?_)
    simp only [expressionOutcome, Expr.toRegex]
    cases Expr.toRegex (active.headD "") (nameOutcome g active) body <;> exact .stay List.suffix_rfl
  | .group body => leads_of_enter (leads_expression_of productions frames body)
  | .name n => by
    refine leads_of_enter ?_
    simp only [enterExpression, expressionOutcome, Expr.toRegex]
    cases found : g.get? n with
    | none =>
      rw [nameOutcome_of_missing found]
      exact .stay List.suffix_rfl
    | some p =>
      rw [nameOutcome_of_found found]
      exact productions p (Grammar.name_of_get? found ▸ found) frames
  | .complement body => by
    refine leads_of_enter (leads_of_part (leads_expression_of productions _ body) ?_)
    simp only [expressionOutcome, Expr.toRegex]
    cases Expr.toRegex (active.headD "") (nameOutcome g active) body <;> exact .stay List.suffix_rfl

theorem leads_items_of (productions : ProductionsReturn g active) (frames : List Frame) (row : Row)
    (done : List Regex) : (es : List Expr) →
    Leads g frames (items active frames row done es) ⟨active, frames, .outcome (rowOutcome g active row done es)⟩
  | [] => by
    have nothing : rowOutcome g active row done [] = .ok (row.regex done) := by
      simp [rowOutcome, Expr.toRegexes, Except.map]
    rw [nothing]
    exact .stay List.suffix_rfl
  | e :: rest => by
    refine leads_of_part (leads_expression_of productions _ e) ?_
    cases first : expressionOutcome g active e with
    | error i =>
      rw [rowOutcome_of_error first]
      exact .stay List.suffix_rfl
    | ok r =>
      rw [rowOutcome_of_ok first]
      exact leads_items_of productions frames row (done ++ [r]) rest

end

/-- Every call of an expression returns. A production whose body is called is not on the stack yet, so
    there are fewer and fewer productions that can be called next. -/
theorem leads_expression (active : List String) (frames : List Frame) (e : Expr) :
    Leads g frames ⟨active, frames, .expression e⟩ ⟨active, frames, .outcome (expressionOutcome g active e)⟩ := by
  refine leads_expression_of (fun p found frames => leads_production fun fresh frames => ?_) frames e
  -- The body is no part of `e`, but it is called with one more name on the stack.
  have fewer := Grammar.idle_length_lt found fresh
  exact leads_expression (p.name :: active) frames p.body
termination_by (g.idle active).length

end Walk

end RegularGrammar
