import RegularGrammar.Proofs.Grammar.Flaw
import RegularGrammar.Proofs.Grammar.Regularity
import RegularGrammar.Proofs.Grammar.Unfolding

/-!
# Irregularities of a grammar without flaws

An expression has no regular expression because a name in it has none, or because of
an obstacle of its own. So an expansion that fails has come along a chain of references
to where it stops: at an undefined name, at one whose body is being expanded already, or
at an obstacle in the body itself. An undefined name stops only what leads to it, and in
a grammar without flaws nothing does. There the start leads to every production: it has
a regular expression exactly if all of them do.
-/

namespace RegularGrammar

@[simp]
theorem map_eq_error_iff {ε α β : Type} {x : Except ε α} {f : α → β} {e : ε} :
    x.map f = .error e ↔ x = .error e := by
  cases x <;> simp [Except.map]

@[simp]
theorem mapError_eq_error_iff {ε δ α : Type} {x : Except ε α} {f : ε → δ} {d : δ} :
    x.mapError f = .error d ↔ ∃ e, x = .error e ∧ f e = d := by
  cases x <;> simp [Except.mapError]

theorem Regex.negate_eq_error {r : Regex} {o : Obstacle} (h : r.negate = .error o) :
    (∃ operand, o = .unsupportedNegation operand) ∨ ∃ text, o = .invalidLiteralNegation text := by
  have ofOutside {s : CharClass} (failed : outside s = .error o) : o = .unsupportedNegation .any := by
    unfold outside at failed
    split at failed
    · cases failed
    · cases failed
      rfl
  cases r with
  | set s => exact .inl ⟨_, ofOutside h⟩
  | literal text =>
    rw [negate] at h
    split at h
    · exact .inl ⟨_, ofOutside h⟩
    · cases h
      exact .inr ⟨text, rfl⟩
  | _ =>
    cases h
    exact .inl ⟨_, rfl⟩

namespace Expr

variable {owner : String} {lookUp : String → Except Irregularity Regex}

/-- An obstacle stands in an expression itself, and not in what its names stand for. -/
inductive Obstructed (owner : String) (lookUp : String → Except Irregularity Regex) (e : Expr) : Obstacle → Prop where
  | range {first last : String} : Within (.range first last) e → ¬ Ordered first last →
      Obstructed owner lookUp e (.invalidRange first last)
  | complement {body : Expr} {r : Regex} {o : Obstacle} : Within (.complement body) e →
      toRegex owner lookUp body = .ok r → r.negate = .error o → Obstructed owner lookUp e o

theorem Obstructed.whole {part e : Expr} {o : Obstacle} (h : Obstructed owner lookUp part o)
    (within : ∀ inner, Within inner part → Within inner e) : Obstructed owner lookUp e o := by
  cases h with
  | range inside improper => exact .range (within _ inside) improper
  | complement inside operand failed => exact .complement (within _ inside) operand failed

/-- An irregularity is that of a name in an expression, or an obstacle of its own. -/
def Irregular (owner : String) (lookUp : String → Except Irregularity Regex) (e : Expr) (i : Irregularity) : Prop :=
  (∃ n ∈ e.references, lookUp n = .error i) ∨ i.production = owner ∧ Obstructed owner lookUp e i.obstacle

theorem Irregular.whole {part e : Expr} {i : Irregularity} (h : Irregular owner lookUp part i)
    (within : ∀ inner, Within inner part → Within inner e) : Irregular owner lookUp e i := by
  rcases h with ⟨n, member, failed⟩ | ⟨own, obstructed⟩
  · have inside := within _ ((mem_references_iff part).mp member)
    exact .inl ⟨n, (mem_references_iff e).mpr inside, failed⟩
  · exact .inr ⟨own, obstructed.whole within⟩

theorem toRegex_range_eq_error {first last : String} {i : Irregularity}
    (h : toRegex owner lookUp (.range first last) = .error i) : i = ⟨owner, .invalidRange first last⟩ := by
  rw [toRegex] at h
  split at h
  · split at h
    · cases h
    · cases h
      rfl
  · cases h
    rfl

mutual

theorem toRegex_eq_error : (e : Expr) → {i : Irregularity} → toRegex owner lookUp e = .error i →
    Irregular owner lookUp e i
  | .range first last, i, h => by
    have improper : ¬ Ordered first last := by
      intro ordered
      obtain ⟨lo, hi, lower, upper, le⟩ := ordered
      rw [toRegex_range_iff.mpr ⟨lo, hi, lower, upper, le, rfl⟩] at h
      cases h
    cases toRegex_range_eq_error h
    exact .inr ⟨rfl, .range .all improper⟩
  | .literal _, _, h => by
    rw [toRegex] at h
    cases h
  | .sequence items, _, h => by
    rw [toRegex, map_eq_error_iff] at h
    obtain ⟨e, member, irregular⟩ := toRegexes_eq_error items h
    exact irregular.whole fun _ => .sequence member
  | .alternative items, _, h => by
    rw [toRegex, map_eq_error_iff] at h
    obtain ⟨e, member, irregular⟩ := toRegexes_eq_error items h
    exact irregular.whole fun _ => .alternative member
  | .repetition body, _, h => by
    rw [toRegex, map_eq_error_iff] at h
    exact (toRegex_eq_error body h).whole fun _ => .repetition
  | .option body, _, h => by
    rw [toRegex, map_eq_error_iff] at h
    exact (toRegex_eq_error body h).whole fun _ => .option
  | .group body, _, h => by
    rw [toRegex] at h
    exact (toRegex_eq_error body h).whole fun _ => .group
  | .name n, _, h => .inl ⟨n, List.mem_singleton_self n, h⟩
  | .complement body, i, h => by
    rw [toRegex] at h
    cases operand : toRegex owner lookUp body with
    | error j =>
      rw [operand] at h
      cases h
      exact (toRegex_eq_error body operand).whole fun _ => .complement
    | ok r =>
      rw [operand] at h
      obtain ⟨o, failed, rfl⟩ := mapError_eq_error_iff.mp h
      exact .inr ⟨rfl, .complement .all operand failed⟩

theorem toRegexes_eq_error : (es : List Expr) → {i : Irregularity} → toRegexes owner lookUp es = .error i →
    ∃ e ∈ es, Irregular owner lookUp e i
  | [], _, h => by
    rw [toRegexes] at h
    cases h
  | e :: rest, i, h => by
    rw [toRegexes] at h
    cases first : toRegex owner lookUp e with
    | error j =>
      rw [first] at h
      cases h
      exact ⟨e, List.mem_cons_self, toRegex_eq_error e first⟩
    | ok r =>
      rw [first] at h
      obtain ⟨f, member, irregular⟩ := toRegexes_eq_error rest (map_eq_error_iff.mp h)
      exact ⟨f, List.mem_cons_of_mem e member, irregular⟩

end

/-- An obstacle of an expression itself is a range or a complement in it. -/
theorem Obstructed.kind {e : Expr} {o : Obstacle} (h : Obstructed owner lookUp e o) :
    (∃ first last, o = .invalidRange first last) ∨ (∃ operand, o = .unsupportedNegation operand) ∨
      ∃ text, o = .invalidLiteralNegation text := by
  cases h with
  | range => exact .inl ⟨_, _, rfl⟩
  | complement _ _ failed => exact .inr (Regex.negate_eq_error failed)

end Expr

namespace Grammar

variable {g : Grammar}

/-- A name is expanded inside the bodies of `active`, the innermost first, with an irregularity that is not that
    of a name in its own body. -/
inductive Stops (g : Grammar) (active : List String) (n : String) : Irregularity → Prop where
  | missing : ¬ g.Defines n → Stops g active n ⟨active.headD n, .undefinedProduction n⟩
  | cyclic : g.Defines n → n ∈ active → Stops g active n ⟨active.headD n, .cycle (cyclePath n active)⟩
  | obstructed {p : Production} {o : Obstacle} : g.get? n = some p → Expr.Obstructed n (g.expand (n :: active)) p.body o →
      Stops g active n ⟨n, o⟩

/-- An expansion with an irregularity stops somewhere along a chain of references from where it is, and the bodies it is
    in at that point are different ones. -/
theorem Chain.exists_stops {start n : String} {active : List String} {i : Irregularity} (chain : g.Chain start active n)
    (different : active.Nodup) (h : g.expand active n = .error i) :
    ∃ inner m, g.Chain start inner m ∧ inner.Nodup ∧ g.Stops inner m i := by
  induction active, n using Grammar.expand.induct g with
  | case1 active n undefined =>
    rw [expand_of_missing undefined] at h
    cases h
    exact ⟨active, n, chain, different, .missing (by simp [Defines, undefined])⟩
  | case2 active n p found cyclic =>
    rw [expand_of_found found, if_pos cyclic] at h
    cases h
    exact ⟨active, n, chain, different, .cyclic (by simp [Defines, found]) cyclic⟩
  | case3 active n p found fresh ih =>
    rw [expand_of_found found, if_neg fresh] at h
    rcases Expr.toRegex_eq_error p.body h with ⟨m, member, failed⟩ | ⟨own, obstructed⟩
    · have refers : g.Refers n m := ⟨p, found, member⟩
      exact ih m (.step chain refers) (List.nodup_cons.mpr ⟨fresh, different⟩) failed
    · obtain ⟨owner, o⟩ := i
      obtain rfl : n = owner := own.symm
      exact ⟨active, n, chain, different, .obstructed found obstructed⟩

theorem exists_stops_of_regex {n : String} {i : Irregularity} (h : g.regex n = .error i) :
    ∃ inner m, g.Chain n inner m ∧ inner.Nodup ∧ g.Stops inner m i :=
  Chain.exists_stops .start List.nodup_nil h

/-- A name that is told to be missing is undefined, and the expanded name leads to it. -/
theorem reaches_of_regex_undefined {n owner missing : String}
    (h : g.regex n = .error ⟨owner, .undefinedProduction missing⟩) : g.Reaches n missing ∧ ¬ g.Defines missing := by
  obtain ⟨inner, m, chain, -, stops⟩ := exists_stops_of_regex h
  cases stops with
  | missing undefined => exact ⟨chain.reaches, undefined⟩
  | obstructed _ obstructed => rcases obstructed.kind with ⟨_, _, same⟩ | ⟨_, same⟩ | ⟨_, same⟩ <;> cases same

theorem Flawless.defines_of_reaches {start n m : String} (h : g.Flawless start) (defined : g.Defines n)
    (chain : g.Reaches n m) : g.Defines m := by
  induction chain with
  | refl => exact defined
  | @step a b _ refers _ =>
    obtain ⟨p, member, -, inside⟩ := refers_iff.mp refers
    apply Classical.not_not.mp
    intro undefined
    exact h.closed p member ⟨b, inside, undefined⟩

theorem Flawless.regex_ne_undefined {start : String} (h : g.Flawless start) {p : Production} (member : p ∈ g.productions)
    (owner missing : String) : g.regex p.name ≠ .error ⟨owner, .undefinedProduction missing⟩ := by
  intro failed
  obtain ⟨chain, undefined⟩ := reaches_of_regex_undefined failed
  exact undefined (h.defines_of_reaches (defines_of_mem member) chain)

theorem wholeRegex_ok_iff {start : String} : (∃ r, g.wholeRegex start = .ok r) ↔ ∃ r, g.regex start = .ok r := by
  simp only [wholeRegex, map_eq_ok_iff]
  constructor
  · rintro ⟨_, r, found, -⟩
    exact ⟨r, found⟩
  · rintro ⟨r, found⟩
    exact ⟨_, r, found, rfl⟩

theorem Flawless.regex_start_ok_iff {start : String} (h : g.Flawless start) :
    (∃ r, g.regex start = .ok r) ↔ ∀ p ∈ g.productions, ∃ r, g.regex p.name = .ok r := by
  constructor
  · rintro ⟨r, found⟩ p member
    exact regex_of_reaches found (h.connected p member)
  · intro all
    obtain ⟨p, found⟩ := Option.isSome_iff_exists.mp h.defined
    have first := all p (mem_of_get? found)
    rwa [name_of_get? found] at first

theorem pattern_eq_error_iff {start : String} {d : Dialect} {i : Irregularity} :
    g.pattern start d = .error i ↔ g.regex start = .error i := by
  simp [pattern, wholeRegex]

/-- In a grammar without flaws no production leads to an undefined name, and the start has a regular expression
    exactly if every production has one: there is no pattern, in any dialect, just when the listing of the
    productions shows an irregularity. -/
theorem wholeRegex_ok_iff_all {start : String} (sound : g.flaw? start = none) :
    (∀ p ∈ g.productions, ∀ owner missing, g.regex p.name ≠ .error ⟨owner, .undefinedProduction missing⟩) ∧
      ((∃ r, g.wholeRegex start = .ok r) ↔ ∀ p ∈ g.productions, ∃ r, g.regex p.name = .ok r) ∧
        ∀ d, (∃ i, g.pattern start d = .error i) ↔ ∃ p ∈ g.productions, ∃ i, g.regex p.name = .error i := by
  have flawless := flawless_of_flaw? sound
  have fails {n : String} : (∃ i, g.regex n = .error i) ↔ ¬ ∃ r, g.regex n = .ok r := by
    cases g.regex n <;> simp
  refine ⟨fun p => flawless.regex_ne_undefined, ?_, fun d => ?_⟩
  · rw [wholeRegex_ok_iff, flawless.regex_start_ok_iff]
  · simp only [pattern_eq_error_iff, fails, flawless.regex_start_ok_iff, Classical.not_forall, exists_prop]

/-- Two productions that lead to each other, and a start that leads to them: a grammar without flaws and
    without a pattern. -/
def entangled : Grammar :=
  .ofList [⟨"start", .sequence [.name "left", .option (.name "digit")]⟩, ⟨"left", .repetition (.name "right")⟩,
    ⟨"right", .group (.name "left")⟩, ⟨"digit", .range "0" "9"⟩]

theorem entangled_no_pattern : entangled.flaw? "start" = none ∧
    (∃ i, entangled.regex "left" = .error i) ∧ ∀ d, ∃ i, entangled.pattern "start" d = .error i := by
  have sound : entangled.flaw? "start" = none := by cbv
  have left : ∃ i, entangled.regex "left" = .error i := ⟨⟨"right", .cycle ["left", "right", "left"]⟩, by cbv⟩
  obtain ⟨-, -, fails⟩ := wholeRegex_ok_iff_all sound
  refine ⟨sound, left, fun d => (fails d).mpr ⟨⟨"left", .repetition (.name "right")⟩, ?_, left⟩⟩
  exact mem_of_get? (n := "left") (by cbv)

end Grammar

end RegularGrammar
