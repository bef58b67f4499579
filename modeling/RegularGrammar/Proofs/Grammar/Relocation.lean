import RegularGrammar.Proofs.Grammar.Reading
import RegularGrammar.Proofs.Source.Relocation

/-!
# Where a grammar stands in its text

Reading looks at offsets only to tell them in its errors: the same tokens elsewhere make the
same grammar, or the same error elsewhere. So nothing but the offsets in an error depends on
the white space and the comments between the tokens of a text.
-/

namespace RegularGrammar

open Source (Token Item Trivia IsBoundary moved)

/-- The same error in a text whose offsets are different. -/
def ParseError.relocate (f : Nat → Nat) : ParseError → ParseError
  | .unexpected expected found offset => .unexpected expected found (f offset)
  | .unexpectedEnd expected => .unexpectedEnd expected
  | .redefined name offset => .redefined name (f offset)
  | .invalidToken e => .invalidToken (e.relocate f)

def Stage.relocate (f : Nat → Nat) : Stage → Stage
  | .outside => .outside
  | .named name offset => .named name (f offset)
  | .opened name offset => .opened name (f offset)
  | .inside name offset draft => .inside name (f offset) draft

namespace Reading

def relocate (f : Nat → Nat) (r : Reading) : Reading := ⟨r.done, r.stage.relocate f⟩

/-- The same outcome of a step, with other offsets. -/
def relocateResult (f : Nat → Nat) (result : Except ParseError Reading) : Except ParseError Reading :=
  (result.map (relocate f)).mapError (ParseError.relocate f)

section

variable (f : Nat → Nat) (r : Reading)

@[simp]
theorem expected_relocate : (r.relocate f).expected = r.expected := by
  obtain ⟨done, stage⟩ := r
  cases stage <;> rfl

@[simp]
theorem misfit_relocate (token : Token) : (r.relocate f).misfit (token.relocate f) = relocateResult f (r.misfit token) := by
  rw [misfit, expected_relocate]
  rfl

@[simp]
theorem close_relocate (name : String) (offset : Nat) (body : Expr) :
    (r.relocate f).close name (f offset) body = relocateResult f (r.close name offset body) := by
  unfold close
  by_cases taken : (r.done.get? name).isSome
  · rw [if_pos taken]
    exact if_pos taken
  · rw [if_neg taken]
    exact if_neg taken

@[simp]
theorem extend_relocate (name : String) (offset : Nat) (draft : Draft) (token : Token) :
    (r.relocate f).extend name (f offset) draft (token.relocate f) = relocateResult f (r.extend name offset draft token) := by
  have kind : (token.relocate f).kind = token.kind := rfl
  unfold extend
  rw [kind]
  cases draft.step token.kind with
  | some draft' => rfl
  | none => exact misfit_relocate f r token

@[simp]
theorem step_relocate (token : Token) : (r.relocate f).step (token.relocate f) = relocateResult f (r.step token) := by
  obtain ⟨done, stage⟩ := r
  cases stage with
  | outside =>
    obtain ⟨kind, offset, origin⟩ := token
    cases kind with
    | name text => rfl
    | _ => exact misfit_relocate f ⟨done, .outside⟩ _
  | named name start =>
    obtain ⟨kind, offset, origin⟩ := token
    cases kind with
    | equals => rfl
    | _ => exact misfit_relocate f ⟨done, .named name start⟩ _
  | opened name start =>
    by_cases period : token.kind = .period
    · obtain ⟨_, offset, origin⟩ := token
      cases period
      exact close_relocate f ⟨done, .opened name start⟩ name start _
    · have before : step ⟨done, .opened name start⟩ token = _ := step_opened rfl period
      have after : step ⟨done, .opened name (f start)⟩ (token.relocate f) = _ := step_opened rfl period
      rw [before]
      exact after.trans (extend_relocate f ⟨done, .opened name start⟩ name start .start token)
  | inside name start draft =>
    by_cases period : token.kind = .period
    · obtain ⟨_, offset, origin⟩ := token
      cases period
      simp only [step, relocate, Stage.relocate, Token.relocate]
      cases draft.finish? with
      | some body => exact close_relocate f ⟨done, .inside name start draft⟩ name start body
      | none => exact misfit_relocate f ⟨done, .inside name start draft⟩ ⟨.period, offset, origin⟩
    · have before : step ⟨done, .inside name start draft⟩ token = _ := step_inside rfl period
      have after : step ⟨done, .inside name (f start) draft⟩ (token.relocate f) = _ := step_inside rfl period
      rw [before]
      exact after.trans (extend_relocate f ⟨done, .inside name start draft⟩ name start draft token)

@[simp]
theorem finish_relocate : (r.relocate f).finish = r.finish.mapError (ParseError.relocate f) := by
  obtain ⟨done, stage⟩ := r
  cases stage <;> rfl

end

/-- The same items elsewhere come to the same grammar, or the same error elsewhere. -/
theorem run_relocate (f : Nat → Nat) (r : Reading) (items : List Item) :
    (r.relocate f).run (items.map (Item.relocate f)) = (r.run items).mapError (ParseError.relocate f) := by
  induction items generalizing r with
  | nil => exact finish_relocate f r
  | cons item items ih =>
    cases item with
    | error e => rfl
    | ok token =>
      rw [List.map_cons, Item.relocate, run, run, step_relocate]
      cases r.step token with
      | error e => rfl
      | ok next => exact ih next

end Reading

namespace Grammar

/-- White space and comments that are put where a token begins or ends change nothing but offsets, those of the tokens
    that come after them: of a grammar nothing, of an error the offset that it tells. -/
theorem ofText_insert (before gap after : String) {tokens : List Token}
    (read : Source.items (before ++ after) = tokens.map .ok) {token : Token} (member : token ∈ tokens)
    (boundary : before.utf8ByteSize = token.offset ∨ before.utf8ByteSize = token.offset + token.origin.utf8ByteSize)
    (trivia : Trivia gap.toList) (nonempty : gap ≠ "") :
    Source.items (before ++ gap ++ after) =
        (tokens.map (Token.relocate (moved before.utf8ByteSize gap.utf8ByteSize))).map .ok ∧
      ofText (before ++ gap ++ after) =
        (ofText (before ++ after)).mapError (ParseError.relocate (moved before.utf8ByteSize gap.utf8ByteSize)) := by
  have noError : ∀ e, .error e ∉ Source.items (before ++ after) := by simp [read]
  have isBoundary : IsBoundary (Source.items (before ++ after)) before.utf8ByteSize := by
    refine ⟨token, ?_, boundary⟩
    rw [read]
    exact List.mem_map_of_mem member
  have items := Source.items_insert noError isBoundary trivia nonempty
  constructor
  · rw [items, read, List.map_map, List.map_map]
    rfl
  · rw [ofText, items]
    exact Reading.run_relocate _ Reading.start _

/-- A comment after the equals sign, before a bracket that nothing opens. -/
theorem ofText_insert_comment : ofText "a = ) ." = .error (.unexpected .term ")" 4) ∧
    ofText "a =// é\n ) ." = .error (.unexpected .term ")" 10) := by
  have read : Source.items ("a =" ++ " ) .") =
      [⟨.name "a", 0, "a"⟩, ⟨.equals, 2, "="⟩, ⟨.closing .round, 4, ")"⟩, ⟨.period, 6, "."⟩].map .ok := by with_unfolding_all rfl
  have refused : ofText ("a =" ++ " ) .") = .error (.unexpected .term ")" 4) := by with_unfolding_all rfl
  have comment : Trivia ('/' :: '/' :: [' ', 'é'] ++ ['\n']) := .lineComment (by decide) .nil
  -- The gap is put where the second token ends.
  have inserted := ofText_insert "a =" "// é\n" " ) ." read (List.mem_cons_of_mem _ List.mem_cons_self) (.inr rfl) comment
    (by decide)
  rw [refused] at inserted
  exact ⟨refused, inserted.2⟩

end Grammar

end RegularGrammar
