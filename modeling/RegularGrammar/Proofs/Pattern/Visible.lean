import RegularGrammar.Proofs.Text.Separator
import RegularGrammar.Regex.Pattern

/-!
# Patterns on one line

A pattern holds no control character: those in literals and classes are escaped,
and nothing else writes one. So a pattern has no line break in it.
-/

namespace RegularGrammar

/-- A text without control characters. -/
def Visible (text : List Char) : Prop := ∀ c ∈ text, Unicode.isControl c = false

instance (text : List Char) : Decidable (Visible text) :=
  List.decidableBAll (fun c => Unicode.isControl c = false) text

@[simp]
theorem visible_append {u v : List Char} : Visible (u ++ v) ↔ Visible u ∧ Visible v := List.forall_mem_append

@[simp]
theorem visible_cons {c : Char} {cs : List Char} : Visible (c :: cs) ↔ Unicode.isControl c = false ∧ Visible cs :=
  List.forall_mem_cons

theorem visible_flatMap {α : Type} {f : α → List Char} {xs : List α} (each : ∀ x ∈ xs, Visible (f x)) :
    Visible (xs.flatMap f) := by
  intro c member
  obtain ⟨x, inList, inText⟩ := List.mem_flatMap.mp member
  exact each x inList c inText

theorem visible_flatten {ts : List (List Char)} (each : ∀ t ∈ ts, Visible t) : Visible ts.flatten := by
  intro c member
  obtain ⟨t, listed, inside⟩ := List.mem_flatten.mp member
  exact each t listed c inside

theorem visible_intercalate {sep : List Char} (between : Visible sep) {ts : List (List Char)} (each : ∀ t ∈ ts, Visible t) :
    Visible (List.intercalate sep ts) := by
  intro c member
  rcases mem_intercalate member with inSep | ⟨t, listed, inside⟩
  · exact between c inSep
  · exact each t listed c inside

namespace Dialect

variable {d : Dialect}

theorem digits_visible (n : Nat) : Visible ((Nat.toDigits 16 n).map Char.toUpper) := by
  have digit : ∀ n < 16, Unicode.isControl (Nat.digitChar n).toUpper = false := by decide
  induction n using Nat.strongRecOn with
  | ind n ih =>
    rw [Nat.toDigits_eq_if (by decide)]
    split
    · rename_i small
      simpa [Visible] using digit n small
    · rename_i large
      have upper := ih (n / 16) (by omega)
      have lower := digit (n % 16) (Nat.mod_lt n (by decide))
      rw [List.map_append, visible_append]
      exact ⟨upper, by simpa [Visible] using lower⟩

theorem charText_visible {special : Char → Bool} (c : Char) : Visible (d.charText special c) := by
  unfold charText
  split
  · simp [Visible, Unicode.isControl]
  split
  · simp [Visible, Unicode.isControl]
  split
  · simp [Visible, Unicode.isControl]
  split
  · rw [codePointText, visible_append, visible_append]
    exact ⟨⟨by cases d <;> decide, digits_visible _⟩, by decide⟩
  rename_i shown
  rw [Bool.not_eq_true] at shown
  split
  · exact visible_cons.mpr ⟨by decide, List.forall_mem_singleton.mpr shown⟩
  · exact List.forall_mem_singleton.mpr shown

theorem rangeText_visible (r : CharRange) : Visible (d.rangeText r) := by
  simp only [rangeText]
  split
  · exact charText_visible _
  split
  · exact visible_append.mpr ⟨charText_visible _, charText_visible _⟩
  · exact visible_append.mpr ⟨charText_visible _, visible_cons.mpr ⟨by decide, charText_visible _⟩⟩

theorem membersText_visible (rs : List CharRange) : Visible (d.membersText rs) :=
  visible_flatMap fun r _ => rangeText_visible r

theorem classText_visible (s : CharClass) : Visible (d.classText s) := by
  unfold classText
  split
  · cases d <;> decide
  split
  · split
    · cases d <;> decide
    · rw [visible_append, visible_append]
      exact ⟨⟨by decide, membersText_visible _⟩, by decide⟩
  · rw [List.cons_append, visible_cons, visible_append]
    exact ⟨by decide, membersText_visible _, by decide⟩

end Dialect

namespace Regex

variable {d : Dialect}

theorem grouped_visible {text : List Char} (h : Visible text) : Visible (grouped text) := by
  rw [grouped, visible_append, visible_append]
  exact ⟨⟨by decide, h⟩, by decide⟩

theorem quantified_visible {atomic : Bool} {text : List Char} (h : Visible text) {sign : Char}
    (shown : Unicode.isControl sign = false) : Visible ((if atomic then text else grouped text) ++ [sign]) := by
  refine visible_append.mpr ⟨?_, List.forall_mem_singleton.mpr shown⟩
  cases atomic with
  | true => exact h
  | false => exact grouped_visible h

mutual

theorem text_visible : (r : Regex) → Visible (r.text d)
  | .set s => Dialect.classText_visible s
  | .any => by cases d <;> decide
  | .literal t => visible_flatMap fun c _ => Dialect.charText_visible c
  | .concat items => visible_flatten (texts_visible items)
  | .star body => quantified_visible (text_visible body) (by decide)
  | .plus body => quantified_visible (text_visible body) (by decide)
  | .opt body => quantified_visible (text_visible body) (by decide)
  | .alt items => grouped_visible (visible_intercalate (by decide) (texts_visible items))
  | .beginText => by cases d <;> decide
  | .endText => by cases d <;> decide

theorem texts_visible : (rs : List Regex) → ∀ t ∈ texts d rs, Visible t
  | [] => by simp [texts]
  | r :: rest => List.forall_mem_cons.mpr ⟨text_visible r, texts_visible rest⟩

end

theorem pattern_visible (r : Regex) (d : Dialect) : Visible (r.pattern d).toList := by
  rw [pattern, String.toList_ofList]
  exact text_visible r

end Regex

end RegularGrammar
