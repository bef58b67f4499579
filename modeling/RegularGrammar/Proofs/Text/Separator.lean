/-!
# What stands before a separator

A part without a separator can be told from what comes after the separator, be it
made of characters or of tokens. Parts with separators between them hold nothing
else.
-/

namespace RegularGrammar

theorem append_separator_inj {α : Type} {separator : α} {us vs ws zs : List α} (left : separator ∉ us)
    (right : separator ∉ ws) (h : us ++ separator :: vs = ws ++ separator :: zs) : us = ws ∧ vs = zs := by
  rcases List.append_eq_append_iff.mp h with ⟨between, rfl, rest⟩ | ⟨between, rfl, rest⟩
  · cases between with
    | nil => exact ⟨(List.append_nil us).symm, (List.cons.inj rest).2⟩
    | cons c cs =>
      obtain ⟨rfl, -⟩ := List.cons.inj rest
      exact absurd (List.mem_append_right us List.mem_cons_self) right
  · cases between with
    | nil => exact ⟨List.append_nil ws, (List.cons.inj rest).2.symm⟩
    | cons c cs =>
      obtain ⟨rfl, -⟩ := List.cons.inj rest
      exact absurd (List.mem_append_right ws List.mem_cons_self) left

theorem mem_intercalate {α : Type} {separator : List α} {parts : List (List α)} {a : α}
    (h : a ∈ List.intercalate separator parts) : a ∈ separator ∨ ∃ part ∈ parts, a ∈ part := by
  induction parts with
  | nil => simp at h
  | cons part rest ih =>
    cases rest with
    | nil => exact .inr ⟨part, List.mem_cons_self, by simpa using h⟩
    | cons next rest =>
      rw [List.intercalate_cons_cons, List.mem_append, List.mem_append] at h
      rcases h with (here | between) | later
      · exact .inr ⟨part, List.mem_cons_self, here⟩
      · exact .inl between
      · rcases ih later with between | ⟨other, member, inside⟩
        · exact .inl between
        · exact .inr ⟨other, List.mem_cons_of_mem _ member, inside⟩

end RegularGrammar
