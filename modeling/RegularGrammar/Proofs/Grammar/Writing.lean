import Mathlib.Data.List.Nodup
import RegularGrammar.Proofs.Grammar.Reading
import RegularGrammar.Proofs.Grammar.Shape
import RegularGrammar.Proofs.Source.Written

/-!
# Writing a grammar

The productions of a well-shaped grammar, written with a blank between any two
tokens, are read back as the same grammar, in whatever order they are written.
Every grammar that is read from a text is well-shaped.
-/

namespace RegularGrammar

open Source (Token TokenKind Writes Blank)
open Phrase (Rule rulesKinds)

/-- The text of words with a blank between any two of them. -/
def spaced (words : List (List Char)) : List Char := List.intercalate [' '] words

/-- After the first word the text ends, or a blank stands before the other words. -/
theorem spaced_cons (word : List Char) (words : List (List Char)) : ∃ gap, Blank gap ∧
    Source.Separated (gap ++ spaced words) ∧ spaced (word :: words) = word ++ (gap ++ spaced words) := by
  cases words with
  | nil => exact ⟨[], .inl rfl, .inl rfl, by simp [spaced]⟩
  | cons next words => exact ⟨[' '], .inr rfl, .inr ⟨_, rfl⟩, by simp [spaced, List.intercalate_cons_cons]⟩

/-- Tokens that are written with a blank between any two of them are read back. -/
theorem isTokens_written {ks : List TokenKind} {words : List (List Char)} (writes : List.Forall₂ Writes ks words)
    {gap : List Char} (blank : Blank gap) (o : Nat) : IsTokens (Source.Cursor.items ⟨o, gap ++ spaced words⟩) ks := by
  induction writes generalizing gap o with
  | nil =>
    rw [show spaced [] = [] from rfl, List.append_nil, Source.items_blank blank]
    exact isTokens_nil
  | @cons kind word ks words first others ih =>
    obtain ⟨gap', blank', separated, split⟩ := spaced_cons word words
    obtain ⟨token, o', rfl, next⟩ := Source.items_written first blank separated o
    rw [split, next]
    exact (ih blank' o').cons token

/-- Tokens whose names are identifiers can be written. -/
theorem exists_words {ks : List TokenKind} (named : Named ks) : ∃ words, List.Forall₂ Writes ks words := by
  induction ks with
  | nil => exact ⟨[], .nil⟩
  | cons k rest ih =>
    obtain ⟨words, writes⟩ := ih named.tail
    obtain ⟨word, first⟩ := Source.exists_writes fun text same => named text (same ▸ List.mem_cons_self)
    exact ⟨word :: words, .cons first writes⟩

namespace Grammar

theorem insertInto_perm {p : Production} {ps : List Production} (fresh : ∀ q ∈ ps, q.name ≠ p.name) :
    (insertInto p ps).Perm (p :: ps) := by
  induction ps with
  | nil => exact .refl _
  | cons q rest ih =>
    have ⟨other, others⟩ := List.forall_mem_cons.mp fresh
    rw [insertInto]
    split
    · exact .refl _
    · rw [if_neg (Ne.symm other)]
      exact ((ih others).cons q).trans (.swap p q rest)

theorem foldl_insert_perm {ps : List Production} {g : Grammar}
    (different : ((g.productions ++ ps).map Production.name).Nodup) :
    (ps.foldl insert g).productions.Perm (g.productions ++ ps) := by
  induction ps generalizing g with
  | nil =>
    rw [List.append_nil]
    exact .refl _
  | cons p rest ih =>
    have fresh : ∀ q ∈ g.productions, q.name ≠ p.name := by
      intro q member
      rw [List.map_append, List.nodup_append] at different
      exact different.2.2 q.name (List.mem_map_of_mem member) p.name (List.mem_map_of_mem List.mem_cons_self)
    have moved : ((g.insert p).productions ++ rest).Perm (g.productions ++ p :: rest) :=
      ((insertInto_perm fresh).append_right rest).trans List.perm_middle.symm
    exact (ih ((moved.map _).nodup_iff.mpr different)).trans moved

theorem ofList_perm {ps : List Production} (different : (ps.map Production.name).Nodup) :
    (ofList ps).productions.Perm ps := foldl_insert_perm different

theorem names_nodup (g : Grammar) : (g.productions.map Production.name).Nodup := by
  rw [List.Nodup, List.pairwise_map]
  exact g.ascending.imp fun before => Std.ne_of_lt before

/-- Grammars of the same productions are the same. -/
theorem eq_of_perm {g h : Grammar} (same : g.productions.Perm h.productions) : g = h := by
  obtain ⟨ps, ascending⟩ := g
  obtain ⟨qs, ascending'⟩ := h
  have equal : ps = qs := same.eq_of_pairwise (fun p q _ _ before after => absurd after (String.lt_asymm before))
    ascending ascending'
  cases equal
  rfl

end Grammar

/-- A text writes productions, one after the other, with a blank between any two tokens. -/
def WritesProductions (ps : List Production) (text : String) : Prop :=
  ∃ words, List.Forall₂ Writes (ps.flatMap Production.kinds) words ∧ text.toList = spaced words

namespace Grammar

theorem wellShaped_of_ofText {text : String} {g : Grammar} (read : ofText text = .ok g) : g.WellShaped := by
  obtain ⟨rules, ⟨tokens, items, kinds⟩, different, rfl⟩ := derives_of_ofText read
  have named : Named (rulesKinds rules) := by
    intro name member
    rw [← kinds] at member
    obtain ⟨token, isToken, isName⟩ := List.mem_map.mp member
    exact Source.isIdentifier_of_mem_items (items ▸ List.mem_map_of_mem isToken) isName
  intro p member
  rw [← map_production_name] at different
  rw [grammarOf, (ofList_perm different).mem_iff] at member
  obtain ⟨rule, isRule, rfl⟩ := List.mem_map.mp member
  exact rule.wellShaped fun name inRule => named name (List.mem_flatMap.mpr ⟨rule, isRule, inRule⟩)

theorem exists_writesProductions {ps : List Production} (h : ∀ p ∈ ps, p.WellShaped) : ∃ text, WritesProductions ps text := by
  obtain ⟨words, writes⟩ := exists_words (named_productions h)
  exact ⟨String.ofList (spaced words), words, writes, String.toList_ofList⟩

theorem ofText_of_writesProductions {g : Grammar} (wellShaped : g.WellShaped) {ps : List Production}
    (same : ps.Perm g.productions) {text : String} (writes : WritesProductions ps text) : ofText text = .ok g := by
  obtain ⟨rules, productions, kinds⟩ := exists_rules fun p member => wellShaped p (same.mem_iff.mp member)
  obtain ⟨words, written, spells⟩ := writes
  have derives : Derives text rules := by
    rw [Derives, kinds, Source.items, Source.Cursor.start, spells]
    exact isTokens_written written (.inl rfl) 0
  have different : (ps.map Production.name).Nodup := (same.map _).nodup_iff.mpr g.names_nodup
  have read : ofText text = .ok (grammarOf rules) := by
    refine ofText_of_derives derives ?_
    rw [← map_production_name, productions]
    exact different
  rw [read, grammarOf, productions, eq_of_perm ((ofList_perm different).trans same)]

/-- Every grammar that is read is well-shaped, and every well-shaped grammar is read from each text that writes its
    productions in some order. -/
theorem ofText_written :
    (∀ text g, ofText text = .ok g → g.WellShaped) ∧
      ∀ g : Grammar, g.WellShaped → ∀ ps, ps.Perm g.productions →
        (∃ text, WritesProductions ps text) ∧ ∀ text, WritesProductions ps text → ofText text = .ok g := by
  refine ⟨fun _ _ => wellShaped_of_ofText, fun g wellShaped ps same => ⟨?_, ?_⟩⟩
  · exact exists_writesProductions fun p member => wellShaped p (same.mem_iff.mp member)
  · exact fun _ => ofText_of_writesProductions wellShaped same

/-- Signs with quotation marks, line feeds and backslashes for bounds and literals. -/
def signs : List Production :=
  [⟨"start", .alternative [.sequence [.name "sign", .option (.name "start")], .literal ""]⟩,
   ⟨"sign", .group (.alternative [.complement (.range "\n" "\""), .literal "\\"])⟩]

def signsText : String :=
  "start = sign [ start ] | \"\" . sign = ( not \"\\n\" … \"\\\"\" | \"\\\\\" ) ."

/-- The same productions in another order, written without blanks. -/
def denseText : String := "sign=(not\x60\n\x60...\x60\"\x60|\x60\\\x60).start=sign[start]|\x60\x60."

theorem ofText_written_signs :
    ofText denseText = .ok (ofList signs) ∧ signs.Perm (ofList signs).productions ∧ WritesProductions signs signsText ∧
      (ofList signs).WellShaped ∧ ofText signsText = .ok (ofList signs) := by
  have read : ofText denseText = .ok (ofList signs) := by with_unfolding_all rfl
  have same : signs.Perm (ofList signs).productions := (ofList_perm (by decide)).symm
  have wellShaped := ofText_written.1 denseText _ read
  have isName {p : Production} (member : p ∈ signs) : Source.IsIdentifier p.name :=
    (wellShaped p (same.mem_iff.mp member)).name
  have startName : Source.IsIdentifier "start" := isName (p := signs[0]) (List.getElem_mem _)
  have signName : Source.IsIdentifier "sign" := isName (p := signs[1]) (List.getElem_mem _)
  have writes : WritesProductions signs signsText :=
    ⟨_, .cons (.name startName) <| .cons .equals <| .cons (.name signName) <| .cons (.opening .square) <|
      .cons (.name startName) <| .cons (.closing .square) <| .cons .pipe <| .cons (.literal "") <| .cons .period <|
      .cons (.name signName) <| .cons .equals <| .cons (.opening .round) <| .cons .not <| .cons (.literal "\n") <|
      .cons .ellipsis <| .cons (.literal "\"") <| .cons .pipe <| .cons (.literal "\\") <|
      .cons (.closing .round) <| .cons .period .nil, by decide⟩
  exact ⟨read, same, writes, wellShaped, (ofText_written.2 _ wellShaped signs same).2 _ writes⟩

end Grammar

end RegularGrammar
