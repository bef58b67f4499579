import RegularGrammar.Proofs.Grammar.Relocation
import RegularGrammar.Proofs.Grammar.Writing

/-!
# Grammars of texts put together

A reading carries nothing from one production to the next but the grammar so far. So a text
after another one adds its productions to the grammar of that one, or is refused at the first
of them whose name is taken.
-/

namespace RegularGrammar

open Source (Token Item moved)
open Phrase (Rule rulesKinds)

namespace Grammar

/-- The first production of a text whose name a grammar takes, by that name and the offset at which it stands. -/
inductive FirstTaken (g : Grammar) (text : String) : String → Nat → Prop where
  | found {earlier : List Rule} {rule : Rule} {whole others rest : List Token} {first : Token} :
      Source.items text = (whole ++ first :: others ++ rest).map .ok → whole.map (·.kind) = rulesKinds earlier →
        (first :: others).map (·.kind) = rule.kinds → (∀ other ∈ earlier, g.get? other.name = none) →
          (g.get? rule.name).isSome → FirstTaken g text rule.name first.offset

variable {text : String} {rules : List Rule}

theorem run_of_free (derives : Derives text rules) (different : (ruleNames rules).Nodup) {g : Grammar}
    (free : ∀ rule ∈ rules, g.get? rule.name = none) :
    Reading.run ⟨g, .outside⟩ (Source.items text) = .ok ((rules.map Rule.production).foldl insert g) := by
  obtain ⟨tokens, items, kinds⟩ := derives
  have read := Reading.run_append ⟨g, .outside⟩ tokens []
  rw [Reading.take_rules different free kinds, List.append_nil, ← items] at read
  exact read

/-- Where not all names are free, the text is refused at the first that is not. -/
theorem run_of_taken (derives : Derives text rules) (different : (ruleNames rules).Nodup) {g : Grammar} {taken : Rule}
    (member : taken ∈ rules) (isTaken : (g.get? taken.name).isSome) : ∃ name offset, FirstTaken g text name offset ∧
      Reading.run ⟨g, .outside⟩ (Source.items text) = .error (.redefined name offset) := by
  obtain ⟨tokens, items, kinds⟩ := derives
  have known : (rules.find? fun rule => (g.get? rule.name).isSome).isSome :=
    List.find?_isSome.mpr ⟨taken, member, isTaken⟩
  obtain ⟨rule, found⟩ := Option.isSome_iff_exists.mp known
  obtain ⟨isTaken, earlier, later, rfl, notBefore⟩ := List.find?_eq_some_iff_append.mp found
  have free : ∀ other ∈ earlier, g.get? other.name = none := fun other member => by simpa using notBefore other member
  rw [ruleNames, List.map_append] at different
  have differentBefore : (ruleNames earlier).Nodup := different.of_append_left
  have stillTaken : (((earlier.map Rule.production).foldl insert g).get? rule.name).isSome := by
    rw [get?_foldl_insert (by rwa [map_production_name]), Option.isSome_or, isTaken, Bool.or_true]
  obtain ⟨whole, first, others, rest, rfl, before, here⟩ := exists_rule_tokens kinds
  have read := Reading.run_append ⟨g, .outside⟩ (whole ++ first :: others ++ rest) []
  rw [Reading.take_taken differentBefore free stillTaken before here rest, List.append_nil, ← items] at read
  exact ⟨_, _, .found items before here free isTaken, read⟩

/-- A text after another one and a line feed is read from the grammar of that one on. -/
theorem ofText_lineFeed {s : String} {g : Grammar} (read : ofText s = .ok g) (t : String) : ofText (s ++ "\n" ++ t) =
    (Reading.run ⟨g, .outside⟩ (Source.items t)).mapError (ParseError.relocate (· + (s.utf8ByteSize + 1))) := by
  obtain ⟨rules, ⟨tokens, items, kinds⟩, different, rfl⟩ := derives_of_ofText read
  have goesOn : ∀ e, .error e ∈ Source.items s → ¬ e.EndsReading := by simp [items]
  rw [ofText, Source.items_append_lineFeed goesOn t, items, Reading.run_append, Reading.start,
    Reading.take_rules different (fun rule _ => get?_empty rule.name) kinds]
  exact Reading.run_relocate _ ⟨grammarOf rules, .outside⟩ _

theorem get?_isSome_iff {g : Grammar} {name : String} : (g.get? name).isSome = true ↔ ∃ p ∈ g.productions, p.name = name := by
  simp [get?, List.find?_isSome]

/-- Productions whose names no grammar has are added to those that it has. -/
theorem foldl_insert_perm_of_free {g h : Grammar} {ps : List Production} (perm : h.productions.Perm ps)
    (free : ∀ p ∈ g.productions, ∀ q ∈ h.productions, p.name ≠ q.name) :
    (ps.foldl insert g).productions.Perm (g.productions ++ h.productions) := by
  have together := perm.append_left g.productions
  refine (foldl_insert_perm ((together.map _).nodup_iff.mp ?_)).trans together.symm
  rw [List.map_append, List.nodup_append]
  refine ⟨names_nodup g, names_nodup h, ?_⟩
  intro name inFirst name' inSecond
  obtain ⟨p, member, rfl⟩ := List.mem_map.mp inFirst
  obtain ⟨q, member', rfl⟩ := List.mem_map.mp inSecond
  exact free p member q member'

/-- Texts can be put together with a line feed between them. Their items follow each other if those of the first do not
    end in an error, and so do the productions of their grammars if no name is in both; otherwise the whole text is
    refused at the first name of the second that the grammar of the first has. -/
theorem ofText_joined (s t : String) :
    ((∀ e, .error e ∈ Source.items s → ¬ e.EndsReading) →
      Source.items (s ++ "\n" ++ t) =
        Source.items s ++ (Source.items t).map (Item.relocate (· + (s.utf8ByteSize + 1)))) ∧
    ∀ g h, ofText s = .ok g → ofText t = .ok h →
      ((∀ p ∈ g.productions, ∀ q ∈ h.productions, p.name ≠ q.name) →
        ∃ k, ofText (s ++ "\n" ++ t) = .ok k ∧ k.productions.Perm (g.productions ++ h.productions)) ∧
      ((∃ p ∈ g.productions, ∃ q ∈ h.productions, p.name = q.name) →
        ∃ name offset, FirstTaken g t name offset ∧
          ofText (s ++ "\n" ++ t) = .error (.redefined name (offset + s.utf8ByteSize + 1))) := by
  refine ⟨fun goesOn => Source.items_append_lineFeed goesOn t, ?_⟩
  intro g h readFirst readSecond
  obtain ⟨rules, derives, different, rfl⟩ := derives_of_ofText readSecond
  have perm : (grammarOf rules).productions.Perm (rules.map Rule.production) :=
    ofList_perm (by rwa [map_production_name])
  have joined := ofText_lineFeed readFirst t
  constructor
  · intro free
    have freeNames : ∀ rule ∈ rules, g.get? rule.name = none := by
      intro rule member
      rw [← Option.not_isSome_iff_eq_none, get?_isSome_iff]
      rintro ⟨p, member', same⟩
      exact free p member' rule.production (perm.mem_iff.mpr (List.mem_map_of_mem member)) same
    rw [run_of_free derives different freeNames] at joined
    exact ⟨_, joined, foldl_insert_perm_of_free perm free⟩
  · rintro ⟨p, member, q, member', same⟩
    obtain ⟨rule, inRules, rfl⟩ := List.mem_map.mp (perm.mem_iff.mp member')
    have taken : (g.get? rule.name).isSome := get?_isSome_iff.mpr ⟨p, member, same⟩
    obtain ⟨name, offset, first, refused⟩ := run_of_taken derives different inRules taken
    rw [refused] at joined
    exact ⟨name, offset, first, joined⟩

/-- A production, and a comment that the text ends in. -/
def commented : String := "a = \x60é\x60 . // b = ."

theorem ofText_joined_commented :
    Source.items (commented ++ "\n" ++ ";") = Source.items commented ++ [.error (.unsupported 20 ';')] ∧
      (∃ k, ofText (commented ++ "\n" ++ "b = .") = .ok k ∧
        k.productions.Perm [⟨"a", .literal "é"⟩, ⟨"b", .sequence []⟩]) ∧
      FirstTaken (.ofList [⟨"a", .literal "é"⟩]) "c = .\na = ." "a" 6 ∧
        ofText (commented ++ "\n" ++ "c = .\na = .") = .error (.redefined "a" 26) := by
  have first : ofText commented = .ok (.ofList [⟨"a", .literal "é"⟩]) := by with_unfolding_all rfl
  have another : ofText "b = ." = .ok (.ofList [⟨"b", .sequence []⟩]) := by with_unfolding_all rfl
  have again : ofText "c = .\na = ." = .ok (.ofList [⟨"a", .sequence []⟩, ⟨"c", .sequence []⟩]) := by with_unfolding_all rfl
  have read : Source.items commented =
      [⟨.name "a", 0, "a"⟩, ⟨.equals, 2, "="⟩, ⟨.literal "é", 4, "\x60é\x60"⟩, ⟨.period, 9, "."⟩].map .ok := by with_unfolding_all rfl
  have unsupported : Source.items ";" = [.error (.unsupported 0 ';')] := by with_unfolding_all rfl
  have goesOn : ∀ e, .error e ∈ Source.items commented → ¬ e.EndsReading := by simp [read]
  have items := (ofText_joined commented ";").1 goesOn
  obtain ⟨k, union, perm⟩ := ((ofText_joined commented "b = .").2 _ _ first another).1 (by decide)
  obtain ⟨name, offset, taken, refused⟩ := ((ofText_joined commented "c = .\na = .").2 _ _ first again).2 (by decide)
  have found : ofText (commented ++ "\n" ++ "c = .\na = .") = .error (.redefined "a" 26) := by with_unfolding_all rfl
  have length : commented.utf8ByteSize = 19 := rfl
  rw [found, length] at refused
  injection refused with same
  injection same with sameName sameOffset
  obtain rfl : 6 = offset := by omega
  subst sameName
  rw [unsupported] at items
  exact ⟨items, ⟨k, union, perm⟩, taken, found⟩

end Grammar

end RegularGrammar
