import Mathlib.Data.List.Forall2
import RegularGrammar.CommandLine.Run
import RegularGrammar.Proofs.CommandLine.Options
import RegularGrammar.Proofs.Grammar.Printing
import RegularGrammar.Proofs.Pattern.Reading
import RegularGrammar.Proofs.Regex.Matching

/-!
# What a session answers

A session writes nothing until the pattern is there, and then the pattern and one
verdict per line. It succeeds if all goes well and every line is a text of the start
production. Of its tools no more is used than what is documented of them.
-/

namespace RegularGrammar

namespace Text

/-- A text is cut into lines, each before a line feed. A carriage return right before the line feed belongs to no line, and
    after the last line feed there is one more line unless nothing is left. -/
inductive LinesOf : List Char → List String → Prop where
  | nil : LinesOf [] []
  | last {line : List Char} : line ≠ [] → '\n' ∉ line → LinesOf line [String.ofList line]
  | lineFeed {line rest : List Char} {later : List String} : '\n' ∉ line → line.getLast? ≠ some '\r' →
      LinesOf rest later → LinesOf (line ++ '\n' :: rest) (String.ofList line :: later)
  | carriageReturn {line rest : List Char} {later : List String} : '\n' ∉ line →
      LinesOf rest later → LinesOf (line ++ '\r' :: '\n' :: rest) (String.ofList line :: later)

theorem linesAfter_append {line : List Char} (noFeed : '\n' ∉ line) (before rest : List Char) :
    linesAfter before (line ++ rest) = linesAfter (line.reverse ++ before) rest := by
  induction line generalizing before with
  | nil => rfl
  | cons c cs ih =>
    rw [List.mem_cons, not_or] at noFeed
    rw [List.cons_append, linesAfter, if_neg (Ne.symm noFeed.1), ih noFeed.2, List.reverse_cons, List.append_assoc]
    rfl

theorem closedLine_reverse {line : List Char} (noReturn : line.getLast? ≠ some '\r') :
    closedLine line.reverse = String.ofList line := by
  unfold closedLine
  split
  · rename_i reversed
    simp [← List.head?_reverse, reversed] at noReturn
  · rw [List.reverse_reverse]

theorem LinesOf.eq_lines {cs : List Char} {lines : List String} (h : LinesOf cs lines) : linesAfter [] cs = lines := by
  induction h with
  | nil => rfl
  | @last line nonempty noFeed =>
    have cut := linesAfter_append noFeed [] []
    rw [List.append_nil, List.append_nil] at cut
    simp [cut, linesAfter, nonempty]
  | lineFeed noFeed noReturn _ ih =>
    rw [linesAfter_append noFeed, List.append_nil, linesAfter, if_pos rfl, closedLine_reverse noReturn, ih]
  | carriageReturn noFeed _ ih =>
    rw [linesAfter_append noFeed, List.append_nil, linesAfter, if_neg (by decide), linesAfter, if_pos rfl, ih]
    simp [closedLine]

theorem linesOf_linesAfter {before : List Char} (noFeed : '\n' ∉ before) (cs : List Char) :
    LinesOf (before.reverse ++ cs) (linesAfter before cs) := by
  induction cs generalizing before with
  | nil =>
    rw [linesAfter, List.append_nil]
    split
    · rename_i empty
      rw [List.isEmpty_iff.mp empty]
      exact .nil
    · rename_i nonempty
      exact .last (by simpa using nonempty) (by simpa using noFeed)
  | cons c cs ih =>
    rw [linesAfter]
    split
    · rename_i isFeed
      subst isFeed
      have others := ih (List.not_mem_nil (a := '\n'))
      unfold closedLine
      split
      · rename_i line
        have noFeedBefore : '\n' ∉ line.reverse := by simpa using noFeed
        simpa using LinesOf.carriageReturn noFeedBefore others
      · rename_i noReturn
        refine .lineFeed (by simpa using noFeed) ?_ others
        rw [List.getLast?_reverse]
        intro isReturn
        obtain ⟨line, rfl⟩ := List.head?_eq_some_iff.mp isReturn
        exact noReturn line rfl
    · rename_i other
      have noFeedYet : '\n' ∉ c :: before := by simpa [eq_comm] using ⟨other, noFeed⟩
      simpa using ih noFeedYet

/-- A text is cut into its lines and into nothing else. -/
@[simp]
theorem linesOf_iff {text : String} {lines : List String} : LinesOf text.toList lines ↔ lines = Text.lines text := by
  refine ⟨fun h => h.eq_lines.symm, ?_⟩
  rintro rfl
  exact linesOf_linesAfter List.not_mem_nil text.toList

end Text

namespace CommandLine

/-- A file can be read, and it holds the UTF-8 bytes of a text. -/
def Contents.Holds (c : Contents) (text : String) : Prop := c = .ok text.toByteArray

@[simp]
theorem Contents.text_eq_ok_iff {c : Contents} {text : String} : c.text = .ok text ↔ c.Holds text := by
  unfold Contents.text Contents.Holds
  cases c with
  | error e => simp
  | ok bytes =>
    simp only [String.fromUTF8?, Except.ok.injEq]
    by_cases valid : bytes.IsValidUTF8
    · simp [valid, String.fromUTF8, ← String.toByteArray_inj]
    · simp only [valid, dif_neg, not_false_eq_true, reduceCtorEq, false_iff]
      rintro rfl
      exact valid text.isValidUTF8

/-- Where the grammar is. -/
def source (o : Options) (s : Surroundings) : Contents :=
  match o.grammarPath with
  | some path => s.file path
  | none => s.standardInput

/-- The grammar of a session can be read, is without a flaw and has a pattern for its start production. -/
structure Ready (o : Options) (s : Surroundings) (g : Grammar) : Prop where
  read : ∃ text, (source o s).Holds text ∧ Grammar.ofText text = .ok g
  flawless : g.flaw? o.start = none
  translates : ∃ pattern, g.pattern o.start o.dialect = .ok pattern

/-! ## What is documented of the tools -/

/-- Nothing, or a sequence that tells a terminal how to show what follows. -/
def IsControl (text : String) : Prop :=
  text = "" ∨ ∃ codes : String, (∀ c ∈ codes.toList, c.isDigit ∨ c = ';') ∧ text = "\x1b[" ++ codes ++ "m"

/-- A word is shown, with or without control sequences around it. -/
def Shows (word shown : String) : Prop :=
  ∃ before after, IsControl before ∧ IsControl after ∧ shown = before ++ word ++ after

/-- The tools read arguments as they are documented to, and what they paint is shown. -/
structure Tools.Documented (t : Tools) : Prop where
  options : ∀ args o, t.options args = some o → ∃ given, Gives none args given ∧ o.Collects given
  paint : ∀ style word, Shows word (t.paint style word)

/-- A pattern can be compiled, and what is made of it tells where the pattern is found, in each way to read it. -/
def Tools.Compiles (t : Tools) (pattern : String) : Prop :=
  ∃ judge, t.compile pattern = .ok judge ∧
    ∀ items, Pattern.Reads .rust pattern.toList items → ∀ text, judge text = true ↔ items.FoundIn text

/-- The pattern that a session prints can be compiled, if it has one in the `rust` dialect. -/
def Tools.CompilesPrinted (t : Tools) (o : Options) (s : Surroundings) : Prop :=
  o.dialect = .rust → ∀ g pattern, Ready o s g → g.pattern o.start o.dialect = .ok pattern → t.Compiles pattern

/-! ## What is written -/

/-- What is written about a line with some number in a file: that it is a text of the production, or that it is not, with
    the line. -/
inductive Verdict (g : Grammar) (start path : String) (number : Nat) (line : String) : String → Prop where
  | matched {shown : String} : g.HasText start line → Shows "match" shown →
      Verdict g start path number line (shown ++ " " ++ path ++ ":" ++ toString number ++ "\n")
  | unmatched {shown : String} : ¬ g.HasText start line → Shows "no match" shown →
      Verdict g start path number line (shown ++ " " ++ path ++ ":" ++ toString number ++ ": " ++ line ++ "\n")

/-- What is written about a file: nothing if it has no text, and otherwise a verdict on each of its lines, in their order
    and with their numbers, the first of which is one. -/
inductive FileVerdicts (g : Grammar) (start path : String) (c : Contents) : List String → Prop where
  | unreadable : (¬ ∃ text, c.Holds text) → FileVerdicts g start path c []
  | lines {text : String} {lines verdicts : List String} : c.Holds text → Text.LinesOf text.toList lines →
      List.Forall₂ (fun line verdict => Verdict g start path line.2 line.1 verdict) (lines.zipIdx 1) verdicts →
        FileVerdicts g start path c verdicts

/-- What an outcome says about the language of the grammar of a session, with the options that arguments give. -/
structure Answers (args : List String) (o : Options) (s : Surroundings) (result : Outcome) : Prop where
  /-- The options are what the arguments give, in the only way to read them. -/
  asked : ∃ given, (∀ others, Gives none args others ↔ others = given) ∧ o.Collects given
  /-- All goes well, and each line of each file to match is a text of the start production. -/
  succeeds_iff : result.code = 0 ↔ ∃ g, Ready o s g ∧ (o.matchPaths = [] ∨ o.dialect = .rust ∧ ∀ path ∈ o.matchPaths,
    ∃ text lines, (s.file path).Holds text ∧ Text.LinesOf text.toList lines ∧ ∀ line ∈ lines, g.HasText o.start line)
  silent : (¬ ∃ g, Ready o s g) → result.output = ""
  /-- The pattern on a line of its own, and then for `rust` the verdicts on each file to match, in their order. -/
  written : ∀ g, Ready o s g → ∃ pattern files, g.Prints o.start o.dialect pattern ∧
    (o.dialect = .rust → List.Forall₂ (fun path => FileVerdicts g o.start path (s.file path)) o.matchPaths files) ∧
    (o.dialect ≠ .rust → files = []) ∧
    result.output = pattern ++ "\n" ++ String.join files.flatten

/-! ## What a session does -/

theorem foldl_append_output {α : Type} (f : α → Outcome) (xs : List α) (done : Outcome) :
    (xs.foldl (fun done x => done ++ f x) done).output = done.output ++ String.join (xs.map fun x => (f x).output) := by
  induction xs generalizing done with
  | nil => simp
  | cons x rest ih => simp [ih, String.append_assoc]

theorem foldl_append_code {α : Type} (f : α → Outcome) (xs : List α) (done : Outcome) :
    (xs.foldl (fun done x => done ++ f x) done).code = 0 ↔ done.code = 0 ∧ ∀ x ∈ xs, (f x).code = 0 := by
  induction xs generalizing done with
  | nil => simp
  | cons x rest ih => simp [ih, and_assoc]

theorem join_flatten (blocks : List (List String)) : String.join blocks.flatten = String.join (blocks.map String.join) := by
  induction blocks with
  | nil => rfl
  | cons block rest ih => simp [ih]

section

variable {t : Tools} {o : Options} {s : Surroundings} {g : Grammar} {judge : String → Bool}

/-- A judgement of lines is that of a grammar. -/
def Judges (judge : String → Bool) (g : Grammar) (start : String) : Prop := ∀ text, judge text = true ↔ g.HasText start text

theorem verdict_of_judges (documented : t.Documented) {start : String} (judges : Judges judge g start) (path : String)
    (number : Nat) (line : String) : Verdict g start path number line (t.verdict path number line (judge line)) := by
  unfold Tools.verdict
  cases judged : judge line with
  | true =>
    have inside : g.HasText start line := (judges line).mp judged
    have shown : Verdict g start path number line _ := .matched inside (documented.paint .green "match")
    simpa [String.append_assoc, toString] using shown
  | false =>
    have outside : ¬ g.HasText start line := fun inside => by simp [(judges line).mpr inside] at judged
    have shown : Verdict g start path number line _ := .unmatched outside (documented.paint .red "no match")
    simpa [String.append_assoc, toString] using shown

/-- The verdicts that a file gets. -/
def Tools.fileVerdicts (t : Tools) (judge : String → Bool) (path : String) (c : Contents) : List String :=
  match c.text with
  | .error _ => []
  | .ok text => (Text.lines text).mapIdx fun i line => t.verdict path (i + 1) line (judge line)

theorem fileVerdicts_of_judges (documented : t.Documented) {start : String} (judges : Judges judge g start) (path : String)
    (c : Contents) : FileVerdicts g start path c (t.fileVerdicts judge path c) := by
  unfold Tools.fileVerdicts
  cases read : c.text with
  | error e =>
    refine .unreadable ?_
    rintro ⟨text, holds⟩
    rw [Contents.text_eq_ok_iff.mpr holds] at read
    cases read
  | ok text =>
    refine .lines (Contents.text_eq_ok_iff.mp read) (Text.linesOf_iff.mpr rfl) ?_
    simp only [List.mapIdx_eq_zipIdx_map]
    rw [List.zipIdx_succ, List.forall₂_map_right_iff, List.forall₂_map_left_iff]
    exact List.forall₂_same.mpr fun line _ => verdict_of_judges documented judges path (line.2 + 1) line.1

@[simp]
theorem matchFile_output (path : String) (c : Contents) :
    (t.matchFile judge path c).output = String.join (t.fileVerdicts judge path c) := by
  unfold Tools.matchFile Tools.fileVerdicts
  cases c.text with
  | error e => rfl
  | ok text => simp [List.mapIdx_eq_zipIdx_map, List.zipIdx_map, Function.comp_def]

@[simp]
theorem matchFile_code (path : String) (c : Contents) :
    (t.matchFile judge path c).code = 0 ↔ ∃ text, c.Holds text ∧ ∀ line ∈ Text.lines text, judge line = true := by
  simp only [← Contents.text_eq_ok_iff]
  unfold Tools.matchFile
  cases c.text with
  | error e => simp
  | ok text => simp

theorem matchFiles_of_empty {pattern : String} (none : o.matchPaths = []) : t.matchFiles o s pattern = .nothing := by
  simp [Tools.matchFiles, none]

theorem matchFiles_of_not_rust {pattern : String} (some : o.matchPaths ≠ []) (other : o.dialect ≠ .rust) :
    t.matchFiles o s pattern = t.failure "--match needs the rust dialect" := by
  simp [Tools.matchFiles, some, other]

theorem matchFiles_of_compiled {pattern : String} (some : o.matchPaths ≠ []) (rust : o.dialect = .rust)
    (compiled : t.compile pattern = .ok judge) : t.matchFiles o s pattern =
      o.matchPaths.foldl (fun done path => done ++ t.matchFile judge path (s.file path)) .nothing := by
  simp [Tools.matchFiles, some, rust, compiled]

theorem matchFiles_of_refused {pattern message : String} (some : o.matchPaths ≠ []) (rust : o.dialect = .rust)
    (refused : t.compile pattern = .error message) : t.matchFiles o s pattern = t.failure message := by
  simp [Tools.matchFiles, some, rust, refused]

@[simp]
theorem grammarText_eq_ok_iff {text : String} : grammarText o.grammarPath s = .ok text ↔ (source o s).Holds text := by
  unfold grammarText source
  cases o.grammarPath <;> rw [mapError_eq_ok_iff, Contents.text_eq_ok_iff]

theorem grammar_eq_ok_iff :
    grammar o s = .ok g ↔ (∃ text, (source o s).Holds text ∧ Grammar.ofText text = .ok g) ∧ g.flaw? o.start = none := by
  simp only [← grammarText_eq_ok_iff]
  unfold grammar
  constructor
  · intro found
    split at found
    · cases found
    rename_i text read
    split at found
    · cases found
    rename_i h parsed
    split at found
    · cases found
    rename_i flawless
    cases found
    exact ⟨⟨text, read, parsed⟩, flawless⟩
  · rintro ⟨⟨text, read, parsed⟩, flawless⟩
    simp only [read, parsed, flawless]

theorem run_of_ready (ready : Ready o s g) {pattern : String} (printed : g.pattern o.start o.dialect = .ok pattern) :
    ∃ listed, t.run o s = ⟨0, "", listed⟩ ++ (⟨0, pattern ++ "\n", ""⟩ ++ t.matchFiles o s pattern) := by
  have read := grammar_eq_ok_iff.mpr ⟨ready.read, ready.flawless⟩
  exact ⟨if o.verbose then t.listing g o.dialect else "", by simp only [Tools.run, read, Tools.answer, printed]⟩

theorem run_of_not_ready (failed : ¬ ∃ g, Ready o s g) : (t.run o s).code ≠ 0 ∧ (t.run o s).output = "" := by
  unfold Tools.run
  cases read : grammar o s with
  | error message => simp
  | ok g =>
    obtain ⟨held, flawless⟩ := grammar_eq_ok_iff.mp read
    cases translated : g.pattern o.start o.dialect with
    | error i =>
      have silent : t.answer o s g = t.failure i.message := by simp only [Tools.answer, translated]
      simp [silent]
    | ok pattern => exact absurd ⟨g, held, flawless, pattern, translated⟩ failed

/-- A pattern that cannot be compiled is printed all the same, and then the error is reported. -/
theorem run_of_refused (ready : Ready o s g) {pattern message : String}
    (printed : g.pattern o.start o.dialect = .ok pattern) (some : o.matchPaths ≠ []) (rust : o.dialect = .rust)
    (refused : t.compile pattern = .error message) :
    ∃ listed, t.run o s = ⟨1, pattern ++ "\n", listed ++ t.report message⟩ := by
  obtain ⟨listed, runs⟩ := run_of_ready (t := t) ready printed
  rw [matchFiles_of_refused some rust refused] at runs
  refine ⟨listed, runs.trans ?_⟩
  simp

/-- What is made of the printed pattern judges lines as the grammar does. -/
theorem exists_judge (compiles : t.CompilesPrinted o s) (ready : Ready o s g) (rust : o.dialect = .rust) {pattern : String}
    (printed : g.pattern o.start o.dialect = .ok pattern) :
    ∃ judge, t.compile pattern = .ok judge ∧ Judges judge g o.start := by
  obtain ⟨judge, compiled, found_iff⟩ := compiles rust g pattern ready printed
  obtain ⟨items, reads, -, hasText_iff⟩ := (Grammar.prints_of_pattern printed).reads
  rw [rust] at reads
  exact ⟨judge, compiled, fun text => (found_iff items reads text).trans (hasText_iff text)⟩

theorem matchFiles_code (compiles : t.CompilesPrinted o s) (ready : Ready o s g) {pattern : String}
    (printed : g.pattern o.start o.dialect = .ok pattern) :
    (t.matchFiles o s pattern).code = 0 ↔ o.matchPaths = [] ∨ o.dialect = .rust ∧ ∀ path ∈ o.matchPaths,
      ∃ text lines, (s.file path).Holds text ∧ Text.LinesOf text.toList lines ∧
        ∀ line ∈ lines, g.HasText o.start line := by
  by_cases none : o.matchPaths = []
  · simp [matchFiles_of_empty none, none]
  by_cases rust : o.dialect = .rust
  · obtain ⟨judge, compiled, judges⟩ := exists_judge compiles ready rust printed
    rw [matchFiles_of_compiled none rust compiled, foldl_append_code]
    simp [none, rust, judges _]
  · simp [matchFiles_of_not_rust none rust, none, rust]

theorem matchFiles_output (documented : t.Documented) (compiles : t.CompilesPrinted o s) (ready : Ready o s g)
    {pattern : String} (printed : g.pattern o.start o.dialect = .ok pattern) :
    ∃ files, (o.dialect = .rust → List.Forall₂ (fun path => FileVerdicts g o.start path (s.file path)) o.matchPaths files) ∧
      (o.dialect ≠ .rust → files = []) ∧ (t.matchFiles o s pattern).output = String.join files.flatten := by
  by_cases none : o.matchPaths = []
  · exact ⟨[], fun _ => none ▸ .nil, fun _ => rfl, by simp [matchFiles_of_empty none]⟩
  by_cases rust : o.dialect = .rust
  · obtain ⟨judge, compiled, judges⟩ := exists_judge compiles ready rust printed
    refine ⟨o.matchPaths.map fun path => t.fileVerdicts judge path (s.file path), fun _ => ?_, absurd rust, ?_⟩
    · rw [List.forall₂_map_right_iff]
      exact List.forall₂_same.mpr fun path _ => fileVerdicts_of_judges documented judges path (s.file path)
    · rw [matchFiles_of_compiled none rust compiled, foldl_append_output, join_flatten]
      simp [Function.comp_def]
  · exact ⟨[], fun isRust => absurd isRust rust, fun _ => rfl, by simp [matchFiles_of_not_rust none rust]⟩

/-- The verdict of a session is that of its grammar, for all arguments that are accepted and whatever the files hold. -/
theorem run_answers (documented : t.Documented) {args : List String} (accepted : t.options args = some o)
    (compiles : t.CompilesPrinted o s) : Answers args o s (t.run o s) where
  asked := by
    obtain ⟨given, gives, collects⟩ := documented.options args o accepted
    refine ⟨given, fun others => ⟨fun also => also.unique gives, ?_⟩, collects⟩
    rintro rfl
    exact gives
  succeeds_iff := by
    constructor
    · intro succeeded
      obtain ⟨g, ready⟩ := Classical.not_not.mp fun failed => (run_of_not_ready failed).1 succeeded
      obtain ⟨pattern, printed⟩ := ready.translates
      obtain ⟨listed, runs⟩ := run_of_ready (t := t) ready printed
      refine ⟨g, ready, (matchFiles_code compiles ready printed).mp ?_⟩
      simpa [runs] using succeeded
    · rintro ⟨g, ready, matched⟩
      obtain ⟨pattern, printed⟩ := ready.translates
      obtain ⟨listed, runs⟩ := run_of_ready (t := t) ready printed
      simpa [runs] using (matchFiles_code compiles ready printed).mpr matched
  silent failed := (run_of_not_ready failed).2
  written g ready := by
    obtain ⟨pattern, printed⟩ := ready.translates
    obtain ⟨listed, runs⟩ := run_of_ready (t := t) ready printed
    obtain ⟨files, verdicts, others, output⟩ := matchFiles_output documented compiles ready printed
    exact ⟨pattern, files, Grammar.prints_of_pattern printed, verdicts, others, by simp [runs, output]⟩

end

/-! ## The tools of a run -/

theorem paint_shows (colored : Bool) (style : Style) (word : String) : Shows word (paint colored style word) := by
  cases colored with
  | false => exact ⟨"", "", .inl rfl, .inl rfl, by simp [paint]⟩
  | true =>
    have before : IsControl ("\x1b[" ++ style.code ++ "m") := by
      refine .inr ⟨style.code, ?_, rfl⟩
      cases style <;> simp [Style.code, Char.isDigit]
    have after : IsControl "\x1b[0m" := .inr ⟨"0", by simp [Char.isDigit], by simp⟩
    exact ⟨_, _, before, after, by rw [paint, if_pos rfl]⟩

theorem tools_documented (colored : Bool) : (tools colored).Documented where
  options _ _ := Options.ofArgs_collects
  paint := paint_shows colored

theorem compile_reads {pattern : String} {items : Pattern.Items} (reads : Pattern.Reads .rust pattern.toList items) :
    ∃ judge, compile pattern = .ok judge ∧ ∀ text, judge text = true ↔ items.FoundIn text := by
  obtain ⟨r, read, printable, spans_iff⟩ := reads.ofPattern?
  refine ⟨r.isFoundIn, by rw [compile, read], fun text => ?_⟩
  simp only [Regex.isFoundIn_iff printable, Regex.FoundIn, Pattern.Items.FoundIn, spans_iff]

/-- Every pattern that is printed can be compiled. -/
theorem tools_compile (colored : Bool) (o : Options) (s : Surroundings) : (tools colored).CompilesPrinted o s := by
  intro rust g pattern ready printed
  obtain ⟨items, reads, unique, -⟩ := (Grammar.prints_of_pattern printed).reads
  rw [rust] at reads unique
  obtain ⟨judge, compiled, found_iff⟩ := compile_reads reads
  refine ⟨judge, compiled, fun others also => ?_⟩
  rw [unique others also]
  exact found_iff

/-- A grammar of the empty text alone, and two lines. -/
def blankLines : Surroundings where
  standardInput := .ok .empty
  file
    | "blank" => .ok "start = .".toByteArray
    | "lines" => .ok "\nx\n".toByteArray
    | _ => .error .missing

def blankOptions : Options := ⟨some "blank", "start", .rust, false, ["lines"]⟩

theorem run_answers_blankLines :
    (tools false).options ["-m", "lines", "blank"] = some blankOptions ∧
      Ready blankOptions blankLines (.ofList [⟨"start", .sequence []⟩]) ∧
      Answers ["-m", "lines", "blank"] blankOptions blankLines (run false blankOptions blankLines) := by
  have accepted : (tools false).options ["-m", "lines", "blank"] = some blankOptions := rfl
  have read : Grammar.ofText "start = ." = .ok (.ofList [⟨"start", .sequence []⟩]) := by with_unfolding_all rfl
  refine ⟨accepted, ⟨⟨"start = .", rfl, read⟩, by cbv, "\\A\\z", by decide +kernel⟩, ?_⟩
  exact run_answers (tools_documented false) accepted (tools_compile false blankOptions blankLines)

end CommandLine

end RegularGrammar
