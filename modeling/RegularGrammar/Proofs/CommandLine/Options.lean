import RegularGrammar.CommandLine.Options

/-!
# What arguments give

Arguments give occurrences of options and paths, one after the other and in one way
only: `Gives` says which argument gives which. The options of a command line are
collected from what its arguments give, none of it left out, and `Options.ofArgs`
reads arguments so.
-/

namespace RegularGrammar.CommandLine

/-- What is given to a command line at one place in its arguments. -/
inductive Occurrence where
  | verbose
  | path (p : String)
  | setting (s : Setting) (value : String)

def Setting.letter : Setting → Char
  | start => 's'
  | dialect => 'd'
  | matchPath => 'm'

def Setting.word : Setting → List Char
  | start => ['s', 't', 'a', 'r', 't']
  | dialect => ['d', 'i', 'a', 'l', 'e', 'c', 't']
  | matchPath => ['m', 'a', 't', 'c', 'h']

/-- Letters that share a dash give occurrences, and the last of them may leave a setting that waits for its value. What
    follows the letter of a setting is its value, without the equals sign that it may begin with. -/
inductive LettersGive : List Char → List Occurrence → Option Setting → Prop where
  | nil : LettersGive [] [] none
  | verbose {letters : List Char} {given : List Occurrence} {waiting : Option Setting} :
      LettersGive letters given waiting → LettersGive ('v' :: letters) (.verbose :: given) waiting
  | waits (s : Setting) : LettersGive [s.letter] [] (some s)
  | equals (s : Setting) (value : List Char) :
      LettersGive (s.letter :: '=' :: value) [.setting s (String.ofList value)] none
  | attached (s : Setting) {c : Char} (value : List Char) :
      c ≠ '=' → LettersGive (s.letter :: c :: value) [.setting s (String.ofList (c :: value))] none

/-- A word after two dashes gives one occurrence, or leaves a setting that waits for its value. -/
inductive WordGives : List Char → List Occurrence → Option Setting → Prop where
  | verbose : WordGives ['v', 'e', 'r', 'b', 'o', 's', 'e'] [.verbose] none
  | waits (s : Setting) : WordGives s.word [] (some s)
  | equals (s : Setting) (value : List Char) :
      WordGives (s.word ++ '=' :: value) [.setting s (String.ofList value)] none

/-- An argument that begins with a dash gives occurrences, and it may leave a setting that waits for its value. -/
inductive OptionGives : List Char → List Occurrence → Option Setting → Prop where
  | word {word : List Char} {given : List Occurrence} {waiting : Option Setting} :
      WordGives word given waiting → OptionGives ('-' :: '-' :: word) given waiting
  | letters {c : Char} {letters : List Char} {given : List Occurrence} {waiting : Option Setting} :
      LettersGive (c :: letters) given waiting → OptionGives ('-' :: c :: letters) given waiting

/-- An argument is a value or a path: it is a dash alone or does not begin with one. -/
def IsPlain (arg : String) : Prop := arg = "-" ∨ arg.toList.head? ≠ some '-'

/-- Arguments give occurrences in their order, where the argument before them may have left a setting that waits for its
    value. After two dashes every argument is a path. -/
inductive Gives : Option Setting → List String → List Occurrence → Prop where
  | nil : Gives none [] []
  | value (s : Setting) {arg : String} {rest : List String} {given : List Occurrence} :
      IsPlain arg → Gives none rest given → Gives (some s) (arg :: rest) (.setting s arg :: given)
  | path {arg : String} {rest : List String} {given : List Occurrence} :
      IsPlain arg → Gives none rest given → Gives none (arg :: rest) (.path arg :: given)
  | option {arg : String} {here given : List Occurrence} {waiting : Option Setting} {rest : List String} :
      OptionGives arg.toList here waiting → Gives waiting rest given → Gives none (arg :: rest) (here ++ given)
  | dashes (paths : List String) : Gives none ("--" :: paths) (paths.map .path)

/-! ## One way to read arguments -/

theorem Setting.letter_inj {s t : Setting} (h : s.letter = t.letter) : s = t := by
  cases s <;> cases t <;> first | rfl | cases h

theorem Setting.letter_ne (s : Setting) : s.letter ≠ 'v' ∧ s.letter ≠ '-' := by
  cases s <;> decide

/-- After the letter of a setting the argument ends, or the value follows. -/
theorem LettersGive.of_setting {s : Setting} {rest : List Char} {given : List Occurrence} {waiting : Option Setting}
    (h : LettersGive (s.letter :: rest) given waiting) :
    (rest = [] ∧ given = [] ∧ waiting = some s) ∨
      ∃ c value, rest = c :: value ∧ given = [.setting s (String.ofList (if c = '=' then value else c :: value))] ∧
        waiting = none := by
  generalize same : s.letter :: rest = letters at h
  cases h with
  | nil => cases same
  | verbose => exact absurd (List.cons.inj same).1 s.letter_ne.1
  | waits t =>
    obtain ⟨sameLetter, rfl⟩ := List.cons.inj same
    obtain rfl := Setting.letter_inj sameLetter
    exact .inl ⟨rfl, rfl, rfl⟩
  | equals t value =>
    obtain ⟨sameLetter, rfl⟩ := List.cons.inj same
    obtain rfl := Setting.letter_inj sameLetter
    exact .inr ⟨'=', value, rfl, by simp, rfl⟩
  | @attached t c value other =>
    obtain ⟨sameLetter, rfl⟩ := List.cons.inj same
    obtain rfl := Setting.letter_inj sameLetter
    exact .inr ⟨c, value, rfl, by simp [other], rfl⟩

theorem LettersGive.unique {letters : List Char} {given others : List Occurrence} {waiting later : Option Setting}
    (left : LettersGive letters given waiting) (right : LettersGive letters others later) :
    given = others ∧ waiting = later := by
  induction left generalizing others later with
  | nil =>
    cases right
    exact ⟨rfl, rfl⟩
  | @verbose rest _ _ _ ih =>
    generalize same : 'v' :: rest = letters at right
    cases right with
    | nil => cases same
    | verbose right =>
      obtain ⟨rfl, rfl⟩ := ih ((List.cons.inj same).2 ▸ right)
      exact ⟨rfl, rfl⟩
    | waits s | equals s | attached s => exact absurd (List.cons.inj same).1.symm s.letter_ne.1
  | waits s =>
    obtain ⟨-, rfl, rfl⟩ | ⟨c, value, same, -⟩ := right.of_setting
    · exact ⟨rfl, rfl⟩
    · cases same
  | equals s value =>
    obtain ⟨none, -⟩ | ⟨c, others, same, rfl, rfl⟩ := right.of_setting
    · cases none
    · cases same
      exact ⟨by simp, rfl⟩
  | attached s value other =>
    obtain ⟨none, -⟩ | ⟨c, others, same, rfl, rfl⟩ := right.of_setting
    · cases none
    · cases same
      exact ⟨by simp [other], rfl⟩

theorem LettersGive.head?_ne_dash {letters : List Char} {given : List Occurrence} {waiting : Option Setting}
    (h : LettersGive letters given waiting) : letters.head? ≠ some '-' := by
  cases h with
  | nil => simp
  | verbose => simp
  | waits s | equals s | attached s => simpa using s.letter_ne.2

/-- The words of settings differ from their first letter on. -/
theorem Setting.word_append_inj {s t : Setting} {u v : List Char} (h : s.word ++ u = t.word ++ v) : s = t ∧ u = v := by
  cases s <;> cases t <;> simp_all [Setting.word]

theorem Setting.word_ne (s : Setting) {u v : List Char} : s.word ++ u ≠ 'v' :: v := by
  cases s <;> simp [Setting.word]

theorem WordGives.unique {word : List Char} {given others : List Occurrence} {waiting later : Option Setting}
    (left : WordGives word given waiting) (right : WordGives word others later) : given = others ∧ waiting = later := by
  cases left with
  | verbose =>
    generalize same : ['v', 'e', 'r', 'b', 'o', 's', 'e'] = word at right
    cases right with
    | verbose => exact ⟨rfl, rfl⟩
    | waits s => exact absurd ((List.append_nil _).trans same.symm) s.word_ne
    | equals s => exact absurd same.symm s.word_ne
  | waits s =>
    generalize same : s.word = word at right
    cases right with
    | verbose => exact absurd ((List.append_nil _).trans same) s.word_ne
    | waits t =>
      obtain ⟨rfl, -⟩ := Setting.word_append_inj (congrArg (· ++ []) same)
      exact ⟨rfl, rfl⟩
    | equals t => cases (Setting.word_append_inj ((List.append_nil _).trans same)).2
  | equals s value =>
    generalize same : s.word ++ '=' :: value = word at right
    cases right with
    | verbose => exact absurd same s.word_ne
    | waits t => cases (Setting.word_append_inj (same.trans (List.append_nil _).symm)).2
    | equals t =>
      obtain ⟨rfl, sameValue⟩ := Setting.word_append_inj same
      cases sameValue
      exact ⟨rfl, rfl⟩

theorem WordGives.ne_nil {word : List Char} {given : List Occurrence} {waiting : Option Setting}
    (h : WordGives word given waiting) : word ≠ [] := by
  cases h with
  | verbose => exact List.cons_ne_nil _ _
  | waits s => cases s <;> exact List.cons_ne_nil _ _
  | equals s => cases s <;> exact List.cons_ne_nil _ _

theorem OptionGives.unique {arg : List Char} {given others : List Occurrence} {waiting later : Option Setting}
    (left : OptionGives arg given waiting) (right : OptionGives arg others later) : given = others ∧ waiting = later := by
  cases left with
  | word left =>
    cases right with
    | word right => exact left.unique right
    | letters right => exact absurd rfl right.head?_ne_dash
  | letters left =>
    cases right with
    | word right => exact absurd rfl left.head?_ne_dash
    | letters right => exact left.unique right

theorem OptionGives.not_plain {arg : String} {given : List Occurrence} {waiting : Option Setting}
    (h : OptionGives arg.toList given waiting) : ¬ IsPlain arg := by
  generalize same : arg.toList = cs at h
  rintro (rfl | noDash)
  · cases h <;> cases same
  · cases h <;> simp [same] at noDash

theorem OptionGives.ne_dashes {arg : String} {given : List Occurrence} {waiting : Option Setting}
    (h : OptionGives arg.toList given waiting) : arg ≠ "--" := by
  rintro rfl
  generalize same : "--".toList = cs at h
  cases h with
  | word h =>
    cases same
    exact h.ne_nil rfl
  | letters h =>
    cases same
    exact h.head?_ne_dash rfl

theorem dashes_not_plain : ¬ IsPlain "--" := by
  rintro (same | noDash)
  · exact absurd same (by decide)
  · exact noDash rfl

/-- Arguments give one list of occurrences. -/
theorem Gives.unique {waiting : Option Setting} {args : List String} {given others : List Occurrence}
    (left : Gives waiting args given) (right : Gives waiting args others) : given = others := by
  induction left generalizing others with
  | nil =>
    cases right
    rfl
  | value s _ _ ih =>
    cases right with
    | value _ _ later => rw [ih later]
  | path plain _ ih =>
    cases right with
    | path _ later => rw [ih later]
    | option here => exact absurd plain here.not_plain
    | dashes => exact absurd plain dashes_not_plain
  | option here _ ih =>
    cases right with
    | path plain => exact absurd plain here.not_plain
    | option also later =>
      obtain ⟨rfl, rfl⟩ := here.unique also
      rw [ih later]
    | dashes => exact absurd rfl here.ne_dashes
  | dashes paths =>
    cases right with
    | path plain => exact absurd plain dashes_not_plain
    | option here => exact absurd rfl here.ne_dashes
    | dashes => rfl

/-! ## What is collected -/

/-- The paths that are given outside of options. -/
def givenPaths (given : List Occurrence) : List String :=
  given.filterMap fun
    | .path p => some p
    | _ => none

/-- The values that are given to a setting. -/
def givenValues (s : Setting) (given : List Occurrence) : List String :=
  given.filterMap fun
    | .setting t value => if t = s then some value else none
    | _ => none

/-- The name of a dialect on the command line. -/
def dialectName : Dialect → String
  | .rust => "rust"
  | .ecmaScript => "ecmascript"

/-- Options are what is given, each of them at most once, but all paths to match in their order. Without a value the start
    production is `start` and the dialect is `rust`. -/
structure Options.Collects (o : Options) (given : List Occurrence) : Prop where
  grammarPath : givenPaths given = o.grammarPath.toList
  start : givenValues .start given = [o.start] ∨ givenValues .start given = [] ∧ o.start = "start"
  dialect : givenValues .dialect given = [dialectName o.dialect] ∨ givenValues .dialect given = [] ∧ o.dialect = .rust
  verbose : o.verbose = true ↔ .verbose ∈ given
  matchPaths : givenValues .matchPath given = o.matchPaths

@[simp]
theorem givenPaths_append (given later : List Occurrence) :
    givenPaths (given ++ later) = givenPaths given ++ givenPaths later := List.filterMap_append

@[simp]
theorem givenPaths_path (p : String) : givenPaths [.path p] = [p] := rfl

@[simp]
theorem givenPaths_verbose : givenPaths [.verbose] = [] := rfl

@[simp]
theorem givenPaths_setting (s : Setting) (value : String) : givenPaths [.setting s value] = [] := rfl

@[simp]
theorem givenValues_append (s : Setting) (given later : List Occurrence) :
    givenValues s (given ++ later) = givenValues s given ++ givenValues s later := List.filterMap_append

@[simp]
theorem givenValues_path (s : Setting) (p : String) : givenValues s [.path p] = [] := rfl

@[simp]
theorem givenValues_verbose (s : Setting) : givenValues s [.verbose] = [] := rfl

@[simp]
theorem givenValues_setting (s t : Setting) (value : String) :
    givenValues s [.setting t value] = if t = s then [value] else [] := by
  cases s <;> cases t <;> rfl

theorem dialectName_of_ofName? {name : String} {d : Dialect} (h : Dialect.ofName? name = some d) : dialectName d = name := by
  unfold Dialect.ofName? at h
  split at h <;> cases h <;> rfl

theorem letter_of_ofLetter? {c : Char} {s : Setting} (h : Setting.ofLetter? c = some s) : c = s.letter := by
  unfold Setting.ofLetter? at h
  split at h <;> cases h <;> rfl

theorem word_of_ofWord? {word : List Char} {s : Setting} (h : Setting.ofWord? word = some s) : word = s.word := by
  unfold Setting.ofWord? at h
  split at h <;> cases h <;> rfl

theorem isPlain_of_no_option {arg : String} (h : ∀ c letters, arg.toList ≠ '-' :: c :: letters) : IsPlain arg := by
  cases same : arg.toList with
  | nil => exact .inr (by simp [same])
  | cons c rest =>
    by_cases dash : c = '-'
    · cases rest with
      | nil => exact .inl (String.toList_inj.mp (same.trans (by rw [dash]; rfl)))
      | cons d others => exact absurd (dash ▸ same) (h d others)
    · exact .inr (by simpa [same] using dash)

/-- The arguments read so far are those that give some occurrences. -/
structure Given.Holds (g : Given) (given : List Occurrence) : Prop where
  grammarPath : givenPaths given = g.grammarPath.toList
  start : givenValues .start given = g.start.toList
  dialect : givenValues .dialect given = g.dialect.toList.map dialectName
  verbose : g.verbose = true ↔ .verbose ∈ given
  matchPaths : givenValues .matchPath given = g.matchPaths

namespace Given

variable {g h : Given} {given : List Occurrence}

theorem nothing_holds : nothing.Holds [] := ⟨rfl, rfl, rfl, by simp [nothing], rfl⟩

theorem Holds.addVerbose (holds : g.Holds given) (added : g.addVerbose = some h) : h.Holds (given ++ [.verbose]) := by
  unfold Given.addVerbose at added
  split at added
  · cases added
  · cases added
    constructor <;> simp [holds.grammarPath, holds.start, holds.dialect, holds.matchPaths]

theorem Holds.addGrammarPath {path : String} (holds : g.Holds given) (added : g.addGrammarPath path = some h) :
    h.Holds (given ++ [.path path]) := by
  unfold Given.addGrammarPath at added
  split at added
  · cases added
  · rename_i fresh
    cases added
    have none : g.grammarPath = none := by simp_all
    constructor <;> simp [holds.grammarPath, holds.start, holds.dialect, holds.matchPaths, holds.verbose, none]

theorem Holds.addSetting {s : Setting} {value : String} (holds : g.Holds given) (added : g.addSetting value s = some h) :
    h.Holds (given ++ [.setting s value]) := by
  cases s with
  | start =>
    simp only [Given.addSetting] at added
    split at added
    · cases added
    · rename_i fresh
      cases added
      have none : g.start = none := by simpa using fresh
      constructor <;> simp [holds.grammarPath, holds.start, holds.dialect, holds.matchPaths, holds.verbose, none]
  | dialect =>
    simp only [Given.addSetting] at added
    split at added
    · cases added
    · rename_i fresh
      obtain ⟨d, named, rfl⟩ := Option.map_eq_some_iff.mp added
      have none : g.dialect = none := by simpa using fresh
      have name := dialectName_of_ofName? named
      constructor <;> simp [holds.grammarPath, holds.start, holds.dialect, holds.matchPaths, holds.verbose, none, name]
  | matchPath =>
    simp only [Given.addSetting] at added
    split at added
    · cases added
    · cases added
      constructor <;> simp [holds.grammarPath, holds.start, holds.dialect, holds.matchPaths, holds.verbose]

theorem Holds.addLetters {letters : List Char} {waiting : Option Setting} (holds : g.Holds given)
    (read : g.addLetters letters = some (h, waiting)) :
    ∃ here, LettersGive letters here waiting ∧ h.Holds (given ++ here) := by
  fun_induction Given.addLetters g letters generalizing given with
  | case1 g =>
    cases read
    exact ⟨[], .nil, by simpa using holds⟩
  | case2 g c s found =>
    cases read
    obtain rfl := letter_of_ofLetter? found
    exact ⟨[], .waits s, by simpa using holds⟩
  | case3 g c s value found =>
    obtain ⟨k, added, same⟩ := Option.map_eq_some_iff.mp read
    cases same
    obtain rfl := letter_of_ofLetter? found
    exact ⟨_, .equals s value, holds.addSetting added⟩
  | case4 g c s value notAlone notEqual found =>
    obtain ⟨k, added, same⟩ := Option.map_eq_some_iff.mp read
    cases same
    obtain rfl := letter_of_ofLetter? found
    obtain ⟨e, others, rfl⟩ := List.exists_cons_of_ne_nil notAlone
    have other : e ≠ '=' := fun equals => notEqual others (equals ▸ rfl)
    exact ⟨_, .attached s others other, holds.addSetting added⟩
  | case5 g rest found ih =>
    obtain ⟨k, verbose, later⟩ := Option.bind_eq_some_iff.mp read
    obtain ⟨here, gives, holdsAll⟩ := ih k (holds.addVerbose verbose) later
    exact ⟨_, .verbose gives, by simpa using holdsAll⟩
  | case6 => cases read

theorem Holds.addWord {word : List Char} {waiting : Option Setting} (holds : g.Holds given)
    (read : g.addWord word = some (h, waiting)) :
    ∃ here, WordGives word here waiting ∧ h.Holds (given ++ here) := by
  have whole : word.takeWhile (· != '=') ++ word.drop (word.takeWhile (· != '=')).length = word :=
    List.prefix_iff_eq_append.mp (List.takeWhile_prefix _)
  simp only [Given.addWord] at read
  split at read
  · rename_i s found left
    cases read
    rw [left, List.append_nil, word_of_ofWord? found] at whole
    exact ⟨[], whole ▸ .waits s, by simpa using holds⟩
  · rename_i s sign value found left
    obtain ⟨k, added, same⟩ := Option.map_eq_some_iff.mp read
    cases same
    have dropped : word.dropWhile (· != '=') = sign :: value := by
      rw [← left]
      exact List.append_cancel_left (List.takeWhile_append_dropWhile.trans whole.symm)
    have isEquals : sign = '=' := by simpa [dropped] using List.head?_dropWhile_not (· != '=') word
    rw [left, isEquals, word_of_ofWord? found] at whole
    exact ⟨_, whole ▸ .equals s value, holds.addSetting added⟩
  · split at read
    · rename_i isVerbose
      obtain ⟨k, verbose, same⟩ := Option.map_eq_some_iff.mp read
      cases same
      subst isVerbose
      exact ⟨_, .verbose, holds.addVerbose verbose⟩
    · cases read

theorem Holds.foldlM_addGrammarPath {paths : List String} (holds : g.Holds given)
    (read : paths.foldlM Given.addGrammarPath g = some h) : h.Holds (given ++ paths.map .path) := by
  induction paths generalizing g given with
  | nil =>
    cases read
    simpa using holds
  | cons path rest ih =>
    rw [List.foldlM_cons, Option.bind_eq_bind, Option.bind_eq_some_iff] at read
    obtain ⟨k, first, later⟩ := read
    simpa using ih (holds.addGrammarPath first) later

theorem Holds.addAll {waiting : Option Setting} {args : List String} (holds : g.Holds given)
    (read : g.addAll waiting args = some h) : ∃ later, Gives waiting args later ∧ h.Holds (given ++ later) := by
  fun_induction Given.addAll g waiting args generalizing given with
  | case1 g =>
    cases read
    exact ⟨[], .nil, by simpa using holds⟩
  | case2 => cases read
  | case3 g arg rest dashes =>
    obtain rfl : arg = "--" := String.toList_inj.mp dashes
    exact ⟨_, .dashes rest, holds.foldlM_addGrammarPath read⟩
  | case4 => cases read
  | case5 g arg rest word notDashes isWord ih =>
    obtain ⟨⟨k, waiting⟩, first, later⟩ := Option.bind_eq_some_iff.mp read
    obtain ⟨here, gives, holdsHere⟩ := holds.addWord first
    obtain ⟨others, givesLater, holdsAll⟩ := ih k waiting holdsHere later
    exact ⟨here ++ others, .option (isWord ▸ .word gives) givesLater, by simpa using holdsAll⟩
  | case6 g arg rest c letters notDashes notWord isLetters ih =>
    obtain ⟨⟨k, waiting⟩, first, later⟩ := Option.bind_eq_some_iff.mp read
    obtain ⟨here, gives, holdsHere⟩ := holds.addLetters first
    obtain ⟨others, givesLater, holdsAll⟩ := ih k waiting holdsHere later
    exact ⟨here ++ others, .option (isLetters ▸ .letters gives) givesLater, by simpa using holdsAll⟩
  | case7 => cases read
  | case8 g arg rest notDashes notWord notLetters ih =>
    obtain ⟨k, first, later⟩ := Option.bind_eq_some_iff.mp read
    obtain ⟨others, givesLater, holdsAll⟩ := ih k (holds.addGrammarPath first) later
    exact ⟨_, .path (isPlain_of_no_option notLetters) givesLater, by simpa using holdsAll⟩
  | case9 g arg rest setting notDashes notOption ih =>
    obtain ⟨k, first, later⟩ := Option.bind_eq_some_iff.mp read
    obtain ⟨others, givesLater, holdsAll⟩ := ih k (holds.addSetting first) later
    exact ⟨_, .value setting (isPlain_of_no_option notOption) givesLater, by simpa using holdsAll⟩

end Given

/-- Options that are read from arguments are what these give. -/
theorem Options.ofArgs_collects {args : List String} {o : Options} (accepted : Options.ofArgs args = some o) :
    ∃ given, Gives none args given ∧ o.Collects given := by
  obtain ⟨g, read, rfl⟩ := Option.map_eq_some_iff.mp accepted
  obtain ⟨given, gives, holds⟩ := Given.nothing_holds.addAll read
  refine ⟨given, gives, holds.grammarPath, ?_, ?_, holds.verbose, holds.matchPaths⟩
  · cases isStart : g.start with
    | none => exact .inr ⟨by simpa [isStart] using holds.start, by simp [Given.options, isStart, Grammar.defaultStart]⟩
    | some value => exact .inl (by simpa [Given.options, isStart] using holds.start)
  · cases isDialect : g.dialect with
    | none => exact .inr ⟨by simpa [isDialect] using holds.dialect, by simp [Given.options, isDialect, Dialect.default]⟩
    | some d => exact .inl (by simpa [Given.options, isDialect] using holds.dialect)

end RegularGrammar.CommandLine
