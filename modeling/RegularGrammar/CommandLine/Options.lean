import RegularGrammar.CommandLine.Session

/-!
# Options of the command line

An option takes its value from the next argument or, after its letter or an
equals sign, from the same one. Letters may share one dash, and what follows the
letter of an option that takes a value is the value. After `--` no argument is
an option.
-/

namespace RegularGrammar.CommandLine

/-- The options that take a value. -/
inductive Setting where
  | start
  | dialect
  | matchPath
deriving DecidableEq

namespace Setting

def ofLetter? : Char → Option Setting
  | 's' => some .start
  | 'd' => some .dialect
  | 'm' => some .matchPath
  | _ => none

def ofWord? : List Char → Option Setting
  | ['s', 't', 'a', 'r', 't'] => some .start
  | ['d', 'i', 'a', 'l', 'e', 'c', 't'] => some .dialect
  | ['m', 'a', 't', 'c', 'h'] => some .matchPath
  | _ => none

end Setting

/-- The arguments read so far. All but the paths to match may be given once. -/
structure Given where
  grammarPath : Option String
  start : Option String
  dialect : Option Dialect
  verbose : Bool
  matchPaths : List String

namespace Given

def nothing : Given := ⟨none, none, none, false, []⟩

def options (g : Given) : Options where
  grammarPath := g.grammarPath
  start := g.start.getD Grammar.defaultStart
  dialect := g.dialect.getD .default
  verbose := g.verbose
  matchPaths := g.matchPaths

def addVerbose (g : Given) : Option Given :=
  if g.verbose then none else some { g with verbose := true }

def addGrammarPath (g : Given) (path : String) : Option Given :=
  if g.grammarPath.isSome || path.isEmpty then none else some { g with grammarPath := some path }

def addSetting (g : Given) (value : String) : Setting → Option Given
  | .start => if g.start.isSome then none else some { g with start := some value }
  | .dialect =>
    if g.dialect.isSome then none
    else (Dialect.ofName? value).map fun d => { g with dialect := some d }
  | .matchPath => if value.isEmpty then none else some { g with matchPaths := g.matchPaths ++ [value] }

/-- Reads letters that share a dash. The last of them may leave a setting without its value. -/
def addLetters (g : Given) : List Char → Option (Given × Option Setting)
  | [] => some (g, none)
  | c :: rest =>
    match Setting.ofLetter? c, rest with
    | some setting, [] => some (g, some setting)
    | some setting, '=' :: value => (g.addSetting (String.ofList value) setting).map (·, none)
    | some setting, value => (g.addSetting (String.ofList value) setting).map (·, none)
    | none, _ => if c = 'v' then g.addVerbose.bind (addLetters · rest) else none

/-- Reads a word after two dashes. It may leave a setting without its value. -/
def addWord (g : Given) (word : List Char) : Option (Given × Option Setting) :=
  let name := word.takeWhile (· != '=')
  match Setting.ofWord? name, word.drop name.length with
  | some setting, [] => some (g, some setting)
  | some setting, _ :: value => (g.addSetting (String.ofList value) setting).map (·, none)
  | none, _ => if word = ['v', 'e', 'r', 'b', 'o', 's', 'e'] then g.addVerbose.map (·, none) else none

/-- Reads the arguments after one that left a setting without its value, or did not. -/
def addAll (g : Given) : Option Setting → List String → Option Given
  | none, [] => some g
  | some _, [] => none
  | waiting, arg :: rest =>
    match arg.toList, waiting with
    | ['-', '-'], none => rest.foldlM addGrammarPath g
    | ['-', '-'], some _ => none
    | '-' :: '-' :: word, none => (g.addWord word).bind fun (g, waiting) => g.addAll waiting rest
    | '-' :: c :: letters, none => (g.addLetters (c :: letters)).bind fun (g, waiting) => g.addAll waiting rest
    | '-' :: _ :: _, some _ => none
    | _, none => (g.addGrammarPath arg).bind fun g => g.addAll none rest
    | _, some setting => (g.addSetting arg setting).bind fun g => g.addAll none rest

end Given

/-- The options that arguments give; there are none if an argument is unknown, repeated or
    without its value. -/
def Options.ofArgs (args : List String) : Option Options := (Given.nothing.addAll none args).map Given.options

end RegularGrammar.CommandLine
