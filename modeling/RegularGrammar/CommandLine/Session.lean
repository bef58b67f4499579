import RegularGrammar.Grammar.Flaw
import RegularGrammar.Grammar.Reading
import RegularGrammar.Grammar.Expansion

/-!
# A session of the command line

A session reads a grammar, and writes the pattern of its start production and the
verdict on each line of the files to match. What goes wrong is reported in the
error output, and then the session fails. How arguments are read, how a pattern is
matched and how words are painted is left to tools.
-/

namespace RegularGrammar

/-- A line without the carriage return before its line feed; the characters come in reverse. -/
def Text.closedLine : List Char → String
  | '\r' :: cs => String.ofList cs.reverse
  | cs => String.ofList cs.reverse

/-- The lines of a text, the first of which begins with some characters in reverse. -/
def Text.linesAfter (line : List Char) : List Char → List String
  | [] => if line.isEmpty then [] else [String.ofList line.reverse]
  | c :: cs => if c = '\n' then closedLine line :: linesAfter [] cs else linesAfter (c :: line) cs

/-- The lines of a text. A line ends before a line feed, or before a carriage return that comes right before one.
    After the last line feed there is one more line unless nothing is left; a carriage return at its end belongs
    to it. -/
def Text.lines (text : String) : List String := linesAfter [] text.toList

namespace CommandLine

/-- What a command line asks for. -/
structure Options where
  /-- Where the grammar is; without a path it comes from the standard input. -/
  grammarPath : Option String
  start : String
  dialect : Dialect
  /-- Whether to list the pattern of every production. -/
  verbose : Bool
  /-- The files whose lines are to be matched. -/
  matchPaths : List String

/-- Why a file has no text. -/
inductive FileError where
  | missing
  | invalidText
  | other (reason : String)

def FileError.message : FileError → String
  | .missing => "No such file or directory (os error 2)"
  | .invalidText => "stream did not contain valid UTF-8"
  | .other reason => reason

/-- What a file, or the standard input, holds. -/
abbrev Contents := Except FileError ByteArray

def Contents.text (c : Contents) : Except FileError String :=
  match c with
  | .error e => .error e
  | .ok bytes =>
    match String.fromUTF8? bytes with
    | some text => .ok text
    | none => .error .invalidText

/-- What a session may read. -/
structure Surroundings where
  standardInput : Contents
  file : String → Contents

/-- The text of the grammar, or a message that says why there is none. -/
def grammarText (path : Option String) (s : Surroundings) : Except String String :=
  match path with
  | some path => (s.file path).text.mapError fun e => s!"could not read {path}: {e.message}"
  | none => s.standardInput.text.mapError fun e => s!"could not read stdin: {e.message}"

/-- The grammar, if it has no flaw, or a message that says what is wrong. -/
def grammar (o : Options) (s : Surroundings) : Except String Grammar :=
  match grammarText o.grammarPath s with
  | .error message => .error message
  | .ok text =>
    match Grammar.ofText text with
    | .error e => .error e.message
    | .ok g =>
      match g.flaw? o.start with
      | some flaw => .error flaw.message
      | none => .ok g

/-- What a session leaves behind. -/
structure Outcome where
  code : Nat
  output : String
  errors : String

namespace Outcome

/-- One outcome after another; both must succeed. -/
def append (a b : Outcome) : Outcome :=
  ⟨if a.code = 0 then b.code else a.code, a.output ++ b.output, a.errors ++ b.errors⟩

instance : Append Outcome := ⟨append⟩

/-- An outcome that writes nothing and succeeds. -/
def nothing : Outcome := ⟨0, "", ""⟩

@[simp]
theorem succeeded_append (output errors : String) (b : Outcome) :
    (⟨0, output, errors⟩ : Outcome) ++ b = ⟨b.code, output ++ b.output, errors ++ b.errors⟩ := rfl

@[simp]
theorem append_output (a b : Outcome) : (a ++ b).output = a.output ++ b.output := rfl

@[simp]
theorem append_code_eq_zero {a b : Outcome} : (a ++ b).code = 0 ↔ a.code = 0 ∧ b.code = 0 := by
  change (if a.code = 0 then b.code else a.code) = 0 ↔ _
  split
  · rename_i succeeded
    simp [succeeded]
  · rename_i failed
    simp [failed]

@[simp]
theorem nothing_output : nothing.output = "" := rfl

@[simp]
theorem nothing_code : nothing.code = 0 := rfl

end Outcome

/-- The ways in which words stand out. -/
inductive Style where
  | redBold
  | red
  | green
  | yellow
  | cyan

/-- What a session leaves to others. -/
structure Tools where
  /-- The options that arguments give, if they are accepted. -/
  options : List String → Option Options
  /-- Whether a pattern is found in a text, or a message that says why the pattern cannot be compiled. -/
  compile : String → Except String (String → Bool)
  paint : Style → String → String

namespace Tools

variable (t : Tools)

/-- A line that reports an error. -/
def report (message : String) : String := t.paint .redBold "error:" ++ " " ++ message ++ "\n"

/-- An outcome that only reports an error. -/
def failure (message : String) : Outcome := ⟨1, "", t.report message⟩

@[simp]
theorem failure_output {message : String} : (t.failure message).output = "" := rfl

@[simp]
theorem failure_code {message : String} : (t.failure message).code = 1 := rfl

@[simp]
theorem failure_errors {message : String} : (t.failure message).errors = t.report message := rfl

/-- The listing of every production with its pattern, or with the reason why it has none. -/
def listing (g : Grammar) (d : Dialect) : String :=
  String.join <| g.productions.map fun p =>
    let result :=
      match g.regex p.name with
      | .ok r => r.pattern d
      | .error i => t.paint .yellow i.message
    t.paint .cyan (p.name ++ ":") ++ " " ++ result ++ "\n"

/-- The verdict on one line of a file. -/
def verdict (path : String) (number : Nat) (line : String) (matched : Bool) : String :=
  let place := s!"{path}:{number}"
  if matched then t.paint .green "match" ++ " " ++ place ++ "\n"
  else t.paint .red "no match" ++ " " ++ place ++ ": " ++ line ++ "\n"

/-- Matches the lines of a file; it fails if the file cannot be read or a line does not match. -/
def matchFile (judge : String → Bool) (path : String) (contents : Contents) : Outcome :=
  match contents.text with
  | .error _ => t.failure ("could not read " ++ path)
  | .ok text =>
    let lines := (Text.lines text).map fun line => (line, judge line)
    let verdicts := lines.mapIdx fun i (line, matched) => t.verdict path (i + 1) line matched
    ⟨if lines.all (·.2) then 0 else 1, String.join verdicts, ""⟩

/-- The verdicts on the lines of all files to match. -/
def matchFiles (o : Options) (s : Surroundings) (pattern : String) : Outcome :=
  if o.matchPaths.isEmpty then .nothing
  else if o.dialect ≠ .rust then t.failure "--match needs the rust dialect"
  else
    match t.compile pattern with
    | .error message => t.failure message
    | .ok judge => o.matchPaths.foldl (fun done path => done ++ t.matchFile judge path (s.file path)) .nothing

/-- The pattern, and what is matched against it. -/
def answer (o : Options) (s : Surroundings) (g : Grammar) : Outcome :=
  match g.pattern o.start o.dialect with
  | .error i => t.failure i.message
  | .ok pattern => ⟨0, pattern ++ "\n", ""⟩ ++ t.matchFiles o s pattern

/-- A session with some options. -/
def run (o : Options) (s : Surroundings) : Outcome :=
  match grammar o s with
  | .error message => t.failure message
  | .ok g =>
    let listed : Outcome := ⟨0, "", if o.verbose then t.listing g o.dialect else ""⟩
    listed ++ t.answer o s g

end Tools

end CommandLine

end RegularGrammar
