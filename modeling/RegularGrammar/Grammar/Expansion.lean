import RegularGrammar.Grammar
import RegularGrammar.Regex.Pattern

/-!
# The regular expression of a production

A production has a regular expression if its names, replaced by what they stand
for, lead to no cycle. Choices between single characters become one class, and
a repetition right after its own body becomes one repetition of at least once.
-/

namespace RegularGrammar

namespace Text

/-- The escape of a character by its code point, in small hexadecimal digits. -/
def codePointEscape (c : Char) : List Char :=
  ['\\', 'u', '{'] ++ Nat.toDigits 16 c.toNat ++ ['}']

/-- A character as it stands between the quotes. -/
def quotedChar (c : Char) : List Char :=
  if c = '\x00' then ['\\', '0']
  else if c = '\t' then ['\\', 't']
  else if c = '\r' then ['\\', 'r']
  else if c = '\n' then ['\\', 'n']
  else if c = '"' || c = '\\' then ['\\', c]
  else if Unicode.isShown c then [c]
  else codePointEscape c

/-- Text in double quotes, in which every character can be seen: what has no sign of its own is written as an escape. -/
def quoted (text : String) : String :=
  String.ofList ('"' :: text.toList.flatMap quotedChar ++ ['"'])

end Text

/-- What stands in the way of a regular expression. -/
inductive Obstacle where
  | undefinedProduction (name : String)
  /-- The bounds are no single characters in ascending order. -/
  | invalidRange (first last : String)
  /-- Only what matches single characters, and not all of them, has a complement. -/
  | unsupportedNegation (operand : Regex)
  | invalidLiteralNegation (text : String)
  /-- Productions that refer to one another; the last is the first again. -/
  | cycle (path : List String)
deriving DecidableEq

def Obstacle.message : Obstacle → String
  | .undefinedProduction name => s!"production '{name}' is not defined"
  | .invalidRange first last =>
    s!"range {Text.quoted first} … {Text.quoted last} must run between two single characters in ascending order"
  | .unsupportedNegation .any =>
    "cannot negate a class that already matches every character"
  | .unsupportedNegation operand =>
    s!"cannot negate {operand.kind}, only single characters and classes can be negated"
  | .invalidLiteralNegation text => s!"cannot negate literal {Text.quoted text}, it is not a single character"
  | .cycle path => "production cycle " ++ String.intercalate " -> " path

/-- An obstacle and the production in whose own body it stands. -/
structure Irregularity where
  production : String
  obstacle : Obstacle
deriving DecidableEq

def Irregularity.message (i : Irregularity) : String := s!"in production '{i.production}': {i.obstacle.message}"

/-- The character of a text that has just one. -/
def singleChar? (text : String) : Option Char :=
  match text.toList with
  | [c] => some c
  | _ => none

namespace Regex

/-- The class of an expression that is a class or a single character. -/
def class? : Regex → Option CharClass
  | .set s => some s
  | .literal text => (singleChar? text).map CharClass.ofChar
  | _ => none

/-- A choice between expressions; it is one class if all of them are. -/
def choice (items : List Regex) : Regex :=
  match items.mapM class? with
  | some classes => .ofClass (.unionAll classes)
  | none => .alt items

/-- One character outside a class. -/
def outside (s : CharClass) : Except Obstacle Regex :=
  match s.complement? with
  | some t => .ok (.ofClass t)
  | none => .error (.unsupportedNegation .any)

/-- One character that an expression does not match. -/
def negate : Regex → Except Obstacle Regex
  | .set s => outside s
  | .literal text =>
    match singleChar? text with
    | some c => outside (.ofChar c)
    | none => .error (.invalidLiteralNegation text)
  | operand => .error (.unsupportedNegation operand)

end Regex

namespace Expr

mutual

/-- The regular expression of an expression in the body of `owner`, where `lookUp` gives
    those of other productions. -/
def toRegex (owner : String) (lookUp : String → Except Irregularity Regex) : Expr → Except Irregularity Regex
  | .range first last =>
    match singleChar? first, singleChar? last with
    | some lo, some hi =>
      if lo ≤ hi then .ok (.ofClass (.ofRange (.between lo hi)))
      else .error ⟨owner, .invalidRange first last⟩
    | _, _ => .error ⟨owner, .invalidRange first last⟩
  | .literal text => .ok (.literal text)
  | .sequence items => (toRegexes owner lookUp items).map fun rs => .concat (Regex.collapseRepeats rs)
  | .alternative items => (toRegexes owner lookUp items).map .choice
  | .repetition body => (toRegex owner lookUp body).map .star
  | .option body => (toRegex owner lookUp body).map .opt
  | .group body => toRegex owner lookUp body
  | .name n => lookUp n
  | .complement body =>
    match toRegex owner lookUp body with
    | .error i => .error i
    | .ok r => r.negate.mapError (⟨owner, ·⟩)

def toRegexes (owner : String) (lookUp : String → Except Irregularity Regex) :
    List Expr → Except Irregularity (List Regex)
  | [] => .ok []
  | e :: rest =>
    match toRegex owner lookUp e with
    | .error i => .error i
    | .ok r => (toRegexes owner lookUp rest).map (r :: ·)

end

end Expr

namespace Grammar

/-- The chain of references from `name` back to itself, where `active` are the productions
    whose bodies are being expanded, the innermost first. -/
def cyclePath (name : String) (active : List String) : List String :=
  name :: (active.takeWhile (· ≠ name)).reverse ++ [name]

/-- The productions whose bodies are not being expanded. -/
def idle (g : Grammar) (active : List String) : List Production :=
  g.productions.filter fun p => p.name ∉ active

theorem idle_length_lt {g : Grammar} {active : List String} {name : String} {p : Production}
    (found : g.get? name = some p) (fresh : name ∉ active) :
    (g.idle (name :: active)).length < (g.idle active).length := by
  have same : p.name = name := by simpa using List.find?_some found
  have shrinks : g.idle (name :: active) = (g.idle active).filter (·.name ≠ name) := by
    simp [idle, List.filter_filter]
  rw [shrinks]
  refine List.length_filter_lt_length_iff_exists.mpr ⟨p, ?_, ?_⟩
  · exact List.mem_filter.mpr ⟨List.mem_of_find?_eq_some found, by simpa [same] using fresh⟩
  · simpa using same

/-- The regular expression that a name stands for inside the bodies of `active`, the innermost first. -/
def expand (g : Grammar) (active : List String) (name : String) : Except Irregularity Regex :=
  match _found : g.get? name with
  | none => .error ⟨active.headD name, .undefinedProduction name⟩
  | some p =>
    if _fresh : name ∈ active then .error ⟨active.headD name, .cycle (cyclePath name active)⟩
    else p.body.toRegex name fun n => g.expand (name :: active) n
termination_by (g.idle active).length
decreasing_by exact idle_length_lt _found _fresh

/-- The regular expression of a production. -/
def regex (g : Grammar) (name : String) : Except Irregularity Regex := g.expand [] name

/-- The regular expression of a production, for a whole text. -/
def wholeRegex (g : Grammar) (start : String) : Except Irregularity Regex :=
  (g.regex start).map fun r => .concat [.beginText, r, .endText]

/-- The start production where none is named. -/
def defaultStart : String := "start"

/-- The pattern of a production, for a whole text. -/
def pattern (g : Grammar) (start : String) (d : Dialect) : Except Irregularity String :=
  (g.wholeRegex start).map (·.pattern d)

end Grammar

end RegularGrammar
