import RegularGrammar.CommandLine.Options
import RegularGrammar.Regex.Reading

/-!
# A run of the command line

The tools of a run: arguments are read one after the other, a pattern is read back
into an expression, and a terminal is told by control sequences what to paint.
-/

namespace RegularGrammar.CommandLine

def Style.code : Style → String
  | .redBold => "1;31"
  | .red => "31"
  | .green => "32"
  | .yellow => "33"
  | .cyan => "36"

/-- A text in a style, or plain. -/
def paint (colored : Bool) (style : Style) (text : String) : String :=
  if colored then "\x1b[" ++ style.code ++ "m" ++ text ++ "\x1b[0m" else text

/-- Where a pattern is found is told by the expression that it writes. -/
def compile (pattern : String) : Except String (String → Bool) :=
  match Regex.ofPattern? pattern with
  | some r => .ok r.isFoundIn
  | none => .error "regex parse error"

def tools (colored : Bool) : Tools := ⟨Options.ofArgs, compile, paint colored⟩

/-- A run with some options. -/
def run (colored : Bool) (o : Options) (s : Surroundings) : Outcome := (tools colored).run o s

end RegularGrammar.CommandLine
