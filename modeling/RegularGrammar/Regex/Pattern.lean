import RegularGrammar.Dialect
import RegularGrammar.Regex

/-!
# Pattern text

A regular expression written in a dialect. What is repeated stands in a group of
its own, unless it is a single character, a class or an alternation, so one
repetition sign never follows another.
-/

namespace RegularGrammar.Regex

/-- Whether a repetition sign may follow the text of an expression directly. -/
def isAtom : Regex → Bool
  | .set _ => true
  | .any => true
  | .alt _ => true
  | .literal text => text.toList.length = 1
  | _ => false

/-- Text in a group that captures nothing. -/
def grouped (text : List Char) : List Char := ['(', '?', ':'] ++ text ++ [')']

mutual

/-- The text of an expression. -/
def text (d : Dialect) : Regex → List Char
  | .set s => d.classText s
  | .any => d.anyChar
  | .literal t => t.toList.flatMap (d.charText d.isSpecial)
  | .concat items => (texts d items).flatten
  | .star body => (if body.isAtom then text d body else grouped (text d body)) ++ ['*']
  | .plus body => (if body.isAtom then text d body else grouped (text d body)) ++ ['+']
  | .opt body => (if body.isAtom then text d body else grouped (text d body)) ++ ['?']
  | .alt items => grouped (List.intercalate ['|'] (texts d items))
  | .beginText => d.beginText
  | .endText => d.endText

def texts (d : Dialect) : List Regex → List (List Char)
  | [] => []
  | x :: rest => text d x :: texts d rest

end

/-- The pattern of an expression in a dialect. -/
def pattern (r : Regex) (d : Dialect) : String := String.ofList (r.text d)

instance : ToString Regex := ⟨(·.pattern .default)⟩

end RegularGrammar.Regex
