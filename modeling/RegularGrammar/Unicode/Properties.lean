import RegularGrammar.Unicode.Tables

/-!
# Properties of characters

The properties are Unicode's, over all scalar values. ASCII characters are told
by simple comparisons, the others by the tables.
-/

namespace RegularGrammar.Unicode

def isAscii (c : Char) : Bool := c.toNat < 0x80

/-- The property Alphabetic. -/
def isAlphabetic (c : Char) : Bool :=
  if isAscii c then c.isAlpha else alphabeticBeyondAscii.contains c

/-- The general categories Nd, Nl and No. -/
def isNumeric (c : Char) : Bool :=
  if isAscii c then c.isDigit else numericBeyondAscii.contains c

def isAlphanumeric (c : Char) : Bool := isAlphabetic c || isNumeric c

/-- The property White_Space. -/
def isWhiteSpace (c : Char) : Bool :=
  let n := c.toNat
  n = 0x20 || (0x9 ≤ n && n ≤ 0xD) || n = 0x85 || n = 0xA0 || n = 0x1680 || (0x2000 ≤ n && n ≤ 0x200A) ||
    n = 0x2028 || n = 0x2029 || n = 0x202F || n = 0x205F || n = 0x3000

/-- The general category Cc. -/
def isControl (c : Char) : Bool :=
  let n := c.toNat
  n < 0x20 || (0x7F ≤ n && n < 0xA0)

/-- The halfwidth voiced sound marks. They extend a grapheme, but are letters with a
    place and a form of their own. -/
def isHalfwidthSoundMark (c : Char) : Bool := c = '\uFF9E' || c = '\uFF9F'

/-- Whether a character is shown on top of the one before it. -/
def isCombining (c : Char) : Bool := graphemeExtend.contains c && !isHalfwidthSoundMark c

/-- Whether a character stands for itself where text is shown: it has a printed
    form of its own and does not combine with the character before it. The blank
    is the one separator that does. -/
def isShown (c : Char) : Bool :=
  if isAscii c then !isControl c
  else !isCombining c && !unprintableBeyondAscii.contains c

end RegularGrammar.Unicode
