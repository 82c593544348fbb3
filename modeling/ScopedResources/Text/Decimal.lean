/-
  Decimal numbers: a sign, digits with a point somewhere, and an exponent.

  All but the digits may be missing, and one digit must be there.  Infinity and
  the undefined number are written as words.
-/

namespace ScopedResources.Text

/-- A text without a sign at its start. -/
def dropSign : List Char → List Char
  | [] => []
  | c :: rest => if c = '+' ∨ c = '-' then rest else c :: rest

/-- Whether a text is digits, one at least. -/
def isDigits (cs : List Char) : Bool :=
  cs ≠ [] && cs.all Char.isDigit

/-- Whether a text is an exponent, or nothing. -/
def isExponent : List Char → Bool
  | [] => true
  | e :: rest => (e == 'e' || e == 'E') && isDigits (dropSign rest)

/-- Whether a text is a number without sign, written in digits. -/
def isMagnitude (cs : List Char) : Bool :=
  let whole := cs.takeWhile Char.isDigit
  match cs.dropWhile Char.isDigit with
  | '.' :: rest =>
    (whole ≠ [] || rest.head?.any Char.isDigit) && isExponent (rest.dropWhile Char.isDigit)
  | rest => whole ≠ [] && isExponent rest

/-- The words for numbers without digits. -/
def numberWords : List String := ["inf", "infinity", "nan"]

def isDecimal (cs : List Char) : Bool :=
  let cs := dropSign cs
  isMagnitude cs || numberWords.contains (String.ofList cs).toLower

end ScopedResources.Text
