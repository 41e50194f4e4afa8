import ContractAudit.Text.Blank
import ContractAudit.Text.Digit
import ContractAudit.Text.Quoted

/-!
# Decimal numerals

The integer a numeral denotes. A numeral has an optional sign and decimal digits of any script, with
single underscores allowed between digits, and may stand between blanks. Numerals of more than
`maxDigits` digits are refused.
-/

namespace ContractAudit.Text.Numeral

/-- The most digits a numeral may have, leading zeros counted. -/
def maxDigits : Nat := 4300

/-- Why a text denotes no integer. -/
inductive Error where
  /-- The text is not a numeral. -/
  | malformed (text : String)
  /-- The numeral has more than `maxDigits` digits. -/
  | tooLong (digits : Nat)
deriving DecidableEq, Repr

/-- The refusal as reported; a long text is cut after 200 characters of its quoted form. -/
def Error.message : Error → String
  | .malformed text =>
      "invalid literal for int() with base 10: " ++
        String.ofList ((quoteChars text.toList).take 200)
  | .tooLong digits =>
      s!"Exceeds the limit ({maxDigits} digits) for integer string conversion: " ++
        s!"value has {digits} digits; use sys.set_int_max_str_digits() to increase the limit"

/-- The blanks that may surround a numeral: those of ASCII's space class and all blanks outside
ASCII. -/
def isPad (c : Char) : Bool :=
  (9 ≤ c.toNat && c.toNat ≤ 13) || c = ' ' || (0x80 ≤ c.toNat && isBlank c)

/-- Whether no underscore of a run of digits and underscores is first, last or next to another. -/
def wellGrouped : List Char → Bool
  | [] => false
  | [c] => c ≠ '_'
  | c :: d :: rest => c ≠ '_' && (if d = '_' then wellGrouped rest else wellGrouped (d :: rest))

/-- The number that decimal digits denote, most significant first. -/
def value (digits : List Nat) : Nat :=
  digits.foldl (fun total digit => 10 * total + digit) 0

/-- Splits off an optional sign; the first component says whether it is a minus. -/
def splitSign : List Char → Bool × List Char
  | '-' :: rest => (true, rest)
  | '+' :: rest => (false, rest)
  | text => (false, text)

/-- The integer that a text denotes. The digits are counted before what follows them is looked at.
-/
def read (text : String) : Except Error Int :=
  let (negative, body) := splitSign (trimStart isPad text.toList)
  let (run, rest) := body.span fun c => c = '_' || (decimalValue? c).isSome
  let digits := run.filterMap decimalValue?
  if !wellGrouped run then .error (.malformed text)
  else if maxDigits < digits.length then .error (.tooLong digits.length)
  else if !rest.all isPad then .error (.malformed text)
  else .ok (if negative then -(value digits : Int) else value digits)

end ContractAudit.Text.Numeral
