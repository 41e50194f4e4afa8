import ContractAudit.Text.RangeTable

/-!
# Blanks

The characters that separate words, of any script, and trimming of text by them.
-/

namespace ContractAudit.Text

def blankTable : RangeTable :=
  [(0x9, 0xd), (0x1c, 0x20), (0x85, 0x85), (0xa0, 0xa0), (0x1680, 0x1680), (0x2000, 0x200a),
   (0x2028, 0x2029), (0x202f, 0x202f), (0x205f, 0x205f), (0x3000, 0x3000)]

/-- A blank character of any script. -/
def isBlank (c : Char) : Bool :=
  blankTable.contains c.toNat

def trimStart (drop : Char → Bool) (text : List Char) : List Char :=
  text.dropWhile drop

def trimEnd (drop : Char → Bool) (text : List Char) : List Char :=
  (text.reverse.dropWhile drop).reverse

/-- Text without the characters of a class at either end. -/
def trim (drop : Char → Bool) (text : List Char) : List Char :=
  trimEnd drop (trimStart drop text)

end ContractAudit.Text
