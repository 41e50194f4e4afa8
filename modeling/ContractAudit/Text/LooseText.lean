import ContractAudit.Text.Quoted

/-!
# Loose text

Some formats can write one half of a surrogate pair without the other. A half alone is no character,
so a text that holds one is no string. A loose text is a sequence of characters and halves; the
strings are the loose texts without halves, which `toString?_ofString` states.
-/

namespace ContractAudit.Text

/-- A character, or half of a surrogate pair that stands alone. -/
inductive CodePoint where
  | char (c : Char)
  /-- The half that stands at an offset from U+D800. -/
  | half (offset : Fin 0x800)
deriving DecidableEq, Repr

namespace CodePoint

def toNat : CodePoint → Nat
  | .char c => c.toNat
  | .half offset => 0xd800 + offset.val

def ofNat (code : Nat) : CodePoint :=
  if h : 0xd800 ≤ code ∧ code < 0xe000 then .half ⟨code - 0xd800, by omega⟩
  else .char (Char.ofNat code)

def char? : CodePoint → Option Char
  | .char c => some c
  | .half _ => none

def escapedHalf (offset : Fin 0x800) : List Char :=
  '\\' :: 'u' :: hex 4 (0xd800 + offset.val)

/-- One code point of a quoted text. A half does not print. -/
def quote (mark : Char) : CodePoint → List Char
  | .char c => quoteChar mark c
  | .half offset => escapedHalf offset

def shown : CodePoint → List Char
  | .char c => [c]
  | .half offset => escapedHalf offset

end CodePoint

/-- A text in which halves of surrogate pairs may stand alone. -/
structure LooseText where
  points : List CodePoint
deriving DecidableEq, Repr, Inhabited

namespace LooseText

def ofString (text : String) : LooseText :=
  ⟨text.toList.map .char⟩

instance : Coe String LooseText := ⟨ofString⟩

/-- The string that a loose text is, if no half stands in it. -/
def toString? (text : LooseText) : Option String :=
  (text.points.mapM CodePoint.char?).map String.ofList

def quoted (text : LooseText) : String :=
  let mark := quoteFor (text.points.filterMap CodePoint.char?)
  String.ofList (mark :: (text.points.flatMap (CodePoint.quote mark) ++ [mark]))

/-- A loose text in a message, where a half is shown by its escape. -/
def shown (text : LooseText) : String :=
  String.ofList (text.points.flatMap CodePoint.shown)

/-- Whether a sequence of numbers comes before another in the order of a dictionary, or is equal. -/
def codesLe : List Nat → List Nat → Bool
  | [], _ => true
  | _ :: _, [] => false
  | x :: xs, y :: ys => x < y || (x = y && codesLe xs ys)

def sort (texts : List LooseText) : List LooseText :=
  texts.mergeSort fun x y => codesLe (x.points.map CodePoint.toNat) (y.points.map CodePoint.toNat)

theorem mapM_char?_map_char (chars : List Char) :
    (chars.map CodePoint.char).mapM CodePoint.char? = some chars := by
  induction chars with
  | nil => rfl
  | cons c rest ih => simp [List.mapM_cons, CodePoint.char?, ih]

/-- A string survives as a loose text. -/
theorem toString?_ofString (text : String) : (ofString text).toString? = some text := by
  rw [toString?, ofString, mapM_char?_map_char, Option.map_some, String.ofList_toList]

end LooseText

end ContractAudit.Text
