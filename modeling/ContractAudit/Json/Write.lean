import ContractAudit.Json.Basic

/-!
# Writing JSON

A value is written on one line, or with every item on a line of its own under a given indentation.
Only printable ASCII characters are written: all others are escaped by their UTF-16 units, and so is
half of a surrogate pair.
-/

namespace ContractAudit.Json

def escapeUnit (unit : Nat) : List Char :=
  '\\' :: 'u' :: Text.hex 4 unit

def escapeChar (c : Char) : List Char :=
  if c = '"' || c = '\\' then ['\\', c]
  else if c = '\n' then ['\\', 'n']
  else if c = '\r' then ['\\', 'r']
  else if c = '\t' then ['\\', 't']
  else if c.toNat = 8 then ['\\', 'b']
  else if c.toNat = 12 then ['\\', 'f']
  else if 0x20 ≤ c.toNat && c.toNat < 0x7f then [c]
  else if c.toNat < 0x10000 then escapeUnit c.toNat
  else
    let code := c.toNat - 0x10000
    escapeUnit (0xd800 + code / 0x400) ++ escapeUnit (0xdc00 + code % 0x400)

def escapePoint : Text.CodePoint → List Char
  | .char c => escapeChar c
  | .half offset => escapeUnit (0xd800 + offset.val)

def writeText (text : Text.LooseText) : String :=
  "\"" ++ String.ofList (text.points.flatMap escapePoint) ++ "\""

/-- The text that surrounds and separates the items of an array or object. -/
structure Layout where
  opening : String
  separator : String
  closing : String

/-- The layout at a nesting depth. Without indentation everything stands on one line. -/
def Layout.level (indent : Option Nat) (depth : Nat) : Layout :=
  match indent with
  | none => ⟨"", ", ", ""⟩
  | some width =>
      let line := fun level : Nat => "\n" ++ String.ofList (List.replicate (level * width) ' ')
      ⟨line (depth + 1), "," ++ line (depth + 1), line depth⟩

/-- Items between brackets; an empty container has nothing between them. -/
def Layout.wrap (layout : Layout) (left right : String) (items : List String) : String :=
  match items with
  | [] => left ++ right
  | items =>
      left ++ layout.opening ++ layout.separator.intercalate items ++ layout.closing ++ right

mutual

def writeAt (indent : Option Nat) (depth : Nat) : Json → String
  | .null => "null"
  | .bool true => "true"
  | .bool false => "false"
  | .int value => toString value
  | .real value => value.render
  | .text value => writeText value
  | .array items =>
      (Layout.level indent depth).wrap "[" "]" (writeItems indent (depth + 1) items)
  | .record fields =>
      (Layout.level indent depth).wrap "\x7b" "\x7d" (writeFields indent (depth + 1) fields)

def writeItems (indent : Option Nat) (depth : Nat) : List Json → List String
  | [] => []
  | item :: rest => item.writeAt indent depth :: writeItems indent depth rest

def writeFields (indent : Option Nat) (depth : Nat) : List (Text.LooseText × Json) → List String
  | [] => []
  | (name, value) :: rest =>
      (writeText name ++ ": " ++ value.writeAt indent depth) :: writeFields indent depth rest

end

/-- The text of a value, on one line unless an indentation is given. -/
def write (value : Json) (indent : Option Nat) : String :=
  value.writeAt indent 0

end ContractAudit.Json
