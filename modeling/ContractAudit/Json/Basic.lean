import ContractAudit.Decimal.Shortest
import ContractAudit.Text.LooseText

/-!
# JSON values

Values of the JSON data format. Integers are exact and all other numbers are double-precision. The
fields of an object keep the order in which their names first appeared. Strings and names are loose
texts, because an escape can write half of a surrogate pair alone.
-/

namespace ContractAudit

/-- A JSON value. -/
inductive Json where
  | null
  | bool (value : Bool)
  | int (value : Int)
  | real (value : Decimal.Binary64)
  | text (value : Text.LooseText)
  | array (items : List Json)
  | record (fields : List (Text.LooseText × Json))
deriving Inhabited

namespace Json

def string (value : String) : Json :=
  .text value

def object (fields : List (String × Json)) : Json :=
  .record (fields.map fun (name, value) => (Text.LooseText.ofString name, value))

def field? (name : String) : Json → Option Json
  | .record fields => (fields.find? fun field => field.1 = .ofString name).map Prod.snd
  | _ => none

def text? : Json → Option Text.LooseText
  | .text value => some value
  | _ => none

def string? (value : Json) : Option String :=
  value.text?.bind Text.LooseText.toString?

mutual

def quoted : Json → String
  | .null => "None"
  | .bool true => "True"
  | .bool false => "False"
  | .int value => toString value
  | .real value => value.render
  | .text value => value.quoted
  | .array items => "[" ++ ", ".intercalate (quotedItems items) ++ "]"
  | .record fields => "\x7b" ++ ", ".intercalate (quotedFields fields) ++ "\x7d"

def quotedItems : List Json → List String
  | [] => []
  | item :: rest => item.quoted :: quotedItems rest

def quotedFields : List (Text.LooseText × Json) → List String
  | [] => []
  | (name, value) :: rest => (name.quoted ++ ": " ++ value.quoted) :: quotedFields rest

end

end Json

end ContractAudit
