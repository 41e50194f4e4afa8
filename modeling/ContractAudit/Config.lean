import ContractAudit.Json.Read
import ContractAudit.Platform
import ContractAudit.Regex.Match
import ContractAudit.Regex.Read
import ContractAudit.Risk
import ContractAudit.Text.Lines
import ContractAudit.Text.TextSet
import ContractAudit.Text.Utf8

/-!
# Configuration

The options of an audit and their JSON form. Every option may be left out, and an unknown option or
a value of the wrong kind is an error. Options that are texts are loose texts, as in JSON; one that
is no string names nothing.
-/

namespace ContractAudit

open Text (LooseText TextSet)

/-- A pattern for the names of functions, with the expression that it is read as. -/
structure NamingPattern where
  text : LooseText
  matcher : Regex.Matcher
  isRead : ∃ characters, (Regex.read characters text).toOption = some matcher
deriving DecidableEq, Repr

namespace NamingPattern

def read (characters : String → Option Nat) (text : LooseText) :
    Except Regex.Error NamingPattern :=
  match h : Regex.read characters text with
  | .ok matcher => .ok ⟨text, matcher, characters, by rw [h]; rfl⟩
  | .error error => .error error

def kebabText : LooseText := "^[a-z][a-z0-9-]*$"

/-- A small letter, and then small letters, digits and hyphens. -/
def kebabMatcher : Regex.Matcher :=
  let letters := CharItem.range 0x61 0x7a
  let first := Regex.one ⟨false, .exact, [letters]⟩
  let other := Regex.one ⟨false, .exact, [letters, .range 0x30 0x39, .range 0x2d 0x2d]⟩
  ⟨.sequence (.anchor .start) (.sequence first
    (.sequence (.repeated .greedy 0 none other) (.anchor .finish))), 1⟩

def kebab : NamingPattern :=
  ⟨kebabText, kebabMatcher, fun _ => none, by decide +kernel⟩

end NamingPattern

/-- The options of an audit. -/
structure Config where
  disabledCheckers : List LooseText := []
  suppressedCodes : List LooseText := []
  maxParameters : Nat := 10
  authIdentifiers : TextSet := .ofList ["tx-sender", "contract-caller", "contract-owner"]
  failOn : RiskLevel := .high
  namingPattern : NamingPattern := .kebab
deriving DecidableEq, Repr

namespace Config

def default : Config := { }

/-- Why a configuration is refused. -/
inductive Error where
  | notObject
  | unknownKeys (keys : List LooseText)
  | notStrings (key : String) (value : Json)
  | badLimit (value : Json)
  | riskNotString (value : Json)
  | unknownRisk (text : LooseText)
  | patternNotString (value : Json)
  | badPattern (pattern : LooseText) (refusal : Regex.Refusal)
  | unreadable (path : String) (fault : DiskFault)
  | notJson (path : String) (error : Json.ReadError)

def Error.message : Error → String
  | .notObject => "configuration must be a JSON object"
  | .unknownKeys keys =>
      "unknown configuration key(s): " ++ ", ".intercalate (keys.map LooseText.shown)
  | .notStrings key value => s!"{key} must be a list of strings, got {value.quoted}"
  | .badLimit value => s!"max_parameters must be a non-negative integer, got {value.quoted}"
  | .riskNotString value => s!"risk level must be a string, got {value.quoted}"
  | .unknownRisk text => s!"unknown risk level: {text.quoted}"
  | .patternNotString value => s!"naming_pattern must be a string, got {value.quoted}"
  | .badPattern pattern refusal =>
      s!"invalid naming_pattern {pattern.quoted}: {refusal.message pattern}"
  | .unreadable path fault => s!"cannot read configuration {path}: {fault.text}"
  | .notJson path error => s!"invalid JSON in {path}: {error.message}"

/-- What keeps a configuration from being read: it is refused, or its text breaks a limit of the
notation it is written in. -/
inductive Failure where
  | refused (error : Error)
  | path (error : NulInPath)
  | encoding (fault : Text.Utf8.Fault)
  | integer (error : Text.Numeral.Error)
  | hugeCount
  | mixedClasses

def Failure.message : Failure → String
  | .refused error => error.message
  | .path error => error.message
  | .encoding fault => fault.message
  | .integer error => error.message
  | .hugeCount => "the repetition number is too large"
  | .mixedClasses => "ASCII and UNICODE flags are incompatible"

def keys : List LooseText :=
  ["disabled_checkers", "suppressed_codes", "max_parameters", "auth_identifiers", "fail_on",
   "naming_pattern"]

def readTexts (key : String) (value : Json) : Except Failure (List LooseText) :=
  match value with
  | .array items =>
      match items.mapM Json.text? with
      | some texts => .ok texts
      | none => .error (.refused (.notStrings key value))
  | _ => .error (.refused (.notStrings key value))

def readLimit : Json → Except Failure Nat
  | .int (.ofNat limit) => .ok limit
  | value => .error (.refused (.badLimit value))

def readRisk : Json → Except Error RiskLevel
  | .text text =>
      match text.toString?.bind RiskLevel.ofText? with
      | some level => .ok level
      | none => .error (.unknownRisk text)
  | value => .error (.riskNotString value)

def readPattern (characters : String → Option Nat) : Json → Except Failure NamingPattern
  | .text pattern =>
      match NamingPattern.read characters pattern with
      | .ok found => .ok found
      | .error (.refused refusal) => .error (.refused (.badPattern pattern refusal))
      | .error (.count error) => .error (.integer error)
      | .error .hugeCount => .error .hugeCount
      | .error .mixedClasses => .error .mixedClasses
  | value => .error (.refused (.patternNotString value))

def readOption {α : Type} (fields : List (LooseText × Json)) (key : LooseText) (fallback : α)
    (reader : Json → Except Failure α) : Except Failure α :=
  match fields.find? fun field => field.1 = key with
  | some (_, value) => reader value
  | none => .ok fallback

/-- Reads the options. Unknown options are reported first, then the first option with a wrong
value. -/
def ofJson (characters : String → Option Nat) : Json → Except Failure Config
  | .record fields => do
      let unknown := (fields.map Prod.fst).filter fun key => !keys.contains key
      unless unknown.isEmpty do throw (.refused (.unknownKeys (LooseText.sort unknown)))
      let texts := fun (key : String) fallback => readOption fields key fallback (readTexts key)
      let disabledCheckers ← texts "disabled_checkers" default.disabledCheckers
      let suppressedCodes ← texts "suppressed_codes" default.suppressedCodes
      let authIdentifiers ← texts "auth_identifiers" default.authIdentifiers.texts
      let maxParameters ← readOption fields "max_parameters" default.maxParameters readLimit
      let failOn ← readOption fields "fail_on" default.failOn fun value =>
        (readRisk value).mapError .refused
      let namingPattern ←
        readOption fields "naming_pattern" default.namingPattern (readPattern characters)
      pure
        { disabledCheckers, suppressedCodes, maxParameters, failOn, namingPattern
          authIdentifiers := .ofList authIdentifiers }
  | _ => .error (.refused .notObject)

def toJson (config : Config) : Json :=
  .object [("disabled_checkers", .array (config.disabledCheckers.map .text)),
    ("suppressed_codes", .array (config.suppressedCodes.map .text)),
    ("max_parameters", .int config.maxParameters),
    ("auth_identifiers", .array (config.authIdentifiers.texts.map .text)),
    ("fail_on", .string config.failOn.label), ("naming_pattern", .text config.namingPattern.text)]

/-- The options with more checkers disabled and, if it is given, another level of failure. -/
def override (config : Config) (disabled : List LooseText) (failOn : Option RiskLevel) : Config :=
  { config with
    disabledCheckers :=
      if disabled.isEmpty then config.disabledCheckers
      else distinct (config.disabledCheckers ++ disabled)
    failOn := failOn.getD config.failOn }

/-- The options with overrides, of which the level of failure is still to be read. -/
def withOverrides (config : Config) (disabled : List LooseText) (failOn : Option Json) :
    Except Error Config :=
  return config.override disabled (← failOn.mapM readRisk)

/-- Whether a function name matches the naming pattern. -/
def acceptsName (config : Config) (name : String) : Bool :=
  config.namingPattern.matcher.matchesStart name

/-- Reads the options in the file at a path. -/
def load (platform : Platform) (disk : Disk) (given : String) : Except Failure Config := do
  (checkPath given).mapError .path
  let path := platform.expand given
  let bytes ← (disk.read path).mapError fun fault => .refused (.unreadable path fault)
  let text ← (Text.Utf8.decode bytes).mapError .encoding
  let value ← (Json.read (String.ofList (Text.normalizeNewlines text))).mapError fun
    | .integer error => .integer error
    | error => .refused (.notJson path error)
  ofJson platform.characters value

end Config

end ContractAudit
