import ContractAudit.Text.Digit
import ContractAudit.Text.Quoted

/-!
# Words of a command line

A command line is a list of words. A word that starts with a hyphen is an option, given in full, by
an unambiguous beginning or, for options of one letter, together with others; all other words are
operands. An option takes its value from the same word or from the next one. After the word `--`
every word is an operand.
-/

namespace ContractAudit.CommandLine

/-- What an option does. -/
inductive OptionRole where
  | flag
  /-- The option has a value, one of the choices if there are any. -/
  | value (choices : List String)
  | help
  | version
deriving DecidableEq, Repr

/-- An option with the names that it goes by. -/
structure OptionSpec (κ : Type) where
  key : κ
  names : List String
  role : OptionRole

namespace OptionSpec

def takesValue {κ : Type} (spec : OptionSpec κ) : Bool :=
  match spec.role with
  | .value _ => true
  | _ => false

def title {κ : Type} (spec : OptionSpec κ) : String :=
  "/".intercalate spec.names

end OptionSpec

/-- Why a command line is refused. -/
inductive UsageError where
  | ambiguous (word : String) (names : List String)
  | expectedValue (option : String)
  | invalidChoice (argument value : String) (choices : List String)
  | ignoredValue (option value : String)
  | required (operand : String)
  | unrecognized (words : List String)
deriving DecidableEq, Repr

def UsageError.message : UsageError → String
  | .ambiguous word names =>
      s!"ambiguous option: {word} could match " ++ ", ".intercalate names
  | .expectedValue option => s!"argument {option}: expected one argument"
  | .invalidChoice argument value choices =>
      let listed := ", ".intercalate (choices.map Text.quoted)
      s!"argument {argument}: invalid choice: {Text.quoted value} (choose from {listed})"
  | .ignoredValue option value =>
      s!"argument {option}: ignored explicit argument {Text.quoted value}"
  | .required operand => s!"the following arguments are required: {operand}"
  | .unrecognized words => "unrecognized arguments: " ++ " ".intercalate words

/-- Why the reading of a command line ends early. -/
inductive Stop where
  | help
  | version
  | refused (error : UsageError)
deriving DecidableEq, Repr

/-- The text behind an option in the same word, directly or after an equals sign. -/
abbrev Attached := Option (List Char)

/-- What a word is. -/
inductive WordKind (κ : Type) where
  | operand
  | divider
  | unknownOption
  | option (spec : OptionSpec κ) (isShort : Bool) (value : Attached)

/-- A word with what it is. -/
structure Word (κ : Type) where
  text : String
  kind : WordKind κ

def optionNames {κ : Type} (specs : List (OptionSpec κ)) : List (String × OptionSpec κ) :=
  specs.flatMap fun spec => spec.names.map fun name => (name, spec)

def findOption? {κ : Type} (specs : List (OptionSpec κ)) (name : List Char) :
    Option (OptionSpec κ) :=
  ((optionNames specs).find? fun entry => entry.1.toList = name).map Prod.snd

def isShortName (name : List Char) : Bool :=
  name[1]? ≠ some '-'

/-- The part of a text before its first equals sign, and the value behind it. -/
def splitAssignment (text : List Char) : List Char × Attached :=
  match text.dropWhile (· ≠ '=') with
  | [] => (text, none)
  | _ :: value => (text.takeWhile (· ≠ '='), some value)

/-- The options that a word with an inexact name can mean, with their values. -/
def candidates {κ : Type} (specs : List (OptionSpec κ)) (word : List Char) :
    List (String × OptionSpec κ × Attached) :=
  if isShortName word then
    (optionNames specs).filterMap fun (name, spec) =>
      if name.toList = word.take 2 then some (name, spec, some (word.drop 2))
      else if word.isPrefixOf name.toList then some (name, spec, none)
      else none
  else
    let (start, value) := splitAssignment word
    (optionNames specs).filterMap fun (name, spec) =>
      if start.isPrefixOf name.toList then some (name, spec, value) else none

def isNegativeNumber (word : List Char) : Bool :=
  let isDecimal := fun c => (Text.decimalValue? c).isSome
  let body := word.drop 1
  let whole := body.takeWhile isDecimal
  match body.dropWhile isDecimal with
  | [] | ['\n'] => !whole.isEmpty
  | '.' :: rest =>
      !(rest.takeWhile isDecimal).isEmpty &&
        (rest.dropWhile isDecimal = [] || rest.dropWhile isDecimal = ['\n'])
  | _ => false

def classifyInexact {κ : Type} (specs : List (OptionSpec κ)) (word : List Char) :
    Except Stop (WordKind κ) :=
  match candidates specs word with
  | [(name, spec, value)] => .ok (.option spec (isShortName name.toList) value)
  | [] => .ok (if isNegativeNumber word || word.contains ' ' then .operand else .unknownOption)
  | several =>
      .error (.refused (.ambiguous (String.ofList word) (several.map fun entry => entry.1)))

/-- What a word before the divider is. -/
def classify {κ : Type} (specs : List (OptionSpec κ)) (word : List Char) :
    Except Stop (WordKind κ) :=
  if word.head? ≠ some '-' then .ok .operand
  else match findOption? specs word with
    | some spec => .ok (.option spec (isShortName word) none)
    | none =>
        if word.length = 1 then .ok .operand
        else
          let (name, value) := splitAssignment word
          match value, findOption? specs name with
          | some text, some spec => .ok (.option spec (isShortName name) (some text))
          | _, _ => classifyInexact specs word

def markWords {κ : Type} (specs : List (OptionSpec κ)) : List String →
    Except Stop (List (Word κ))
  | [] => .ok []
  | "--" :: rest => .ok (⟨"--", .divider⟩ :: rest.map fun text => ⟨text, .operand⟩)
  | text :: rest => do
      let kind ← classify specs text.toList
      pure (⟨text, kind⟩ :: (← markWords specs rest))

/-- What an option is set to. -/
inductive Setting (α : Type) where
  | value (content : α)
  /-- The value was the divider itself, which is dropped wherever it is found and leaves nothing. -/
  | dropped
deriving DecidableEq, Repr

namespace Setting

def ofText (text : List Char) : Setting String :=
  if text = ['-', '-'] then .dropped else .value (String.ofList text)

def map {α β : Type} (f : α → β) : Setting α → Setting β
  | .value content => .value (f content)
  | .dropped => .dropped

def value? {α : Type} : Setting α → Option α
  | .value content => some content
  | .dropped => none

end Setting

/-- An option that was given, with what it is set to if it takes a value. -/
abbrev Given (κ : Type) := OptionSpec κ × Option (Setting String)

/-- What an option in a word gives: the options, and the words after it and its value. -/
structure OptionReading (κ : Type) where
  given : List (Given κ)
  rest : List (Word κ)

def readDetached {κ : Type} (spec : OptionSpec κ) (rest : List (Word κ)) :
    Except Stop (OptionReading κ) :=
  if spec.takesValue then
    match rest with
    | ⟨text, .operand⟩ :: after => .ok ⟨[(spec, some (.value text))], after⟩
    | _ => .error (.refused (.expectedValue spec.title))
  else .ok ⟨[(spec, none)], rest⟩

/-- Reads an option with a text behind it in the same word. Behind an option of one letter without a
value more letters can follow, each of them an option. -/
def readAttached {κ : Type} (specs : List (OptionSpec κ)) (rest : List (Word κ)) (isShort : Bool) :
    OptionSpec κ → List Char → Except Stop (OptionReading κ)
  | spec, text =>
      if spec.takesValue then .ok ⟨[(spec, some (.ofText text))], rest⟩
      else
        let ignored := .error (.refused (.ignoredValue spec.title (String.ofList text)))
        match text with
        | [] => ignored
        | c :: more =>
            match if isShort then findOption? specs ['-', c] else none with
            | none => ignored
            | some next => do
                let reading ← match more with
                  | [] => readDetached next rest
                  | d :: others => readAttached specs rest true next (d :: others)
                pure { reading with given := (spec, none) :: reading.given }

def readOption {κ : Type} (specs : List (OptionSpec κ)) (spec : OptionSpec κ) (isShort : Bool)
    (value : Attached) (rest : List (Word κ)) : Except Stop (OptionReading κ) :=
  match value with
  | none => readDetached spec rest
  | some text => readAttached specs rest isShort spec text

/-- Carries out the options that end the reading, and checks the choices of the others. -/
def checkGiven {κ : Type} : List (Given κ) → Except Stop Unit
  | [] => .ok ()
  | (spec, value) :: rest =>
      match spec.role, value with
      | .help, _ => .error .help
      | .version, _ => .error .version
      | .value choices, some (.value text) =>
          if choices.isEmpty || choices.contains text then checkGiven rest
          else .error (.refused (.invalidChoice spec.title text choices))
      | _, _ => checkGiven rest

/-- What a command line gives: its options, its operand and the words that were not understood. -/
structure Reading (κ : Type) where
  given : List (Given κ) := []
  operand : Option String := none
  leftover : List String := []
  /-- The words after the operand, if they are left to another reader. -/
  remainder : List String := []

def Reading.add {κ : Type} (reading : Reading κ) (option : OptionReading κ) : Reading κ :=
  { reading with given := reading.given ++ option.given }

/-- Reads words with one operand among them, within a bound on their number. A divider next to the
operand is dropped, and words that are neither are left over. -/
def readWithOperand {κ : Type} (specs : List (OptionSpec κ)) :
    Nat → Reading κ → List (Word κ) → Except Stop (Reading κ)
  | 0, reading, _ => .ok reading
  | _ + 1, reading, [] => .ok reading
  | bound + 1, reading, word :: rest => do
      match word.kind with
      | .option spec isShort value =>
          let option ← readOption specs spec isShort value rest
          checkGiven option.given
          readWithOperand specs bound (reading.add option) option.rest
      | .unknownOption =>
          readWithOperand specs bound
            { reading with leftover := reading.leftover ++ [word.text] } rest
      | .operand =>
          if reading.operand.isSome then
            readWithOperand specs bound
              { reading with leftover := reading.leftover ++ [word.text] } rest
          else
            let after := match rest with
              | ⟨_, .divider⟩ :: after => after
              | _ => rest
            readWithOperand specs bound { reading with operand := some word.text } after
      | .divider =>
          match reading.operand, rest with
          | none, next :: after =>
              readWithOperand specs bound { reading with operand := some next.text } after
          | _, _ =>
              readWithOperand specs bound
                { reading with leftover := reading.leftover ++ [word.text] } rest

/-- Reads words up to the first operand, within a bound on their number. The words after it are left
to another reader. -/
def readUpToOperand {κ : Type} (specs : List (OptionSpec κ)) :
    Nat → Reading κ → List (Word κ) → Except Stop (Reading κ)
  | 0, reading, _ => .ok reading
  | _ + 1, reading, [] => .ok reading
  | bound + 1, reading, word :: rest => do
      match word.kind with
      | .option spec isShort value =>
          let option ← readOption specs spec isShort value rest
          checkGiven option.given
          readUpToOperand specs bound (reading.add option) option.rest
      | .unknownOption =>
          readUpToOperand specs bound
            { reading with leftover := reading.leftover ++ [word.text] } rest
      | .operand =>
          return { reading with
            operand := some word.text, remainder := rest.map fun other => other.text }
      | .divider =>
          if rest.isEmpty then
            return { reading with leftover := reading.leftover ++ [word.text] }
          else
            return { reading with
              operand := some word.text, remainder := rest.map fun other => other.text }

end ContractAudit.CommandLine
