import ContractAudit.Regex.Escape
import ContractAudit.Text.Identifier

/-!
# Reading regular expressions

The usual notation: literal characters, `.`, sets in brackets, `^` and `$`, escapes, `*`, `+`, `?`
and counted repetition, groups and alternatives. A group that starts with a question mark has a name
or a special meaning: it does not count, is matched at one go, looks ahead or behind, is a condition
or a comment, or sets flags. An expression that was read is checked once more as a whole.
-/

namespace ContractAudit.Regex

open Text (CodePoint LooseText)

namespace Width

/-- The greatest width that is told apart from wider ones. -/
def limit : Nat := 18446744073709551616

def cut (least most : Nat) : Width :=
  ⟨min least limit, min most limit⟩

def add (first second : Width) : Width :=
  cut (first.least + second.least) (first.most + second.most)

def join (first second : Width) : Width :=
  ⟨min first.least second.least, max first.most second.most⟩

def repeated (body : Width) (least : Nat) (most : Option Nat) : Width :=
  cut (body.least * least) (match most with
    | some bound => body.most * bound
    | none => if body.most = 0 then 0 else limit)

end Width

/-- The width of an expression, given the widths of the groups it refers to. -/
def width (groups : List (Option Width)) : Regex → Width
  | .empty | .anchor _ | .ahead _ _ | .behind _ _ _ => ⟨0, 0⟩
  | .one _ => ⟨1, 1⟩
  | .sequence first second => Width.add (first.width groups) (second.width groups)
  | .either first second => Width.join (first.width groups) (second.width groups)
  | .repeated _ least most body => Width.repeated (body.width groups) least most
  | .group _ body | .atomic body => body.width groups
  | .reference _ number => (groups[number - 1]?.join).getD ⟨0, 0⟩
  | .condition _ yes no => Width.join (yes.width groups) (no.width groups)

/-- A part of a sequence, to which a repetition applies. -/
inductive Part where
  /-- One character, or a reference. -/
  | plain (regex : Regex)
  | anchored (kind : Anchor)
  /-- A group, a look or a condition. -/
  | grouped (regex : Regex)
  /-- A repetition. -/
  | counted (regex : Regex)
deriving DecidableEq, Repr

namespace Part

def regex : Part → Regex
  | .plain regex | .grouped regex | .counted regex => regex
  | .anchored kind => .anchor kind

def isSimple : Part → Bool
  | .plain _ | .anchored _ => true
  | .grouped _ | .counted _ => false

def set? : Part → Option CharSet
  | .plain (.one set) => if set.negated then none else some set
  | _ => none

end Part

def ofParts (parts : List Part) : Regex :=
  parts.foldr (fun part rest => match rest with
    | .empty => part.regex
    | _ => .sequence part.regex rest) .empty

/-- The simple parts that an alternative and all others start with, and what is left of each. -/
def sharedStart : List Part → List (List Part) → List Part × List (List Part)
  | [], others => ([], [] :: others)
  | part :: rest, others =>
      if part.isSimple && others.all fun other => other.head? = some part then
        let (shared, left) := sharedStart rest (others.map List.tail)
        (part :: shared, left)
      else ([], (part :: rest) :: others)

/-- The one set of alternatives that are sets under the same rule on case. -/
def union? (alternatives : List (List Part)) : Option CharSet := do
  let sets ← alternatives.mapM fun parts => match parts with
    | [part] => part.set?
    | _ => none
  let first ← sets.head?
  if sets.all fun set => set.rule = first.rule then
    some ⟨false, first.rule, sets.flatMap CharSet.items⟩
  else none

/-- The choice between alternatives. Where each is one character out of a set, it is a set too. -/
def choice (alternatives : List (List Part)) : Regex :=
  match union? alternatives with
  | some set => .one set
  | none =>
      match (alternatives.map ofParts).reverse with
      | [] => .empty
      | last :: before => before.foldl (fun rest regex => .either regex rest) last

/-- The expression of alternatives. What all of them start with is read once, before the choice. -/
def ofAlternatives : List (List Part) → Regex
  | [] => .empty
  | [parts] => ofParts parts
  | first :: others =>
      let (shared, left) := sharedStart first others
      ofParts (shared ++ [.grouped (choice left)])

def countLimit : Nat := 4294967295

def groupLimit : Nat := 1073741823

def behindLimit : Nat := 4294967295

namespace Reader

def readEscape (scope : Scope) (c : CodePoint) : Reader Part := do
  let literal := fun (code : Nat) => Part.plain (.one (.single scope.rule code))
  let some letter := c.char? | return literal c.toNat
  if let some kind := escapedAnchor? scope letter then return .anchored kind
  if let some item := escapedClass? scope letter then
    return .plain (.one ⟨false, scope.rule, [item]⟩)
  if let some code := escapedControl? letter then return literal code
  if let some code ← readNumbered? letter then return literal code
  if letter = '0' then return literal (← readOctal letter)
  if letter.isDigit then return .plain (← readReference scope letter)
  return literal (← readSelf c)

/-- The count of rounds that digits write. -/
def readCount (digits : List Char) : Reader Nat := do
  match Text.Numeral.read (String.ofList digits) with
  | .error error => throw (.count error)
  | .ok count =>
      if (countLimit : Int) ≤ count then throw .hugeCount
      return count.toNat

/-- Reads the counts after an opening brace: the least, and the most if bounded. Text that is not of
this form is no count, and nothing of it is taken. -/
def readCounts : Reader (Option (Nat × Option Nat)) := do
  let start ← get
  if (← peek) = some (.ofChar '\x7d') then return none
  let low ← takeAll Char.isDigit
  let high ← if ← accept ',' then takeAll Char.isDigit else pure low
  if !(← accept '\x7d') then
    set start
    return none
  let least ← if low.isEmpty then pure 0 else readCount low
  if high.isEmpty then return some (least, none)
  let most ← readCount high
  if most < least then refuseAt .badCount start.position
  return some (least, some most)

def readRepetition (c : Char) : Reader (Option (Nat × Option Nat)) :=
  match c with
  | '?' => return some (0, some 1)
  | '*' => return some (0, none)
  | '+' => return some (1, none)
  | _ => readCounts

def readManner : Reader Manner := do
  if ← accept '?' then return .lazy
  if ← accept '+' then return .possessive
  return .greedy

/-- Repeats the last part before a repetition that starts at a place. -/
def repeatLast (start least : Nat) (most : Option Nat) : List Part → Reader (List Part)
  | [] | .anchored _ :: _ => refuseAt .nothingToRepeat start
  | .counted _ :: _ => refuseAt .multipleRepeat start
  | .plain regex :: parts | .grouped regex :: parts => do
      return .counted (.repeated (← readManner) least most regex) :: parts

def skipLine : Nat → Reader Unit
  | 0 => return
  | bound + 1 => do
      match ← take with
      | none => return
      | some piece => if piece = .ofChar '\n' then return else skipLine bound

def skipComment (start : Nat) : Nat → Reader Unit
  | 0 => refuseAt .openComment start
  | bound + 1 => do
      match ← take with
      | none => refuseAt .openComment start
      | some piece => if piece = .ofChar ')' then return else skipComment start bound

/-- Whether a piece is left out where blanks do not count. -/
def isSpace (piece : Piece) : Bool :=
  piece.char?.any fun c => c = ' ' || (9 ≤ c.toNat && c.toNat ≤ 13)

/-- The refusal of a piece where a flag should stand. -/
def refuseFlag {α : Type} (piece : Piece) (otherwise : Problem) : Reader α :=
  let problem := if piece.char?.any Text.isLetter then .unknownFlag else otherwise
  refuse problem piece.length

/-- Reads flags to turn on, from a piece on and after those before, and the piece that ends them. -/
def readFlagsOn : Nat → Piece → List Flag → Reader (List Flag × Piece)
  | 0, piece, on => return (on, piece)
  | bound + 1, piece, on => do
      let some flag := Flag.ofPiece? piece | refuseFlag piece .unfinishedFlags
      if flag = .locale then refuse .localeFlag 0
      let on := on ++ [flag]
      if flag.isType && on.any (fun other => other.isType && other ≠ flag) then
        refuse .mixedTypes 0
      let some next ← take | refuse .unfinishedFlags 0
      if [Piece.ofChar ')', .ofChar '-', .ofChar ':'].contains next then return (on, next)
      readFlagsOn bound next on

/-- Reads flags to turn off, from a piece on and after those before, through the colon. -/
def readFlagsOff : Nat → Piece → Problem → List Flag → Reader (List Flag)
  | 0, _, _, off => return off
  | bound + 1, piece, missing, off => do
      let some flag := Flag.ofPiece? piece | refuseFlag piece missing
      if flag.isType then refuse .typeOff 0
      let some next ← take | refuse .missingColon 0
      if next = .ofChar ':' then return off ++ [flag]
      readFlagsOff bound next .missingColon (off ++ [flag])

/-- Reads flags from a piece on: those for the whole expression, which are none here but kept, or
those to turn on and off in a group. -/
def readFlags (piece : Piece) : Reader (Option (List Flag × List Flag)) := do
  let bound := (← get).rest.length + 1
  let (on, stop) ←
    if piece = .ofChar '-' then pure ([], piece) else readFlagsOn bound piece []
  if stop = .ofChar ')' then
    modify fun scan => { scan with flags := scan.flags ++ on }
    return none
  if on.any Flag.isGlobal then refuse .globalOn 1
  let off ←
    if stop = .ofChar '-' then do
      let some first ← take | refuse .missingFlag 0
      readFlagsOff bound first .missingFlag []
    else pure []
  if off.any Flag.isGlobal then refuse .globalOff 1
  if on.any off.contains then refuse .onAndOff 1
  return some (on, off)

def checkName (name : LooseText) : Reader Unit := do
  if !name.toString?.any fun text => Text.isIdentifier text.toList then
    refuse (.badName name) (name.points.length + 1)

def numberOf (name : LooseText) : Reader Nat := do
  match (← get).names.lookup name with
  | some number => return number
  | none => refuse (.unknownName name) (name.points.length + 1)

def readConditionGroup : Reader Nat := do
  let name ← takeUntil "group name" ')'
  let back := name.points.length + 1
  let text := name.toString?
  if text.any fun text => Text.isIdentifier text.toList then numberOf name
  else
    match text.map Text.Numeral.read with
    | some (.ok (.ofNat number)) => do
        if number = 0 then refuse .badGroupNumber back
        if groupLimit ≤ number then refuse (.groupReference number) back
        modify fun scan =>
          if (scan.conditions.lookup number).isSome then scan
          else { scan with
            conditions := scan.conditions ++ [(number, scan.position - back)] }
        return number
    | _ => refuse (.badName name) back

def closeParenthesis (start : Nat) : Reader Unit := do
  if !(← accept ')') then refuseAt .openGroup start

def lookingBehind (body : Reader Regex) : Reader Regex := do
  let before := (← get).behindFrom
  modify fun scan =>
    { scan with behindFrom := some (before.getD (scan.groups.length + 1)) }
  let regex ← body
  modify fun scan => { scan with behindFrom := before }
  return regex

mutual

/-- Reads alternatives, up to a closing parenthesis or the end, within a bound on the calls. -/
def readAlternatives (bound : Nat) (isWhole isFirst : Bool) (scope : Scope) :
    Reader (List (List Part)) :=
  match bound with
  | 0 => return []
  | bound + 1 => do
      let first ← readParts bound (isWhole && isFirst) scope []
      if !(← accept '|') then return [first]
      let flags := (← get).flags
      let scope := if isWhole then Scope.turn { } flags [] else scope
      return first :: (← readAlternatives bound isWhole false scope)

/-- Reads the parts of a sequence after those read before, the latest first, within a bound on the
calls. -/
def readParts (bound : Nat) (isFirst : Bool) (scope : Scope) (parts : List Part) :
    Reader (List Part) :=
  match bound with
  | 0 => return parts.reverse
  | bound + 1 => do
      let start ← position
      let next ← peek
      if next = some (.ofChar '|') || next = some (.ofChar ')') then return parts.reverse
      let some piece ← take | return parts.reverse
      if scope.verbose && isSpace piece then readParts bound isFirst scope parts
      else if scope.verbose && piece = .ofChar '#' then
        skipLine (← get).rest.length
        readParts bound isFirst scope parts
      else match piece with
        | .escaped c => readParts bound isFirst scope ((← readEscape scope c) :: parts)
        | .plain c =>
            match c.char? with
            | some '.' =>
                let set := if scope.dotAll then CharSet.all else .inLine
                readParts bound isFirst scope (.plain (.one set) :: parts)
            | some '^' =>
                let kind := if scope.multiline then Anchor.lineStart else .start
                readParts bound isFirst scope (.anchored kind :: parts)
            | some '$' =>
                let kind := if scope.multiline then Anchor.lineEnd else .finish
                readParts bound isFirst scope (.anchored kind :: parts)
            | some '[' =>
                readParts bound isFirst scope (.plain (.one (← readSet scope start)) :: parts)
            | some '(' =>
                let (added, scope) ← readGroup bound (isFirst && parts.isEmpty) scope start
                readParts bound isFirst scope (added ++ parts)
            | some mark =>
                let literal := Part.plain (.one (.single scope.rule mark.toNat))
                if mark = '*' || mark = '+' || mark = '?' || mark = '\x7b' then
                  match ← readRepetition mark with
                  | some (least, most) =>
                      readParts bound isFirst scope (← repeatLast start least most parts)
                  | none => readParts bound isFirst scope (literal :: parts)
                else readParts bound isFirst scope (literal :: parts)
            | none =>
                readParts bound isFirst scope
                  (.plain (.one (.single scope.rule c.toNat)) :: parts)

/-- Reads a group that starts at a place, after its opening parenthesis, within a bound on the
calls. It gives the parts that the group adds and the rules for what follows it. -/
def readGroup (bound : Nat) (mayFlag : Bool) (scope : Scope) (start : Nat) :
    Reader (List Part × Scope) :=
  match bound with
  | 0 => return ([], scope)
  | bound + 1 => do
      let part := fun (regex : Regex) => (([Part.grouped regex], scope) : List Part × Scope)
      if !(← accept '?') then return part (← readCapture bound none scope start)
      let some piece ← take | refuse .endOfPattern 0
      match piece.char? with
      | some 'P' =>
          if ← accept '<' then
            let name ← takeUntil "group name" '>'
            checkName name
            return part (← readCapture bound (some name) scope start)
          else if ← accept '=' then
            let name ← takeUntil "group name" ')'
            checkName name
            let reference ← refer scope (← numberOf name) (name.points.length + 1)
            return ([.plain reference], scope)
          else
            let some other ← take | refuse .endOfPattern 0
            refuse (.unknownExtension ⟨[.char '?', .char 'P'] ++ other.text.points⟩)
              (other.length + 2)
      | some ':' => return part (← readBody bound scope start)
      | some '#' =>
          skipComment start ((← get).rest.length + 1)
          return ([], scope)
      | some '=' => return part (.ahead true (← readBody bound scope start))
      | some '!' => return part (.ahead false (← readBody bound scope start))
      | some '<' =>
          let some other ← take | refuse .endOfPattern 0
          if other ≠ .ofChar '=' && other ≠ .ofChar '!' then
            refuse (.unknownExtension ⟨[.char '?', .char '<'] ++ other.text.points⟩)
              (other.length + 2)
          let body ← lookingBehind (ofAlternatives <$> readAlternatives bound false false scope)
          closeParenthesis start
          let width := body.width (← get).groups
          return part (.behind (other = .ofChar '=') width body)
      | some '(' =>
          let number ← readConditionGroup
          checkBehind number
          let yes ← readParts bound false scope []
          let no ← if ← accept '|' then readParts bound false scope [] else pure []
          if (← peek) = some (.ofChar '|') then refuse .manyBranches 0
          closeParenthesis start
          return part (.condition number (ofParts yes) (ofParts no))
      | some '>' => return part (.atomic (← readBody bound scope start))
      | _ =>
          if (Flag.ofPiece? piece).isNone && piece ≠ .ofChar '-' then
            refuse (.unknownExtension ⟨.char '?' :: piece.text.points⟩) (piece.length + 1)
          match ← readFlags piece with
          | some (on, off) => return part (← readBody bound (scope.turn on off) start)
          | none =>
              if !mayFlag then refuseAt .lateFlags start
              return ([], Scope.turn { } (← get).flags [])

/-- Reads the inside of a group that starts at a place, through its closing parenthesis. -/
def readBody (bound : Nat) (scope : Scope) (start : Nat) : Reader Regex :=
  match bound with
  | 0 => return .empty
  | bound + 1 => do
      let alternatives ← readAlternatives bound false false scope
      closeParenthesis start
      return ofAlternatives alternatives

/-- Reads the inside of a group that counts, through its closing parenthesis. -/
def readCapture (bound : Nat) (name : Option LooseText) (scope : Scope) (start : Nat) :
    Reader Regex :=
  match bound with
  | 0 => return .empty
  | bound + 1 => do
      let number ← openGroup name
      let body ← readBody bound scope start
      closeGroup number (body.width (← get).groups)
      return .group number body

end

/-- Reads a whole expression. A call passes a piece at least at every sixth level. -/
def readWhole : Reader (List (List Part)) := do
  checkEnd
  readAlternatives (6 * ((← get).rest.length + 1)) true true { }

end Reader

def repetitionName : Manner → String
  | .greedy => "MAX_REPEAT"
  | .lazy => "MIN_REPEAT"
  | .possessive => "POSSESSIVE_REPEAT"

/-- What is wrong with an expression as a whole: a look behind of no fixed width, or a repetition in
an expression that is to have none. -/
def problem? (isTemplate : Bool) : Regex → Option Problem
  | .empty | .one _ | .anchor _ | .reference _ _ => none
  | .sequence first second | .either first second | .condition _ first second =>
      (first.problem? isTemplate).or (second.problem? isTemplate)
  | .repeated manner _ _ body =>
      if isTemplate then some (.repetitionInTemplate (repetitionName manner))
      else body.problem? isTemplate
  | .group _ body | .atomic body | .ahead _ body => body.problem? isTemplate
  | .behind _ width body =>
      if behindLimit < width.least then some .farBehind
      else if width.least ≠ width.most then some .variableBehind
      else body.problem? isTemplate

/-- Checks the alternatives of an expression that was read, as a whole. -/
def finish (alternatives : List (List Part)) (scan : Scan) : Except Error Matcher :=
  let regex := ofAlternatives alternatives
  let unknown := scan.conditions.find? fun entry => scan.groups.length < entry.1
  if scan.flags.contains .ascii && scan.flags.contains .unicode then .error .mixedClasses
  else if !scan.rest.isEmpty then .error (.refused ⟨.unbalanced, some scan.position⟩)
  else match unknown, regex.problem? (scan.flags.contains .template) with
    | some (number, place), _ => .error (.refused ⟨.groupReference number, some place⟩)
    | none, some problem => .error (.refused ⟨problem, none⟩)
    | none, none => .ok ⟨regex, (regex.width scan.groups).least⟩

/-- The scan of an expression before anything is read. -/
def Scan.start (characters : String → Option Nat) (pattern : LooseText) : Scan :=
  let (rest, dangling) := pieces pattern.points
  { characters, rest, position := 0, dangling }

/-- Reads an expression, in which characters can be given by their names. -/
def read (characters : String → Option Nat) (pattern : LooseText) : Except Error Matcher := do
  let (alternatives, scan) ← Reader.readWhole.run (.start characters pattern)
  finish alternatives scan

end ContractAudit.Regex
