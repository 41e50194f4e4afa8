import ContractAudit.Text.LooseText
import ContractAudit.Text.Numeral

/-!
# Faults of regular expressions

What can be wrong with a written expression, with the texts of the messages. Most faults stand at a
place of the expression.
-/

namespace ContractAudit.Regex

open Text (LooseText)

/-- What is wrong with an expression. -/
inductive Problem where
  | openSet
  | openGroup
  | unbalanced
  | openComment
  | endOfPattern
  | nothingToRepeat
  | multipleRepeat
  | badCount
  | danglingEscape
  | badEscape (escape : LooseText)
  | incompleteEscape (escape : LooseText)
  | largeOctal (escape : LooseText)
  | noCharacterName
  | unknownCharacter (name : LooseText)
  | badRange (low high : LooseText)
  | unknownExtension (opening : LooseText)
  | missingName (kind : String)
  | openName (terminator : Char)
  | badName (name : LooseText)
  | unknownName (name : LooseText)
  | repeatedName (name : LooseText) (number earlier : Nat)
  | badGroupNumber
  | groupReference (number : Nat)
  | openReference
  | innerReference
  | manyBranches
  | lateFlags
  | localeFlag
  | mixedTypes
  | unknownFlag
  | unfinishedFlags
  | missingFlag
  | missingColon
  | globalOn
  | globalOff
  | typeOff
  | onAndOff
  | variableBehind
  | farBehind
  | repetitionInTemplate (name : String)
deriving DecidableEq, Repr

def Problem.text : Problem → String
  | .openSet => "unterminated character set"
  | .openGroup => "missing ), unterminated subpattern"
  | .unbalanced => "unbalanced parenthesis"
  | .openComment => "missing ), unterminated comment"
  | .endOfPattern => "unexpected end of pattern"
  | .nothingToRepeat => "nothing to repeat"
  | .multipleRepeat => "multiple repeat"
  | .badCount => "min repeat greater than max repeat"
  | .danglingEscape => "bad escape (end of pattern)"
  | .badEscape escape => s!"bad escape {escape.shown}"
  | .incompleteEscape escape => s!"incomplete escape {escape.shown}"
  | .largeOctal escape => s!"octal escape value {escape.shown} outside of range 0-0o377"
  | .noCharacterName => "missing \x7b"
  | .unknownCharacter name => s!"undefined character name {name.quoted}"
  | .badRange low high => s!"bad character range {low.shown}-{high.shown}"
  | .unknownExtension opening => s!"unknown extension {opening.shown}"
  | .missingName kind => s!"missing {kind}"
  | .openName terminator => s!"missing {terminator}, unterminated name"
  | .badName name => s!"bad character in group name {name.quoted}"
  | .unknownName name => s!"unknown group name {name.quoted}"
  | .repeatedName name number earlier =>
      s!"redefinition of group name {name.quoted} as group {number}; was group {earlier}"
  | .badGroupNumber => "bad group number"
  | .groupReference number => s!"invalid group reference {number}"
  | .openReference => "cannot refer to an open group"
  | .innerReference => "cannot refer to group defined in the same lookbehind subpattern"
  | .manyBranches => "conditional backref with more than two branches"
  | .lateFlags => "global flags not at the start of the expression"
  | .localeFlag => "bad inline flags: cannot use 'L' flag with a str pattern"
  | .mixedTypes => "bad inline flags: flags 'a', 'u' and 'L' are incompatible"
  | .unknownFlag => "unknown flag"
  | .unfinishedFlags => "missing -, : or )"
  | .missingFlag => "missing flag"
  | .missingColon => "missing :"
  | .globalOn => "bad inline flags: cannot turn on global flag"
  | .globalOff => "bad inline flags: cannot turn off global flag"
  | .typeOff => "bad inline flags: cannot turn off flags 'a', 'u' and 'L'"
  | .onAndOff => "bad inline flags: flag turned on and off"
  | .variableBehind => "look-behind requires fixed-width pattern"
  | .farBehind => "looks too much behind"
  | .repetitionInTemplate name => s!"internal: unsupported template operator {name}"

/-- A problem, at a place of the expression if it was found while reading. -/
structure Refusal where
  problem : Problem
  position : Option Nat
deriving DecidableEq, Repr

/-- The message of a refusal; in an expression of several lines it also gives the line and the
column. -/
def Refusal.message (refusal : Refusal) (pattern : LooseText) : String :=
  match refusal.position with
  | none => refusal.problem.text
  | some position =>
      let isBreak := fun point => point = Text.CodePoint.char '\n'
      let before := pattern.points.take position
      let line := before.countP isBreak + 1
      let column := (before.reverse.takeWhile fun point => !isBreak point).length + 1
      let place := if pattern.points.any isBreak then s!" (line {line}, column {column})" else ""
      s!"{refusal.problem.text} at position {position}{place}"

/-- Why an expression cannot be used. -/
inductive Error where
  | refused (refusal : Refusal)
  /-- A count of rounds is too large. -/
  | hugeCount
  /-- A count of rounds has too many digits. -/
  | count (error : Text.Numeral.Error)
  /-- The classes of characters are asked to be those of ASCII and those of all scripts. -/
  | mixedClasses
deriving DecidableEq, Repr

end ContractAudit.Regex
