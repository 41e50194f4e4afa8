import ContractAudit.Text.Blank
import ContractAudit.Text.Case
import ContractAudit.Text.Digit

/-!
# Regular expressions

Expressions over the characters of a text: sets of characters, anchors, alternatives and repetition,
groups that remember what they matched and references to them, conditions on a group, and looks
ahead and behind. Each part carries the rules it is read under, such as whether case matters.
-/

namespace ContractAudit

/-- Which characters differ only in case. -/
inductive CaseRule where
  /-- None. -/
  | exact
  /-- The capitals and small letters of ASCII. -/
  | ascii
  /-- Capitals and small letters of any script. -/
  | full
deriving DecidableEq, Repr

namespace CaseRule

/-- The code points taken for one, itself among them. -/
def variants (rule : CaseRule) (code : Nat) : List Nat :=
  match rule with
  | .exact => [code]
  | .ascii => Text.asciiVariants code
  | .full => Text.variants code

/-- The code point that stands for a capital and its small letter. -/
def fold (rule : CaseRule) (code : Nat) : Nat :=
  match rule with
  | .exact => code
  | .ascii => Text.asciiSmall code
  | .full => Text.small code

end CaseRule

/-- The named classes of characters. -/
inductive CharClass where
  | word
  | digit
  | blank
deriving DecidableEq, Repr

/-- Whether a character is in a named class, or in its part in ASCII. -/
def CharClass.contains (asciiOnly : Bool) (kind : CharClass) (c : Char) : Bool :=
  (!asciiOnly || c.toNat < 0x80) &&
    match kind with
    | .word => Text.isAlphanumeric c || c = '_'
    | .digit => (Text.decimalValue? c).isSome
    | .blank => if asciiOnly then c = ' ' || (9 ≤ c.toNat && c.toNat ≤ 13) else Text.isBlank c

/-- An entry of a set of characters. Ranges are of code points, of which some are no characters. -/
inductive CharItem where
  | range (low high : Nat)
  | named (kind : CharClass) (asciiOnly negated : Bool)
deriving DecidableEq, Repr

/-- Whether an entry covers a character under a rule on case. -/
def CharItem.contains (rule : CaseRule) (c : Char) : CharItem → Bool
  | .range low high => (rule.variants c.toNat).any fun code => low ≤ code && code ≤ high
  | .named kind asciiOnly negated => kind.contains asciiOnly c != negated

/-- A set of characters, or all characters but those of a set. -/
structure CharSet where
  negated : Bool
  rule : CaseRule
  items : List CharItem
deriving DecidableEq, Repr

namespace CharSet

def contains (set : CharSet) (c : Char) : Bool :=
  set.items.any (·.contains set.rule c) != set.negated

def single (rule : CaseRule) (code : Nat) : CharSet :=
  ⟨false, rule, [.range code code]⟩

def inLine : CharSet :=
  ⟨true, .exact, [.range 10 10]⟩

def all : CharSet :=
  ⟨true, .exact, []⟩

end CharSet

/-- The conditions on a place that take no character. -/
inductive Anchor where
  | start
  /-- The start, or the place after a line feed. -/
  | lineStart
  /-- The end, or the place before a line feed at the end. -/
  | finish
  /-- The end, or the place before a line feed. -/
  | lineEnd
  | strictFinish
  | boundary (asciiOnly : Bool)
  | noBoundary (asciiOnly : Bool)
deriving DecidableEq, Repr

namespace Anchor

def before? (text : List Char) (place : Nat) : Option Char :=
  if place = 0 then none else text[place - 1]?

/-- Whether exactly one of the characters at a place is in a word. -/
def atBoundary (asciiOnly : Bool) (text : List Char) (place : Nat) : Bool :=
  (before? text place).any (CharClass.word.contains asciiOnly) !=
    text[place]?.any (CharClass.word.contains asciiOnly)

/-- Whether a place of a text meets a condition. An empty text has neither boundaries nor places
without one. -/
def holds (text : List Char) (place : Nat) : Anchor → Bool
  | .start => place = 0
  | .lineStart => place = 0 || before? text place = some '\n'
  | .finish => text.drop place = [] || text.drop place = ['\n']
  | .lineEnd => text.drop place = [] || text[place]? = some '\n'
  | .strictFinish => text.drop place = []
  | .boundary asciiOnly => atBoundary asciiOnly text place
  | .noBoundary asciiOnly => !text.isEmpty && !atBoundary asciiOnly text place

end Anchor

/-- How a repetition chooses the number of its rounds. -/
inductive Manner where
  /-- As many rounds as possible, fewer if the rest does not match otherwise. -/
  | greedy
  /-- As few rounds as possible, more if the rest does not match otherwise. -/
  | lazy
  /-- As many rounds as possible, whatever the rest. -/
  | possessive
deriving DecidableEq, Repr

/-- The least and the greatest number of characters of a match. -/
structure Width where
  least : Nat
  most : Nat
deriving DecidableEq, Repr

/-- A regular expression. -/
inductive Regex where
  | empty
  | one (set : CharSet)
  | anchor (kind : Anchor)
  | sequence (first second : Regex)
  | either (first second : Regex)
  /-- At least `least` rounds, and at most `most` if there is a bound. -/
  | repeated (manner : Manner) (least : Nat) (most : Option Nat) (body : Regex)
  /-- The group with a number. -/
  | group (number : Nat) (body : Regex)
  /-- What the group with a number matched. -/
  | reference (rule : CaseRule) (number : Nat)
  /-- The first of two expressions if a group has matched, the second otherwise. -/
  | condition (number : Nat) (yes no : Regex)
  /-- The first match only. -/
  | atomic (body : Regex)
  /-- A match, or none, from the place on. -/
  | ahead (wanted : Bool) (body : Regex)
  /-- A match of a width, or none, up to the place. -/
  | behind (wanted : Bool) (width : Width) (body : Regex)
deriving DecidableEq, Repr

/-- An expression to be matched, with the least number of characters of a match. -/
structure Regex.Matcher where
  regex : Regex
  least : Nat
deriving DecidableEq, Repr

end ContractAudit
