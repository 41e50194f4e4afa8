import ContractAudit.Regex.Basic

/-!
# Matches of regular expressions

A match is searched for by trying, in the order of preference, every way to go on. An attempt takes
what is to follow and gives the first outcome with which that succeeds, so a way that turns out to
be wrong later is left for the next one.

The start and the end of what a group matched are marks. Marks are kept in the order of their
numbers, and a way that fails leaves some of its marks behind: within the rounds of a repetition
they are put back as they were, elsewhere only the marks that the way added are dropped. So a
condition can see the end of the group it stands in, set by a way that failed after that end.
-/

namespace ContractAudit

namespace Regex

/-- The places of the starts and ends of groups: first the start and the end of the first group,
then those of the second, and so on. A group that was passed over has neither. -/
abbrev Marks := List (Option Nat)

namespace Marks

def put (marks : Marks) (number place : Nat) : Marks :=
  if number < marks.length then marks.set number (some place)
  else marks ++ List.replicate (number - marks.length) none ++ [some place]

def span? (marks : Marks) (group : Nat) : Option (Nat × Nat) := do
  let start ← marks[2 * (group - 1)]?.join
  let stop ← marks[2 * (group - 1) + 1]?.join
  if start ≤ stop then some (start, stop) else none

/-- The marks to go on with, given those before a way that failed and those it left. -/
def restore (inRound : Bool) (before left : Marks) : Marks :=
  if inRound then before else left.take before.length

end Marks

/-- How far a match has come: a place, and the marks of the groups. -/
structure Progress where
  place : Nat
  marks : Marks := []
deriving DecidableEq, Repr

namespace Progress

def openGroup (progress : Progress) (group : Nat) : Progress :=
  { progress with marks := progress.marks.put (2 * (group - 1)) progress.place }

def closeGroup (progress : Progress) (group : Nat) : Progress :=
  { progress with marks := progress.marks.put (2 * (group - 1) + 1) progress.place }

/-- The progress from which to try another way after one that failed. -/
def restore (inRound : Bool) (progress : Progress) (left : Marks) : Progress :=
  { progress with marks := Marks.restore inRound progress.marks left }

end Progress

/-- What a way to go on comes to: success with some progress, or the marks that its failure
leaves. -/
abbrev Outcome := Except Marks Progress

/-- A way to go on from some progress: it tries its outcomes until what follows succeeds. -/
abbrev Attempt := Progress → (Progress → Outcome) → Outcome

def Attempt.first (attempt : Attempt) (progress : Progress) : Outcome :=
  attempt progress .ok

/-- An attempt, and after its failure another one. -/
def Attempt.orElse (inRound : Bool) (first second : Attempt) : Attempt := fun progress next =>
  match first progress next with
  | .ok outcome => .ok outcome
  | .error left =>
      (second (progress.restore inRound left) next).mapError fun last =>
        (progress.restore inRound last).marks

/-- The attempt to go on from one of several places, the first of them first. -/
def fromPlaces (inRound : Bool) : List Nat → Attempt
  | [], progress, _ => .error progress.marks
  | place :: places, progress, next =>
      match next { progress with place } with
      | .ok outcome => .ok outcome
      | .error left => fromPlaces inRound places (progress.restore inRound left) next

/-- A repetition of one character of a set. Its rounds need no search: they end at the places up to
the first other character. -/
def unitRounds (text : List Char) (inRound : Bool) (manner : Manner) (least : Nat)
    (most : Option Nat) (set : CharSet) : Attempt := fun progress next =>
  let run := ((text.drop progress.place).takeWhile set.contains).length
  let count := match most with
    | none => run
    | some bound => min bound run
  let places := (List.range (count + 1 - least)).map fun extra => progress.place + least + extra
  match manner with
  | .greedy => fromPlaces inRound places.reverse progress next
  | .lazy => fromPlaces inRound places progress next
  | .possessive =>
      match places.getLast? with
      | some place => next { progress with place }
      | none => .error progress.marks

def rounds (attempt : Attempt) : Nat → Attempt
  | 0, progress, next => next progress
  | count + 1, progress, next =>
      attempt progress fun after => rounds attempt count after next

/-- At most a number of rounds, as many as possible first, after a round that began at a place. -/
def greedyRounds (attempt : Attempt) : Nat → Option Nat → Attempt
  | 0, _, progress, next => next progress
  | count + 1, last, progress, next =>
      if last = some progress.place then next progress
      else
        let further := attempt progress fun after =>
          greedyRounds attempt count (some progress.place) after next
        match further with
        | .ok outcome => .ok outcome
        | .error _ => next progress

/-- At most a number of rounds, as few as possible first, after a round that began at a place. What
follows the rounds may be in a round of another repetition. -/
def lazyRounds (inRound : Bool) (attempt : Attempt) : Nat → Option Nat → Attempt
  | 0, _, progress, next =>
      match next progress with
      | .ok outcome => .ok outcome
      | .error left => .error (progress.restore inRound left).marks
  | count + 1, last, progress, next =>
      match next progress with
      | .ok outcome => .ok outcome
      | .error left =>
          let again := progress.restore inRound left
          if last = some progress.place then .error again.marks
          else attempt again fun after =>
            lazyRounds inRound attempt count (some progress.place) after next

/-- The first outcomes of a number of rounds, one after another. A round that changes nothing stands
for all that are left. -/
def firstRounds (attempt : Attempt) : Nat → Progress → Outcome
  | 0, progress => .ok progress
  | count + 1, progress => do
      let after ← attempt.first progress
      if after = progress then .ok after else firstRounds attempt count after

/-- The first outcomes of at most a number of rounds, as many as possible, after a round that began
at a place. -/
def mostRounds (attempt : Attempt) : Nat → Option Nat → Progress → Progress
  | 0, _, progress => progress
  | count + 1, last, progress =>
      if last = some progress.place then progress
      else match attempt.first progress with
        | .ok after => mostRounds attempt count (some progress.place) after
        | .error _ => progress

def groupCount : Regex → Nat
  | .empty | .one _ | .anchor _ | .reference _ _ => 0
  | .sequence first second | .either first second | .condition _ first second =>
      first.groupCount + second.groupCount
  | .repeated _ _ _ body | .atomic body | .ahead _ body | .behind _ _ body => body.groupCount
  | .group _ body => body.groupCount + 1

/-- The number of rounds in a text of a size that can each change something: at every place, the
round that takes characters and those that open or close a group there. Among more rounds some
change nothing, and those can be repeated at will. -/
def changingRounds (size groups : Nat) : Nat :=
  (size + 1) * (2 * groups + 1)

/-- A repetition. Of the least number of rounds, no more are made than can change something and one;
beyond it, no more than one for every character and one that takes none. -/
def repetition (size groups : Nat) (inRound : Bool) (manner : Manner) (least : Nat)
    (most : Option Nat) (attempt : Attempt) : Attempt := fun progress next =>
  let needed := min least (changingRounds size groups + 1)
  let extra := match most with
    | none => size + 1
    | some bound => min (bound - least) (size + 1)
  match manner with
  | .greedy =>
      rounds attempt needed progress fun after => greedyRounds attempt extra none after next
  | .lazy =>
      rounds attempt needed progress fun after => lazyRounds inRound attempt extra none after next
  | .possessive => do
      let after ← firstRounds attempt least progress
      next (mostRounds attempt extra none after)

def again (text : List Char) (rule : CaseRule) (start stop : Nat) : Attempt := fun progress next =>
  let folded := fun (part : List Char) => part.map fun c => rule.fold c.toNat
  let part := (text.drop start).take (stop - start)
  let here := (text.drop progress.place).take part.length
  if folded here = folded part then next { progress with place := progress.place + part.length }
  else .error progress.marks

/-- Goes on from a place after a look at it. A match that was not wanted is a failure. -/
def look (inRound wanted : Bool) (found : Outcome) : Attempt := fun progress next =>
  match found with
  | .ok after =>
      if wanted then next { after with place := progress.place } else .error after.marks
  | .error left =>
      if wanted then .error left else next (progress.restore inRound left)

def unit? : Regex → Option CharSet
  | .one set => some set
  | _ => none

/-- The attempt to match an expression, in a round of a repetition or not. -/
def attempt (text : List Char) : Regex → Bool → Attempt
  | .empty, _, progress, next => next progress
  | .one set, _, progress, next =>
      if text[progress.place]?.any set.contains then
        next { progress with place := progress.place + 1 }
      else .error progress.marks
  | .anchor kind, _, progress, next =>
      if kind.holds text progress.place then next progress else .error progress.marks
  | .sequence first second, inRound, progress, next =>
      attempt text first inRound progress fun after => attempt text second inRound after next
  | .either first second, inRound, progress, next =>
      Attempt.orElse inRound (attempt text first inRound) (attempt text second inRound) progress
        next
  | .repeated manner least most body, inRound, progress, next =>
      match body.unit? with
      | some set => unitRounds text inRound manner least most set progress next
      | none =>
          let isRound := inRound || manner ≠ .possessive
          repetition text.length body.groupCount inRound manner least most
            (attempt text body isRound) progress next
  | .group number body, inRound, progress, next =>
      attempt text body inRound (progress.openGroup number) fun after =>
        next (after.closeGroup number)
  | .reference rule number, _, progress, next =>
      match progress.marks.span? number with
      | some (start, stop) => again text rule start stop progress next
      | none => .error progress.marks
  | .condition number yes no, inRound, progress, next =>
      if (progress.marks.span? number).isSome then attempt text yes inRound progress next
      else attempt text no inRound progress next
  | .atomic body, inRound, progress, next => do
      next (← attempt text body inRound progress .ok)
  | .ahead wanted body, inRound, progress, next =>
      look inRound wanted (attempt text body inRound progress .ok) progress next
  | .behind wanted width body, inRound, progress, next =>
      let found :=
        if progress.place < width.least then .error progress.marks
        else
          attempt text body inRound { progress with place := progress.place - width.least } .ok
      look inRound wanted found progress next

/-- Whether a matcher finds a match at the start of a text. In a text that is too short for one none
is searched for. -/
def Matcher.matchesStart (matcher : Matcher) (text : String) : Bool :=
  matcher.least ≤ text.length &&
    (attempt text.toList matcher.regex false { place := 0 } .ok).isOk

end Regex

end ContractAudit
