import ContractAudit.Diagnostic
import ContractAudit.Text.Blank

/-!
# Risk levels

How much a vulnerability can cost. Levels are ordered, and a level is named by a word in any case
with blanks around it.
-/

namespace ContractAudit

/-- The levels of risk. -/
inductive RiskLevel where
  | low
  | medium
  | high
  | critical
deriving DecidableEq, Repr

namespace RiskLevel

def all : List RiskLevel := [.low, .medium, .high, .critical]

def label : RiskLevel → String
  | .low => "low"
  | .medium => "medium"
  | .high => "high"
  | .critical => "critical"

def title : RiskLevel → String
  | .low => "Low"
  | .medium => "Medium"
  | .high => "High"
  | .critical => "Critical"

def capitals : RiskLevel → String
  | .low => "LOW"
  | .medium => "MEDIUM"
  | .high => "HIGH"
  | .critical => "CRITICAL"

def rank : RiskLevel → Nat
  | .low => 1
  | .medium => 2
  | .high => 3
  | .critical => 4

def color : RiskLevel → Color
  | .low => .cyan
  | .medium => .yellow
  | .high => .red
  | .critical => .magenta

def atLeast (level other : RiskLevel) : Bool :=
  other.rank ≤ level.rank

/-- The level that a text names. The names are ASCII, so only ASCII capitals matter. -/
def ofText? (text : String) : Option RiskLevel :=
  let word := (Text.trim Text.isBlank text.toList).map Char.toLower
  all.find? fun level => level.label.toList = word

/-- The higher of two levels, the first if they are equal. -/
def higher (level other : RiskLevel) : RiskLevel :=
  if level.rank < other.rank then other else level

end RiskLevel

end ContractAudit
