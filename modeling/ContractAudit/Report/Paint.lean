import ContractAudit.Diagnostic

/-!
# Coloured text

Reports are written with a painter, which colours a text for a terminal. What it puts around the
text depends on the terminal; the plain painter leaves every text as it is.
-/

namespace ContractAudit

/-- What colours a text, and makes it bold where it is asked to. -/
abbrev Painter := Color → Bool → String → String

namespace Painter

def plain : Painter :=
  fun _ _ text => text

def sequenceOf (number : Nat) : String :=
  s!"\x1b[{number}m"

/-- The control sequences of a terminal: one switches a colour on before the text, another one makes
it bold, and a third switches everything off after it. -/
def sequences : Painter := fun color bold text =>
  let number :=
    match color with
    | .red => 31
    | .green => 32
    | .yellow => 33
    | .blue => 34
    | .magenta => 35
    | .cyan => 36
    | .darkGrey => 90
  (if bold then sequenceOf 1 else "") ++ sequenceOf number ++ text ++ sequenceOf 0

end Painter

namespace Report

def paint (painter : Painter) (color : Color) (text : String) : String :=
  painter color false text

def paintBold (painter : Painter) (color : Color) (text : String) : String :=
  painter color true text

end Report

end ContractAudit
