/-!
# Tables of code points

A property of characters is given by a table of inclusive ranges of code points, in increasing
order. A long table is written as the lengths of the runs of code points that are alternately
outside and inside of it.
-/

namespace ContractAudit.Text

/-- A set of code points, as inclusive ranges in increasing order. -/
abbrev RangeTable := List (Nat × Nat)

namespace RangeTable

/-- The table with some runs: the code points before a run that are left out, then those in it. -/
def ofRuns (runs : List Nat) : RangeTable :=
  go 0 runs
where
  go (next : Nat) : List Nat → RangeTable
    | skipped :: held :: rest =>
        (next + skipped, next + skipped + held - 1) :: go (next + skipped + held) rest
    | _ => []

def find? (table : RangeTable) (code : Nat) : Option (Nat × Nat) :=
  List.find? (fun range => range.1 ≤ code && code ≤ range.2) table

def contains (table : RangeTable) (code : Nat) : Bool :=
  List.any table fun range => range.1 ≤ code && code ≤ range.2

end RangeTable

end ContractAudit.Text
