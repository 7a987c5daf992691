/-! Sets of characters as tables of intervals. The tables are those of Unicode 16.0. -/

namespace PackageSheet.Text

/-- A set of characters, given by inclusive intervals of code points. -/
abbrev Intervals := Array (Nat × Nat)

def Intervals.has (set : Intervals) (c : Char) : Bool :=
  set.any fun (first, last) => first ≤ c.toNat && c.toNat ≤ last

end PackageSheet.Text
