/-!
# Words of bits

Which whole numbers fit into a word of so many bits: without a sign, or with one bit for it.
-/

namespace Fieldmark

namespace Word

/-- How many words of this many bits there are. -/
def count (bits : Nat) : Nat := Nat.pow 2 bits

/-- Whether a number fits without a sign. -/
def isUnsigned (bits : Nat) (n : Int) : Bool := 0 ≤ n && n < (count bits : Int)

/-- Whether a number fits with a sign. -/
def isSigned (bits : Nat) (n : Int) : Bool :=
  -(count (bits - 1) : Int) ≤ n && n < (count (bits - 1) : Int)

/-- Whether a number fits in one of the two ways. -/
def fits (bits : Nat) (n : Int) : Bool := isSigned bits n || isUnsigned bits n

end Word

end Fieldmark
