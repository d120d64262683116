/-!
# Powers of two and of ten

The sizes of machine words and the places of decimal digits, as natural numbers.
-/

namespace Awk.Number

def twoPow (bits : Nat) : Nat := Nat.pow 2 bits

def tenPow (places : Nat) : Nat := Nat.pow 10 places

end Awk.Number
