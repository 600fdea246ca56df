/-
# Decimal numbers

Numbers in decimal digits, without leading zeros.

Key definitions: `decimal`.
-/

namespace ParenLint

def decimal (n : Nat) : List Char := Nat.toDigits 10 n

end ParenLint
