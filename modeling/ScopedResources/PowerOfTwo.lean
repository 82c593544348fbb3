/-
  The least power of two that is not below a 64-bit word.

  * `PowerOfTwo.next n` is the least power of two `r` with `n ≤ r`, and `0`
    where there is none to give: for `0`, and above `2 ^ 63`, where the power
    no longer fits in the word.
  * `PowerOfTwo.next? n` tells whether it fits.

  For `1 < n` the power has one bit more than `n - 1`, so one less than it has
  all bits from the highest one of `n - 1` down (`PowerOfTwo.bitsBelow`).
-/

namespace ScopedResources.PowerOfTwo

/-- The word with all of its bits. -/
def allBits : UInt64 := 0xFFFFFFFFFFFFFFFF

/-- One less than the least power of two not below `n`. -/
def bitsBelow (n : UInt64) : UInt64 :=
  if n ≤ 1 then 0 else allBits >>> (63 - (n - 1).log2)

/-- The least power of two not below `n`, if it fits in 64 bits. -/
def next? (n : UInt64) : Option UInt64 :=
  if bitsBelow n = allBits then none else some (bitsBelow n + 1)

/-- The least power of two not below `n`; `0` for `0` and when the answer does
    not fit in 64 bits. -/
def next (n : UInt64) : UInt64 :=
  if n = 0 then 0 else (next? n).getD 0

end ScopedResources.PowerOfTwo
