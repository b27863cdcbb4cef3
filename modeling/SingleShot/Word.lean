/-!
# Words

Numbers on the wire, sizes and the parts of written durations are 64-bit words.
-/

namespace SingleShot

/-- Words lie below this bound, which is `2 ^ 64`. -/
def wordBound : Nat :=
  18446744073709551616

/-- A power of ten. -/
def powerOfTen (exponent : Nat) : Nat :=
  Nat.pow 10 exponent

theorem powerOfTen_pos (exponent : Nat) : 0 < powerOfTen exponent :=
  Nat.pow_pos (by decide)

end SingleShot
