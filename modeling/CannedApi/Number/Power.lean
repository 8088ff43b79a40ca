/-!
# Powers of two and ten
-/

namespace CannedApi

abbrev twoTo (n : Nat) : Nat := Nat.pow 2 n

abbrev tenTo (n : Nat) : Nat := Nat.pow 10 n

theorem twoTo_succ (n : Nat) : twoTo (n + 1) = twoTo n * 2 := rfl

section
variable {m n : Nat}

theorem twoTo_pos (n : Nat) : 0 < twoTo n := Nat.two_pow_pos n

theorem twoTo_add (m n : Nat) : twoTo (m + n) = twoTo m * twoTo n := Nat.pow_add 2 m n

theorem twoTo_le (h : m ≤ n) : twoTo m ≤ twoTo n := Nat.pow_le_pow_right (by omega) h

theorem twoTo_dvd (h : m ≤ n) : twoTo m ∣ twoTo n := Nat.pow_dvd_pow 2 h

theorem le_log2_iff (hn : n ≠ 0) : m ≤ Nat.log2 n ↔ twoTo m ≤ n := Nat.le_log2 hn

theorem log2_lt_iff (hn : n ≠ 0) : Nat.log2 n < m ↔ n < twoTo m := Nat.log2_lt hn

end

end CannedApi
