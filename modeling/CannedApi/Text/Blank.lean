/-!
# White space and trimming

The characters with the Unicode property `White_Space`, and texts freed of them at both ends.
-/

namespace CannedApi.Text

/-- The property `White_Space`. -/
def isBlank (c : Char) : Bool :=
  let n := c.toNat
  (9 ≤ n && n ≤ 13) || n == 0x20 || n == 0x85 || n == 0xA0 || n == 0x1680 ||
  (0x2000 ≤ n && n ≤ 0x200A) || n == 0x2028 || n == 0x2029 || n == 0x202F || n == 0x205F ||
  n == 0x3000

def trimLeft (cs : List Char) : List Char := cs.dropWhile isBlank

def trimRight (cs : List Char) : List Char := (cs.reverse.dropWhile isBlank).reverse

/-- without white space at either end -/
def trimmed (cs : List Char) : List Char := trimRight (trimLeft cs)

def trim (s : String) : String := String.ofList (trimmed s.toList)

theorem trimLeft_cons (c : Char) (cs : List Char) :
    trimLeft (c :: cs) = if isBlank c then trimLeft cs else c :: cs := by
  by_cases h : isBlank c <;> simp [trimLeft, h]

theorem trimRight_concat (cs : List Char) (c : Char) :
    trimRight (cs ++ [c]) = if isBlank c then trimRight cs else cs ++ [c] := by
  by_cases h : isBlank c <;> simp [trimRight, h]

theorem length_trimRight_le (cs : List Char) : (trimRight cs).length ≤ cs.length := by
  rw [trimRight, List.length_reverse, ← @List.length_reverse _ cs]
  exact (List.dropWhile_sublist isBlank).length_le

theorem trimRight_cons {a : Char} (ha : isBlank a = false) (cs : List Char) :
    trimRight (a :: cs) = a :: trimRight cs := by
  simp only [trimRight, List.reverse_cons, List.dropWhile_append]
  split
  · rename_i h
    simp [List.isEmpty_iff.mp h, ha]
  · simp

theorem trimmed_cons {a : Char} (ha : isBlank a = false) (cs : List Char) :
    trimmed (a :: cs) = a :: trimRight cs := by
  rw [trimmed, trimLeft_cons, ha]
  exact trimRight_cons ha cs

theorem trimmed_of_not_blank {cs : List Char} {a b : Char} (ha : isBlank a = false)
    (hb : isBlank b = false) : trimmed (a :: (cs ++ [b])) = a :: (cs ++ [b]) := by
  rw [trimmed_cons ha, trimRight_concat, hb]
  rfl

end CannedApi.Text
