import CannedApi.Number.Power

/-!
# Random words and numbers

A source hands out 64-bit words and counts them; when its list is used up it hands out zeros.  A
number below `n` is drawn by scaling: the word times `n` has the number in its high half, and a word
whose low half falls beyond the last full round of `n` is thrown away.
-/

namespace CannedApi.Random

structure Source where
  pending : List UInt64
  used : Nat
  deriving Repr

/-- a draw from a source -/
abbrev Draw (α : Type) := StateM Source α

namespace Source

def ofWords (words : List UInt64) : Source := ⟨words, 0⟩

end Source

/-- one word -/
def word : Draw UInt64 := fun s =>
  match s.pending with
  | [] => (0, { s with used := s.used + 1 })
  | w :: rest => (w, ⟨rest, s.used + 1⟩)

/-- the largest low half that is accepted: `n` shifted to fill the width, less one -/
def zone (width n : Nat) : Nat := n * twoTo (width - (Nat.log2 n + 1)) - 1

/-- A number below `n` from words of `width` bits.  A zero is always accepted, so the draw ends at the
latest behind the end of the list. -/
def scaledFrom (width n used : Nat) : List UInt64 → Nat × Source
  | [] => (0, ⟨[], used + 1⟩)
  | w :: rest =>
    let product := w.toNat % twoTo width * n
    if product % twoTo width ≤ zone width n then (product / twoTo width, ⟨rest, used + 1⟩)
    else scaledFrom width n (used + 1) rest

/-- a number below `n`, from 32-bit words -/
def below (n : Nat) : Draw Nat := fun s => scaledFrom 32 n s.used s.pending

/-- a number below `n`, from 64-bit words -/
def wideBelow (n : Nat) : Draw Nat := fun s => scaledFrom 64 n s.used s.pending

/-- a number from `low` to below `high` -/
def range (low high : Nat) : Draw Nat := do return low + (← below (high - low))

/-- true for the lower half of all words -/
def coin : Draw Bool := do return (← word).toNat < twoTo 63

/-- one item of a list; nothing of an empty one -/
def pick (items : List String) : Draw String := do return items.getD (← below items.length) ""

/-- the results of `n` draws, one after the other -/
def times (n : Nat) (d : Draw String) : Draw (List String) :=
  match n with
  | 0 => return []
  | n + 1 => do
    let x ← d
    return x :: (← times n d)

end CannedApi.Random
