import CannedApi.Random.Source

/-!
# Words from a seed

A stream of words is made by stepping a counter and mixing its bits.  The same seed gives the same
words, and every list of numbers leads from one seed to another.
-/

namespace CannedApi.Random

/-- the step of the counter, which is odd so that it runs through all words -/
def stride : UInt64 := 0x9E3779B97F4A7C15

/-- spreads every bit of a word over the whole word -/
def mix (w : UInt64) : UInt64 :=
  let w := (w ^^^ (w >>> 30)) * 0xBF58476D1CE4E5B9
  let w := (w ^^^ (w >>> 27)) * 0x94D049BB133111EB
  w ^^^ (w >>> 31)

/-- the first `n` words of the stream behind a seed -/
def stream (seed : UInt64) : Nat → List UInt64
  | 0 => []
  | n + 1 => mix (seed + stride) :: stream (seed + stride) n

/-- the seed to which the numbers lead -/
def seedAt (seed : UInt64) (place : List Nat) : UInt64 :=
  place.foldl (fun s i => mix (s + stride * (i.toUInt64 + 1))) seed

end CannedApi.Random
