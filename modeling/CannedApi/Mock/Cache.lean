import CannedApi.Mock.Load

/-!
# Remembered answers

A cache keeps the answers that were loaded since it was last cleared.  It has a generation of 64 bits,
raised by every clearing, and each kept answer bears the generation in which its file began to be read;
one with another generation than the cache's is not used.  Loading and clearing are put together from
the steps `lookUp`, `insert`, `raise` and `discard`, so that their interleavings can be looked at too.
-/

namespace CannedApi

/-- An answer as one reading of its file gave it.  Readings are numbered, so that two readings with
the same content can be told apart. -/
structure Reading where
  mock : Mock
  number : Nat

structure Remembered where
  reading : Reading
  generation : UInt64

structure Cache where
  enabled : Bool
  generation : UInt64
  kept : Entries (List PathPart) Remembered
  /-- how many files have been read -/
  readings : Nat

namespace Cache

def new (enabled : Bool) : Cache := ⟨enabled, 0, [], 0⟩

/-! ## Steps -/

/-- the answer kept for a path, if it bears the generation -/
def lookUp (c : Cache) (p : Path) (generation : UInt64) : Option Reading :=
  match Entries.get? c.kept p.parts with
  | some r => if r.generation = generation then some r.reading else none
  | none => none

/-- keeps an answer under a generation -/
def insert (c : Cache) (p : Path) (r : Reading) (generation : UInt64) : Cache :=
  { c with kept := Entries.put c.kept p.parts ⟨r, generation⟩ }

/-- the next generation -/
def raise (c : Cache) : Cache := { c with generation := c.generation + 1 }

/-- forgets all answers -/
def discard (c : Cache) : Cache := { c with kept := [] }

/-! ## Operations -/

/-- Keeps an answer, unless the cache has been cleared since the generation was looked at. -/
def store (c : Cache) (p : Path) (r : Reading) (generation : UInt64) : Cache :=
  if generation = c.generation then c.insert p r generation else c

/-- reads the file, whether or not its answer is kept -/
def read (c : Cache) (d : Disk) (p : Path) : Except LoadError Reading × Cache :=
  ((Mock.load d p).map fun m => ⟨m, c.readings⟩, { c with readings := c.readings + 1 })

/-- The answer for a path: the one kept, or else the one in the file now.  Failures are not kept. -/
def load (c : Cache) (d : Disk) (p : Path) : Except LoadError Reading × Cache :=
  if c.enabled then
    match c.lookUp p c.generation with
    | some r => (.ok r, c)
    | none =>
      match c.read d p with
      | (.ok r, c') => (.ok r, c'.store p r c.generation)
      | (.error e, c') => (.error e, c')
  else c.read d p

/-- Forgets all answers; those whose loading is under way will not be used either. -/
def clear (c : Cache) : Cache := c.raise.discard

def size (c : Cache) : Nat := c.kept.length

end Cache

end CannedApi
