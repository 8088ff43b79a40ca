import CannedApi.Random.Generator
import CannedApi.Random.Seed
import CannedApi.Template.Context
import CannedApi.Template.Expression
import CannedApi.Template.Slot

/-!
# Filling in templates

A text is rendered piece by piece: a slot whose expression has a value becomes that value, every other
piece stays as it is, and what was put in is not read again.  A JSON template keeps its shape; only the
texts in it are rendered, keys are not.

Time and chance come from the surroundings, which have for every place of a template a moment and a
list of random words of their own.  So the value of one slot never hangs on what other slots asked for.
-/

namespace CannedApi.Template

/-- What time and chance give to one slot. -/
structure Chance where
  moment : Random.Moment
  words : List UInt64

/-- What time and chance give, by place: the numbers of the items and pieces on the way to a slot. -/
def Ambient := List Nat → Chance

namespace Ambient

/-- the surroundings of the `i`th part -/
def child (a : Ambient) (i : Nat) : Ambient := fun place => a (i :: place)

/-- what is given to this very place -/
def chance (a : Ambient) : Chance := a []

/-- how many words a place gets from a seed: more than the longest value takes -/
def wordsPerPlace : Nat := 256

/-- The surroundings at an instant, with all that is left to chance taken from a seed. -/
def ofSeed (now : Instant) (seed : UInt64) : Ambient := fun place =>
  let own := Random.seedAt seed place
  ⟨⟨now, Random.mix own, Random.mix (own + 1)⟩, Random.stream own wordsPerPlace⟩

end Ambient

/-- The value of an expression, if it has one. -/
def Expression.value? (a : Ambient) (c : Context) : Expression → Option String
  | .now => some a.chance.moment.now.iso
  | .random name =>
    (Random.Generator.ofKey? name).map fun g =>
      (g.draw a.chance.moment (Random.Source.ofWords a.chance.words)).1
  | .param key => c.paramText? key
  | .query key => c.queryText? key
  | .body key => c.bodyText? key
  | .unknown _ => none

def Piece.render (a : Ambient) (c : Context) : Piece → List Char
  | .char ch => [ch]
  | .slot inner =>
    match (Expression.ofChars inner).value? a c with
    | some v => v.toList
    | none => (Piece.slot inner).source

/-- the pieces rendered, the first of which is the `i`th -/
def renderPieces (a : Ambient) (c : Context) (i : Nat) : List Piece → List Char
  | [] => []
  | p :: rest => p.render (a.child i) c ++ renderPieces a c (i + 1) rest

def renderChars (a : Ambient) (c : Context) (cs : List Char) : List Char :=
  renderPieces a c 0 (pieces cs)

/-- The text with its slots filled in. -/
def renderText (a : Ambient) (c : Context) (s : String) : String :=
  String.ofList (renderChars a c s.toList)

mutual

/-- The template with all its texts filled in. -/
def render (a : Ambient) (c : Context) : Json → Json
  | .text s => .text (renderText a c s)
  | .array items => .array (renderItems a c 0 items)
  | .object entries => .object (renderEntries a c 0 entries)
  | .null => .null
  | .bool b => .bool b
  | .number n => .number n

def renderItems (a : Ambient) (c : Context) (i : Nat) : List Json → List Json
  | [] => []
  | x :: rest => render (a.child i) c x :: renderItems a c (i + 1) rest

def renderEntries (a : Ambient) (c : Context) (i : Nat) :
    List (String × Json) → List (String × Json)
  | [] => []
  | (k, x) :: rest => (k, render (a.child i) c x) :: renderEntries a c (i + 1) rest

end

end CannedApi.Template
