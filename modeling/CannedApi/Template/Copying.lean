import CannedApi.Template.Render
import CannedApi.Template.Scanner

/-!
# Filling in by copying

A text can be filled in as its slots are found: what stands between two slots is copied from the text, and for
a slot its value, or else the slot as it stands in the text.  Everything is cut out at the offsets that the
scanner gives, and any of them can be refused.
-/

namespace CannedApi.Template

open Text (BadOffset slice sliceFrom)

/-- what a slot becomes -/
def copySlot (a : Ambient) (c : Context) (text : List Char) (slot : Span) : Except BadOffset (List Char) :=
  match (Expression.ofChars slot.inner.toList).value? a c with
  | some v => .ok v.toList
  | none => slice text slot.start slot.stop

/-- The text from the offset `last` on, where its `i`th piece starts, with these slots filled in. -/
def copyFrom (a : Ambient) (c : Context) (text : List Char) (i last : Nat) :
    List Span → Except BadOffset (List Char)
  | [] => sliceFrom text last
  | slot :: slots =>
    (slice text last slot.start).bind fun gap =>
      (copySlot (a.child (i + gap.length)) c text slot).bind fun value =>
        (copyFrom a c text (i + gap.length + 1) slot.stop slots).map fun rest => gap ++ (value ++ rest)

/-- The text with its slots filled in. -/
def copyText (a : Ambient) (c : Context) (s : String) : Except BadOffset String :=
  (scan s).bind fun slots => (copyFrom a c s.toList 0 0 slots).map String.ofList

end CannedApi.Template
