import CannedApi.Proofs.Except
import CannedApi.Template.Slot
import CannedApi.Text.Slice

/-!
# Looking for slots by offsets

A scanner goes through the bytes of a text.  From its offset on it looks for the next pair of opening braces
and for the place where a slot opened there would close.  If there is one it goes on behind the slot, and
otherwise one brace further.  Every part of the text that it looks at is cut out at offsets, which can be
refused; `scan` is the whole search.
-/

namespace CannedApi.Template

open Text (BadOffset byteLength sliceFrom sliceTo)

/-- the opening braces -/
def opening : List Char := ['{', '{']

/-- the closing braces -/
def closing : List Char := ['}', '}']

/-- The length of the inside of a slot whose braces have been opened, if it is one. -/
def closingOffset (rest : List Char) : Except BadOffset (Option Nat) :=
  match rest with
  | [] => .ok none
  | first :: _ =>
    if isLineBreak first then .ok none
    else
      (sliceFrom rest first.utf8Size).bind fun tail =>
        match Text.find? closing tail with
        | none => .ok none
        | some n =>
          (sliceTo rest (first.utf8Size + n)).map fun inner =>
            if inner.any isLineBreak then none else some (first.utf8Size + n)

/-- What comes of one look. -/
inductive Look where
  /-- no braces are opened any more -/
  | done
  | found (slot : Span)
  /-- The braces that are opened do not open a slot; this is where to look next. -/
  | retry (offset : Nat)

/-- the slot that the braces at `start` open -/
def lookAt (text : List Char) (start : Nat) : Except BadOffset Look :=
  (sliceFrom text (start + 2)).bind fun body =>
    (closingOffset body).bind fun
      | none => .ok (.retry (start + 1))
      | some length =>
        (sliceTo body length).map fun inner =>
          .found ⟨start, start + 2 + length + 2, String.ofList inner⟩

def look (text : List Char) (offset : Nat) : Except BadOffset Look :=
  (sliceFrom text offset).bind fun rest =>
    match Text.find? opening rest with
    | none => .ok .done
    | some n => lookAt text (offset + n)

/-- It is looked further on next time. -/
def Look.Passes (offset : Nat) : Look → Prop
  | .done => True
  | .found slot => offset < slot.stop
  | .retry next => offset < next

theorem passes_of_lookAt {text : List Char} {start : Nat} {l : Look} (h : lookAt text start = .ok l) :
    l.Passes start := by
  obtain ⟨body, -, h⟩ := Except.bind_eq_ok_iff.mp h
  obtain ⟨length?, -, h⟩ := Except.bind_eq_ok_iff.mp h
  cases length? with
  | none =>
    cases h
    exact Nat.lt_succ_self start
  | some length =>
    obtain ⟨inner, -, rfl⟩ := Except.map_eq_ok_iff.mp h
    show start < start + 2 + length + 2
    omega

theorem passes_of_look {text : List Char} {offset : Nat} {l : Look} (h : look text offset = .ok l) :
    offset ≤ byteLength text ∧ l.Passes offset := by
  obtain ⟨rest, hrest, h⟩ := Except.bind_eq_ok_iff.mp h
  obtain ⟨front, rfl, hfront⟩ := Text.eq_of_sliceFrom hrest
  refine ⟨by rw [Text.byteLength_append, hfront]; exact Nat.le_add_right _ _, ?_⟩
  split at h
  · cases h
    trivial
  · rename_i n hfind
    have hpasses := passes_of_lookAt h
    cases l with
    | done => trivial
    | found slot => exact Nat.lt_of_le_of_lt (Nat.le_add_right offset n) hpasses
    | retry next => exact Nat.lt_of_le_of_lt (Nat.le_add_right offset n) hpasses

/-- The slots from an offset on. -/
def scanFrom (text : List Char) (offset : Nat) : Except BadOffset (List Span) :=
  match h : look text offset with
  | .error e => .error e
  | .ok .done => .ok []
  | .ok (.found slot) =>
    have := passes_of_look h
    (scanFrom text slot.stop).map (slot :: ·)
  | .ok (.retry next) =>
    have := passes_of_look h
    scanFrom text next
termination_by byteLength text + 1 - offset
decreasing_by all_goals simp only [Look.Passes] at this; omega

/-- The slots of a text with their places. -/
def scan (text : String) : Except BadOffset (List Span) := scanFrom text.toList 0

section
variable {text : List Char} {offset : Nat}

theorem scanFrom_done (h : look text offset = .ok .done) : scanFrom text offset = .ok [] := by
  rw [scanFrom]
  split <;> simp_all

theorem scanFrom_found {slot : Span} (h : look text offset = .ok (.found slot)) :
    scanFrom text offset = (scanFrom text slot.stop).map (slot :: ·) := by
  rw [scanFrom]
  split <;> simp_all

theorem scanFrom_retry {next : Nat} (h : look text offset = .ok (.retry next)) :
    scanFrom text offset = scanFrom text next := by
  rw [scanFrom]
  split <;> simp_all

end

end CannedApi.Template
