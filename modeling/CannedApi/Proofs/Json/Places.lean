import CannedApi.Json.Value

/-!
# Places in a JSON value

The items of an array and the values of an object are its parts, numbered from zero, and a place in a value is
given by the numbers on the way to it.  What a value shows apart from its parts is its head.  The heads at all
places tell the value (`Json.eq_of_heads`), so values can be compared one place after the other.
-/

namespace CannedApi.Json

/-- What a value shows apart from its parts. -/
inductive Head where
  | null
  | bool (b : Bool)
  | number (n : JsonNumber)
  | text (s : String)
  | array (length : Nat)
  | object (keys : List String)
  deriving DecidableEq, Repr

def head : Json → Head
  | .null => .null
  | .bool b => .bool b
  | .number n => .number n
  | .text s => .text s
  | .array items => .array items.length
  | .object entries => .object (Entries.keys entries)

/-- the `i`th item of an array, or the `i`th value of an object -/
def part? : Json → Nat → Option Json
  | .array items, i => items[i]?
  | .object entries, i => (entries[i]?).map Prod.snd
  | _, _ => none

/-- The value at a place. -/
def at? : Json → List Nat → Option Json
  | x, [] => some x
  | x, i :: place => (x.part? i).bind fun y => y.at? place

theorem at?_cons (x : Json) (i : Nat) (place : List Nat) :
    x.at? (i :: place) = (x.part? i).bind fun y => y.at? place := rfl

/-! ## Induction on parts -/

theorem sizeOf_lt_of_part? {x y : Json} {i : Nat} (h : x.part? i = some y) : sizeOf y < sizeOf x := by
  cases x with
  | array items =>
    have hlt := List.sizeOf_lt_of_mem (List.mem_of_getElem? h)
    simp only [array.sizeOf_spec]
    omega
  | object entries =>
    obtain ⟨p, hp, rfl⟩ := Option.map_eq_some_iff.mp h
    have hlt := List.sizeOf_lt_of_mem (List.mem_of_getElem? hp)
    obtain ⟨k, y⟩ := p
    simp only [object.sizeOf_spec, Prod.mk.sizeOf_spec] at hlt ⊢
    omega
  | null => cases h
  | bool b => cases h
  | number n => cases h
  | text s => cases h

/-- What holds of a value when it holds of its parts holds of every value. -/
theorem induction_parts {P : Json → Prop} (h : ∀ x, (∀ i y, part? x i = some y → P y) → P x) (x : Json) : P x :=
  h x fun _ y _ => induction_parts h y
termination_by sizeOf x
decreasing_by exact sizeOf_lt_of_part? ‹_›

/-! ## Values are told by the heads at their places -/

theorem eq_of_parts {x y : Json} (hhead : x.head = y.head) (hparts : ∀ i, x.part? i = y.part? i) : x = y := by
  cases x <;> cases y <;> simp only [head, reduceCtorEq] at hhead
  case null => rfl
  case bool => rw [Head.bool.inj hhead]
  case number => rw [Head.number.inj hhead]
  case text => rw [Head.text.inj hhead]
  case array items items' => rw [List.ext_getElem?_iff.mpr hparts]
  case object entries entries' =>
    refine congrArg Json.object (List.ext_getElem? fun i => ?_)
    have hkey : (entries[i]?).map Prod.fst = (entries'[i]?).map Prod.fst := by
      rw [← List.getElem?_map, ← List.getElem?_map]
      exact congrArg (·[i]?) (Head.object.inj hhead)
    have hvalue : (entries[i]?).map Prod.snd = (entries'[i]?).map Prod.snd := hparts i
    cases hp : entries[i]? <;> cases hq : entries'[i]? <;> rw [hp, hq] at hkey hvalue
    case none.some => cases hkey
    case some.none => cases hkey
    case some.some p q =>
      exact congrArg some (Prod.ext (Option.some.inj hkey) (Option.some.inj hvalue))

theorem eq_of_heads {x y : Json} (h : ∀ place, (x.at? place).map head = (y.at? place).map head) : x = y := by
  induction x using induction_parts generalizing y with
  | h x ih =>
    refine eq_of_parts (Option.some.inj (h [])) fun i => ?_
    have hpart (place : List Nat) : ((x.part? i).bind fun z => z.at? place).map head =
        ((y.part? i).bind fun z => z.at? place).map head := h (i :: place)
    cases hx : x.part? i <;> cases hy : y.part? i <;> rw [hx, hy] at hpart
    case h.none.some => cases hpart []
    case h.some.none => cases hpart []
    case h.some.some x' y' => rw [ih i x' hx hpart]

end CannedApi.Json
