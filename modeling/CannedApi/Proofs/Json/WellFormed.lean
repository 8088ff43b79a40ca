import CannedApi.Json.Reader
import CannedApi.Proofs.Except
import CannedApi.Proofs.Number.Rounding

/-!
# What reading gives

A value that was read has no key twice in any of its objects, and its doubles are finite (`Json.wellFormed_of_read`).
Every part of the reader fails or gives something of that kind (`Gives`); for values, items and entries, which call
one another, this goes by induction on the fuel that they share.
-/

namespace CannedApi

/-- A double is finite. -/
def JsonNumber.Fits : JsonNumber → Prop
  | .whole _ _ => True
  | .double x => x.Fits

namespace Json

/-- No key stands twice in an object, and every double is finite. -/
inductive WellFormed : Json → Prop
  | null : WellFormed .null
  | bool (b : Bool) : WellFormed (.bool b)
  | number {d : JsonNumber} (h : d.Fits) : WellFormed (.number d)
  | text (s : String) : WellFormed (.text s)
  | array {items : List Json} (h : ∀ x ∈ items, WellFormed x) : WellFormed (.array items)
  | object {entries : Entries String Json} (hkeys : Entries.Distinct entries)
      (h : ∀ p ∈ entries, WellFormed p.2) : WellFormed (.object entries)

/-- The entries of a well-formed object. -/
def WellFormedEntries (entries : Entries String Json) : Prop :=
  Entries.Distinct entries ∧ ∀ p ∈ entries, WellFormed p.2

theorem wellFormedEntries_nil : WellFormedEntries [] := ⟨List.nodup_nil, fun _ hp => absurd hp List.not_mem_nil⟩

theorem WellFormedEntries.put {entries : Entries String Json} (h : WellFormedEntries entries) {x : Json}
    (hx : WellFormed x) (k : String) : WellFormedEntries (entries.put k x) := by
  refine ⟨Entries.distinct_put h.1 k x, fun p hp => ?_⟩
  rcases Entries.mem_put hp with hold | rfl
  · exact h.2 p hold
  · exact hx

/-! ## Outcomes -/

/-- Whatever comes out has the property. -/
def Gives {α : Type} (P : α → Prop) (o : Outcome α) : Prop := ∀ x s, o = .ok (x, s) → P x

section
variable {α β : Type} {P : α → Prop} {Q : β → Prop} {o : Outcome α} {r : Reason} {s : List UInt8}

theorem gives_true (o : Outcome α) : Gives (fun _ => True) o := fun _ _ _ => trivial

theorem gives_ok {x : α} (h : P x) : Gives P (.ok (x, s)) := by
  rintro _ _ ⟨⟩
  exact h

theorem gives_faultBefore : Gives P (faultBefore r s) := by rintro _ _ ⟨⟩

theorem gives_faultAt : Gives P (faultAt r s) := by rintro _ _ ⟨⟩

theorem Gives.bind {f : α × List UInt8 → Outcome β} (ho : Gives P o)
    (hf : ∀ x s, P x → Gives Q (f (x, s))) : Gives Q (o.bind f) := by
  intro y s h
  obtain ⟨⟨x, s'⟩, hx, hy⟩ := Except.bind_eq_ok_iff.mp h
  exact hf x s' (ho x s' hx) y s hy

theorem Gives.map {f : α × List UInt8 → β × List UInt8} (ho : Gives P o)
    (hf : ∀ x s, P x → Q (f (x, s)).1) : Gives Q (o.map f) := by
  intro y s h
  obtain ⟨⟨x, s'⟩, hx, hy⟩ := Except.map_eq_ok_iff.mp h
  have hfx := hf x s' (ho x s' hx)
  rw [hy] at hfx
  exact hfx

end

/-! ## Numbers -/

section
variable {negative : Bool} {x : Binary64} {s : List UInt8}

theorem fits_zero (negative : Bool) : (Binary64.zero negative).Fits := ⟨twoTo_pos 53, Nat.zero_le _⟩

theorem fits_ofDecimal {digits : ℕ} {exponent : ℤ} (h : Binary64.ofDecimal negative digits exponent = some x) :
    x.Fits := by
  unfold Binary64.ofDecimal at h
  split at h
  · cases h
    exact fits_zero negative
  · dsimp only at h
    split at h
    · cases h
    · split at h
      · cases h
        exact fits_zero negative
      · split at h
        · exact (Binary64.nearest_eq_some h).2.1
        · exact (Binary64.nearest_eq_some h).2.1

theorem gives_double (digits : ℕ) (exponent : ℤ) : Gives WellFormed (double negative digits exponent s) := by
  unfold double
  split
  · rename_i x hx
    exact gives_ok (.number (fits_ofDecimal hx))
  · exact gives_faultBefore

theorem gives_exponentPart (digits shift : ℕ) : Gives WellFormed (exponentPart negative digits shift s) := by
  unfold exponentPart
  split
  split
  · exact gives_faultBefore
  · split
    · split
      split
      · split
        · exact gives_ok (.number (fits_zero negative))
        · exact gives_faultBefore
      · exact gives_double _ _
    · exact gives_faultBefore

theorem gives_fractionPart (whole : List UInt8) : Gives WellFormed (fractionPart negative whole s) := by
  unfold fractionPart
  dsimp only
  split
  · exact gives_faultBefore
  · exact gives_faultAt
  · split
    · split
      · exact gives_exponentPart _ _
      · exact gives_double _ _
    · exact gives_double _ _

theorem gives_wholeNumber (n : ℕ) : Gives WellFormed (wholeNumber negative n s) := by
  by_cases h : IsWhole (if negative then -(n : ℤ) else n) ∧ ¬ (negative = true ∧ n = 0)
  · have hwhole : WellFormed (.number (.whole _ h.1)) := .number trivial
    rw [wholeNumber, dif_pos h]
    exact gives_ok hwhole
  · rw [wholeNumber, dif_neg h]
    exact gives_double _ _

theorem gives_unsigned : Gives WellFormed (unsigned negative s) := by
  unfold unsigned
  split
  · exact gives_faultBefore
  · split
    · dsimp only
      split
      · split
        · exact gives_faultAt
        · split
          · exact gives_fractionPart _
          · split
            · exact gives_exponentPart _ _
            · exact gives_wholeNumber _
      · exact gives_wholeNumber _
    · exact gives_faultBefore

end

/-! ## Values -/

theorem gives_keyword {x : Json} (hx : WellFormed x) (cs : List Char) (s : List UInt8) :
    Gives WellFormed (keyword x cs s) := by
  induction cs generalizing s with
  | nil => exact gives_ok hx
  | cons c cs ih =>
    cases s with
    | nil => exact gives_faultBefore
    | cons b s =>
      unfold keyword
      split
      · exact ih s
      · exact gives_faultBefore

/-- What the values, the items and the entries that a supply of fuel allows for come to. -/
structure Sound (fuel : ℕ) : Prop where
  value : ∀ depth s, Gives WellFormed (value fuel depth s)
  items : ∀ depth s, Gives (fun xs => ∀ x ∈ xs, WellFormed x) (items fuel depth s)
  members : ∀ depth acc s, WellFormedEntries acc → Gives WellFormedEntries (members fuel depth acc s)

section
variable {fuel : ℕ}

theorem Sound.value_succ (h : Sound fuel) (depth : ℕ) (s : List UInt8) :
    Gives WellFormed (Json.value (fuel + 1) depth s) := by
  unfold Json.value
  split
  · exact gives_faultAt
  · split
    · exact gives_keyword .null _ _
    split
    · exact gives_keyword (.bool true) _ _
    split
    · exact gives_keyword (.bool false) _ _
    split
    · exact gives_unsigned
    split
    · exact gives_unsigned
    split
    · exact (gives_true _).map fun x _ _ => .text x
    split
    · split
      · exact gives_faultAt
      · split
        · exact gives_faultAt
        · split
          · exact gives_ok (.array (by simp))
          · exact (h.items _ _).map fun _ _ hxs => .array hxs
    split
    · split
      · exact gives_faultAt
      · split
        · exact gives_faultAt
        · split
          · exact gives_ok (.object wellFormedEntries_nil.1 wellFormedEntries_nil.2)
          · exact (h.members _ _ _ wellFormedEntries_nil).map fun _ _ hes => .object hes.1 hes.2
    · exact gives_faultAt

theorem Sound.items_succ (h : Sound fuel) (depth : ℕ) (s : List UInt8) :
    Gives (fun xs => ∀ x ∈ xs, WellFormed x) (Json.items (fuel + 1) depth s) := by
  unfold Json.items
  refine (h.value depth s).bind fun x s hx => ?_
  dsimp only
  split
  · exact gives_faultAt
  · split
    · exact gives_ok (by simpa using hx)
    split
    · split
      · exact gives_faultAt
      · split
        · exact gives_faultAt
        · exact (h.items _ _).map fun xs _ hxs => List.forall_mem_cons.mpr ⟨hx, hxs⟩
    · exact gives_faultAt

theorem Sound.members_succ (h : Sound fuel) (depth : ℕ) (acc : Entries String Json) (s : List UInt8)
    (hacc : WellFormedEntries acc) : Gives WellFormedEntries (Json.members (fuel + 1) depth acc s) := by
  unfold Json.members
  refine (gives_true _).bind fun k s _ => ?_
  refine (h.value depth s).bind fun x s hx => ?_
  dsimp only
  split
  · exact gives_faultAt
  · split
    · exact gives_ok (hacc.put hx k)
    split
    · split
      · exact gives_faultAt
      · split
        · exact gives_faultAt
        · exact h.members _ _ _ (hacc.put hx k)
    · exact gives_faultAt

end

/-- Each step of fuel goes back to the one before. -/
theorem sound (fuel : ℕ) : Sound fuel := by
  induction fuel with
  | zero =>
    refine ⟨fun _ _ => ?_, fun _ _ => ?_, fun _ _ _ _ => ?_⟩
    · unfold value
      exact gives_faultBefore
    · unfold items
      exact gives_faultBefore
    · unfold members
      exact gives_faultBefore
  | succ fuel ih => exact ⟨ih.value_succ, ih.items_succ, ih.members_succ⟩

theorem wellFormed_of_document {s : List UInt8} {x : Json} (h : document s = .ok x) : x.WellFormed := by
  unfold document at h
  obtain ⟨⟨y, rest⟩, hy, hrest⟩ := Except.bind_eq_ok_iff.mp h
  dsimp only at hrest
  split at hrest
  · cases hrest
    exact (sound _).value _ _ _ _ hy
  · cases hrest

/-- **What is read is well formed.**  Whatever the text, no object in its value has a key twice, and no double in it
is beyond the finite ones. -/
theorem wellFormed_of_read {text : String} {x : Json} (h : read text = .ok x) : x.WellFormed := by
  unfold read readBytes at h
  cases hx : document (Utf8.toBytes text) with
  | error fault =>
    rw [hx] at h
    cases h
  | ok y =>
    rw [hx] at h
    cases h
    exact wellFormed_of_document hx

end Json

end CannedApi
