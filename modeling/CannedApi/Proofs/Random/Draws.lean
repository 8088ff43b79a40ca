import CannedApi.Random.Source
import Mathlib.Data.Nat.Basic

/-!
# What a draw gives

A draw is made of words and of loops that throw words away until one is accepted (`Loop`).  `Yields d P` says
that the draw ends, whatever the source is, and that `P` holds of what it gives: it has one rule for each way to
make a draw, and a loop may be used only with a proof that it ends.
-/

namespace CannedApi.Random

/-! ## Sources -/

/-- the source behind its first `n` words -/
def Source.after (s : Source) : ℕ → Source
  | 0 => s
  | n + 1 => (word (s.after n)).2

theorem Source.after_add (s : Source) (m n : ℕ) : s.after (m + n) = (s.after m).after n := by
  induction n with
  | zero => rfl
  | succ n ih => rw [← Nat.add_assoc, Source.after, ih, Source.after]

theorem Source.pending_after (s : Source) (n : ℕ) : (s.after n).pending = s.pending.drop n := by
  induction n with
  | zero => rfl
  | succ n ih =>
    have hnext (t : Source) : (word t).2.pending = t.pending.drop 1 := by
      obtain ⟨pending, used⟩ := t
      cases pending <;> rfl
    rw [Source.after, hnext, ih, List.drop_drop]

/-- Any words that are zero from some place on come from a source. -/
theorem exists_source {words : ℕ → UInt64} (h : ∃ k, ∀ i, k ≤ i → words i = 0) :
    ∃ s : Source, ∀ i, (word (s.after i)).1 = words i := by
  obtain ⟨k, hk⟩ := h
  refine ⟨.ofWords ((List.range k).map words), fun i => ?_⟩
  have hword (t : Source) : (word t).1 = t.pending.headD 0 := by
    obtain ⟨pending, used⟩ := t
    cases pending <;> rfl
  rw [hword, Source.pending_after, List.headD_eq_head?_getD, List.head?_drop]
  by_cases hi : i < k
  · simp [Source.ofWords, hi]
  · simp [Source.ofWords, hi, hk i (Nat.le_of_not_lt hi)]

/-! ## The loop -/

/-- the next word, cut to `width` bits, times `n` -/
def product (width n : ℕ) (s : Source) : ℕ := (word s).1.toNat % twoTo width * n

/-- Words are drawn and thrown away until the low half of a product is accepted; `v` is its high half, `t` the
source behind its word. -/
inductive Loop (width n : ℕ) : Source → ℕ → Source → Prop
  | accept {s : Source} (h : product width n s % twoTo width ≤ zone width n) :
      Loop width n s (product width n s / twoTo width) (word s).2
  | reject {s t : Source} {v : ℕ} (h : zone width n < product width n s % twoTo width)
      (rest : Loop width n (word s).2 v t) : Loop width n s v t

section
variable {width n : ℕ} {s t : Source} {v : ℕ}

theorem Loop.lt (hn : 0 < n) (h : Loop width n s v t) : v < n := by
  induction h with
  | accept _ =>
    refine Nat.div_lt_of_lt_mul ?_
    exact Nat.mul_lt_mul_of_pos_right (Nat.mod_lt _ (twoTo_pos width)) hn
  | reject _ _ ih => exact ih

/-- A loop has used up some words when it ends. -/
theorem Loop.exists_after (h : Loop width n s v t) : ∃ k, t = s.after k := by
  induction h with
  | accept _ => exact ⟨1, rfl⟩
  | @reject s _ _ _ _ ih =>
    obtain ⟨k, rfl⟩ := ih
    exact ⟨1 + k, (s.after_add 1 k).symm⟩

/-- The loop ends, at the latest with a zero. -/
theorem loop_scaledFrom (width n used : ℕ) (pending : List UInt64) :
    Loop width n ⟨pending, used⟩ (scaledFrom width n used pending).1 (scaledFrom width n used pending).2 := by
  induction pending generalizing used with
  | nil =>
    have hzero : product width n ⟨[], used⟩ = 0 := by simp [product, word]
    have haccept : Loop width n ⟨[], used⟩ _ _ := .accept (by simp [hzero])
    simpa [hzero, word, scaledFrom] using haccept
  | cons w rest ih =>
    rw [scaledFrom]
    split
    · exact .accept (s := ⟨w :: rest, used⟩) ‹_›
    · exact .reject (s := ⟨w :: rest, used⟩) (Nat.lt_of_not_le ‹_›) (ih (used + 1))

theorem Loop.unique {v' : ℕ} {t' : Source} (h : Loop width n s v t) (h' : Loop width n s v' t') :
    v = v' ∧ t = t' := by
  induction h with
  | accept h =>
    cases h' with
    | accept _ => exact ⟨rfl, rfl⟩
    | reject hgt _ => exact absurd h (Nat.not_le_of_lt hgt)
  | reject h _ ih =>
    cases h' with
    | accept hle => exact absurd hle (Nat.not_le_of_lt h)
    | reject _ rest => exact ih rest

end

/-! ## Draws that end -/

/-- The draw ends, from every source, and gives a value of which `P` holds. -/
inductive Yields : {α : Type} → Draw α → (α → Prop) → Prop
  | pure {α : Type} {a : α} {P : α → Prop} (h : P a) : Yields (pure a) P
  | word {P : UInt64 → Prop} (h : ∀ w, P w) : Yields word P
  | loop {d : Draw ℕ} {width n : ℕ} {P : ℕ → Prop} (hends : ∀ s, Loop width n s (d s).1 (d s).2) (hn : 0 < n)
      (h : ∀ v < n, P v) : Yields d P
  | bind {α β : Type} {d : Draw α} {f : α → Draw β} {P : α → Prop} {Q : β → Prop} (hd : Yields d P)
      (hf : ∀ a, P a → Yields (f a) Q) : Yields (d >>= f) Q

namespace Yields

variable {α β : Type} {d : Draw α} {P : α → Prop}

theorem holds (h : Yields d P) (s : Source) : P (d s).1 := by
  induction h generalizing s with
  | pure h => exact h
  | word h => exact h _
  | loop hends hn h => exact h _ ((hends s).lt hn)
  | bind _ _ ihd ihf => exact ihf _ (ihd s) _

theorem exists_after (h : Yields d P) (s : Source) : ∃ k, (d s).2 = s.after k := by
  induction h generalizing s with
  | pure _ => exact ⟨0, rfl⟩
  | word _ => exact ⟨1, rfl⟩
  | loop hends _ _ => exact (hends s).exists_after
  | @bind _ _ d f _ _ hd _ ihd ihf =>
    obtain ⟨j, hj⟩ := ihd s
    obtain ⟨k, hk⟩ := ihf (d s).1 (hd.holds s) (d s).2
    exact ⟨j + k, by rw [s.after_add, ← hj]; exact hk⟩

theorem map {f : α → β} {Q : β → Prop} (h : Yields d P) (hf : ∀ a, P a → Q (f a)) :
    Yields (do return f (← d)) Q :=
  .bind h fun a ha => .pure (hf a ha)

end Yields

/-! ## Numbers and items -/

section
variable {items : List String} {P : String → Prop} {d : Draw String}

theorem yields_below {n : ℕ} (hn : 0 < n) : Yields (below n) (· < n) :=
  .loop (fun s => loop_scaledFrom 32 n s.used s.pending) hn fun _ hv => hv

theorem yields_wideBelow {n : ℕ} (hn : 0 < n) : Yields (wideBelow n) (· < n) :=
  .loop (fun s => loop_scaledFrom 64 n s.used s.pending) hn fun _ hv => hv

theorem yields_range {low high : ℕ} (h : low < high) : Yields (range low high) fun n => low ≤ n ∧ n < high :=
  (yields_below (Nat.sub_pos_of_lt h)).map fun n hn => by omega

theorem yields_pick (h : items ≠ []) : Yields (pick items) (· ∈ items) := by
  refine (yields_below (List.length_pos_iff.mpr h)).map fun i hi => ?_
  rw [List.getD_eq_getElem?_getD, List.getElem?_eq_getElem hi, Option.getD_some]
  exact List.getElem_mem hi

theorem yields_coin : Yields coin fun _ => True :=
  Yields.map (.word (P := fun _ => True) fun _ => trivial) fun _ _ => trivial

theorem yields_times (h : Yields d P) (n : ℕ) :
    Yields (times n d) fun xs => xs.length = n ∧ ∀ x ∈ xs, P x := by
  induction n with
  | zero => exact .pure ⟨rfl, fun x hx => absurd hx List.not_mem_nil⟩
  | succ n ih =>
    refine .bind h fun x hx => ih.map fun xs hxs => ?_
    exact ⟨congrArg (· + 1) hxs.1, List.forall_mem_cons.mpr ⟨hx, hxs.2⟩⟩

end

end CannedApi.Random
