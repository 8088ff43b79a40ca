/-!
# Ordered entries

A table from keys to values in which the order of the entries shows: JSON objects, captured path
parameters, query parameters, counters.  It is kept as a plain list of pairs, so that it may also
stand inside an inductive type.  `put` leaves a known key where it is and appends a new one, hence
tables built by `put` never hold a key twice (`distinct_ofList`).
-/

namespace CannedApi

/-- Keys with their values, in the order in which the keys were first put. -/
abbrev Entries (κ α : Type) := List (κ × α)

namespace Entries

variable {κ α β : Type}

/-! ## Operations -/

def keys (l : Entries κ α) : List κ := l.map Prod.fst

/-- No key occurs twice. -/
def Distinct (l : Entries κ α) : Prop := (keys l).Nodup

variable [DecidableEq κ]

/-- the value of the first entry under `k` -/
def get? : Entries κ α → κ → Option α
  | [], _ => none
  | (k', v) :: rest, k => if k' = k then some v else get? rest k

/-- the value under `k` is `v`: in place for a known key, at the end for a new one -/
def put : Entries κ α → κ → α → Entries κ α
  | [], k, v => [(k, v)]
  | (k', v') :: rest, k, v => if k' = k then (k, v) :: rest else (k', v') :: put rest k v

/-- drops the first entry under `k`; the others keep their order -/
def erase : Entries κ α → κ → Entries κ α
  | [], _ => []
  | (k', v') :: rest, k => if k' = k then rest else (k', v') :: erase rest k

/-- puts the pairs one after the other: a repeated key keeps its first place and its last value -/
def ofList (ps : List (κ × α)) : Entries κ α := ps.foldl (fun l p => put l p.1 p.2) []

/-! ## Laws -/

@[simp] theorem get?_nil (k : κ) : get? ([] : Entries κ α) k = none := rfl

theorem get?_cons (k' : κ) (v : α) (rest : Entries κ α) (k : κ) :
    get? ((k', v) :: rest) k = if k' = k then some v else get? rest k := rfl

theorem get?_put (l : Entries κ α) (k : κ) (v : α) (j : κ) :
    get? (put l k v) j = if k = j then some v else get? l j := by
  induction l with
  | nil => rfl
  | cons p rest ih =>
    obtain ⟨k', v'⟩ := p
    by_cases h : k' = k
    · subst h
      by_cases hj : k' = j <;> simp [put, get?, hj]
    · by_cases hk : k = j
      · subst hk
        simp [put, get?, h, ih]
      · simp [put, get?, h, ih, hk]

theorem mem_of_get? {l : Entries κ α} {k : κ} {v : α} (h : get? l k = some v) : (k, v) ∈ l := by
  induction l with
  | nil => cases h
  | cons p rest ih =>
    obtain ⟨k', v'⟩ := p
    rw [get?_cons] at h
    by_cases hk : k' = k
    · rw [if_pos hk] at h
      cases h
      rw [hk]
      exact List.mem_cons_self
    · rw [if_neg hk] at h
      exact List.mem_cons_of_mem _ (ih h)

theorem get?_eq_none_iff {l : Entries κ α} {k : κ} : get? l k = none ↔ k ∉ keys l := by
  induction l with
  | nil => simp [keys]
  | cons p rest ih =>
    obtain ⟨k', v⟩ := p
    rw [get?_cons]
    by_cases h : k' = k
    · simp [keys, h]
    · have h' : k ≠ k' := fun e => h e.symm
      have hkeys : k ∈ keys ((k', v) :: rest) ↔ k ∈ keys rest := by simp [keys, h']
      rw [if_neg h, hkeys, ih]

theorem get?_append (a b : Entries κ α) (k : κ) : get? (a ++ b) k = (get? a k).or (get? b k) := by
  induction a with
  | nil => rfl
  | cons p rest ih =>
    obtain ⟨k', v⟩ := p
    rw [List.cons_append, get?_cons, get?_cons]
    by_cases h : k' = k
    · simp [h]
    · simp [h, ih]

theorem eraseDups_concat {ι : Type} [BEq ι] [LawfulBEq ι] (ks : List ι) (k : ι) :
    (ks ++ [k]).eraseDups = if k ∈ ks then ks.eraseDups else ks.eraseDups ++ [k] := by
  rw [List.eraseDups_append]
  by_cases h : k ∈ ks
  · simp [List.cons_removeAll, h]
  · have hremove : [k].removeAll ks = [k] := by simp [List.cons_removeAll, h]
    rw [if_neg h, hremove]
    rfl

theorem mem_put {l : Entries κ α} {k : κ} {v : α} {e : κ × α} (h : e ∈ put l k v) :
    e ∈ l ∨ e = (k, v) := by
  induction l with
  | nil => exact Or.inr (List.mem_singleton.mp h)
  | cons p rest ih =>
    obtain ⟨k', v'⟩ := p
    unfold put at h
    split at h
    · rcases List.mem_cons.mp h with he | he
      · exact Or.inr he
      · exact Or.inl (List.mem_cons_of_mem _ he)
    · rcases List.mem_cons.mp h with he | he
      · exact Or.inl (he ▸ List.mem_cons_self)
      · exact (ih he).imp (List.mem_cons_of_mem _) id

theorem keys_put (l : Entries κ α) (k : κ) (v : α) :
    keys (put l k v) = if k ∈ keys l then keys l else keys l ++ [k] := by
  induction l with
  | nil => rfl
  | cons p rest ih =>
    obtain ⟨k', v'⟩ := p
    by_cases h : k' = k
    · simp [put, keys, h]
    · have h' : ¬ k = k' := fun e => h e.symm
      have e : keys (put ((k', v') :: rest) k v) = k' :: keys (put rest k v) := by
        simp [put, h, keys]
      rw [e, ih]
      by_cases hm : k ∈ keys rest
      · have : k ∈ keys ((k', v') :: rest) := List.mem_cons_of_mem _ hm
        rw [if_pos hm, if_pos this]
        rfl
      · have : ¬ k ∈ keys ((k', v') :: rest) := by
          intro hc
          rcases List.mem_cons.mp hc with e' | e'
          · exact h' e'
          · exact hm e'
        rw [if_neg hm, if_neg this]
        rfl

theorem distinct_put {l : Entries κ α} (hl : Distinct l) (k : κ) (v : α) : Distinct (put l k v) := by
  show (keys (put l k v)).Nodup
  rw [keys_put]
  by_cases h : k ∈ keys l
  · rw [if_pos h]; exact hl
  · rw [if_neg h, List.nodup_append]
    refine ⟨hl, by simp, fun a ha b hb => ?_⟩
    rw [List.mem_singleton.mp hb]
    exact fun e => h (e ▸ ha)

theorem distinct_foldl_put (ps : List (κ × α)) (l : Entries κ α) (hl : Distinct l) :
    Distinct (ps.foldl (fun l p => put l p.1 p.2) l) := by
  induction ps generalizing l with
  | nil => exact hl
  | cons p ps ih => exact ih (put l p.1 p.2) (distinct_put hl p.1 p.2)

theorem distinct_ofList (ps : List (κ × α)) : Distinct (ofList ps) :=
  distinct_foldl_put ps [] List.nodup_nil

/-- Erasing takes the entry out at whatever place it stands. -/
theorem erase_insert (a b : Entries κ α) (k : κ) (v : α) (h : k ∉ keys a) :
    erase (a ++ (k, v) :: b) k = a ++ b := by
  induction a with
  | nil => simp [erase]
  | cons p rest ih =>
    obtain ⟨k', v'⟩ := p
    have hk : ¬ k' = k := fun e => h (by simp [keys, e])
    have hr : k ∉ keys rest := fun hm => h (List.mem_cons_of_mem _ hm)
    simp [erase, hk, ih hr]

end Entries

end CannedApi
