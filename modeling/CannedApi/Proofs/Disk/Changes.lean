import CannedApi.Disk.Happening
import CannedApi.Proofs.Disk.Twins

/-!
# What a change leaves alone

A change makes a difference at the entries at which something happens and below them, and nowhere else
(`Disk.similar_or_happens`).  That a file holds other bytes than before is no difference here, so only
what comes, goes or is renamed counts.
-/

namespace CannedApi

/-- The change is one of names, not of permissions. -/
def Change.KeepsModes (c : Change) : Prop := ∀ p mode, c ≠ .setMode p mode

/-- Something came, went or was renamed in a directory. -/
structure Happening.Structural (h : Happening) : Prop where
  inDirectory : h.heardAt = .directory
  kind : h.kind ≠ .modified

namespace Disk

variable {d d' d'' : Disk} {c : Change} {p q top : RealPath}

/-! ## Entries that look the same -/

/-- What stands at two places looks the same to who does not read it. -/
inductive Similar : Option Entry → Option Entry → Prop where
  | same (x : Option Entry) : Similar x x
  | files (access access' : Access) (bytes bytes' : List UInt8) :
    Similar (some (.file access bytes)) (some (.file access' bytes'))

theorem Similar.of_eq {x y : Option Entry} (h : x = y) : Similar x y := h ▸ .same x

theorem Similar.trans {x y z : Option Entry} (h : Similar x y) (h' : Similar y z) : Similar x z := by
  cases h with
  | same => exact h'
  | files =>
    cases h' with
    | same => exact .files _ _ _ _
    | files => exact .files _ _ _ _

theorem Similar.eq_none_iff {x y : Option Entry} (h : Similar x y) : x = none ↔ y = none := by
  cases h <;> simp

/-! ## Places where nothing is -/

theorem get?_of_follow_vacant {followLast : Bool} {links : Nat} {steps : List PathStep}
    {at_ dir : RealPath} {n : FileName} (h : d.follow followLast links steps at_ = .ok (.vacant dir n)) :
    d.get? (dir ++ [n]) = none := by
  have hfollows := d.follows followLast links steps at_
  generalize d.follow followLast links steps at_ = r at h hfollows
  induction hfollows with
  | vacant _ _ hn =>
    cases h
    exact hn
  | here _ _ _ ih | up _ _ _ ih | name _ _ _ _ _ ih | link _ _ _ _ _ ih => exact ih h
  | arrived | missing | notDirectory | closed | tooLong | absent | lastLink | exhausted => cases h

theorem get?_of_vacant {followLast : Bool} {path : Path} {dir : RealPath} {n : FileName}
    (h : d.locate followLast path = .ok (.vacant dir n)) : d.get? (dir ++ [n]) = none := by
  unfold locate at h
  split at h
  · cases h
  split at h
  · cases h
  split at h
  · cases h
  · exact get?_of_follow_vacant h

/-! ## Growing -/

/-- All that was there is there and looks as before; there may be more. -/
structure Grows (d d' : Disk) : Prop where
  similar : ∀ q, d.get? q = none ∨ Similar (d.get? q) (d'.get? q)
  workingDir : d'.workingDir = d.workingDir

theorem Grows.refl (d : Disk) : d.Grows d := ⟨fun _ => Or.inr (.same _), rfl⟩

theorem Grows.trans (h : d.Grows d') (h' : d'.Grows d'') : d.Grows d'' := by
  refine ⟨fun q => ?_, h'.workingDir.trans h.workingDir⟩
  rcases h.similar q with hnone | hsame
  · exact Or.inl hnone
  rcases h'.similar q with hnone | hsame'
  · exact Or.inl (hsame.eq_none_iff.mpr hnone)
  · exact Or.inr (hsame.trans hsame')

/-- An entry is put where none was, or a file in place of a file. -/
theorem grows_put {e : Entry} (hp : p ≠ []) (h : d.get? p = none ∨ Similar (d.get? p) (some e)) :
    d.Grows (d.put p e) := by
  refine ⟨fun q => ?_, rfl⟩
  rw [get?_put d hp]
  by_cases hq : p = q
  · rw [if_pos hq, ← hq]
    exact h
  · rw [if_neg hq]
    exact Or.inr (.same _)

theorem grows_create {dir : RealPath} {n : FileName} {e : Entry} (hnone : d.get? (dir ++ [n]) = none)
    (h : d.create dir n e = .ok d') : d.Grows d' := by
  unfold create at h
  split at h
  · cases h
    exact grows_put (by simp) (Or.inl hnone)
  · cases h

theorem grows_ensureDirectory {path : Path} (h : d.ensureDirectory path = .ok d') : d.Grows d' := by
  unfold ensureDirectory at h
  split at h
  · cases h
    exact .refl d
  · obtain ⟨place, hplace, h⟩ := Except.bind_eq_ok_iff.mp h
    cases place with
    | existing q => cases h
    | vacant dir n => exact grows_create (get?_of_vacant hplace) h

theorem grows_makeDirectories {path : Path} (h : d.makeDirectories path = .ok d') : d.Grows d' := by
  unfold makeDirectories at h
  generalize path.stages = stages at h
  induction stages generalizing d with
  | nil =>
    cases h
    exact .refl _
  | cons stage rest ih =>
    rw [List.foldlM_cons] at h
    obtain ⟨x, hx, h⟩ := Except.bind_eq_ok_iff.mp h
    exact (grows_ensureDirectory hx).trans (ih h)

theorem grows_writeFile {path : Path} {content : List UInt8}
    (h : d.writeFile path content = .ok d') : d.Grows d' := by
  obtain ⟨place, hplace, h⟩ := Except.bind_eq_ok_iff.mp h
  cases place with
  | vacant dir n => exact grows_create (get?_of_vacant hplace) h
  | existing q =>
    simp only at h
    split at h
    · rename_i access bytes hq
      have hne : q ≠ [] := by
        rintro rfl
        simp [get?] at hq
      split at h
      · cases h
        refine grows_put hne (Or.inr ?_)
        rw [hq]
        exact .files _ _ _ _
      · cases h
    · cases h

theorem grows_makeLink {path target : Path} (h : d.makeLink path target = .ok d') : d.Grows d' := by
  unfold makeLink at h
  split at h
  · cases h
  · obtain ⟨place, hplace, h⟩ := Except.bind_eq_ok_iff.mp h
    cases place with
    | existing q => cases h
    | vacant dir n => exact grows_create (get?_of_vacant hplace) h

theorem mem_added_iff : q ∈ d.added d' ↔ d.get? q = none ∧ d'.get? q ≠ none := by
  have hkeys : q ∈ d'.entries.map Prod.fst ↔ Entries.get? d'.entries q ≠ none := by
    rw [ne_eq, Entries.get?_eq_none_iff, not_not, Entries.keys]
  unfold added
  rw [List.mem_filter, hkeys, Option.isNone_iff_eq_none, and_comm]
  by_cases hq : q = [] <;> simp [get?, hq]

theorem Grows.mem_added (h : d.Grows d') : Similar (d.get? q) (d'.get? q) ∨ q ∈ d.added d' := by
  rcases h.similar q with hnone | hsame
  · by_cases hnew : d'.get? q = none
    · exact Or.inl (.of_eq (hnone.trans hnew.symm))
    · exact Or.inr (mem_added_iff.mpr ⟨hnone, hnew⟩)
  · exact Or.inl hsame

/-! ## Taking out and moving -/

theorem isWithin_refl (p : RealPath) : isWithin p p = true :=
  List.isPrefixOf_iff_prefix.mpr List.prefix_rfl

theorem get?_dropWithin (htop : top ≠ []) (q : RealPath) :
    (d.dropWithin top).get? q = if isWithin top q = true then none else d.get? q := by
  have hroot : isWithin top [] = false := by
    cases top with
    | nil => exact absurd rfl htop
    | cons n rest => rfl
  have hfilter : ∀ l : Entries RealPath Entry,
      Entries.get? (l.filter fun e => !isWithin top e.1) q =
        if isWithin top q = true then none else Entries.get? l q := fun l => by
    induction l with
    | nil => simp
    | cons x rest ih =>
      obtain ⟨k, e⟩ := x
      by_cases hk : k = q
      · subst hk
        cases hin : isWithin top k <;> simp [Entries.get?_cons, hin, ih]
      · cases hin : isWithin top k <;> simp [Entries.get?_cons, hin, ih, hk]
  unfold get? dropWithin
  by_cases hq : q = []
  · simp [hq, hroot]
  · simp only [if_neg hq]
    exact hfilter d.entries

theorem get?_foldl_put {α : Type} (place : α → RealPath) (entry : α → Entry)
    (hplace : ∀ x, isWithin top (place x) = true) (hq : isWithin top q = false) (l : List α)
    (d : Disk) : (l.foldl (fun d x => d.put (place x) (entry x)) d).get? q = d.get? q := by
  induction l generalizing d with
  | nil => rfl
  | cons x rest ih =>
    have hne : place x ≠ q := by
      rintro rfl
      rw [hplace x] at hq
      cases hq
    have hroot : place x ≠ [] := by
      intro h
      have hx := hplace x
      rw [h] at hx
      cases top with
      | nil => cases hq
      | cons n rest => cases hx
    rw [List.foldl_cons, ih, get?_put d hroot, if_neg hne]

theorem isWithin_moved (old new p : RealPath) : isWithin new (moved old new p) = true :=
  List.isPrefixOf_iff_prefix.mpr (List.prefix_append _ _)

theorem get?_moveWithin {old new : RealPath} (hold : old ≠ []) (hnew : new ≠ [])
    (hq : isWithin old q = false) (hq' : isWithin new q = false) :
    (d.moveWithin old new).get? q = d.get? q := by
  unfold moveWithin
  rw [get?_foldl_put (fun e : RealPath × Entry => moved old new e.1) Prod.snd
    (fun e => isWithin_moved old new e.1) hq']
  show ((d.dropWithin new).dropWithin old).get? q = d.get? q
  rw [get?_dropWithin hold, hq, get?_dropWithin hnew, hq']
  rfl

theorem workingDir_foldl_put {α : Type} (place : α → RealPath) (entry : α → Entry) (l : List α)
    (d : Disk) :
    (l.foldl (fun d x => d.put (place x) (entry x)) d).workingDir = d.workingDir := by
  induction l generalizing d with
  | nil => rfl
  | cons x rest ih => rw [List.foldl_cons, ih, put]

theorem workingDir_moveWithin (d : Disk) (old new : RealPath) :
    (d.moveWithin old new).workingDir =
      if isWithin old d.workingDir then moved old new d.workingDir else d.workingDir := by
  unfold moveWithin
  exact workingDir_foldl_put (fun e : RealPath × Entry => moved old new e.1) Prod.snd _ _

/-- A renaming leaves all as it was, or moves what stands at one place to another. -/
theorem renameEntry_cases {path dest : Path} (h : d.renameEntry path dest = .ok d') :
    d' = d ∨ ∃ old new, d.moveOf path dest = some (old, new) ∧ old ≠ [] ∧ new ≠ [] ∧
      d' = d.moveWithin old new := by
  obtain ⟨first, hfirst, h⟩ := Except.bind_eq_ok_iff.mp h
  cases first with
  | vacant dir n => cases h
  | existing old =>
    simp only at h
    split at h
    · cases h
    obtain ⟨place, hplace, h⟩ := Except.bind_eq_ok_iff.mp h
    have hmove : d.moveOf path dest = if place.path = old then none else some (old, place.path) := by
      rw [moveOf, hfirst, hplace]
    cases place
    all_goals
      simp only at h
      split at h
      · cases h
        exact Or.inl rfl
      rename_i hne
      split at h
      · cases h
      rename_i hvalid
      simp only [not_or] at hvalid
      split at h
      · cases h
      obtain ⟨-, -, h⟩ := Except.bind_eq_ok_iff.mp h
      cases h
      exact Or.inr ⟨old, _, hmove.trans (if_neg hne), hvalid.1, hvalid.2.1, rfl⟩

/-! ## Changes -/

theorem happens_of_mem_added {kind : EventKind} (hkind : kind ≠ .modified) {hs : List Happening}
    {ps : List RealPath} (hsub : ∀ x ∈ ps, Happening.inDirectory kind x ∈ hs) (hq : q ∈ ps) :
    ∃ x ∈ hs, x.Structural ∧ isWithin x.entry q = true :=
  ⟨.inDirectory kind q, hsub q hq, ⟨rfl, hkind⟩, isWithin_refl q⟩

/-- **Where nothing happens all looks as before.** -/
theorem similar_or_happens (h : d.apply c = .ok d') (hc : c.KeepsModes) (q : RealPath) :
    Similar (d.get? q) (d'.get? q) ∨
      ∃ x ∈ d.happenings d' c, x.Structural ∧ isWithin x.entry q = true := by
  have hcreated : EventKind.created ≠ .modified := by simp
  cases c with
  | setMode path mode => exact absurd rfl (hc path mode)
  | write path content =>
    obtain ⟨x, hx, h⟩ := Except.bind_eq_ok_iff.mp h
    refine ((grows_makeDirectories hx).trans (grows_writeFile h)).mem_added.imp_right fun hq => ?_
    refine happens_of_mem_added hcreated (fun x hx => ?_) hq
    exact List.mem_append_left _ (List.mem_map_of_mem hx)
  | makeDirectory path =>
    refine (grows_makeDirectories h).mem_added.imp_right fun hq => ?_
    exact happens_of_mem_added hcreated (fun x hx => List.mem_map_of_mem hx) hq
  | link path target =>
    refine (grows_makeLink h).mem_added.imp_right fun hq => ?_
    exact happens_of_mem_added hcreated (fun x hx => List.mem_map_of_mem hx) hq
  | remove path =>
    obtain ⟨place, -, h⟩ := Except.bind_eq_ok_iff.mp h
    cases place with
    | vacant dir n => cases h
    | existing top =>
      simp only at h
      split at h
      · cases h
      rename_i htop
      split at h
      · cases h
      split at h
      · cases h
        by_cases hgone : isWithin top q = true ∧ d.get? q ≠ none
        · have hgoes : q ∈ (d.dropWithin top).added d := by
            rw [mem_added_iff, get?_dropWithin htop, if_pos hgone.1]
            exact ⟨rfl, hgone.2⟩
          have hremoved : EventKind.removed ≠ .modified := by simp
          refine Or.inr (happens_of_mem_added hremoved (fun x hx => ?_) hgoes)
          exact List.mem_append_left _ (List.mem_map_of_mem hx)
        · left
          rw [get?_dropWithin htop]
          split
          · rename_i hin
            exact .of_eq (not_not.mp fun hq => hgone ⟨hin, hq⟩)
          · exact .same _
      · cases h
  | rename path dest =>
    rcases renameEntry_cases h with rfl | ⟨old, new, hmove, hold, hnew, rfl⟩
    · exact Or.inl (.same _)
    · have hfrom : Happening.inDirectory .renamedFrom old ∈
          d.happenings (d.moveWithin old new) (.rename path dest) := by
        simp [happenings, hmove]
      have hto : Happening.inDirectory .renamedTo new ∈
          d.happenings (d.moveWithin old new) (.rename path dest) := by
        simp [happenings, hmove]
      by_cases hq : isWithin old q = true
      · exact Or.inr ⟨_, hfrom, ⟨rfl, by simp [Happening.inDirectory]⟩, hq⟩
      by_cases hq' : isWithin new q = true
      · exact Or.inr ⟨_, hto, ⟨rfl, by simp [Happening.inDirectory]⟩, hq'⟩
      · rw [Bool.not_eq_true] at hq hq'
        exact Or.inl (.of_eq (get?_moveWithin hold hnew hq hq').symm)

/-- The working directory is moved only with a directory that it is in. -/
theorem workingDir_or_happens (h : d.apply c = .ok d') :
    d'.workingDir = d.workingDir ∨ ∃ old new,
      Happening.inDirectory .renamedFrom old ∈ d.happenings d' c ∧
      Happening.inDirectory .renamedTo new ∈ d.happenings d' c ∧
      isWithin old d.workingDir = true ∧ isWithin new d'.workingDir = true := by
  cases c with
  | setMode path mode =>
    obtain ⟨r, -, h⟩ := Except.bind_eq_ok_iff.mp h
    split at h
    · cases h
      exact Or.inl rfl
    · split at h
      all_goals
        cases h
        exact Or.inl rfl
    · cases h
  | write path content =>
    obtain ⟨x, hx, h⟩ := Except.bind_eq_ok_iff.mp h
    exact Or.inl ((grows_makeDirectories hx).trans (grows_writeFile h)).workingDir
  | makeDirectory path => exact Or.inl (grows_makeDirectories h).workingDir
  | link path target => exact Or.inl (grows_makeLink h).workingDir
  | remove path =>
    obtain ⟨place, -, h⟩ := Except.bind_eq_ok_iff.mp h
    cases place with
    | vacant dir n => cases h
    | existing top =>
      simp only at h
      split at h
      · cases h
      split at h
      · cases h
      split at h
      · cases h
        exact Or.inl rfl
      · cases h
  | rename path dest =>
    rcases renameEntry_cases h with rfl | ⟨old, new, hmove, -, -, rfl⟩
    · exact Or.inl rfl
    · rw [workingDir_moveWithin]
      split
      · rename_i hin
        refine Or.inr ⟨old, new, ?_, ?_, hin, isWithin_moved old new _⟩
        all_goals simp [happenings, hmove]
      · exact Or.inl rfl

end Disk

end CannedApi
