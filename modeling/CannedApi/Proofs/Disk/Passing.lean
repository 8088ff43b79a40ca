import CannedApi.Proofs.Disk.Changes

/-!
# The way along a path

Following a path asks for what stands at single places, one after the other.  `Disk.Passes` tells that one
of them is at a given entry or below it.  On two disks that look the same except at some entries, a path
leads to the same place, unless its way passes one of these entries on both
(`Disk.realPath_eq_or_passes`): up to the first of them it is the same way.
-/

namespace CannedApi

namespace Disk

variable {d d' : Disk} {links : Nat} {steps : List PathStep} {at_ q e : RealPath} {n : FileName}
  {p : Path} {E : RealPath → Prop}

/-- On the way along the steps something at `e` or below it is asked for. -/
inductive Meets (d : Disk) (e : RealPath) : Nat → List PathStep → RealPath → Prop where
  | start {links : Nat} {steps : List PathStep} {at_ : RealPath} (h : isWithin e at_ = true) :
    Meets d e links steps at_
  | entry {links : Nat} {rest : List PathStep} {at_ : RealPath} {n : FileName} {access : Access}
    (hdir : d.get? at_ = some (.directory access)) (hsearch : access.search = true)
    (h : isWithin e (at_ ++ [n]) = true) : Meets d e links (.name n :: rest) at_
  | here {links : Nat} {rest : List PathStep} {at_ : RealPath} {access : Access}
    (hdir : d.get? at_ = some (.directory access)) (hsearch : access.search = true)
    (h : Meets d e links rest at_) : Meets d e links (.here :: rest) at_
  | up {links : Nat} {rest : List PathStep} {at_ : RealPath} {access : Access}
    (hdir : d.get? at_ = some (.directory access)) (hsearch : access.search = true)
    (h : Meets d e links rest at_.dropLast) : Meets d e links (.up :: rest) at_
  | name {links : Nat} {rest : List PathStep} {at_ : RealPath} {n : FileName} {access : Access}
    {x : Entry} (hdir : d.get? at_ = some (.directory access)) (hsearch : access.search = true)
    (hn : d.get? (at_ ++ [n]) = some x) (hlink : ∀ target, x ≠ .link target)
    (h : Meets d e links rest (at_ ++ [n])) : Meets d e links (.name n :: rest) at_
  | link {links : Nat} {rest : List PathStep} {at_ : RealPath} {n : FileName} {access : Access}
    {target : Path} (hdir : d.get? at_ = some (.directory access)) (hsearch : access.search = true)
    (hn : d.get? (at_ ++ [n]) = some (.link target))
    (h : Meets d e links (target.steps ++ rest) (if target.isAbsolute then [] else at_)) :
    Meets d e (links + 1) (.name n :: rest) at_

/-- The way along the path passes the entry, or something below it. -/
structure Passes (d : Disk) (p : Path) (e : RealPath) : Prop where
  noNul : 0 ∉ p.bytes
  short : p.length < pathLimit
  meets : d.Meets e linkLimit p.steps (if p.isAbsolute then [] else d.workingDir)

/-! ## Two disks -/

theorem Similar.eq_of_not_file {x y : Option Entry} (h : Similar x y)
    (hx : ∀ access bytes, x ≠ some (.file access bytes)) : y = x := by
  cases h with
  | same => rfl
  | files access access' bytes bytes' => exact absurd rfl (hx access bytes)

theorem Similar.directory {y : Option Entry} {access : Access}
    (h : Similar (some (.directory access)) y) : y = some (.directory access) :=
  h.eq_of_not_file (by simp)

theorem Similar.link {y : Option Entry} {target : Path} (h : Similar (some (.link target)) y) :
    y = some (.link target) :=
  h.eq_of_not_file (by simp)

theorem Similar.exists_not_link {x : Entry} {y : Option Entry} (h : Similar (some x) y)
    (hx : ∀ target, x ≠ .link target) : ∃ x', y = some x' ∧ ∀ target, x' ≠ .link target := by
  cases h with
  | same => exact ⟨x, rfl, hx⟩
  | files => exact ⟨_, rfl, by simp⟩

theorem Similar.exists_not_directory {x : Entry} {y : Option Entry} (h : Similar (some x) y)
    (hx : ∀ access, x ≠ .directory access) : ∃ x', y = some x' ∧ ∀ access, x' ≠ .directory access := by
  cases h with
  | same => exact ⟨x, rfl, hx⟩
  | files => exact ⟨_, rfl, by simp⟩

section
variable (hsame : ∀ q, Similar (d.get? q) (d'.get? q) ∨ ∃ e, E e ∧ isWithin e q = true)
include hsame

/-- A place that is asked for on both disks looks the same, unless one of the entries is met there. -/
theorem similar_of_not_exists {P P' : RealPath → Prop} (hnot : ¬ ∃ e, E e ∧ P e ∧ P' e)
    (h : ∀ e, isWithin e q = true → P e) (h' : ∀ e, isWithin e q = true → P' e) :
    Similar (d.get? q) (d'.get? q) := by
  refine (hsame q).resolve_right ?_
  rintro ⟨e, he, hin⟩
  exact hnot ⟨e, he, h e hin, h' e hin⟩

theorem similar_start
    (hnot : ¬ ∃ e, E e ∧ d.Meets e links steps at_ ∧ d'.Meets e links steps at_) :
    Similar (d.get? at_) (d'.get? at_) :=
  similar_of_not_exists hsame hnot (fun _ => .start) (fun _ => .start)

theorem similar_name {rest : List PathStep} {access : Access}
    (hnot : ¬ ∃ e, E e ∧ d.Meets e links (.name n :: rest) at_ ∧ d'.Meets e links (.name n :: rest) at_)
    (hdir : d.get? at_ = some (.directory access)) (hsearch : access.search = true) :
    d'.get? at_ = some (.directory access) ∧ Similar (d.get? (at_ ++ [n])) (d'.get? (at_ ++ [n])) := by
  have hdir' := (hdir ▸ similar_start hsame hnot).directory
  exact ⟨hdir', similar_of_not_exists hsame hnot (fun _ => .entry hdir hsearch)
    (fun _ => .entry hdir' hsearch)⟩

/-- The way is the same up to the first entry at which the disks differ. -/
theorem Follows.similar {r : Except OsError Place} (h : Follows d.get? true links steps at_ r)
    (hnot : ¬ ∃ e, E e ∧ d.Meets e links steps at_ ∧ d'.Meets e links steps at_) :
    Follows d'.get? true links steps at_ r ∧
      ∀ q, r = .ok (.existing q) → Similar (d.get? q) (d'.get? q) := by
  induction h with
  | arrived =>
    refine ⟨.arrived, fun q hq => ?_⟩
    cases hq
    exact similar_start hsame hnot
  | missing hat => exact ⟨.missing ((hat ▸ similar_start hsame hnot).eq_none_iff.mp rfl), by simp⟩
  | notDirectory hat hx =>
    obtain ⟨x', hat', hx'⟩ := (hat ▸ similar_start hsame hnot).exists_not_directory hx
    exact ⟨.notDirectory hat' hx', by simp⟩
  | closed hdir hclosed => exact ⟨.closed (hdir ▸ similar_start hsame hnot).directory hclosed, by simp⟩
  | here hdir hsearch _ ih =>
    have hdir' := (hdir ▸ similar_start hsame hnot).directory
    refine (ih ?_).imp_left (.here hdir' hsearch)
    rintro ⟨e, he, hm, hm'⟩
    exact hnot ⟨e, he, .here hdir hsearch hm, .here hdir' hsearch hm'⟩
  | up hdir hsearch _ ih =>
    have hdir' := (hdir ▸ similar_start hsame hnot).directory
    refine (ih ?_).imp_left (.up hdir' hsearch)
    rintro ⟨e, he, hm, hm'⟩
    exact hnot ⟨e, he, .up hdir hsearch hm, .up hdir' hsearch hm'⟩
  | tooLong hdir hsearch =>
    exact ⟨.tooLong (hdir ▸ similar_start hsame hnot).directory hsearch, by simp⟩
  | vacant hdir hsearch hn =>
    obtain ⟨hdir', hn'⟩ := similar_name hsame hnot hdir hsearch
    exact ⟨.vacant hdir' hsearch ((hn ▸ hn').eq_none_iff.mp rfl), by simp⟩
  | absent hdir hsearch hn hrest =>
    obtain ⟨hdir', hn'⟩ := similar_name hsame hnot hdir hsearch
    exact ⟨.absent hdir' hsearch ((hn ▸ hn').eq_none_iff.mp rfl) hrest, by simp⟩
  | name hdir hsearch hn hlink _ ih =>
    obtain ⟨hdir', hn'⟩ := similar_name hsame hnot hdir hsearch
    obtain ⟨x', hx', hlink'⟩ := (hn ▸ hn').exists_not_link hlink
    refine (ih ?_).imp_left (.name hdir' hsearch hx' hlink')
    rintro ⟨e, he, hm, hm'⟩
    exact hnot ⟨e, he, .name hdir hsearch hn hlink hm, .name hdir' hsearch hx' hlink' hm'⟩
  | lastLink _ _ _ hlast => cases hlast
  | exhausted hdir hsearch hn hgo =>
    obtain ⟨hdir', hn'⟩ := similar_name hsame hnot hdir hsearch
    exact ⟨.exhausted hdir' hsearch (hn ▸ hn').link hgo, by simp⟩
  | link hdir hsearch hn hgo _ ih =>
    obtain ⟨hdir', hn'⟩ := similar_name hsame hnot hdir hsearch
    have hlink := (hn ▸ hn').link
    refine (ih ?_).imp_left (.link hdir' hsearch hlink hgo)
    rintro ⟨e, he, hm, hm'⟩
    exact hnot ⟨e, he, .link hdir hsearch hn hm, .link hdir' hsearch hlink hm'⟩

theorem follow_eq_of_not_meets (links : Nat) (steps : List PathStep) (at_ : RealPath)
    (hnot : ¬ ∃ e, E e ∧ d.Meets e links steps at_ ∧ d'.Meets e links steps at_) :
    d.follow true links steps at_ = d'.follow true links steps at_ ∧
      ∀ q, d.follow true links steps at_ = .ok (.existing q) → Similar (d.get? q) (d'.get? q) :=
  (Follows.similar hsame (d.follows true links steps at_) hnot).imp_left fun h => h.eq.symm

/-- A path leads to the same place on both disks, unless an entry at which they differ is passed on both. -/
theorem realPath_eq_of_not_passes (hstart : p.isAbsolute = true ∨ d'.workingDir = d.workingDir)
    (hnot : ¬ ∃ e, E e ∧ d.Passes p e ∧ d'.Passes p e) :
    d.realPath p = d'.realPath p ∧
      ∀ q, d.realPath p = .ok q → Similar (d.get? q) (d'.get? q) := by
  have hfrom : (if p.isAbsolute then [] else d'.workingDir) =
      if p.isAbsolute then [] else d.workingDir := by
    rcases hstart with h | h <;> simp [h]
  by_cases hnul : 0 ∈ p.bytes
  · simp [realPath, locate, hnul, Except.bind]
  by_cases hlong : pathLimit ≤ p.length
  · by_cases hnil : p.bytes = [] <;> simp [realPath, locate, hnul, hlong, hnil, Except.bind]
  by_cases hnil : p.bytes = []
  · simp [realPath, locate, hnil, Except.bind]
  have hlocate : ∀ x : Disk, x.locate true p =
      x.follow true linkLimit p.steps (if p.isAbsolute then [] else x.workingDir) := fun x => by
    rw [locate, if_neg hnul, if_neg hnil, if_neg hlong]
  have hmeets : ¬ ∃ e, E e ∧ d.Meets e linkLimit p.steps (if p.isAbsolute then [] else d.workingDir) ∧
      d'.Meets e linkLimit p.steps (if p.isAbsolute then [] else d.workingDir) := by
    rintro ⟨e, he, hm, hm'⟩
    rw [← hfrom] at hm'
    exact hnot ⟨e, he, ⟨hnul, Nat.lt_of_not_le hlong, hm⟩, ⟨hnul, Nat.lt_of_not_le hlong, hm'⟩⟩
  obtain ⟨heq, hplace⟩ := follow_eq_of_not_meets hsame _ _ _ hmeets
  refine ⟨by rw [realPath, realPath, hlocate, hlocate, hfrom, heq], fun q hq => ?_⟩
  obtain ⟨place, hat, hreal⟩ := Except.bind_eq_ok_iff.mp hq
  rw [hlocate] at hat
  cases place with
  | vacant dir n => cases hreal
  | existing r =>
    cases hreal
    exact hplace q hat

end

/-! ## Kinds -/

/-- the kind of what stands at the end of a path -/
def kindOf : Option Entry → Except OsError Kind
  | none => .error .noEntry
  | some (.file _ _) => .ok .file
  | some (.directory _) => .ok .directory
  | some (.link _) => .error .tooManyLinks

theorem Similar.kindOf_eq {x y : Option Entry} (h : Similar x y) : kindOf x = kindOf y := by
  cases h <;> rfl

theorem stat_eq (d : Disk) (p : Path) : d.stat p = (d.realPath p).bind fun q => kindOf (d.get? q) := by
  unfold stat find
  cases d.realPath p with
  | error err => rfl
  | ok q =>
    simp only [Except.bind]
    cases d.get? q with
    | none => rfl
    | some x => cases x <;> rfl

theorem stat_eq_of_similar (hreal : d.realPath p = d'.realPath p)
    (hplace : ∀ q, d.realPath p = .ok q → Similar (d.get? q) (d'.get? q)) : d.stat p = d'.stat p := by
  rw [stat_eq, stat_eq, ← hreal]
  cases hq : d.realPath p with
  | error err => rfl
  | ok q => exact (hplace q hq).kindOf_eq

theorem directory_of_stat (h : d.stat p = .ok .directory) :
    ∃ q access, d.realPath p = .ok q ∧ d.get? q = some (.directory access) := by
  rw [stat_eq] at h
  obtain ⟨q, hreal, hkind⟩ := Except.bind_eq_ok_iff.mp h
  refine ⟨q, ?_⟩
  cases hq : d.get? q with
  | none => simp [hq, kindOf] at hkind
  | some x =>
    cases x with
    | directory access => exact ⟨access, hreal, rfl⟩
    | file access bytes => simp [hq, kindOf] at hkind
    | link target => simp [hq, kindOf] at hkind

theorem list_of_directory {access : Access} (hreal : d.realPath p = .ok q)
    (hdir : d.get? q = some (.directory access)) :
    d.list p = if access.read then .ok ((d.childNames q).mergeSort FileName.le)
      else .error .permissionDenied := by
  unfold list
  rw [find_eq_ok_iff.mpr ⟨hreal, hdir⟩]
  rfl

/-! ## One name further -/

/-- Where steps lead to a directory that may be searched, one name further the entry there is met. -/
theorem Leads.meets_snoc {k : Nat} {access : Access} (h : d.Leads at_ steps k q)
    (hdir : d.get? q = some (.directory access)) (hsearch : access.search = true)
    (hin : isWithin e (q ++ [n]) = true) (left : Nat) :
    d.Meets e (k + left) (steps ++ [.name n]) at_ := by
  induction h with
  | arrived => exact .entry hdir hsearch hin
  | here hat hopen _ ih => exact .here hat hopen (ih hdir hin)
  | up hat hopen _ ih => exact .up hat hopen (ih hdir hin)
  | name hat hopen hm hlink _ ih => exact .name hat hopen hm hlink (ih hdir hin)
  | link hat hopen hm _ ih =>
    have hrest := ih hdir hin
    rw [List.append_assoc] at hrest
    rw [Nat.add_right_comm]
    exact .link hat hopen hm hrest

theorem meets_snoc {access : Access} (h : d.follow true links steps at_ = .ok (.existing q))
    (hdir : d.get? q = some (.directory access)) (hsearch : access.search = true)
    (hin : isWithin e (q ++ [n]) = true) : d.Meets e links (steps ++ [.name n]) at_ := by
  obtain ⟨k, hk, h⟩ := follow_eq_ok_iff.mp h
  rw [← Nat.add_sub_of_le hk]
  exact h.meets_snoc hdir hsearch hin (links - k)

/-- A slash at the end leads nowhere else. -/
theorem follow_of_append_here (h : d.follow true links (steps ++ [.here]) at_ = .ok (.existing q)) :
    d.follow true links steps at_ = .ok (.existing q) := by
  obtain ⟨k, hk, h⟩ := follow_eq_ok_iff.mp h
  obtain ⟨i, j, m, hsteps, hhere, rfl⟩ := h.split
  cases hhere with
  | here _ _ hend =>
    cases hend
    exact follow_eq_ok_iff.mpr ⟨i, hk, hsteps⟩

/-- Who can look at a name in a directory passes the entry there. -/
theorem passes_join {access : Access} {k : Kind} (hreal : d.realPath p = .ok q)
    (hdir : d.get? q = some (.directory access)) (hstat : d.stat (p.join n) = .ok k)
    (hin : isWithin e (q ++ [n]) = true) : d.Passes (p.join n) e := by
  obtain ⟨⟨r, x⟩, hfind, -⟩ := Except.bind_eq_ok_iff.mp hstat
  obtain ⟨hnul, -, hjoin⟩ := follow_of_find hfind
  obtain ⟨-, -, hfollow⟩ := follow_of_find (find_eq_ok_iff.mpr ⟨hreal, hdir⟩)
  refine ⟨hnul, length_lt_of_stat hstat, ?_⟩
  rw [follow_steps_join, Path.isAbsolute_join] at hjoin
  rw [steps_join, Path.isAbsolute_join]
  have hsearch : access.search = true := by
    obtain ⟨left, hleft⟩ := follow_append hfollow
    by_contra hclosed
    rw [hleft, (Follows.closed hdir (by simpa using hclosed)).eq] at hjoin
    cases hjoin
  refine meets_snoc ?_ hdir hsearch hin
  rw [Path.steps] at hfollow
  split at hfollow
  · exact follow_of_append_here hfollow
  · rwa [List.append_nil] at hfollow

/-! ## Plain files -/

/-- At the entry there is a plain file or nothing, and nothing is below it. -/
def AtMostFile (d : Disk) (e : RealPath) : Prop :=
  ∀ q x, isWithin e q = true → d.get? q = some x → q = e ∧ ∃ access bytes, x = .file access bytes

theorem AtMostFile.follow_start (h : d.AtMostFile e) (hin : isWithin e at_ = true)
    (hq : d.follow true links steps at_ = .ok (.existing q)) : q = at_ := by
  cases steps with
  | nil =>
    rw [follow_nil] at hq
    cases hq
    rfl
  | cons step rest =>
    cases hat : d.get? at_ with
    | none =>
      rw [(Follows.missing hat).eq] at hq
      cases hq
    | some x =>
      obtain ⟨-, access, bytes, rfl⟩ := h _ _ hin hat
      rw [(Follows.notDirectory hat (by simp)).eq] at hq
      cases hq

/-- A way that meets a plain file ends there. -/
theorem AtMostFile.isWithin_of_meets (h : d.AtMostFile e) (hm : d.Meets e links steps at_)
    (hq : d.follow true links steps at_ = .ok (.existing q)) : isWithin e q = true := by
  induction hm with
  | start hin => rwa [h.follow_start hin hq]
  | @entry links rest at_ n access hdir hsearch hin =>
    cases hn : d.get? (at_ ++ [n]) with
    | none =>
      cases rest with
      | nil =>
        rw [(Follows.vacant hdir hsearch hn).eq] at hq
        cases hq
      | cons step rest =>
        rw [(Follows.absent hdir hsearch hn (List.cons_ne_nil step rest)).eq] at hq
        cases hq
    | some x =>
      obtain ⟨-, access, bytes, rfl⟩ := h _ _ hin hn
      rw [follow_name_cons hdir hsearch hn (by simp)] at hq
      rwa [h.follow_start hin hq]
  | here hdir hsearch _ ih =>
    rw [follow_here_cons hdir hsearch] at hq
    exact ih hq
  | up hdir hsearch _ ih =>
    rw [follow_up_cons hdir hsearch] at hq
    exact ih hq
  | name hdir hsearch hn hlink _ ih =>
    rw [follow_name_cons hdir hsearch hn hlink] at hq
    exact ih hq
  | link hdir hsearch hn _ ih =>
    rw [follow_link_cons hdir hsearch hn] at hq
    exact ih hq

theorem AtMostFile.realPath_of_passes {x : Entry} (h : d.AtMostFile e) (hp : d.Passes p e)
    (hreal : d.realPath p = .ok q) (hq : d.get? q = some x) :
    q = e ∧ ∃ access bytes, x = .file access bytes := by
  obtain ⟨-, -, hfollow⟩ := follow_of_find (find_eq_ok_iff.mpr ⟨hreal, hq⟩)
  exact h q x (h.isWithin_of_meets hp.meets hfollow) hq

end Disk

end CannedApi
