import CannedApi.Disk.Resolve

/-!
# The way along a path

`Disk.Follows` tells how following a path goes on, step by step, in terms of what stands at single real paths;
it gives what the system gives, and nothing else (`Disk.follows`, `Disk.Follows.eq`).  `Disk.Leads` is a way that
arrives, with the number of links on it, when any number may be followed.  The system finds the end of that way
as long as these are not more than it allows (`Disk.follow_eq_ok_iff`).
-/

namespace CannedApi

namespace Disk

/-! ## What comes of following steps -/

/-- From a real path, with so many links allowed, following the steps gives a place or an error. -/
inductive Follows (look : RealPath → Option Entry) (followLast : Bool) :
    Nat → List PathStep → RealPath → Except OsError Place → Prop
  | arrived {links : Nat} {q : RealPath} : Follows look followLast links [] q (.ok (.existing q))
  | missing {links : Nat} {step : PathStep} {rest : List PathStep} {q : RealPath} (hat : look q = none) :
    Follows look followLast links (step :: rest) q (.error .noEntry)
  | notDirectory {links : Nat} {step : PathStep} {rest : List PathStep} {q : RealPath} {x : Entry}
    (hat : look q = some x) (hx : ∀ access, x ≠ .directory access) :
    Follows look followLast links (step :: rest) q (.error .notDirectory)
  | closed {links : Nat} {step : PathStep} {rest : List PathStep} {q : RealPath} {access : Access}
    (hdir : look q = some (.directory access)) (hclosed : access.search = false) :
    Follows look followLast links (step :: rest) q (.error .permissionDenied)
  | here {links : Nat} {rest : List PathStep} {q : RealPath} {access : Access} {r : Except OsError Place}
    (hdir : look q = some (.directory access)) (hsearch : access.search = true)
    (h : Follows look followLast links rest q r) : Follows look followLast links (.here :: rest) q r
  | up {links : Nat} {rest : List PathStep} {q : RealPath} {access : Access} {r : Except OsError Place}
    (hdir : look q = some (.directory access)) (hsearch : access.search = true)
    (h : Follows look followLast links rest q.dropLast r) :
    Follows look followLast links (.up :: rest) q r
  | tooLong {links : Nat} {rest : List PathStep} {q : RealPath} {access : Access}
    (hdir : look q = some (.directory access)) (hsearch : access.search = true) :
    Follows look followLast links (.tooLong :: rest) q (.error .nameTooLong)
  | vacant {links : Nat} {n : FileName} {q : RealPath} {access : Access}
    (hdir : look q = some (.directory access)) (hsearch : access.search = true)
    (hn : look (q ++ [n]) = none) : Follows look followLast links [.name n] q (.ok (.vacant q n))
  | absent {links : Nat} {n : FileName} {rest : List PathStep} {q : RealPath} {access : Access}
    (hdir : look q = some (.directory access)) (hsearch : access.search = true)
    (hn : look (q ++ [n]) = none) (hrest : rest ≠ []) :
    Follows look followLast links (.name n :: rest) q (.error .noEntry)
  | name {links : Nat} {n : FileName} {rest : List PathStep} {q : RealPath} {access : Access} {x : Entry}
    {r : Except OsError Place}
    (hdir : look q = some (.directory access)) (hsearch : access.search = true)
    (hn : look (q ++ [n]) = some x) (hlink : ∀ target, x ≠ .link target)
    (h : Follows look followLast links rest (q ++ [n]) r) :
    Follows look followLast links (.name n :: rest) q r
  | lastLink {links : Nat} {n : FileName} {q : RealPath} {access : Access} {target : Path}
    (hdir : look q = some (.directory access)) (hsearch : access.search = true)
    (hn : look (q ++ [n]) = some (.link target)) (hlast : followLast = false) :
    Follows look followLast links [.name n] q (.ok (.existing (q ++ [n])))
  | exhausted {n : FileName} {rest : List PathStep} {q : RealPath} {access : Access} {target : Path}
    (hdir : look q = some (.directory access)) (hsearch : access.search = true)
    (hn : look (q ++ [n]) = some (.link target)) (hgo : followLast = true ∨ rest ≠ []) :
    Follows look followLast 0 (.name n :: rest) q (.error .tooManyLinks)
  | link {links : Nat} {n : FileName} {rest : List PathStep} {q : RealPath} {access : Access} {target : Path}
    {r : Except OsError Place}
    (hdir : look q = some (.directory access)) (hsearch : access.search = true)
    (hn : look (q ++ [n]) = some (.link target)) (hgo : followLast = true ∨ rest ≠ [])
    (h : Follows look followLast links (target.steps ++ rest) (if target.isAbsolute then [] else q) r) :
    Follows look followLast (links + 1) (.name n :: rest) q r

section
variable {look : RealPath → Option Entry} {followLast : Bool} {d : Disk} {links : Nat}
  {steps rest : List PathStep} {at_ : RealPath} {n : FileName} {access : Access} {target : Path}

/-- a link in a searchable directory, if the ways with fewer links all give something -/
theorem exists_follows_link
    (ih : ∀ left, links = left + 1 → ∀ steps q, ∃ r, Follows look followLast left steps q r)
    (hdir : look at_ = some (.directory access)) (hsearch : access.search = true)
    (hn : look (at_ ++ [n]) = some (.link target)) (rest : List PathStep) :
    ∃ r, Follows look followLast links (.name n :: rest) at_ r := by
  by_cases hstop : rest = [] ∧ followLast = false
  · obtain ⟨rfl, hlast⟩ := hstop
    exact ⟨_, .lastLink hdir hsearch hn hlast⟩
  · have hgo : followLast = true ∨ rest ≠ [] := by
      cases followLast with
      | true => exact .inl rfl
      | false => exact .inr fun hrest => hstop ⟨hrest, rfl⟩
    cases links with
    | zero => exact ⟨_, .exhausted hdir hsearch hn hgo⟩
    | succ left =>
      obtain ⟨r, h⟩ := ih left rfl (target.steps ++ rest) (if target.isAbsolute then [] else at_)
      exact ⟨r, .link hdir hsearch hn hgo h⟩

/-- Every way comes to an end: each link takes one of those allowed, each other step takes itself. -/
theorem exists_follows (look : RealPath → Option Entry) (followLast : Bool) (links : Nat)
    (steps : List PathStep) (at_ : RealPath) : ∃ r, Follows look followLast links steps at_ r := by
  induction links using Nat.strongRecOn generalizing steps at_ with
  | ind links ihlinks =>
    have ihlink : ∀ left, links = left + 1 → ∀ steps q, ∃ r, Follows look followLast left steps q r :=
      fun left hleft => ihlinks left (hleft ▸ Nat.lt_succ_self left)
    induction steps generalizing at_ with
    | nil => exact ⟨_, .arrived⟩
    | cons step rest ih =>
      cases hat : look at_ with
      | none => exact ⟨_, .missing hat⟩
      | some x =>
        cases x with
        | file access content => exact ⟨_, .notDirectory hat (by simp)⟩
        | link target => exact ⟨_, .notDirectory hat (by simp)⟩
        | directory access =>
          cases hsearch : access.search with
          | false => exact ⟨_, .closed hat hsearch⟩
          | true =>
            cases step with
            | here => exact (ih at_).imp fun _ h => .here hat hsearch h
            | up => exact (ih at_.dropLast).imp fun _ h => .up hat hsearch h
            | tooLong => exact ⟨_, .tooLong hat hsearch⟩
            | name n =>
              cases hn : look (at_ ++ [n]) with
              | none =>
                cases rest with
                | nil => exact ⟨_, .vacant hat hsearch hn⟩
                | cons s rest => exact ⟨_, .absent hat hsearch hn (List.cons_ne_nil s rest)⟩
              | some x =>
                cases x with
                | file access content =>
                  exact (ih (at_ ++ [n])).imp fun _ h => .name hat hsearch hn (by simp) h
                | directory access =>
                  exact (ih (at_ ++ [n])).imp fun _ h => .name hat hsearch hn (by simp) h
                | link target => exact exists_follows_link ihlink hat hsearch hn rest

theorem exists_follow_eq (d : Disk) (followLast : Bool) (links : Nat) :
    ∃ onLink, d.follow followLast links = d.followWith followLast onLink := by
  cases links <;> exact ⟨_, rfl⟩

/-- The system gives what following the steps gives. -/
theorem Follows.eq {r : Except OsError Place} (h : Follows d.get? followLast links steps at_ r) :
    d.follow followLast links steps at_ = r := by
  induction h with
  | exhausted hdir hsearch hn hgo | link hdir hsearch hn hgo _ ih =>
    rcases hgo with rfl | hrest <;> simp [follow, followWith, *]
  | @notDirectory links _ _ _ x hat hx =>
    obtain ⟨onLink, h⟩ := d.exists_follow_eq followLast links
    cases x with
    | directory access => exact absurd rfl (hx access)
    | file access content => simp [h, followWith, hat]
    | link target => simp [h, followWith, hat]
  | @name links _ _ _ _ x _ hdir hsearch hn hlink _ ih =>
    obtain ⟨onLink, h⟩ := d.exists_follow_eq followLast links
    rw [h] at ih ⊢
    cases x with
    | link target => exact absurd rfl (hlink target)
    | file access content => simp [followWith, hdir, hsearch, hn, ih]
    | directory access => simp [followWith, hdir, hsearch, hn, ih]
  | @here links _ _ _ _ hdir hsearch _ ih | @up links _ _ _ _ hdir hsearch _ ih =>
    obtain ⟨onLink, h⟩ := d.exists_follow_eq followLast links
    rw [h] at ih ⊢
    simp [followWith, hdir, hsearch, ih]
  | @arrived links | @missing links | @closed links | @tooLong links | @vacant links | @absent links
  | @lastLink links =>
    obtain ⟨onLink, h⟩ := d.exists_follow_eq followLast links
    rw [h]
    simp [followWith, *]

theorem follows (d : Disk) (followLast : Bool) (links : Nat) (steps : List PathStep) (at_ : RealPath) :
    Follows d.get? followLast links steps at_ (d.follow followLast links steps at_) := by
  obtain ⟨r, h⟩ := exists_follows d.get? followLast links steps at_
  rw [h.eq]
  exact h

/-! ## One step -/

theorem follow_nil (d : Disk) (followLast : Bool) (links : Nat) (at_ : RealPath) :
    d.follow followLast links [] at_ = .ok (.existing at_) :=
  Follows.arrived.eq

section
variable (hdir : d.get? at_ = some (.directory access)) (hsearch : access.search = true)
include hdir hsearch

theorem follow_here_cons (links : Nat) :
    d.follow true links (.here :: rest) at_ = d.follow true links rest at_ :=
  (Follows.here hdir hsearch (d.follows _ _ _ _)).eq

theorem follow_up_cons (links : Nat) :
    d.follow true links (.up :: rest) at_ = d.follow true links rest at_.dropLast :=
  (Follows.up hdir hsearch (d.follows _ _ _ _)).eq

theorem follow_name_cons {x : Entry} (hn : d.get? (at_ ++ [n]) = some x)
    (hlink : ∀ target, x ≠ .link target) (links : Nat) :
    d.follow true links (.name n :: rest) at_ = d.follow true links rest (at_ ++ [n]) :=
  (Follows.name hdir hsearch hn hlink (d.follows _ _ _ _)).eq

theorem follow_link_cons (hn : d.get? (at_ ++ [n]) = some (.link target)) (links : Nat) :
    d.follow true (links + 1) (.name n :: rest) at_ =
      d.follow true links (target.steps ++ rest) (if target.isAbsolute then [] else at_) :=
  (Follows.link hdir hsearch hn (.inl rfl) (d.follows _ _ _ _)).eq

end

end

/-! ## Ways that arrive -/

/-- From one real path the steps lead to another, through so many links. -/
inductive Leads (d : Disk) : RealPath → List PathStep → Nat → RealPath → Prop
  | arrived {q : RealPath} : Leads d q [] 0 q
  | here {q r : RealPath} {rest : List PathStep} {k : Nat} {access : Access}
    (hdir : d.get? q = some (.directory access)) (hsearch : access.search = true)
    (h : Leads d q rest k r) : Leads d q (.here :: rest) k r
  | up {q r : RealPath} {rest : List PathStep} {k : Nat} {access : Access}
    (hdir : d.get? q = some (.directory access)) (hsearch : access.search = true)
    (h : Leads d q.dropLast rest k r) : Leads d q (.up :: rest) k r
  | name {q r : RealPath} {n : FileName} {rest : List PathStep} {k : Nat} {access : Access} {x : Entry}
    (hdir : d.get? q = some (.directory access)) (hsearch : access.search = true)
    (hn : d.get? (q ++ [n]) = some x) (hlink : ∀ target, x ≠ .link target)
    (h : Leads d (q ++ [n]) rest k r) : Leads d q (.name n :: rest) k r
  | link {q r : RealPath} {n : FileName} {rest : List PathStep} {k : Nat} {access : Access} {target : Path}
    (hdir : d.get? q = some (.directory access)) (hsearch : access.search = true)
    (hn : d.get? (q ++ [n]) = some (.link target))
    (h : Leads d (if target.isAbsolute then [] else q) (target.steps ++ rest) k r) :
    Leads d q (.name n :: rest) (k + 1) r

section
variable {d : Disk} {links k k' : Nat} {steps more : List PathStep} {at_ q r r' : RealPath}

theorem Leads.unique (h : d.Leads q steps k r) (h' : d.Leads q steps k' r') : k = k' ∧ r = r' := by
  induction h generalizing k' with
  | arrived =>
    cases h'
    exact ⟨rfl, rfl⟩
  | here _ _ _ ih =>
    cases h' with
    | here _ _ h' => exact ih h'
  | up _ _ _ ih =>
    cases h' with
    | up _ _ h' => exact ih h'
  | name _ _ hn hlink _ ih =>
    cases h' with
    | name _ _ _ _ h' => exact ih h'
    | link _ _ hn' _ => exact absurd (Option.some.inj (hn.symm.trans hn')) (hlink _)
  | link _ _ hn _ ih =>
    cases h' with
    | name _ _ hn' hlink _ => exact absurd (Option.some.inj (hn'.symm.trans hn)) (hlink _)
    | link _ _ hn' h' =>
      obtain rfl := Entry.link.inj (Option.some.inj (hn.symm.trans hn'))
      obtain ⟨hk, hr⟩ := ih h'
      exact ⟨congrArg (· + 1) hk, hr⟩

/-- The links on the way along steps are those on the way to a place on it and those from there. -/
theorem Leads.split (h : d.Leads q (steps ++ more) k r) :
    ∃ i j m, d.Leads q steps i m ∧ d.Leads m more j r ∧ k = i + j := by
  generalize hall : steps ++ more = all at h
  -- the place may be the start of any step of the way, also behind a link
  induction h generalizing steps with
  | arrived =>
    obtain ⟨rfl, rfl⟩ := List.append_eq_nil_iff.mp hall
    exact ⟨0, 0, _, .arrived, .arrived, rfl⟩
  | here hdir hsearch h ih =>
    cases steps with
    | nil =>
      obtain rfl : more = _ := hall
      exact ⟨0, _, _, .arrived, .here hdir hsearch h, (Nat.zero_add _).symm⟩
    | cons s steps =>
      cases hall
      obtain ⟨i, j, m, hi, hj, rfl⟩ := ih rfl
      exact ⟨i, j, m, .here hdir hsearch hi, hj, rfl⟩
  | up hdir hsearch h ih =>
    cases steps with
    | nil =>
      obtain rfl : more = _ := hall
      exact ⟨0, _, _, .arrived, .up hdir hsearch h, (Nat.zero_add _).symm⟩
    | cons s steps =>
      cases hall
      obtain ⟨i, j, m, hi, hj, rfl⟩ := ih rfl
      exact ⟨i, j, m, .up hdir hsearch hi, hj, rfl⟩
  | name hdir hsearch hn hlink h ih =>
    cases steps with
    | nil =>
      obtain rfl : more = _ := hall
      exact ⟨0, _, _, .arrived, .name hdir hsearch hn hlink h, (Nat.zero_add _).symm⟩
    | cons s steps =>
      cases hall
      obtain ⟨i, j, m, hi, hj, rfl⟩ := ih rfl
      exact ⟨i, j, m, .name hdir hsearch hn hlink hi, hj, rfl⟩
  | link hdir hsearch hn h ih =>
    cases steps with
    | nil =>
      obtain rfl : more = _ := hall
      exact ⟨0, _, _, .arrived, .link hdir hsearch hn h, (Nat.zero_add _).symm⟩
    | cons s steps =>
      cases hall
      obtain ⟨i, j, m, hi, hj, rfl⟩ := ih (List.append_assoc _ _ _)
      exact ⟨i + 1, j, m, .link hdir hsearch hn hi, hj, by omega⟩

/-- One name leads to the entry that has it, or through a link. -/
theorem Leads.cases_name {n : FileName} (h : d.Leads q [.name n] k r) : k = 0 ∧ r = q ++ [n] ∨ 0 < k := by
  cases h with
  | name _ _ _ _ h =>
    cases h
    exact .inl ⟨rfl, rfl⟩
  | link => exact .inr (Nat.succ_pos _)

theorem Follows.exists_leads (h : Follows d.get? true links steps at_ (.ok (.existing q))) :
    ∃ k, k ≤ links ∧ d.Leads at_ steps k q := by
  generalize hr : Except.ok (Place.existing q) = r at h
  induction h with
  | arrived =>
    cases hr
    exact ⟨0, Nat.zero_le _, .arrived⟩
  | here hdir hsearch _ ih =>
    obtain ⟨k, hk, h⟩ := ih hr
    exact ⟨k, hk, .here hdir hsearch h⟩
  | up hdir hsearch _ ih =>
    obtain ⟨k, hk, h⟩ := ih hr
    exact ⟨k, hk, .up hdir hsearch h⟩
  | name hdir hsearch hn hlink _ ih =>
    obtain ⟨k, hk, h⟩ := ih hr
    exact ⟨k, hk, .name hdir hsearch hn hlink h⟩
  | lastLink _ _ _ hlast => cases hlast
  | link hdir hsearch hn _ _ ih =>
    obtain ⟨k, hk, h⟩ := ih hr
    exact ⟨k + 1, Nat.succ_le_succ hk, .link hdir hsearch hn h⟩
  | missing | notDirectory | closed | tooLong | vacant | absent | exhausted => cases hr

/-- Behind a way that arrives further steps go on from its end, with the links on it spent. -/
theorem Leads.follow_append (h : d.Leads at_ steps k q) (left : Nat) (more : List PathStep) :
    d.follow true (k + left) (steps ++ more) at_ = d.follow true left more q := by
  induction h with
  | arrived => rw [Nat.zero_add, List.nil_append]
  | here hdir hsearch _ ih => rw [List.cons_append, follow_here_cons hdir hsearch, ih]
  | up hdir hsearch _ ih => rw [List.cons_append, follow_up_cons hdir hsearch, ih]
  | name hdir hsearch hn hlink _ ih => rw [List.cons_append, follow_name_cons hdir hsearch hn hlink, ih]
  | link hdir hsearch hn _ ih =>
    rw [List.cons_append, Nat.add_right_comm, follow_link_cons hdir hsearch hn, ← List.append_assoc, ih]

/-- The system goes where the steps lead if this is not through more links than it allows. -/
theorem follow_eq_ok_iff :
    d.follow true links steps at_ = .ok (.existing q) ↔ ∃ k, k ≤ links ∧ d.Leads at_ steps k q := by
  constructor
  · intro h
    have hfollows := d.follows true links steps at_
    rw [h] at hfollows
    exact hfollows.exists_leads
  · rintro ⟨k, hk, h⟩
    have hall := h.follow_append (links - k) []
    rwa [Nat.add_sub_of_le hk, List.append_nil, follow_nil] at hall

end

end Disk

end CannedApi
