import CannedApi.Proofs.Disk.Listing
import CannedApi.Proofs.Disk.PathOrder

/-!
# Going down by one name

What a path leads to inside a directory follows from the directory and the entry there, unless that is a
link (`Disk.find_join`): the way to the directory need not be looked at again.
-/

namespace CannedApi

namespace Disk

variable {d : Disk} {links : Nat} {steps : List PathStep} {at_ dir : RealPath} {n : FileName}

/-! ## Steps after steps -/

/-- Where steps have led to a place, further steps go on from there. -/
theorem follow_append (h : d.follow true links steps at_ = .ok (.existing dir)) :
    ∃ left, ∀ more, d.follow true links (steps ++ more) at_ = d.follow true left more dir := by
  obtain ⟨k, hk, h⟩ := follow_eq_ok_iff.mp h
  refine ⟨links - k, fun more => ?_⟩
  rw [← h.follow_append (links - k) more, Nat.add_sub_of_le hk]

/-- Where steps have led to nothing that is there, no step leads further. -/
theorem follow_append_of_stuck (h : ∀ q, d.follow true links steps at_ ≠ .ok (.existing q)) :
    ∃ err, ∀ more, more ≠ [] → d.follow true links (steps ++ more) at_ = .error err := by
  have hfollows := d.follows true links steps at_
  generalize d.follow true links steps at_ = r at h hfollows
  induction hfollows with
  | arrived => exact absurd rfl (h _)
  | missing hat => exact ⟨_, fun more _ => (Follows.missing hat).eq⟩
  | notDirectory hat hx => exact ⟨_, fun more _ => (Follows.notDirectory hat hx).eq⟩
  | closed hdir hclosed => exact ⟨_, fun more _ => (Follows.closed hdir hclosed).eq⟩
  | tooLong hdir hsearch => exact ⟨_, fun more _ => (Follows.tooLong hdir hsearch).eq⟩
  | vacant hdir hsearch hn => exact ⟨_, fun more hmore => (Follows.absent hdir hsearch hn hmore).eq⟩
  | absent hdir hsearch hn hrest =>
    exact ⟨_, fun more _ => (Follows.absent hdir hsearch hn (List.append_ne_nil_of_left_ne_nil hrest more)).eq⟩
  | lastLink _ _ _ hlast => cases hlast
  | exhausted hdir hsearch hn => exact ⟨_, fun more _ => (Follows.exhausted hdir hsearch hn (.inl rfl)).eq⟩
  | here hdir hsearch _ ih =>
    obtain ⟨err, herr⟩ := ih h
    exact ⟨err, fun more hmore => (follow_here_cons hdir hsearch _).trans (herr more hmore)⟩
  | up hdir hsearch _ ih =>
    obtain ⟨err, herr⟩ := ih h
    exact ⟨err, fun more hmore => (follow_up_cons hdir hsearch _).trans (herr more hmore)⟩
  | name hdir hsearch hn hlink _ ih =>
    obtain ⟨err, herr⟩ := ih h
    exact ⟨err, fun more hmore => (follow_name_cons hdir hsearch hn hlink _).trans (herr more hmore)⟩
  | link hdir hsearch hn _ _ ih =>
    obtain ⟨err, herr⟩ := ih h
    refine ⟨err, fun more hmore => (follow_link_cons hdir hsearch hn _).trans ?_⟩
    rw [List.append_eq, ← List.append_assoc]
    exact herr more hmore

/-- A step that stays where it is asks for nothing that the next step does not ask for. -/
theorem follow_here (d : Disk) (links : Nat) (step : PathStep) (rest : List PathStep) (at_ : RealPath) :
    d.follow true links (.here :: step :: rest) at_ = d.follow true links (step :: rest) at_ := by
  cases hdir : d.get? at_ with
  | none => rw [(Follows.missing hdir).eq, (Follows.missing hdir).eq]
  | some e =>
    cases e with
    | file access content =>
      rw [(Follows.notDirectory hdir (by simp)).eq, (Follows.notDirectory hdir (by simp)).eq]
    | link target =>
      rw [(Follows.notDirectory hdir (by simp)).eq, (Follows.notDirectory hdir (by simp)).eq]
    | directory access =>
      cases hsearch : access.search with
      | true => rw [follow_here_cons hdir hsearch]
      | false => rw [(Follows.closed hdir hsearch).eq, (Follows.closed hdir hsearch).eq]

theorem follow_append_here (d : Disk) (links : Nat) (steps : List PathStep) (step : PathStep)
    (at_ : RealPath) :
    d.follow true links (steps ++ [.here, step]) at_ = d.follow true links (steps ++ [step]) at_ := by
  by_cases hplace : ∃ q, d.follow true links steps at_ = .ok (.existing q)
  · obtain ⟨q, hq⟩ := hplace
    obtain ⟨left, hleft⟩ := follow_append hq
    rw [hleft, hleft, follow_here]
  · obtain ⟨err, herr⟩ := follow_append_of_stuck fun q hq => hplace ⟨q, hq⟩
    rw [herr _ (by simp), herr _ (by simp)]

/-! ## Paths that end in a name -/

theorem ofPiece_bytes (n : FileName) : PathStep.ofPiece n.bytes = .name n := by
  rw [PathStep.ofPiece, dif_pos n.legal]

theorem steps_join (p : Path) (n : FileName) :
    (p.join n).steps = p.pieces.map .ofPiece ++ [.name n] := by
  have hlast : (p.join n).bytes.getLast? ≠ some slash := by
    have hn : n.bytes.getLast? ≠ some slash := fun h => n.legal.2.1 (List.mem_of_mem_getLast? h)
    unfold Path.join
    split
    · rwa [List.getLast?_append_of_ne_nil _ n.ne_nil]
    · obtain ⟨c, cs, hc⟩ := List.exists_cons_of_ne_nil n.ne_nil
      rw [hc] at hn
      simpa [hc] using hn
  rw [Path.steps, if_neg hlast, Path.pieces_join, List.map_append, List.append_nil, List.map_singleton,
    ofPiece_bytes]

/-- The last name of a path is one step from the place to which the rest of the path leads. -/
theorem follow_steps_join (d : Disk) (links : Nat) (p : Path) (n : FileName) (at_ : RealPath) :
    d.follow true links (p.join n).steps at_ = d.follow true links (p.steps ++ [.name n]) at_ := by
  rw [steps_join, Path.steps]
  split
  · rw [List.append_assoc]
    exact (follow_append_here d links _ _ at_).symm
  · rw [List.append_nil]

/-- what a name leads to in a directory with the entry `e`, given the entry that has the name -/
def enter (e : Entry) (inside : Option Entry) : Except OsError Entry :=
  match e with
  | .directory access =>
    if access.search then
      match inside with
      | none => .error .noEntry
      | some e => .ok e
    else .error .permissionDenied
  | _ => .error .notDirectory

theorem enter_cases (e : Entry) : (∃ err, ∀ inside, enter e inside = .error err) ∨
    ∀ inside, enter e inside = inside.elim (.error .noEntry) .ok := by
  cases e with
  | file access content => exact Or.inl ⟨_, fun _ => rfl⟩
  | link target => exact Or.inl ⟨_, fun _ => rfl⟩
  | directory access =>
    cases hsearch : access.search with
    | false => exact Or.inl ⟨.permissionDenied, fun inside => by simp [enter, hsearch]⟩
    | true => exact Or.inr fun inside => by cases inside <;> simp [enter, hsearch]

/-- the entry at a place, with its real path -/
def entryOf (d : Disk) : Place → Except OsError (RealPath × Entry)
  | .existing q =>
    match d.get? q with
    | some e => .ok (q, e)
    | none => .error .noEntry
  | .vacant _ _ => .error .noEntry

theorem find_eq (d : Disk) (p : Path) : d.find p = (d.locate true p).bind d.entryOf := by
  unfold find realPath
  cases d.locate true p with
  | error e => rfl
  | ok place => cases place <;> rfl

theorem entryOf_follow_name {e : Entry} (hdir : d.get? dir = some e)
    (hlink : ∀ target, d.get? (dir ++ [n]) ≠ some (.link target)) (links : Nat) :
    (d.follow true links [.name n] dir).bind d.entryOf =
      (enter e (d.get? (dir ++ [n]))).map fun e' => (dir ++ [n], e') := by
  cases e with
  | file access content | link target =>
    rw [(Follows.notDirectory hdir (by simp)).eq]
    rfl
  | directory access =>
    cases hsearch : access.search with
    | false =>
      rw [(Follows.closed hdir hsearch).eq]
      simp [enter, hsearch, Except.bind, Except.map]
    | true =>
      cases hn : d.get? (dir ++ [n]) with
      | none =>
        rw [(Follows.vacant hdir hsearch hn).eq]
        simp [enter, hsearch, entryOf, Except.bind, Except.map]
      | some e =>
        cases e with
        | link target => exact absurd hn (hlink target)
        | file access content | directory access =>
          rw [follow_name_cons hdir hsearch hn (by simp), follow_nil]
          simp [enter, hsearch, entryOf, Except.bind, Except.map, hn]

theorem find_eq_ok_iff {d : Disk} {p : Path} {r : RealPath} {e : Entry} :
    d.find p = .ok (r, e) ↔ d.realPath p = .ok r ∧ d.get? r = some e := by
  unfold find
  rw [Except.bind_eq_ok_iff]
  constructor
  · rintro ⟨q, hq, h⟩
    cases hg : d.get? q with
    | none => simp [hg] at h
    | some e' =>
      simp only [hg, Except.ok.injEq, Prod.mk.injEq] at h
      obtain ⟨rfl, rfl⟩ := h
      exact ⟨hq, hg⟩
  · rintro ⟨hq, hg⟩
    exact ⟨r, hq, by simp [hg]⟩

/-- What is found was come to by the steps of the path. -/
theorem follow_of_find {p : Path} {e : Entry} (h : d.find p = .ok (dir, e)) :
    0 ∉ p.bytes ∧ d.get? dir = some e ∧
      d.follow true linkLimit p.steps (if p.isAbsolute then [] else d.workingDir) =
        .ok (.existing dir) := by
  obtain ⟨hreal, hentry⟩ := find_eq_ok_iff.mp h
  obtain ⟨place, hlocate, hplace⟩ := Except.bind_eq_ok_iff.mp hreal
  obtain rfl : place = .existing dir := by
    cases place with
    | vacant q m => cases hplace
    | existing q => rw [Except.ok.inj hplace]
  unfold locate at hlocate
  split at hlocate
  · cases hlocate
  · rename_i hnul
    split at hlocate
    · cases hlocate
    · split at hlocate
      · cases hlocate
      · exact ⟨hnul, hentry, hlocate⟩

/-- **What is found in a directory** follows from the entry of the directory and from what stands there,
if that is no link and the path does not get too long. -/
theorem find_join {p : Path} {e : Entry} (hp : d.find p = .ok (dir, e))
    (hlink : ∀ target, d.get? (dir ++ [n]) ≠ some (.link target)) :
    d.find (p.join n) =
      if pathLimit ≤ (p.join n).length then .error .nameTooLong
      else (enter e (d.get? (dir ++ [n]))).map fun e' => (dir ++ [n], e') := by
  obtain ⟨hnul, hdir, hfollow⟩ := follow_of_find hp
  obtain ⟨left, hleft⟩ := follow_append hfollow
  have hnul' : 0 ∉ (p.join n).bytes := by
    have hn : 0 ∉ n.bytes := n.legal.2.2.1
    unfold Path.join
    split <;> simp [hnul, hn, slash]
  have hne : (p.join n).bytes ≠ [] := by
    have hlength := Path.length_lt_join p n
    intro h
    rw [Path.length, Path.length, h] at hlength
    cases hlength
  rw [find_eq, locate, if_neg hnul', if_neg hne, follow_steps_join, Path.isAbsolute_join, hleft]
  split
  · rfl
  · exact entryOf_follow_name hdir hlink left

end Disk

end CannedApi
