import CannedApi.Mock.Basic
import CannedApi.Proofs.Disk.Listing
import CannedApi.Proofs.Disk.Twins
import CannedApi.Proofs.Except

/-!
# Settings are split off, and nothing else

The settings are taken out of an object at whatever place they stand, and the other entries keep their order; of the
settings, status and delay are taken out likewise.  Reading the settings ends in one of three ways
(`MockSettings.ofJson_cases`): with a status that cannot be, else with a delay that cannot be, else with an answer.
So an answer loses nothing (`Mock.ofJson_split`).
-/

namespace CannedApi

/-! ## Taking entries out -/

namespace Entries

variable {κ α : Type} [DecidableEq κ]

theorem erase_eq_filter {l : Entries κ α} (hl : Distinct l) (k : κ) :
    erase l k = l.filter fun p => decide (p.1 ≠ k) := by
  induction l with
  | nil => rfl
  | cons p rest ih =>
    obtain ⟨k', v⟩ := p
    obtain ⟨hk', hrest⟩ := List.nodup_cons.mp hl
    by_cases h : k' = k
    · subst h
      have hall : rest.filter (fun p => decide (p.1 ≠ k')) = rest := by
        apply List.filter_eq_self.mpr
        intro p hp
        rw [decide_eq_true_eq]
        intro e
        exact hk' (e ▸ List.mem_map.mpr ⟨p, hp, rfl⟩)
      rw [erase, if_pos rfl, List.filter_cons_of_neg (by simp), hall]
    · rw [erase, if_neg h, ih hrest, List.filter_cons_of_pos (by simpa using h)]

theorem distinct_erase {l : Entries κ α} (hl : Distinct l) (k : κ) : Distinct (erase l k) := by
  rw [erase_eq_filter hl]
  exact (List.filter_sublist.map Prod.fst).nodup hl

theorem get?_insert {a : Entries κ α} {k : κ} (h : k ∉ keys a) (v : α) (b : Entries κ α) :
    get? (a ++ (k, v) :: b) k = some v := by
  induction a with
  | nil => simp [get?]
  | cons p rest ih =>
    rw [keys, List.map_cons, List.mem_cons, not_or] at h
    rw [List.cons_append, get?, if_neg (Ne.symm h.1), ih h.2]

end Entries

/-! ## What an object holds -/

namespace Json

/-- No key stands twice in the value, if it is an object. -/
def KeysDistinct : Json → Prop
  | .object entries => Entries.Distinct entries
  | _ => True

/-- The value is an object that has `v` under the key. -/
def Holds (c : Json) (k : String) (v : Json) : Prop := ∃ entries, c = .object entries ∧ (k, v) ∈ entries

variable {c v w : Json} {k : String}

theorem holds_iff (hc : c.KeysDistinct) : c.Holds k v ↔ c.get? k = some v := by
  cases c with
  | object entries =>
    have hdistinct : Entries.Distinct entries := hc
    show _ ↔ Entries.get? entries k = some v
    rw [Entries.get?_eq_some_iff hdistinct]
    constructor
    · rintro ⟨_, e, hmem⟩
      exact Json.object.inj e ▸ hmem
    · intro hmem
      exact ⟨entries, rfl, hmem⟩
  | _ =>
    constructor
    · rintro ⟨_, e, -⟩
      cases e
    · intro h
      cases h

theorem Holds.unique (hc : c.KeysDistinct) (hv : c.Holds k v) (hw : c.Holds k w) : v = w := by
  rw [holds_iff hc] at hv hw
  exact Option.some.inj (hv.symm.trans hw)

end Json

/-! ## Reading settings -/

namespace MockSettings

/-- What may stand as a status: nothing, zero, or a whole number of three digits. -/
def IsStatus : Json → Prop
  | .null => True
  | .number (.whole n _) => n = 0 ∨ 100 ≤ n ∧ n ≤ 999
  | _ => False

/-- What may stand as a delay: nothing or any number. -/
def IsDelay : Json → Prop
  | .null => True
  | .number _ => True
  | _ => False

/-- the status that a value asks for, if it is one -/
def askedStatus : Json → Option Nat
  | .number (.whole n _) => if n = 0 then .none else some n.toNat
  | _ => .none

/-- the settings beside status and delay -/
def others : Json → Entries String Json
  | .object entries => entries.filter fun p => decide (p.1 ≠ "status" ∧ p.1 ≠ "delay")
  | _ => []

section
variable {v c : Json}

theorem readStatus_whole {k : Nat} (hk : IsWhole k) : readStatus (some (.number (.whole k hk))) =
    if k = 0 then .ok .none else if 100 ≤ k ∧ k ≤ 999 then .ok (some k)
      else .error (.status (.number (.whole k hk))) := by
  have hnat : (Json.number (.whole k hk)).asNat? = some k := by simp [Json.asNat?]
  simp only [readStatus, hnat]
  cases k <;> rfl

theorem readStatus_of_isStatus (h : IsStatus v) : readStatus (some v) = .ok (askedStatus v) := by
  cases v with
  | null => rfl
  | number x =>
    cases x with
    | whole n hn =>
      have hstatus : n = 0 ∨ 100 ≤ n ∧ n ≤ 999 := h
      obtain ⟨k, rfl⟩ : ∃ k : Nat, n = k := ⟨n.toNat, by omega⟩
      rw [readStatus_whole]
      rcases hstatus with hzero | hrange
      · have hk : k = 0 := by omega
        simp [askedStatus, hk]
      · have hk : k ≠ 0 := by omega
        have hrange : 100 ≤ k ∧ k ≤ 999 := by omega
        simp [askedStatus, hk, hrange]
    | double => exact h.elim
  | _ => exact h.elim

theorem readStatus_of_not_isStatus (h : ¬ IsStatus v) : readStatus (some v) = .error (.status v) := by
  cases v with
  | null => exact absurd trivial h
  | number x =>
    cases x with
    | whole n hn =>
      have hstatus : ¬ (n = 0 ∨ 100 ≤ n ∧ n ≤ 999) := h
      cases n with
      | ofNat k =>
        have hk : k ≠ 0 := fun e => hstatus (Or.inl (by simp [e]))
        have hrange : ¬ (100 ≤ k ∧ k ≤ 999) := by
          intro hrange
          exact hstatus (Or.inr ⟨Int.ofNat_le.mpr hrange.1, Int.ofNat_le.mpr hrange.2⟩)
        have hread := readStatus_whole hn
        rw [if_neg hk, if_neg hrange] at hread
        exact hread
      | negSucc k => rfl
    | double => rfl
  | _ => rfl

theorem readStatus_of_good {o : Option Json} (h : ∀ v, o = some v → IsStatus v) :
    readStatus o = .ok (o.bind askedStatus) := by
  cases o with
  | none => rfl
  | some v => exact readStatus_of_isStatus (h v rfl)

theorem exists_readDelay {o : Option Json} (h : ∀ v, o = some v → IsDelay v) :
    ∃ delay, readDelay o = .ok delay := by
  cases o with
  | none => exact ⟨_, rfl⟩
  | some v =>
    cases v with
    | null => exact ⟨_, rfl⟩
    | number x => exact ⟨_, rfl⟩
    | _ => exact (h _ rfl).elim

theorem readDelay_of_not_isDelay (h : ¬ IsDelay v) : readDelay (some v) = .error (.delay v) := by
  cases v with
  | null => exact absurd trivial h
  | number x => exact absurd trivial h
  | _ => rfl

theorem ofJson_eq (hc : c.KeysDistinct) :
    ofJson c = (readStatus (c.get? "status")).bind fun status =>
      (readDelay (c.get? "delay")).map fun delay => ⟨status, delay, others c⟩ := by
  cases c with
  | object entries =>
    have hdistinct : Entries.Distinct entries := hc
    have hothers : Entries.erase (Entries.erase entries "status") "delay" = others (.object entries) := by
      rw [Entries.erase_eq_filter (Entries.distinct_erase hdistinct "status"),
        Entries.erase_eq_filter hdistinct, List.filter_filter, others]
      congr 1
      funext p
      rw [Bool.and_comm, Bool.decide_and]
    rw [← hothers]
    rfl
  | _ => rfl

/-- Reading settings ends with the status if that cannot be, else with the delay if that cannot be, else well. -/
theorem ofJson_cases (hc : c.KeysDistinct) :
    (∃ v, c.Holds "status" v ∧ ¬ IsStatus v ∧ ofJson c = .error (.status v)) ∨
    ((∀ v, c.Holds "status" v → IsStatus v) ∧
      ∃ v, c.Holds "delay" v ∧ ¬ IsDelay v ∧ ofJson c = .error (.delay v)) ∨
    ((∀ v, c.Holds "status" v → IsStatus v) ∧ (∀ v, c.Holds "delay" v → IsDelay v) ∧
      ∃ delay, readDelay (c.get? "delay") = .ok delay ∧
        ofJson c = .ok ⟨(c.get? "status").bind askedStatus, delay, others c⟩) := by
  rw [ofJson_eq hc]
  simp only [Json.holds_iff hc]
  by_cases hstatus : ∀ v, c.get? "status" = some v → IsStatus v
  · rw [readStatus_of_good hstatus]
    by_cases hdelay : ∀ v, c.get? "delay" = some v → IsDelay v
    · right; right
      obtain ⟨delay, hread⟩ := exists_readDelay hdelay
      refine ⟨hstatus, hdelay, delay, hread, ?_⟩
      rw [hread]
      rfl
    · right; left
      obtain ⟨v, hv⟩ := not_forall.mp hdelay
      obtain ⟨hget, hbad⟩ := Classical.not_imp.mp hv
      refine ⟨hstatus, v, hget, hbad, ?_⟩
      rw [hget, readDelay_of_not_isDelay hbad]
      rfl
  · left
    obtain ⟨v, hv⟩ := not_forall.mp hstatus
    obtain ⟨hget, hbad⟩ := Classical.not_imp.mp hv
    refine ⟨v, hget, hbad, ?_⟩
    rw [hget, readStatus_of_not_isStatus hbad]
    rfl

theorem ofJson_eq_status_iff (hc : c.KeysDistinct) :
    ofJson c = .error (.status v) ↔ c.Holds "status" v ∧ ¬ IsStatus v := by
  rcases ofJson_cases hc with ⟨w, hw, hbad, hread⟩ | ⟨hgood, w, -, -, hread⟩ | ⟨hgood, -, delay, -, hread⟩
  · rw [hread]
    constructor
    · intro e
      cases e
      exact ⟨hw, hbad⟩
    · rintro ⟨hv, -⟩
      rw [hv.unique hc hw]
  · rw [hread]
    refine ⟨fun e => ?_, fun h => absurd (hgood v h.1) h.2⟩
    cases e
  · rw [hread]
    refine ⟨fun e => ?_, fun h => absurd (hgood v h.1) h.2⟩
    cases e

theorem ofJson_eq_delay_iff (hc : c.KeysDistinct) : ofJson c = .error (.delay v) ↔
    (∀ w, c.Holds "status" w → IsStatus w) ∧ c.Holds "delay" v ∧ ¬ IsDelay v := by
  rcases ofJson_cases hc with ⟨w, hw, hbad, hread⟩ | ⟨hgood, w, hw, hbad, hread⟩ | ⟨-, hgood, delay, -, hread⟩
  · rw [hread]
    refine ⟨fun e => ?_, fun h => absurd (h.1 w hw) hbad⟩
    cases e
  · rw [hread]
    constructor
    · intro e
      cases e
      exact ⟨hgood, hw, hbad⟩
    · rintro ⟨-, hv, -⟩
      rw [hv.unique hc hw]
  · rw [hread]
    refine ⟨fun e => ?_, fun h => absurd (hgood v h.2.1) h.2.2⟩
    cases e

theorem ofJson_of_good (hc : c.KeysDistinct) (hstatus : ∀ v, c.Holds "status" v → IsStatus v)
    (hdelay : ∀ v, c.Holds "delay" v → IsDelay v) : ∃ delay, readDelay (c.get? "delay") = .ok delay ∧
      ofJson c = .ok ⟨(c.get? "status").bind askedStatus, delay, others c⟩ := by
  rcases ofJson_cases hc with ⟨w, hw, hbad, -⟩ | ⟨-, w, hw, hbad, -⟩ | ⟨-, -, h⟩
  · exact absurd (hstatus w hw) hbad
  · exact absurd (hdelay w hw) hbad
  · exact h

end

end MockSettings

/-! ## Splitting -/

namespace MockSettings

/-- The status of the answer: the one that `c` asks for, or 200 where it has none, `null` or zero. -/
def AnswersWith (c : Json) (code : Nat) : Prop :=
  (∃ h, c.Holds "status" (.number (.whole code h)) ∧ code ≠ 0) ∨
    ((∀ v, c.Holds "status" v → v = .null ∨ v = .ofNat 0) ∧ code = 200)

theorem answersWith_asked {c : Json} (hc : c.KeysDistinct) (hstatus : ∀ v, c.Holds "status" v → IsStatus v) :
    AnswersWith c (((c.get? "status").bind askedStatus).getD 200) := by
  simp only [AnswersWith, Json.holds_iff hc] at hstatus ⊢
  cases hget : c.get? "status" with
  | none =>
    right
    exact ⟨fun v hv => by simp at hv, rfl⟩
  | some v =>
    have hv := hstatus v hget
    cases v with
    | null =>
      right
      exact ⟨fun w hw => Or.inl (Option.some.inj hw).symm, rfl⟩
    | number x =>
      cases x with
      | whole n hn =>
        have hrange : n = 0 ∨ 100 ≤ n ∧ n ≤ 999 := hv
        obtain ⟨k, rfl⟩ : ∃ k : Nat, n = k := ⟨n.toNat, by omega⟩
        by_cases hk : k = 0
        · right
          subst hk
          exact ⟨fun w hw => Or.inr (Option.some.inj hw).symm, rfl⟩
        · left
          have hcode : ((some (Json.number (.whole k hn))).bind askedStatus).getD 200 = k := by
            simp [askedStatus, hk]
          rw [hcode]
          exact ⟨hn, rfl, hk⟩
      | double => exact hv.elim
    | _ => exact hv.elim

end MockSettings

namespace Mock

open MockSettings (IsStatus IsDelay AnswersWith others)

theorem ofJson_insert {before : Entries String Json} (h : settingsKey ∉ Entries.keys before) (c : Json)
    (after : Entries String Json) : ofJson (.object (before ++ (settingsKey, c) :: after)) =
      (MockSettings.ofJson c).map fun s => ⟨.object (before ++ after), s⟩ := by
  rw [ofJson, Entries.get?_insert h, Entries.erase_insert _ _ _ _ h]

theorem ofJson_of_no_key {x : Json} (h : ∀ entries, x = .object entries → settingsKey ∉ Entries.keys entries) :
    ofJson x = .ok ⟨x, .none⟩ := by
  cases x with
  | object entries =>
    have hget := Entries.get?_eq_none_iff.mpr (h entries rfl)
    rw [ofJson, hget]
  | _ => rfl

/-- **The settings are split off without loss.**  Wherever the reserved key stands in an object: there is no answer
exactly if the settings have a status that cannot be, or else a delay that cannot be, and the error has that value.
Else the body is the object without the key, in its order, and the settings keep all but status and delay, in their
order; the status is the one asked for, or 200.  A value without the key is a body as it is. -/
theorem ofJson_split (before after : Entries String Json) (c : Json) (hc : c.KeysDistinct)
    (hkey : settingsKey ∉ Entries.keys (before ++ after)) :
    (∀ v, ofJson (.object (before ++ (settingsKey, c) :: after)) = .error (.status v) ↔
      c.Holds "status" v ∧ ¬ IsStatus v) ∧
    (∀ v, ofJson (.object (before ++ (settingsKey, c) :: after)) = .error (.delay v) ↔
      (∀ w, c.Holds "status" w → IsStatus w) ∧ c.Holds "delay" v ∧ ¬ IsDelay v) ∧
    ((∀ v, c.Holds "status" v → IsStatus v) → (∀ v, c.Holds "delay" v → IsDelay v) →
      ∃ s, ofJson (.object (before ++ (settingsKey, c) :: after)) = .ok ⟨.object (before ++ after), s⟩ ∧
        s.extra = others c ∧ AnswersWith c s.statusCode) ∧
    ∀ x : Json, (∀ entries, x = .object entries → settingsKey ∉ Entries.keys entries) →
      ofJson x = .ok ⟨x, .none⟩ := by
  have hbefore : settingsKey ∉ Entries.keys before := by
    intro hmem
    exact hkey (List.mem_map.mpr ((List.mem_map.mp hmem).imp fun p hp => ⟨List.mem_append_left _ hp.1, hp.2⟩))
  rw [ofJson_insert hbefore]
  refine ⟨fun v => ?_, fun v => ?_, fun hstatus hdelay => ?_, fun x hx => ofJson_of_no_key hx⟩
  · rw [Except.map_eq_error_iff]
    exact MockSettings.ofJson_eq_status_iff hc
  · rw [Except.map_eq_error_iff]
    exact MockSettings.ofJson_eq_delay_iff hc
  · obtain ⟨delay, -, hread⟩ := MockSettings.ofJson_of_good hc hstatus hdelay
    rw [hread]
    exact ⟨_, rfl, rfl, MockSettings.answersWith_asked hc hstatus⟩

/-! ## Settings between other entries -/

namespace Between

def before : Entries String Json := [("z", .ofNat 1), ("a", .object [("$config", .null)])]

def after : Entries String Json := [("b", .array [])]

theorem key_not_mem : settingsKey ∉ Entries.keys (before ++ after) := by decide

def settings : Json :=
  .object [("x", .null), ("delay", .ofNat 5), ("status", .ofNat 204), ("note", .text "kept")]

theorem settings_distinct : settings.KeysDistinct := by
  show (Entries.keys _).Nodup
  decide

/-- The double 200.0 is no status, and the text is no delay. -/
def bad : Json := .object [("delay", .text "slow"), ("status", .number (.double (.ofNat 200)))]

theorem bad_distinct : bad.KeysDistinct := by
  show (Entries.keys _).Nodup
  decide

end Between

/-- A nested key stays; of two bad values the status is told. -/
theorem ofJson_split_between :
    (∃ s, ofJson (.object (Between.before ++ (settingsKey, Between.settings) :: Between.after)) =
        .ok ⟨.object (Between.before ++ Between.after), s⟩ ∧
      s.extra = [("x", .null), ("note", .text "kept")] ∧ AnswersWith Between.settings s.statusCode) ∧
    ofJson (.object (Between.before ++ (settingsKey, Between.bad) :: Between.after)) =
      .error (.status (.number (.double (.ofNat 200)))) ∧
    ofJson (.object Between.after) = .ok ⟨.object Between.after, .none⟩ := by
  obtain ⟨-, -, hgood, hplain⟩ :=
    ofJson_split Between.before Between.after Between.settings Between.settings_distinct Between.key_not_mem
  obtain ⟨hstatus, -⟩ :=
    ofJson_split Between.before Between.after Between.bad Between.bad_distinct Between.key_not_mem
  refine ⟨hgood ?_ ?_, (hstatus _).mpr ?_, hplain _ ?_⟩
  · intro v hv
    rw [Json.holds_iff Between.settings_distinct] at hv
    cases hv
    exact Or.inr ⟨by decide, by decide⟩
  · intro v hv
    rw [Json.holds_iff Between.settings_distinct] at hv
    cases hv
    trivial
  · exact ⟨(Json.holds_iff Between.bad_distinct).mpr rfl, fun h => h.elim⟩
  · rintro entries e
    cases e
    decide

end Mock

end CannedApi
