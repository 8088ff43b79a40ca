import CannedApi.Proofs.Route.Ranking
import CannedApi.Proofs.Text.Spelling

/-!
# What a route binds

A route fits a list of segments place by place: a literal has the bytes of its segment, a parameter has a
segment that is not empty.  What it then binds is told by the last place of each of its parameters: parameters
are bound from the first segment on, and a name that comes again is bound anew
(`Route.matchSegments_binds`).
-/

namespace CannedApi

theorem Entries.mem_keys_put {κ α : Type} [DecidableEq κ] {l : Entries κ α} {k j : κ} {v : α} :
    j ∈ keys (put l k v) ↔ j = k ∨ j ∈ keys l := by
  rw [keys_put]
  split
  · rename_i hk
    exact ⟨Or.inr, fun h => h.elim (fun e => e ▸ hk) id⟩
  · rw [List.mem_append, List.mem_singleton, or_comm]

namespace Pattern

variable {p : Pattern} {ss : List String} {acc ps : Params} {n v : String}

/-! ## Fitting, place by place -/

theorem fits_iff_places : List.Forall₂ Segment.Fits p ss ↔ p.length = ss.length ∧
    (∀ (i : Nat) (t s : String), p[i]? = some (.literal t) → ss[i]? = some s →
      Utf8.toBytes t = Utf8.toBytes s) ∧
    (∀ (i : Nat) (n s : String), p[i]? = some (.param n) → ss[i]? = some s → s ≠ "") := by
  have hplaces : List.Forall₂ Segment.Fits p ss ↔ p.length = ss.length ∧
      ∀ (i : Nat) (seg : Segment) (s : String), p[i]? = some seg → ss[i]? = some s → seg.Fits s := by
    rw [List.forall₂_iff_get]
    refine and_congr_right fun _ => ⟨fun h i seg s hseg hs => ?_, fun h i h1 h2 => ?_⟩
    · obtain ⟨h1, rfl⟩ := List.getElem?_eq_some_iff.mp hseg
      obtain ⟨h2, rfl⟩ := List.getElem?_eq_some_iff.mp hs
      exact h i h1 h2
    · exact h i _ _ (List.getElem?_eq_getElem h1) (List.getElem?_eq_getElem h2)
  rw [hplaces]
  refine and_congr_right fun _ => ⟨fun h => ⟨fun i t s ht hs => ?_, fun i n s hn hs => ?_⟩, ?_⟩
  · exact Utf8.toBytes_inj.mpr (h i _ s ht hs)
  · exact h i _ s hn hs
  · rintro ⟨hliteral, hparam⟩ i seg s hseg hs
    cases seg with
    | literal t => exact Utf8.toBytes_inj.mp (hliteral i t s hseg hs)
    | param n => exact hparam i n s hseg hs

/-! ## The last place of a parameter -/

/-- the segment at the last place of the parameter is read as `v` -/
def Binds (p : Pattern) (ss : List String) (n v : String) : Prop :=
  ∃ (i : Nat) (s : String), p[i]? = some (.param n) ∧ (∀ j, i < j → p[j]? ≠ some (.param n)) ∧
    ss[i]? = some s ∧ Percent.ReadsAs s v

theorem not_binds_nil : ¬ Binds [] ss n v := by
  rintro ⟨i, s, hi, -⟩
  cases hi

/-- The first place counts only for a parameter that does not come again. -/
theorem binds_cons {seg : Segment} {s : String} : Binds (seg :: p) (s :: ss) n v ↔
    Binds p ss n v ∨ .param n ∉ p ∧ seg = .param n ∧ Percent.ReadsAs s v := by
  constructor
  · rintro ⟨i, t, hi, hlast, ht, hv⟩
    cases i with
    | zero =>
      refine Or.inr ⟨fun hmem => ?_, Option.some.inj hi, (Option.some.inj ht).symm ▸ hv⟩
      obtain ⟨j, hj⟩ := List.mem_iff_getElem?.mp hmem
      exact hlast (j + 1) (Nat.succ_pos j) hj
    | succ i => exact Or.inl ⟨i, t, hi, fun j hj => hlast (j + 1) (Nat.succ_lt_succ hj), ht, hv⟩
  · rintro (⟨i, t, hi, hlast, ht, hv⟩ | ⟨hmem, rfl, hv⟩)
    · refine ⟨i + 1, t, hi, fun j hj => ?_, ht, hv⟩
      cases j with
      | zero => cases hj
      | succ j => exact hlast j (Nat.lt_of_succ_lt_succ hj)
    · refine ⟨0, s, rfl, fun j hj hp => ?_, rfl, hv⟩
      cases j with
      | zero => cases hj
      | succ j => exact hmem (List.mem_iff_getElem?.mpr ⟨j, hp⟩)

/-! ## What is bound on top of what was bound -/

theorem Fills.distinct (h : p.Fills ss acc ps) (hacc : Entries.Distinct acc) : Entries.Distinct ps := by
  induction h with
  | nil => exact hacc
  | literal _ ih => exact ih hacc
  | param _ _ ih => exact ih (Entries.distinct_put hacc _ _)

theorem Fills.mem_keys (h : p.Fills ss acc ps) :
    n ∈ Entries.keys ps ↔ .param n ∈ p ∨ n ∈ Entries.keys acc := by
  induction h with
  | nil => simp
  | literal _ ih => simp [ih]
  | param _ _ ih =>
    rw [ih, Entries.mem_keys_put, List.mem_cons, Segment.param.injEq]
    tauto

/-- What the pattern binds hides what was bound before. -/
theorem Fills.get? (h : p.Fills ss acc ps) :
    Entries.get? ps n = some v ↔ p.Binds ss n v ∨ .param n ∉ p ∧ Entries.get? acc n = some v := by
  induction h with
  | nil => simp [not_binds_nil]
  | literal _ ih => simp [ih, binds_cons]
  | @param m s p ss acc ps _ _ ih =>
    rw [ih, binds_cons, Entries.get?_put, List.mem_cons, Percent.readsAs_iff, Segment.param.injEq,
      Segment.param.injEq]
    by_cases hm : m = n
    · subst hm
      simp [decodeSegment]
    · simp [hm, Ne.symm hm]

end Pattern

namespace Route

/-- **A route binds its parameters, each to what stands at its last place.**  It fits if the method is its own,
there are as many segments as it has, each literal has the bytes of its segment, and no parameter's segment is
empty.  Then the names that it binds are those of its parameters, none of them twice, and a name is bound to
the segment at its last place with the escapes undone, or as it stands if the bytes then are no text. -/
theorem matchSegments_binds (r : Route) (m : Method) (ss : List String) :
    ((r.matchSegments m ss).isSome = true ↔ r.method = m ∧ r.pattern.length = ss.length ∧
      (∀ (i : Nat) (t s : String), r.pattern[i]? = some (.literal t) → ss[i]? = some s →
        Utf8.toBytes t = Utf8.toBytes s) ∧
      (∀ (i : Nat) (n s : String), r.pattern[i]? = some (.param n) → ss[i]? = some s → s ≠ "")) ∧
    ∀ ps, r.matchSegments m ss = some ps →
      Entries.Distinct ps ∧ (∀ n, n ∈ Entries.keys ps ↔ .param n ∈ r.pattern) ∧
      ∀ n v, Entries.get? ps n = some v ↔ r.pattern.Binds ss n v := by
  constructor
  · rw [← Pattern.fits_iff_places]
    exact fits_iff
  · intro ps h
    have hfills : r.pattern.Fills ss [] ps := by
      unfold matchSegments at h
      split at h
      · exact Pattern.fills_of_bind h
      · cases h
    refine ⟨hfills.distinct List.nodup_nil, fun n => ?_, fun n v => ?_⟩
    · simpa [Entries.keys] using hfills.mem_keys
    · simpa using hfills.get?

/-! ## A name that comes twice -/

namespace Repeated

def route : Route :=
  ⟨.get, [.literal "u%20", .param "id", .param "x", .param "id"], .ofText "mocks/u.json"⟩

/-- the escape in the literal, one that leads to no text, and one that is cut off -/
def segments : List String := ["u%20", "first", "%FF%41", "caf%c3%A9%2"]

end Repeated

/-- The later segment counts; only whole escapes are undone, and none where the bytes are no text. -/
theorem matchSegments_binds_repeated :
    (∃ ps, Repeated.route.matchSegments .get Repeated.segments = some ps ∧
      Entries.get? ps "id" = some "café%2" ∧ Entries.get? ps "x" = some "%FF%41") ∧
      ¬ (Repeated.route.matchSegments .get ["u ", "first", "%FF%41", "caf%c3%A9%2"]).isSome = true := by
  obtain ⟨-, hbinds⟩ := matchSegments_binds Repeated.route .get Repeated.segments
  have hsome : (Repeated.route.matchSegments .get Repeated.segments).isSome = true := by
    refine fits_iff.mpr ⟨rfl, .cons rfl (.cons ?_ (.cons ?_ (.cons ?_ .nil)))⟩ <;>
      simp [Segment.Fits]
  have hid : Percent.ReadsAs "caf%c3%A9%2" "café%2" :=
    ⟨_, Percent.unescapes_decode _, Or.inl rfl⟩
  have hx : Percent.ReadsAs "%FF%41" "%FF%41" := Percent.readsAs_iff.mpr rfl
  constructor
  · obtain ⟨ps, hps⟩ := Option.isSome_iff_exists.mp hsome
    obtain ⟨-, -, hget⟩ := hbinds ps hps
    refine ⟨ps, hps, (hget _ _).mpr ?_, (hget _ _).mpr ?_⟩
    · refine Pattern.binds_cons.mpr (Or.inl (Pattern.binds_cons.mpr (Or.inl ?_)))
      exact Pattern.binds_cons.mpr (Or.inl (Pattern.binds_cons.mpr (Or.inr ⟨by simp, rfl, hid⟩)))
    · refine Pattern.binds_cons.mpr (Or.inl (Pattern.binds_cons.mpr (Or.inl ?_)))
      exact Pattern.binds_cons.mpr (Or.inr ⟨by simp, rfl, hx⟩)
  · intro hspace
    obtain ⟨-, -, hliteral, -⟩ := (matchSegments_binds _ _ _).1.mp hspace
    have hbytes := hliteral 0 "u%20" "u " rfl rfl
    revert hbytes
    decide

end Route

end CannedApi
