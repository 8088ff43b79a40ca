import CannedApi.Route.Naming
import Mathlib.Data.List.DropRight

/-!
# The common path in its normal form

The common path loses the white space at its ends, gets a slash in front and loses the slashes at its end.
What comes out is empty or starts with a slash, but it need not be a normal form: one slash is left of a path
that is nothing but slashes, and white space may come to light when slashes are dropped.  Just where neither
happens, a second pass changes nothing (`normalizeBase_fixed_iff`).
-/

namespace CannedApi

namespace Naming

/-- The normal form ends neither in a slash nor in white space. -/
def EndsWell (base : List Char) : Prop :=
  ∀ c, base.getLast? = some c → c ≠ '/' ∧ Text.isBlank c = false

/-- what is left of the path without the white space at its ends and then the slashes at its end -/
def core (p : List Char) : List Char := dropSlashes (Text.trimmed p)

/-- with a slash in front -/
def slashed (t : List Char) : List Char := if t.head? = some '/' then t else '/' :: t

/-! ## Slashes at the ends -/

section
variable {t : List Char}

theorem dropSlashes_isPrefix (t : List Char) : dropSlashes t <+: t := List.rdropWhile_prefix _ _

theorem head?_dropSlashes (h : dropSlashes t ≠ []) : (dropSlashes t).head? = t.head? := by
  obtain ⟨rest, hrest⟩ := dropSlashes_isPrefix t
  obtain ⟨c, cs, hkept⟩ := List.exists_cons_of_ne_nil h
  rw [hkept] at hrest ⊢
  rw [← hrest]
  rfl

theorem getLast?_dropSlashes (t : List Char) : (dropSlashes t).getLast? ≠ some '/' := by
  induction t using List.reverseRecOn with
  | nil => simp [dropSlashes]
  | append_singleton t c ih =>
    by_cases h : c = '/'
    · simpa [dropSlashes, h] using ih
    · simp [dropSlashes, h]

theorem dropSlashes_eq_nil_iff : dropSlashes t = [] ↔ ∀ c ∈ t, c = '/' := by
  simp [dropSlashes]

theorem dropSlashes_cons (h : dropSlashes t ≠ []) (c : Char) : dropSlashes (c :: t) = c :: dropSlashes t := by
  simp only [dropSlashes, List.reverse_cons, List.dropWhile_append]
  rw [if_neg]
  · simp
  · simpa [dropSlashes] using h

theorem dropSlashes_slashed (h : dropSlashes t ≠ []) : dropSlashes (slashed t) = slashed (dropSlashes t) := by
  unfold slashed
  rw [head?_dropSlashes h]
  split
  · rfl
  · exact dropSlashes_cons h '/'

theorem slashed_cases (t : List Char) : ∃ cs, slashed t = '/' :: cs := by
  unfold slashed
  split
  · rename_i h
    exact List.head?_eq_some_iff.mp h
  · exact ⟨t, rfl⟩

theorem getLast?_slashed (h : t ≠ []) : (slashed t).getLast? = t.getLast? := by
  unfold slashed
  split
  · rfl
  · obtain ⟨c, cs, rfl⟩ := List.exists_cons_of_ne_nil h
    rfl

end

/-! ## Normal forms -/

variable {p : List Char}

/-- Of two slashes or more, and nothing else, one is left. -/
theorem normalChars_eq (p : List Char) : normalChars p =
    if core p = [] then (if 2 ≤ (Text.trimmed p).length then ['/'] else []) else slashed (core p) := by
  unfold normalChars core
  generalize Text.trimmed p = t
  by_cases hcore : dropSlashes t = []
  · rw [if_pos hcore]
    have hall := dropSlashes_eq_nil_iff.mp hcore
    cases t with
    | nil => rfl
    | cons c t =>
      obtain rfl : c = '/' := hall c List.mem_cons_self
      cases t with
      | nil => rfl
      | cons d t =>
        have hone : ¬ ('/' :: d :: t = [] ∨ '/' :: d :: t = ['/']) := by simp
        have htwo : 2 ≤ ('/' :: d :: t).length := by simp
        rw [if_neg hone, if_pos htwo]
        simp only [List.head?_cons, if_true, hcore]
  · have hsome : ¬ (t = [] ∨ t = ['/']) := by
      rintro (rfl | rfl) <;> exact hcore (by decide)
    rw [if_neg hcore, if_neg hsome]
    have hkept := dropSlashes_slashed hcore
    obtain ⟨cs, hcs⟩ := slashed_cases (dropSlashes t)
    rw [hcs] at hkept ⊢
    dsimp only
    rw [← slashed, hkept, if_neg (List.cons_ne_nil _ _)]

theorem normalChars_cases (p : List Char) : normalChars p = [] ∨ ∃ cs, normalChars p = '/' :: cs := by
  rw [normalChars_eq]
  split
  · split
    · exact Or.inr ⟨[], rfl⟩
    · exact Or.inl rfl
  · exact Or.inr (slashed_cases _)

theorem normalChars_self {cs : List Char} (h : EndsWell ('/' :: cs)) :
    normalChars ('/' :: cs) = '/' :: cs := by
  rcases List.eq_nil_or_concat' cs with rfl | ⟨front, c, rfl⟩
  · exact absurd rfl (h '/' rfl).1
  · have hlast : ('/' :: (front ++ [c])).getLast? = some c := by
      rw [← List.cons_append, List.getLast?_concat]
    obtain ⟨hslash, hblank⟩ := h c hlast
    have htrim : Text.trimmed ('/' :: (front ++ [c])) = '/' :: (front ++ [c]) :=
      Text.trimmed_of_not_blank (by decide) hblank
    have hkept : dropSlashes ('/' :: (front ++ [c])) = '/' :: (front ++ [c]) := by
      simp [dropSlashes, hslash]
    unfold normalChars
    simp [htrim, hkept]

/-! ## Where a second pass changes something -/

theorem core_eq_nil_iff : core p = [] ∧ 2 ≤ (Text.trimmed p).length ↔
    ∃ n, Text.trimmed p = List.replicate (n + 2) '/' := by
  rw [core, dropSlashes_eq_nil_iff]
  constructor
  · rintro ⟨hall, hlength⟩
    refine ⟨(Text.trimmed p).length - 2, List.eq_replicate_iff.mpr ⟨?_, hall⟩⟩
    omega
  · rintro ⟨n, hn⟩
    rw [hn]
    exact ⟨fun c hc => List.eq_of_mem_replicate hc, by simp⟩

theorem getLast?_normalChars (h : core p ≠ []) : (normalChars p).getLast? = (core p).getLast? := by
  rw [normalChars_eq, if_neg h, getLast?_slashed h]

theorem getLast?_normalChars_eq_slash_iff : (normalChars p).getLast? = some '/' ↔
    ∃ n, Text.trimmed p = List.replicate (n + 2) '/' := by
  rw [← core_eq_nil_iff]
  by_cases h : core p = []
  · rw [normalChars_eq, if_pos h, and_iff_right h]
    split <;> simp_all
  · rw [getLast?_normalChars h]
    exact iff_of_false (getLast?_dropSlashes _) fun e => h e.1

theorem normalChars_eq_slash_iff : normalChars p = ['/'] ↔
    ∃ n, Text.trimmed p = List.replicate (n + 2) '/' := by
  refine ⟨fun h => getLast?_normalChars_eq_slash_iff.mp (by rw [h]; rfl), fun h => ?_⟩
  obtain ⟨hcore, hlength⟩ := core_eq_nil_iff.mpr h
  rw [normalChars_eq, if_pos hcore, if_pos hlength]

theorem endsWell_normalChars_iff : EndsWell (normalChars p) ↔
    (¬ ∃ n, Text.trimmed p = List.replicate (n + 2) '/') ∧
      ∀ c, (core p).getLast? = some c → Text.isBlank c = false := by
  rw [← getLast?_normalChars_eq_slash_iff]
  by_cases h : core p = []
  · have hends : (normalChars p).getLast? = none ∨ (normalChars p).getLast? = some '/' := by
      rw [normalChars_eq, if_pos h]
      split
      · exact Or.inr rfl
      · exact Or.inl rfl
    rcases hends with hends | hends <;> simp [EndsWell, hends, h]
  · rw [EndsWell, getLast?_normalChars h]
    have hslash := getLast?_dropSlashes (Text.trimmed p)
    refine ⟨fun hwell => ⟨hslash, fun c hc => (hwell c hc).2⟩, fun hwell c hc => ⟨?_, hwell.2 c hc⟩⟩
    rintro rfl
    exact hslash hc

theorem length_normalChars_le (h : (Text.trimmed p).head? = some '/') :
    (normalChars p).length ≤ (Text.trimmed p).length := by
  rw [normalChars_eq]
  split
  · split
    · exact Nat.le_of_succ_le ‹_›
    · exact Nat.zero_le _
  · rename_i hcore
    have hhead : (core p).head? = some '/' := (head?_dropSlashes hcore).trans h
    rw [slashed, if_pos hhead]
    exact (dropSlashes_isPrefix _).length_le

/-- White space at the end is lost, and a slash alone is lost. -/
theorem endsWell_of_fixed {cs : List Char} (h : normalChars ('/' :: cs) = '/' :: cs) :
    EndsWell ('/' :: cs) := by
  rcases List.eq_nil_or_concat' cs with rfl | ⟨front, c, rfl⟩
  · exact absurd h (by decide)
  · rintro d hd
    rw [← List.cons_append, List.getLast?_concat, Option.some.injEq] at hd
    subst hd
    refine ⟨?_, Bool.eq_false_iff.mpr fun hblank => ?_⟩
    · rintro rfl
      have hslash : (normalChars ('/' :: (front ++ ['/']))).getLast? = some '/' := by
        rw [h, ← List.cons_append, List.getLast?_concat]
      rw [normalChars_eq_slash_iff.mpr (getLast?_normalChars_eq_slash_iff.mp hslash)] at h
      simp at h
    · have htrim : Text.trimmed ('/' :: (front ++ [c])) = '/' :: Text.trimRight front := by
        rw [Text.trimmed_cons (by decide), Text.trimRight_concat, if_pos hblank]
      have hle := length_normalChars_le (p := '/' :: (front ++ [c])) (by rw [htrim]; rfl)
      have hfront := Text.length_trimRight_le front
      rw [h, htrim] at hle
      simp only [List.length_cons, List.length_append, List.length_nil] at hle
      omega

theorem normalChars_normalChars_iff :
    normalChars (normalChars p) = normalChars p ↔ EndsWell (normalChars p) := by
  rcases normalChars_cases p with h | ⟨cs, h⟩
  · rw [h]
    exact iff_of_true (by decide) (by simp [EndsWell])
  · rw [h]
    exact ⟨endsWell_of_fixed, normalChars_self⟩

/-- **How far the common path comes to a normal form.**  It is empty or starts with a slash.  It ends in a
slash only if it is nothing else, just if there were two slashes or more and nothing else between the white
space at its ends.  A second pass changes nothing just if this is not so and no white space came to light
when the slashes at its end were dropped. -/
theorem normalizeBase_fixed_iff (p : String) :
    (normalizeBase p = "" ∨ (normalizeBase p).toList.head? = some '/') ∧
    ((normalizeBase p).toList.getLast? = some '/' ↔ normalizeBase p = "/") ∧
    (normalizeBase p = "/" ↔ ∃ n, Text.trimmed p.toList = List.replicate (n + 2) '/') ∧
    (normalizeBase (normalizeBase p) = normalizeBase p ↔
      (¬ ∃ n, Text.trimmed p.toList = List.replicate (n + 2) '/') ∧
        ∀ c, (core p.toList).getLast? = some c → Text.isBlank c = false) := by
  have hbase : (normalizeBase p).toList = normalChars p.toList := String.toList_ofList
  refine ⟨?_, ?_, ?_, ?_⟩
  · rw [hbase, ← String.toList_inj, hbase]
    rcases normalChars_cases p.toList with h | ⟨cs, h⟩ <;> rw [h]
    · exact Or.inl rfl
    · exact Or.inr rfl
  · rw [← String.toList_inj, hbase, getLast?_normalChars_eq_slash_iff, ← normalChars_eq_slash_iff]
    exact Iff.rfl
  · rw [← String.toList_inj, hbase]
    exact normalChars_eq_slash_iff
  · rw [← endsWell_normalChars_iff, ← normalChars_normalChars_iff, ← String.toList_inj, hbase,
      normalizeBase, String.toList_ofList, hbase]

example : normalizeBase "a /" = "/a " ∧ normalizeBase "/a " = "/a" := by decide

/-- Two slashes become one, which a second pass would take away. -/
theorem not_normalizeBase_fixed :
    ¬ ∀ p : String, (normalizeBase p = "" ∨ (normalizeBase p).toList.head? = some '/' ∧
        (normalizeBase p).toList.getLast? ≠ some '/') ∧
      normalizeBase (normalizeBase p) = normalizeBase p := by
  intro h
  have hslash : normalizeBase "//" = "/" := by decide
  have hnone : normalizeBase "/" = "" := by decide
  have htwice := (h "//").2
  rw [hslash, hnone] at htwice
  exact absurd htwice (by decide)

end Naming

end CannedApi
