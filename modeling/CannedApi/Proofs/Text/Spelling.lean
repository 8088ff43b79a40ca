import CannedApi.Proofs.Text.Utf8
import CannedApi.Text.Percent

/-!
# Spelling with percent escapes

A text can be spelled in many ways: each character as itself, or as the escapes of its bytes.  Whatever way
is taken, undoing the escapes gives the text (`Percent.text?_of_spells`), and a slash is never spelled as a
slash (`Percent.slash_not_mem_of_spells`).  Any bytes at all can have their escapes undone in exactly one way
(`Percent.unescapes_iff`), and then they are a text or not (`Percent.readsAs_iff`).
-/

namespace CannedApi

/-- `w` spells the characters of `v` one after the other, where `one` tells how a character may be
spelled. -/
inductive Spells (one : Char → List Char → Prop) : List Char → List Char → Prop
  | nil : Spells one [] []
  | cons {c : Char} {s v w : List Char} (h : one c s) (rest : Spells one v w) :
      Spells one (c :: v) (s ++ w)

namespace Spells

variable {one : Char → List Char → Prop} {v v' w w' : List Char}

theorem append (h : Spells one v w) (h' : Spells one v' w') : Spells one (v ++ v') (w ++ w') := by
  induction h with
  | nil => exact h'
  | cons h rest ih =>
    rw [List.append_assoc]
    exact .cons h ih

/-- A text spells itself if each of its characters does. -/
theorem self (h : ∀ c ∈ v, one c [c]) : Spells one v v := by
  induction v with
  | nil => exact .nil
  | cons c v ih => exact .cons (h c List.mem_cons_self) (ih fun d hd => h d (List.mem_cons_of_mem c hd))

theorem ne_nil (hone : ∀ c s, one c s → s ≠ []) (h : Spells one v w) (hv : v ≠ []) : w ≠ [] := by
  cases h with
  | nil => exact absurd rfl hv
  | cons h rest =>
    intro hw
    exact hone _ _ h (List.append_eq_nil_iff.mp hw).1

theorem not_mem (h : Spells one v w) {d : Char} (hone : ∀ c s, one c s → d ∉ s) : d ∉ w := by
  induction h with
  | nil => exact List.not_mem_nil
  | cons h rest ih =>
    rw [List.mem_append, not_or]
    exact ⟨hone _ _ h, ih⟩

end Spells

/-! ## Hexadecimal digits -/

theorem Text.hexValue?_cases {n k : Nat} (h : hexValue? n = some k) :
    48 ≤ n ∧ n ≤ 57 ∨ 65 ≤ n ∧ n ≤ 70 ∨ 97 ≤ n ∧ n ≤ 102 := by
  unfold hexValue? at h
  simp only [Bool.and_eq_true, decide_eq_true_eq] at h
  split_ifs at h with h1 h2 h3
  · exact Or.inl h1
  · exact Or.inr (Or.inl h2)
  · exact Or.inr (Or.inr h3)

theorem Text.lt_of_hexValue? {n k : Nat} (h : hexValue? n = some k) : n < 0x80 := by
  have := hexValue?_cases h
  omega

theorem Text.lt_sixteen_of_hexValue? {n k : Nat} (h : hexValue? n = some k) : k < 16 := by
  unfold hexValue? at h
  simp only [Bool.and_eq_true, decide_eq_true_eq] at h
  split_ifs at h <;> cases h <;> omega

namespace Percent

/-! ## Escapes undone from the left -/

/-- the digits `h` and `l`, in letters of either case, name the byte `v` -/
def Names (h l v : UInt8) : Prop :=
  Text.hexValue? h.toNat = some (v.toNat / 16) ∧ Text.hexValue? l.toNat = some (v.toNat % 16)

/-- The bytes with their escapes undone.  A percent sign that starts no escape is kept, as any other byte
is. -/
inductive Unescapes : List UInt8 → List UInt8 → Prop
  | nil : Unescapes [] []
  | escape {h l v : UInt8} {bs out : List UInt8} (hv : Names h l v) (rest : Unescapes bs out) :
      Unescapes (mark :: h :: l :: bs) (v :: out)
  | kept {b : UInt8} {bs out : List UInt8}
      (hb : ∀ h l v more, b :: bs = mark :: h :: l :: more → ¬ Names h l v) (rest : Unescapes bs out) :
      Unescapes (b :: bs) (b :: out)

theorem escaped?_eq_some_iff {h l v : UInt8} : escaped? h l = some v ↔ Names h l v := by
  unfold escaped?
  constructor
  · intro hv
    split at hv
    · rename_i m n hm hn
      have hm' := Text.lt_sixteen_of_hexValue? hm
      have hn' := Text.lt_sixteen_of_hexValue? hn
      have e : v.toNat = m * 16 + n := by
        rw [← Option.some.inj hv]
        exact Utf8.toNat_toUInt8 (by omega)
      rw [Names, hm, hn, e]
      exact ⟨congrArg some (by omega), congrArg some (by omega)⟩
    · cases hv
  · rintro ⟨hm, hn⟩
    rw [hm, hn]
    exact congrArg some (Utf8.toUInt8_eq (by omega))

theorem decode_kept {b : UInt8} {bs : List UInt8}
    (hb : ∀ h l v more, b :: bs = mark :: h :: l :: more → ¬ Names h l v) : decode (b :: bs) = b :: decode bs := by
  by_cases hmark : b = mark
  · cases bs with
    | nil => rfl
    | cons h bs =>
      cases bs with
      | nil => rfl
      | cons l more =>
        have hnone : escaped? h l = none := by
          refine Option.eq_none_iff_forall_ne_some.mpr fun v hv => ?_
          exact hb h l v more (hmark ▸ rfl) (escaped?_eq_some_iff.mp hv)
        simp [decode, hnone]
  · exact decode_cons_of_ne hmark bs

theorem unescapes_decode (bs : List UInt8) : Unescapes bs (decode bs) := by
  induction hlength : bs.length using Nat.strongRecOn generalizing bs with
  | ind k ih =>
    subst hlength
    cases bs with
    | nil => exact .nil
    | cons b bs =>
      by_cases hescape : ∃ h l v more, b :: bs = mark :: h :: l :: more ∧ Names h l v
      · obtain ⟨h, l, v, more, e, hv⟩ := hescape
        rw [e, decode_escape (escaped?_eq_some_iff.mpr hv)]
        refine .escape hv (ih _ ?_ more rfl)
        rw [e, List.length_cons, List.length_cons, List.length_cons]
        omega
      · have hkept : ∀ h l v more, b :: bs = mark :: h :: l :: more → ¬ Names h l v :=
          fun h l v more e hv => hescape ⟨h, l, v, more, e, hv⟩
        rw [decode_kept hkept]
        exact .kept hkept (ih _ (Nat.lt_succ_self _) bs rfl)

theorem Unescapes.unique {bs out out' : List UInt8} (h : Unescapes bs out) (h' : Unescapes bs out') :
    out = out' := by
  induction h generalizing out' with
  | nil =>
    cases h'
    rfl
  | @escape h l v bs out hv rest ih =>
    cases h' with
    | @escape _ _ v' _ out' hv' rest' =>
      have e : some v = some v' := by
        rw [← escaped?_eq_some_iff.mpr hv, escaped?_eq_some_iff.mpr hv']
      rw [Option.some.inj e, ih rest']
    | kept hb _ => exact absurd hv (hb h l v bs rfl)
  | kept hb rest ih =>
    cases h' with
    | escape hv' _ => exact absurd hv' (hb _ _ _ _ rfl)
    | kept _ rest' => rw [ih rest']

theorem unescapes_iff {bs out : List UInt8} : Unescapes bs out ↔ decode bs = out :=
  ⟨fun h => (unescapes_decode bs).unique h, fun h => h ▸ unescapes_decode bs⟩

/-- `v` is the text of `s` with its escapes undone, or `s` itself if the bytes then are no text -/
def ReadsAs (s v : String) : Prop :=
  ∃ bytes, Unescapes (Utf8.toBytes s) bytes ∧
    (Utf8.toBytes v = bytes ∨ (∀ t, Utf8.toBytes t ≠ bytes) ∧ v = s)

theorem readsAs_iff {s v : String} : ReadsAs s v ↔ (text? s).getD s = v := by
  have h : ReadsAs s v ↔ text? s = some v ∨ text? s = none ∧ s = v := by
    simp only [ReadsAs, unescapes_iff, text?, Option.eq_none_iff_forall_ne_some, ne_eq,
      Utf8.ofBytes?_eq_some_iff, exists_eq_left', eq_comm (a := v)]
  rw [h]
  cases text? s <;> simp

/-- `s` spells the bytes as escapes, in letters of either case -/
inductive Escapes : List UInt8 → List Char → Prop
  | nil : Escapes [] []
  | cons {b : UInt8} {h l : Char} {bs : List UInt8} {s : List Char}
      (high : Text.hexValue? h.toNat = some (b.toNat / 16))
      (low : Text.hexValue? l.toNat = some (b.toNat % 16)) (rest : Escapes bs s) :
      Escapes (b :: bs) ('%' :: h :: l :: s)

/-- A character is spelled as itself or by escapes; the percent sign and the slash always by escapes. -/
inductive SpellsChar (c : Char) : List Char → Prop
  | plain (hpercent : c ≠ '%') (hslash : c ≠ '/') : SpellsChar c [c]
  | escaped {s : List Char} (h : Escapes (Utf8.encodeChar c) s) : SpellsChar c s

variable {bs : List UInt8} {s v w : List Char}

/-! ## Escapes undone -/

theorem decode_append_of_ne (h : ∀ b ∈ bs, b ≠ mark) (rest : List UInt8) :
    decode (bs ++ rest) = bs ++ decode rest := by
  induction bs with
  | nil => rfl
  | cons b bs ih =>
    have ih' := ih fun x hx => h x (List.mem_cons_of_mem b hx)
    rw [List.cons_append, decode_cons_of_ne (h b List.mem_cons_self), ih', List.cons_append]

theorem mark_not_mem_encodeChar {c : Char} (h : c ≠ '%') : ∀ b ∈ Utf8.encodeChar c, b ≠ mark := by
  intro b hb hmark
  have hm : mark.toNat = 0x25 := rfl
  by_cases hc : c.toNat < 0x80
  · rw [Utf8.encodeChar_of_lt hc, List.mem_singleton] at hb
    have hn : c.toNat = '%'.toNat := by
      rw [← Utf8.toNat_ascii hc, ← hb, hmark]
      rfl
    exact h (Char.toNat_inj.mp hn)
  · have hle := Utf8.le_of_mem_encodeChar (by omega) hb
    rw [hmark, hm] at hle
    omega

theorem decode_of_escapes (h : Escapes bs s) (rest : List UInt8) :
    decode (Utf8.encode s ++ rest) = bs ++ decode rest := by
  induction h with
  | nil => rfl
  | @cons b h l bs s high low more ih =>
    have hh := Text.lt_of_hexValue? high
    have hl := Text.lt_of_hexValue? low
    have hpercent : Utf8.encodeChar '%' = [mark] := by decide
    have hescaped : escaped? (Utf8.ascii h) (Utf8.ascii l) = some b := by
      rw [escaped?_eq_some_iff, Names, Utf8.toNat_ascii hh, Utf8.toNat_ascii hl]
      exact ⟨high, low⟩
    rw [Utf8.encode_cons, Utf8.encode_cons, Utf8.encode_cons, hpercent, Utf8.encodeChar_of_lt hh,
      Utf8.encodeChar_of_lt hl]
    show decode (mark :: Utf8.ascii h :: Utf8.ascii l :: (Utf8.encode s ++ rest)) = _
    rw [decode_escape hescaped, ih]
    rfl

theorem decode_of_spells (h : Spells SpellsChar v w) :
    decode (Utf8.encode w) = Utf8.encode v := by
  induction h with
  | nil => rfl
  | @cons c s v w h rest ih =>
    rw [Utf8.encode_append, Utf8.encode_cons, ← ih]
    cases h with
    | plain hpercent hslash =>
      rw [Utf8.encode_singleton, decode_append_of_ne (mark_not_mem_encodeChar hpercent)]
    | escaped hs => exact decode_of_escapes hs _

/-- **Whatever way a text is spelled, undoing the escapes gives the text.** -/
theorem text?_of_spells {v w : String} (h : Spells SpellsChar v.toList w.toList) : text? w = some v := by
  rw [text?, Utf8.toBytes, decode_of_spells h, Utf8.ofBytes?_encode, String.ofList_toList]

/-! ## What no spelling has -/

theorem slash_not_mem_of_escapes (h : Escapes bs s) : '/' ∉ s := by
  induction h with
  | nil => exact List.not_mem_nil
  | @cons b h l bs s high low rest ih =>
    have hslash : ('/' : Char).toNat = 47 := rfl
    have hne {d : Char} {k : Nat} (hd : Text.hexValue? d.toNat = some k) : '/' ≠ d := by
      intro e
      have hrange := Text.hexValue?_cases hd
      rw [← e, hslash] at hrange
      omega
    simp only [List.mem_cons, not_or]
    exact ⟨by decide, hne high, hne low, ih⟩

theorem slash_not_mem_of_spells (h : Spells SpellsChar v w) : '/' ∉ w := by
  refine h.not_mem fun c s hs => ?_
  cases hs with
  | plain hpercent hslash =>
    rw [List.mem_singleton]
    exact fun e => hslash e.symm
  | escaped hs => exact slash_not_mem_of_escapes hs

theorem ne_nil_of_spells (h : Spells SpellsChar v w) (hv : v ≠ []) : w ≠ [] := by
  refine h.ne_nil (fun c s hs => ?_) hv
  cases hs with
  | plain hpercent hslash => exact List.cons_ne_nil _ _
  | escaped hs =>
    rintro rfl
    generalize hbs : Utf8.encodeChar c = bs at hs
    cases hs
    exact Utf8.encodeChar_ne_nil c hbs

end Percent

end CannedApi
