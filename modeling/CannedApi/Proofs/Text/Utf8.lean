import CannedApi.Text.Utf8
import Mathlib.Tactic.SplitIfs

/-!
# Reading UTF-8

Reading bytes as UTF-8 gives an ASCII character only where its byte stands: every longer sequence is a
character from U+0080 on (`mem_of_mem_decode`).  So a text read from bytes without a slash has no slash,
strictly or loosely read.  What has been written is read back as it was, whatever comes after it
(`decode_encode_append`), and bytes are read as a text only if writing that text gives them
(`ofBytes?_eq_some_iff`).
-/

namespace CannedApi.Utf8

theorem toNat_ofNat {k : Nat} (h : k < 0xD800 ∨ 0xDFFF < k ∧ k < 0x110000) : (Char.ofNat k).toNat = k := by
  have hvalid : Char.ofNat k = Char.ofNatAux k h := dif_pos h
  rw [hvalid]
  rfl

theorem eq_of_ofNat {n : Nat} {c : Char} (h : Char.ofNat n = c) (hc : 0 < c.toNat) :
    n = c.toNat := by
  subst h
  by_cases hv : n.isValidChar
  · exact (toNat_ofNat hv).symm
  · have h0 : (Char.ofNat n).toNat = 0 := congrArg Char.toNat (dif_neg hv)
    omega

/-! ## The bytes of a sequence -/

theorem isTail_iff {b : UInt8} : isTail b = true ↔ 0x80 ≤ b.toNat ∧ b.toNat ≤ 0xBF := by
  simp [isTail, UInt8.le_iff_toNat_le]

theorem width_eq (a : UInt8) : width a =
    if a.toNat < 0x80 then 1
    else if 0xC2 ≤ a.toNat ∧ a.toNat ≤ 0xDF then 2
    else if 0xE0 ≤ a.toNat ∧ a.toNat ≤ 0xEF then 3
    else if 0xF0 ≤ a.toNat ∧ a.toNat ≤ 0xF4 then 4 else 0 := by
  simp [width, UInt8.le_iff_toNat_le, UInt8.lt_iff_toNat_lt]

theorem isSecond_iff {a b : UInt8} : isSecond a b = true ↔
    if a.toNat = 0xE0 then 0xA0 ≤ b.toNat ∧ b.toNat ≤ 0xBF
    else if a.toNat = 0xED then 0x80 ≤ b.toNat ∧ b.toNat ≤ 0x9F
    else if a.toNat = 0xF0 then 0x90 ≤ b.toNat ∧ b.toNat ≤ 0xBF
    else if a.toNat = 0xF4 then 0x80 ≤ b.toNat ∧ b.toNat ≤ 0x8F
    else 0x80 ≤ b.toNat ∧ b.toNat ≤ 0xBF := by
  have heq (k : UInt8) : (a == k) = decide (a.toNat = k.toNat) := by
    rw [Bool.eq_iff_iff, beq_iff_eq, decide_eq_true_eq, UInt8.toNat_inj]
  unfold isSecond
  rw [heq, heq, heq, heq]
  have h1 : (0xE0 : UInt8).toNat = 0xE0 := rfl
  have h2 : (0xED : UInt8).toNat = 0xED := rfl
  have h3 : (0xF0 : UInt8).toNat = 0xF0 := rfl
  have h4 : (0xF4 : UInt8).toNat = 0xF4 := rfl
  simp only [h1, h2, h3, h4, decide_eq_true_eq]
  split_ifs <;> simp [isTail, UInt8.le_iff_toNat_le]

theorem isTail_of_isSecond {a b : UInt8} (h : isSecond a b = true) : 0x80 ≤ b.toNat ∧ b.toNat ≤ 0xBF := by
  have h' := isSecond_iff.mp h
  split_ifs at h' <;> omega

theorem firstByte_of_width (a : UInt8) :
    (width a = 1 → a.toNat < 0x80) ∧ (width a = 2 → 0xC2 ≤ a.toNat ∧ a.toNat ≤ 0xDF) ∧
      (width a = 3 → 0xE0 ≤ a.toNat ∧ a.toNat ≤ 0xEF) ∧
      (width a = 4 → 0xF0 ≤ a.toNat ∧ a.toNat ≤ 0xF4) := by
  rw [width_eq]
  split_ifs <;> simp <;> omega

/-! ## The number that a sequence spells

It is not less than its width needs, and it is no surrogate. -/

section
variable {a b c d : UInt8} {n : Nat}

theorem number_two (hw : width a = 2) (hb : isTail b = true)
    (hn : (a.toNat - 0xC0) * 0x40 + tailBits b = n) : 0x80 ≤ n ∧ n < 0x800 := by
  have ha := (firstByte_of_width a).2.1 hw
  have hb' := isTail_iff.mp hb
  unfold tailBits at hn
  omega

theorem number_three (hw : width a = 3) (hb : isSecond a b = true) (hc : isTail c = true)
    (hn : (a.toNat - 0xE0) * 0x1000 + tailBits b * 0x40 + tailBits c = n) :
    0x800 ≤ n ∧ n < 0x10000 ∧ (n < 0xD800 ∨ 0xDFFF < n) := by
  have ha := (firstByte_of_width a).2.2.1 hw
  have hb' := isSecond_iff.mp hb
  have hc' := isTail_iff.mp hc
  unfold tailBits at hn
  split_ifs at hb' <;> omega

theorem number_four (hw : width a = 4) (hb : isSecond a b = true) (hc : isTail c = true)
    (hd : isTail d = true)
    (hn : (a.toNat - 0xF0) * 0x40000 + tailBits b * 0x1000 + tailBits c * 0x40 + tailBits d = n) :
    0x10000 ≤ n ∧ n < 0x110000 := by
  have ha := (firstByte_of_width a).2.2.2 hw
  have hb' := isSecond_iff.mp hb
  have hc' := isTail_iff.mp hc
  have hd' := isTail_iff.mp hd
  unfold tailBits at hn
  split_ifs at hb' <;> omega

end

/-- The bytes are the sequence of a number. -/
inductive Spells : List UInt8 → Nat → Prop
  | one {a : UInt8} (hw : width a = 1) : Spells [a] a.toNat
  | two {a b : UInt8} (hw : width a = 2) (hb : isTail b = true) :
    Spells [a, b] ((a.toNat - 0xC0) * 0x40 + tailBits b)
  | three {a b c : UInt8} (hw : width a = 3) (hb : isSecond a b = true) (hc : isTail c = true) :
    Spells [a, b, c] ((a.toNat - 0xE0) * 0x1000 + tailBits b * 0x40 + tailBits c)
  | four {a b c d : UInt8} (hw : width a = 4) (hb : isSecond a b = true) (hc : isTail c = true)
    (hd : isTail d = true) :
    Spells [a, b, c, d]
      ((a.toNat - 0xF0) * 0x40000 + tailBits b * 0x1000 + tailBits c * 0x40 + tailBits d)

theorem Spells.ne_nil {front : List UInt8} {n : Nat} (h : Spells front n) : front ≠ [] := by
  cases h <;> exact List.cons_ne_nil _ _

/-- A number below 0x80 is spelled by its own byte alone. -/
theorem Spells.eq_singleton {front : List UInt8} {n : Nat} (h : Spells front n) (hn : n < 0x80) :
    front = [n.toUInt8] := by
  cases h with
  | one hw => exact congrArg (fun b => [b]) UInt8.ofNat_toNat.symm
  | two hw hb =>
    have hlarge := (number_two hw hb rfl).1
    omega
  | three hw hb hc =>
    have hlarge := (number_three hw hb hc rfl).1
    omega
  | four hw hb hc hd =>
    have hlarge := (number_four hw hb hc hd rfl).1
    omega

theorem Spells.decode_append {front : List UInt8} {n : Nat} (h : Spells front n) (rest : List UInt8) :
    decode (front ++ rest) = some (Char.ofNat n) :: decode rest := by
  cases h with
  | one hw =>
    rw [List.cons_append, decode.eq_def]
    simp [hw]
  | two hw hb =>
    rw [List.cons_append, decode.eq_def]
    simp [hw, hb]
  | three hw hb hc =>
    rw [List.cons_append, decode.eq_def]
    simp [hw, hb, hc]
  | four hw hb hc hd =>
    rw [List.cons_append, decode.eq_def]
    simp [hw, hb, hc, hd]

/-! ## Reading bytes from the left -/

/-- The bytes begin with a sequence, or with bytes that are none and cannot become one. -/
inductive Begins : List UInt8 → Prop
  | char (front rest : List UInt8) (n : Nat) (h : Spells front n) : Begins (front ++ rest)
  | broken (front rest : List UInt8) (hfront : front ≠ []) (h : decode (front ++ rest) = none :: decode rest) :
    Begins (front ++ rest)

section
variable {a b : UInt8}

theorem begins_two (hw : width a = 2) (bs : List UInt8) : Begins (a :: bs) := by
  cases bs with
  | nil => exact .broken [a] [] (by simp) (by simp [decode, hw])
  | cons b rest =>
    cases hb : isTail b with
    | true => exact .char [a, b] rest _ (.two hw hb)
    | false => exact .broken [a] (b :: rest) (by simp) (by simp [decode.eq_def (a :: _), hw, hb])

theorem begins_three (hw : width a = 3) (bs : List UInt8) : Begins (a :: bs) := by
  cases bs with
  | nil => exact .broken [a] [] (by simp) (by simp [decode, hw])
  | cons b bs =>
    cases hb : isSecond a b with
    | false => exact .broken [a] (b :: bs) (by simp) (by simp [decode.eq_def (a :: _), hw, hb])
    | true =>
      cases bs with
      | nil => exact .broken [a, b] [] (by simp) (by simp [decode, hw, hb])
      | cons c rest =>
        cases hc : isTail c with
        | true => exact .char [a, b, c] rest _ (.three hw hb hc)
        | false =>
          exact .broken [a, b] (c :: rest) (by simp) (by simp [decode.eq_def (a :: _), hw, hb, hc])

theorem begins_four (hw : width a = 4) (bs : List UInt8) : Begins (a :: bs) := by
  cases bs with
  | nil => exact .broken [a] [] (by simp) (by simp [decode, hw])
  | cons b bs =>
    cases hb : isSecond a b with
    | false => exact .broken [a] (b :: bs) (by simp) (by simp [decode.eq_def (a :: _), hw, hb])
    | true =>
      cases bs with
      | nil => exact .broken [a, b] [] (by simp) (by simp [decode, hw, hb])
      | cons c bs =>
        cases hc : isTail c with
        | false =>
          exact .broken [a, b] (c :: bs) (by simp) (by simp [decode.eq_def (a :: _), hw, hb, hc])
        | true =>
          cases bs with
          | nil => exact .broken [a, b, c] [] (by simp) (by simp [decode, hw, hb, hc])
          | cons d rest =>
            cases hd : isTail d with
            | true => exact .char [a, b, c, d] rest _ (.four hw hb hc hd)
            | false =>
              exact .broken [a, b, c] (d :: rest) (by simp)
                (by simp [decode.eq_def (a :: _), hw, hb, hc, hd])

theorem begins (a : UInt8) (bs : List UInt8) : Begins (a :: bs) := by
  by_cases h1 : width a = 1
  · exact .char [a] bs _ (.one h1)
  by_cases h2 : width a = 2
  · exact begins_two h2 bs
  by_cases h3 : width a = 3
  · exact begins_three h3 bs
  by_cases h4 : width a = 4
  · exact begins_four h4 bs
  · refine .broken [a] bs (by simp) ?_
    rw [List.cons_append, decode.eq_def]
    split <;> simp_all

end

/-- Reading takes the sequences one after the other; bytes that are none give nothing. -/
inductive Decodes : List UInt8 → List (Option Char) → Prop
  | nil : Decodes [] []
  | char {front rest : List UInt8} {n : Nat} {os : List (Option Char)} (h : Spells front n)
    (hrest : Decodes rest os) : Decodes (front ++ rest) (some (Char.ofNat n) :: os)
  | broken {front rest : List UInt8} {os : List (Option Char)} (hrest : Decodes rest os) :
    Decodes (front ++ rest) (none :: os)

theorem decodes (bs : List UInt8) : Decodes bs (decode bs) := by
  induction hlength : bs.length using Nat.strongRecOn generalizing bs with
  | ind k ih =>
    cases bs with
    | nil =>
      rw [decode]
      exact .nil
    | cons a bs =>
      generalize hbs : a :: bs = all at hlength
      have hbegins := begins a bs
      rw [hbs] at hbegins
      cases hbegins with
      | char front rest n h =>
        rw [h.decode_append]
        refine .char h (ih rest.length ?_ rest rfl)
        rw [← hlength, List.length_append]
        exact Nat.lt_add_of_pos_left (List.length_pos_iff.mpr h.ne_nil)
      | broken front rest hfront h =>
        rw [h]
        refine .broken (ih rest.length ?_ rest rfl)
        rw [← hlength, List.length_append]
        exact Nat.lt_add_of_pos_left (List.length_pos_iff.mpr hfront)

/-! ## Characters of one byte -/

theorem mem_of_mem_decode {bs : List UInt8} {c : Char} (h0 : 0 < c.toNat) (hc : c.toNat < 0x80)
    (h : some c ∈ decode bs) : c.toNat.toUInt8 ∈ bs := by
  have hdecodes := decodes bs
  generalize decode bs = os at h hdecodes
  induction hdecodes with
  | nil => cases h
  | char hspells _ ih =>
    rcases List.mem_cons.mp h with e | h
    · have hn := eq_of_ofNat (Option.some.inj e).symm h0
      rw [hspells.eq_singleton (hn ▸ hc), hn]
      exact List.mem_cons_self
    · exact List.mem_append_right _ (ih h)
  | broken _ ih => exact List.mem_append_right _ (ih (List.mem_of_ne_of_mem (Option.some_ne_none c) h))

theorem eq_map_of_allSome {os : List (Option Char)} {cs : List Char} (h : allSome os = some cs) :
    os = cs.map some := by
  induction os generalizing cs with
  | nil =>
    cases h
    rfl
  | cons o os ih =>
    cases o with
    | none => cases h
    | some c =>
      obtain ⟨cs', hcs, rfl⟩ := Option.map_eq_some_iff.mp h
      rw [ih hcs]
      rfl

theorem mem_of_mem_ofBytes? {bs : List UInt8} {s : String} {c : Char} (h0 : 0 < c.toNat)
    (hc : c.toNat < 0x80) (hs : ofBytes? bs = some s) (h : c ∈ s.toList) :
    c.toNat.toUInt8 ∈ bs := by
  obtain ⟨cs, hcs, rfl⟩ := Option.map_eq_some_iff.mp hs
  refine mem_of_mem_decode h0 hc ?_
  rw [eq_map_of_allSome hcs]
  simpa using h

theorem mem_of_mem_ofBytesLossy {bs : List UInt8} {c : Char} (h0 : 0 < c.toNat)
    (hc : c.toNat < 0x80) (h : c ∈ (ofBytesLossy bs).toList) : c.toNat.toUInt8 ∈ bs := by
  have h' : c ∈ (decode bs).map (·.getD (Char.ofNat 0xFFFD)) := by simpa [ofBytesLossy] using h
  obtain ⟨o, ho, e⟩ := List.mem_map.mp h'
  cases o with
  | none =>
    have hn : (Char.ofNat 0xFFFD).toNat = 0xFFFD := by decide
    have e' : Char.ofNat 0xFFFD = c := e
    rw [← e', hn] at hc
    omega
  | some d =>
    have e' : d = c := e
    exact mem_of_mem_decode h0 hc (e' ▸ ho)

/-! ## What is written is read back -/

theorem toNat_toUInt8 {n : Nat} (h : n < 0x100) : n.toUInt8.toNat = n := by
  simp [Nat.mod_eq_of_lt h]

/-! Each width has its own range of numbers; in it the first byte tells the width, and the bytes that go on
have six bits each. -/

section
variable {n : Nat}

theorem spells_two (h1 : 0x80 ≤ n) (h2 : n < 0x800) :
    Spells [(0xC0 + n / 0x40).toUInt8, (0x80 + n % 0x40).toUInt8] n := by
  have ha := toNat_toUInt8 (show 0xC0 + n / 0x40 < 0x100 by omega)
  have hb := toNat_toUInt8 (show 0x80 + n % 0x40 < 0x100 by omega)
  generalize (0xC0 + n / 0x40).toUInt8 = a at *
  generalize (0x80 + n % 0x40).toUInt8 = b at *
  have hw : width a = 2 := by
    rw [width_eq]
    split_ifs <;> omega
  have hsecond : isTail b = true := isTail_iff.mpr (by omega)
  have hn : (a.toNat - 0xC0) * 0x40 + tailBits b = n := by
    unfold tailBits
    omega
  exact hn ▸ .two hw hsecond

theorem spells_three (h1 : 0x800 ≤ n) (h2 : n < 0x10000) (hn : n < 0xD800 ∨ 0xDFFF < n) :
    Spells [(0xE0 + n / 0x1000).toUInt8, (0x80 + n / 0x40 % 0x40).toUInt8, (0x80 + n % 0x40).toUInt8] n := by
  have ha := toNat_toUInt8 (show 0xE0 + n / 0x1000 < 0x100 by omega)
  have hb := toNat_toUInt8 (show 0x80 + n / 0x40 % 0x40 < 0x100 by omega)
  have hc := toNat_toUInt8 (show 0x80 + n % 0x40 < 0x100 by omega)
  generalize (0xE0 + n / 0x1000).toUInt8 = a at *
  generalize (0x80 + n / 0x40 % 0x40).toUInt8 = b at *
  generalize (0x80 + n % 0x40).toUInt8 = c at *
  have hw : width a = 3 := by
    rw [width_eq]
    split_ifs <;> omega
  have hsecond : isSecond a b = true := by
    rw [isSecond_iff]
    split_ifs <;> omega
  have hthird : isTail c = true := isTail_iff.mpr (by omega)
  have hn : (a.toNat - 0xE0) * 0x1000 + tailBits b * 0x40 + tailBits c = n := by
    unfold tailBits
    omega
  exact hn ▸ .three hw hsecond hthird

theorem spells_four (h1 : 0x10000 ≤ n) (h2 : n < 0x110000) :
    Spells [(0xF0 + n / 0x40000).toUInt8, (0x80 + n / 0x1000 % 0x40).toUInt8,
      (0x80 + n / 0x40 % 0x40).toUInt8, (0x80 + n % 0x40).toUInt8] n := by
  have ha := toNat_toUInt8 (show 0xF0 + n / 0x40000 < 0x100 by omega)
  have hb := toNat_toUInt8 (show 0x80 + n / 0x1000 % 0x40 < 0x100 by omega)
  have hc := toNat_toUInt8 (show 0x80 + n / 0x40 % 0x40 < 0x100 by omega)
  have hd := toNat_toUInt8 (show 0x80 + n % 0x40 < 0x100 by omega)
  generalize (0xF0 + n / 0x40000).toUInt8 = a at *
  generalize (0x80 + n / 0x1000 % 0x40).toUInt8 = b at *
  generalize (0x80 + n / 0x40 % 0x40).toUInt8 = c at *
  generalize (0x80 + n % 0x40).toUInt8 = d at *
  have hw : width a = 4 := by
    rw [width_eq]
    split_ifs <;> omega
  have hsecond : isSecond a b = true := by
    rw [isSecond_iff]
    split_ifs <;> omega
  have hthird : isTail c = true := isTail_iff.mpr (by omega)
  have hfourth : isTail d = true := isTail_iff.mpr (by omega)
  have hn : (a.toNat - 0xF0) * 0x40000 + tailBits b * 0x1000 + tailBits c * 0x40 + tailBits d = n := by
    unfold tailBits
    omega
  exact hn ▸ .four hw hsecond hthird hfourth

end

theorem spells_encodeChar (c : Char) : Spells (encodeChar c) c.toNat := by
  have hvalid : c.toNat < 0xD800 ∨ 0xDFFF < c.toNat ∧ c.toNat < 0x110000 := c.valid
  rw [encodeChar]
  split_ifs with h1 h2 h3
  · have ha := toNat_toUInt8 (show c.toNat < 0x100 by omega)
    have hw : width c.toNat.toUInt8 = 1 := by rw [width_eq, ha, if_pos h1]
    have hone := Spells.one hw
    rwa [ha] at hone
  · exact spells_two (by omega) h2
  · exact spells_three (by omega) h3 (by omega)
  · exact spells_four (by omega) (by omega)

variable (rest : List UInt8)

theorem decode_encodeChar (c : Char) : decode (encodeChar c ++ rest) = some c :: decode rest := by
  rw [(spells_encodeChar c).decode_append, Char.ofNat_toNat]

theorem decode_encode_append (cs : List Char) :
    decode (encode cs ++ rest) = cs.map some ++ decode rest := by
  induction cs with
  | nil => rfl
  | cons c cs ih => rw [encode_cons, List.append_assoc, decode_encodeChar, ih, List.map_cons, List.cons_append]

theorem decode_encode (cs : List Char) : decode (encode cs) = cs.map some := by
  have h := decode_encode_append [] cs
  have hnil : decode [] = [] := by rw [decode]
  rwa [List.append_nil, hnil, List.append_nil] at h

theorem allSome_map_some (cs : List Char) : allSome (cs.map some) = some cs := by
  induction cs with
  | nil => rfl
  | cons c cs ih =>
    show (allSome (cs.map some)).map (c :: ·) = _
    rw [ih]
    rfl

theorem ofBytes?_encode (cs : List Char) : ofBytes? (encode cs) = some (String.ofList cs) := by
  rw [ofBytes?, decode?, decode_encode, allSome_map_some]
  rfl

theorem ofBytes?_toBytes (s : String) : ofBytes? (toBytes s) = some s := by
  rw [toBytes, ofBytes?_encode, String.ofList_toList]

theorem toBytes_inj {s t : String} : toBytes s = toBytes t ↔ s = t := by
  constructor
  · intro h
    have hs := ofBytes?_toBytes s
    rw [h, ofBytes?_toBytes] at hs
    exact (Option.some.inj hs).symm
  · rintro rfl
    rfl

theorem ofBytesLossy_encode (cs : List Char) : ofBytesLossy (encode cs) = String.ofList cs := by
  rw [ofBytesLossy, decode_encode, List.map_map]
  exact congrArg String.ofList (List.map_id cs)

/-! ## What is read has been written so

Bytes that are read as characters are what writing these characters gives: no character has two spellings. -/

theorem toUInt8_eq {k : Nat} {b : UInt8} (h : k = b.toNat) : k.toUInt8 = b := by
  rw [h]
  exact UInt8.ofNat_toNat

section
variable {a b c d : UInt8}

theorem encodeChar_one (hw : width a = 1) : encodeChar (Char.ofNat a.toNat) = [a] := by
  have ha := (firstByte_of_width a).1 hw
  rw [encodeChar, toNat_ofNat (by omega), if_pos ha, toUInt8_eq rfl]

theorem encodeChar_two (hw : width a = 2) (hb : isTail b = true) :
    encodeChar (Char.ofNat ((a.toNat - 0xC0) * 0x40 + tailBits b)) = [a, b] := by
  generalize hv : (a.toNat - 0xC0) * 0x40 + tailBits b = v
  have hn := number_two hw hb hv
  have ha := (firstByte_of_width a).2.1 hw
  have hb' := isTail_iff.mp hb
  unfold tailBits at hv
  rw [encodeChar, toNat_ofNat (by omega), if_neg (by omega), if_pos (by omega),
    toUInt8_eq (b := a) (by omega), toUInt8_eq (b := b) (by omega)]

theorem encodeChar_three (hw : width a = 3) (hb : isSecond a b = true) (hc : isTail c = true) :
    encodeChar (Char.ofNat ((a.toNat - 0xE0) * 0x1000 + tailBits b * 0x40 + tailBits c)) =
      [a, b, c] := by
  generalize hv : (a.toNat - 0xE0) * 0x1000 + tailBits b * 0x40 + tailBits c = v
  have hn := number_three hw hb hc hv
  have ha := (firstByte_of_width a).2.2.1 hw
  have hb' := isTail_of_isSecond hb
  have hc' := isTail_iff.mp hc
  unfold tailBits at hv
  rw [encodeChar, toNat_ofNat (by omega), if_neg (by omega), if_neg (by omega), if_pos (by omega),
    toUInt8_eq (b := a) (by omega), toUInt8_eq (b := b) (by omega), toUInt8_eq (b := c) (by omega)]

theorem encodeChar_four (hw : width a = 4) (hb : isSecond a b = true) (hc : isTail c = true)
    (hd : isTail d = true) :
    encodeChar (Char.ofNat ((a.toNat - 0xF0) * 0x40000 + tailBits b * 0x1000 + tailBits c * 0x40 +
      tailBits d)) = [a, b, c, d] := by
  generalize hv :
    (a.toNat - 0xF0) * 0x40000 + tailBits b * 0x1000 + tailBits c * 0x40 + tailBits d = v
  have hn := number_four hw hb hc hd hv
  have ha := (firstByte_of_width a).2.2.2 hw
  have hb' := isTail_of_isSecond hb
  have hc' := isTail_iff.mp hc
  have hd' := isTail_iff.mp hd
  unfold tailBits at hv
  rw [encodeChar, toNat_ofNat (by omega), if_neg (by omega), if_neg (by omega), if_neg (by omega),
    toUInt8_eq (b := a) (by omega), toUInt8_eq (b := b) (by omega), toUInt8_eq (b := c) (by omega),
    toUInt8_eq (b := d) (by omega)]

end

theorem Spells.encodeChar_eq {front : List UInt8} {n : Nat} (h : Spells front n) :
    encodeChar (Char.ofNat n) = front := by
  cases h with
  | one hw => exact encodeChar_one hw
  | two hw hb => exact encodeChar_two hw hb
  | three hw hb hc => exact encodeChar_three hw hb hc
  | four hw hb hc hd => exact encodeChar_four hw hb hc hd

theorem encode_of_decode {bs : List UInt8} {cs : List Char} (h : decode bs = cs.map some) :
    encode cs = bs := by
  have hdecodes := decodes bs
  generalize decode bs = os at h hdecodes
  induction hdecodes generalizing cs with
  | nil => rw [List.map_eq_nil_iff.mp h.symm, encode_nil]
  | char hspells _ ih =>
    obtain ⟨c, cs, rfl, e, hrest⟩ := List.map_eq_cons_iff.mp h.symm
    rw [encode_cons, Option.some.inj e, hspells.encodeChar_eq, ih hrest.symm]
  | broken =>
    obtain ⟨c, cs, rfl, e, -⟩ := List.map_eq_cons_iff.mp h.symm
    cases e

/-- Bytes spell a text if and only if they are the bytes of that text. -/
theorem ofBytes?_eq_some_iff {bs : List UInt8} {s : String} : ofBytes? bs = some s ↔ toBytes s = bs := by
  constructor
  · intro h
    obtain ⟨cs, hcs, rfl⟩ := Option.map_eq_some_iff.mp h
    rw [toBytes, String.toList_ofList, encode_of_decode (eq_map_of_allSome hcs)]
  · rintro rfl
    exact ofBytes?_toBytes s

/-! ## The bytes of one character -/

theorem encodeChar_of_lt {c : Char} (h : c.toNat < 0x80) : encodeChar c = [ascii c] := by
  rw [encodeChar, if_pos h, ascii]

theorem toNat_ascii {c : Char} (h : c.toNat < 0x80) : (ascii c).toNat = c.toNat :=
  toNat_toUInt8 (show c.toNat < 0x100 by omega)

theorem encode_of_lt {cs : List Char} (h : ∀ c ∈ cs, c.toNat < 0x80) : encode cs = cs.map ascii := by
  induction cs with
  | nil => rfl
  | cons c cs ih =>
    rw [encode_cons, encodeChar_of_lt (h c List.mem_cons_self),
      ih fun d hd => h d (List.mem_cons_of_mem c hd)]
    rfl

theorem encode_singleton (c : Char) : encode [c] = encodeChar c := List.append_nil _

theorem le_of_mem_encodeChar {c : Char} (h : 0x80 ≤ c.toNat) {b : UInt8} (hb : b ∈ encodeChar c) :
    0x80 ≤ b.toNat := by
  have hvalid : c.toNat < 0xD800 ∨ 0xDFFF < c.toNat ∧ c.toNat < 0x110000 := c.valid
  have hbyte (k : Nat) (h1 : 0x80 ≤ k) (h2 : k < 0x100) : 0x80 ≤ k.toUInt8.toNat := by
    rw [toNat_toUInt8 h2]
    exact h1
  rw [encodeChar, if_neg (by omega)] at hb
  split_ifs at hb with h2 h3 <;> simp only [List.mem_cons, List.not_mem_nil, or_false] at hb
  · rcases hb with rfl | rfl <;> exact hbyte _ (by omega) (by omega)
  · rcases hb with rfl | rfl | rfl <;> exact hbyte _ (by omega) (by omega)
  · rcases hb with rfl | rfl | rfl | rfl <;> exact hbyte _ (by omega) (by omega)

end CannedApi.Utf8
