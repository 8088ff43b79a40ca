import CannedApi.Json.Reader
import CannedApi.Json.Writer
import CannedApi.Proofs.Except
import CannedApi.Proofs.Text.Spelling

/-!
# Texts in JSON

A text stands in JSON between quotes, each character as itself or by one of the escapes that it has.
Whatever way it is spelled, reading gives the text (`Json.quotedText_of_spells`); the way that the writer
takes is one of them (`Json.spells_escape`).
-/

namespace CannedApi.Json

open Utf8 (ascii)

/-- the number that four hexadecimal digits name, in letters of either case -/
def HexNames (n : Nat) (a b c d : Char) : Prop :=
  Text.hexValue? a.toNat = some (n / 0x1000) ∧ Text.hexValue? b.toNat = some (n / 0x100 % 0x10) ∧
    Text.hexValue? c.toNat = some (n / 0x10 % 0x10) ∧ Text.hexValue? d.toNat = some (n % 0x10)

/-- A character is spelled as itself, by the letter of its escape, by its number, or, beyond U+FFFF, by
the numbers of two surrogates. -/
inductive SpellsChar (c : Char) : List Char → Prop
  | plain (hquote : c ≠ '"') (hbackslash : c ≠ '\\') (hcontrol : 0x20 ≤ c.toNat) : SpellsChar c [c]
  | letter {e : Char} (hascii : e.toNat < 0x80) (h : escapedChar? (ascii e) = some c) :
      SpellsChar c ['\\', e]
  | number {h₁ h₂ h₃ h₄ : Char} (h : HexNames c.toNat h₁ h₂ h₃ h₄) :
      SpellsChar c ['\\', 'u', h₁, h₂, h₃, h₄]
  | surrogates {h₁ h₂ h₃ h₄ k₁ k₂ k₃ k₄ : Char} (hwide : 0x10000 ≤ c.toNat)
      (high : HexNames (0xD800 + (c.toNat - 0x10000) / 0x400) h₁ h₂ h₃ h₄)
      (low : HexNames (0xDC00 + (c.toNat - 0x10000) % 0x400) k₁ k₂ k₃ k₄) :
      SpellsChar c ['\\', 'u', h₁, h₂, h₃, h₄, '\\', 'u', k₁, k₂, k₃, k₄]

variable {c : Char} {s v w : List Char}

/-! ## Reading what is spelled -/

theorem prepend_prepend (a b : List UInt8) (o : Outcome (List UInt8)) :
    prepend a (prepend b o) = prepend (a ++ b) o := by
  cases o with
  | error f => rfl
  | ok p =>
    show Except.ok (a ++ (b ++ p.1), p.2) = Except.ok (a ++ b ++ p.1, p.2)
    rw [List.append_assoc]

theorem prepend_nil (o : Outcome (List UInt8)) : prepend [] o = o := by cases o <;> rfl

/-- bytes that stand for themselves between quotes -/
theorem textBytes_append {bs : List UInt8}
    (h : ∀ b ∈ bs, b ≠ ascii '"' ∧ b ≠ ascii '\\' ∧ ¬ b < 0x20) (rest : List UInt8) :
    textBytes (bs ++ rest) = prepend bs (textBytes rest) := by
  induction bs with
  | nil => exact (prepend_nil _).symm
  | cons b bs ih =>
    obtain ⟨hquote, hbackslash, hcontrol⟩ := h b List.mem_cons_self
    have ih' := ih fun x hx => h x (List.mem_cons_of_mem b hx)
    rw [List.cons_append, textBytes.eq_def]
    simp only [hquote, hbackslash, hcontrol, if_false]
    rw [ih', prepend_prepend]
    rfl

theorem backslash_ne_quote : ascii '\\' ≠ ascii '"' := by decide

theorem not_backslash_lt : ¬ ascii '\\' < 0x20 := by decide

theorem textBytes_letter {e : UInt8} (h : escapedChar? e = some c) (rest : List UInt8) :
    textBytes (ascii '\\' :: e :: rest) = prepend (Utf8.encodeChar c) (textBytes rest) := by
  have hu : e ≠ ascii 'u' := by
    rintro rfl
    cases h
  rw [textBytes.eq_def]
  simp only [backslash_ne_quote, not_backslash_lt, hu, h, if_false, if_true]

theorem lt_of_names {n : Nat} {a b c d : Char} (h : HexNames n a b c d) :
    a.toNat < 0x80 ∧ b.toNat < 0x80 ∧ c.toNat < 0x80 ∧ d.toNat < 0x80 := by
  obtain ⟨ha, hb, hc, hd⟩ := h
  exact ⟨Text.lt_of_hexValue? ha, Text.lt_of_hexValue? hb, Text.lt_of_hexValue? hc,
    Text.lt_of_hexValue? hd⟩

theorem hexNumber?_of_names {n : Nat} {a b c d : Char} (h : HexNames n a b c d) :
    hexNumber? (ascii a) (ascii b) (ascii c) (ascii d) = some n := by
  obtain ⟨hla, hlb, hlc, hld⟩ := lt_of_names h
  obtain ⟨ha, hb, hc, hd⟩ := h
  have hn : ((n / 0x1000 * 16 + n / 0x100 % 0x10) * 16 + n / 0x10 % 0x10) * 16 + n % 0x10 = n := by
    omega
  rw [hexNumber?, Utf8.toNat_ascii hla, Utf8.toNat_ascii hlb, Utf8.toNat_ascii hlc,
    Utf8.toNat_ascii hld, ha, hb, hc, hd]
  show some (((n / 0x1000 * 16 + n / 0x100 % 0x10) * 16 + n / 0x10 % 0x10) * 16 + n % 0x10) = _
  rw [hn]

theorem textBytes_number {h₁ h₂ h₃ h₄ : UInt8} {n : Nat} (h : hexNumber? h₁ h₂ h₃ h₄ = some n)
    (hlow : isLowSurrogate n = false) (hhigh : isHighSurrogate n = false) (rest : List UInt8) :
    textBytes (ascii '\\' :: ascii 'u' :: h₁ :: h₂ :: h₃ :: h₄ :: rest) =
      prepend (Utf8.encodeChar (Char.ofNat n)) (textBytes rest) := by
  rw [textBytes.eq_def]
  simp only [backslash_ne_quote, not_backslash_lt, h, hlow, hhigh, if_false, if_true, Bool.false_eq_true]

theorem textBytes_surrogates {h₁ h₂ h₃ h₄ k₁ k₂ k₃ k₄ : UInt8} {n m : Nat}
    (hn : hexNumber? h₁ h₂ h₃ h₄ = some n) (hm : hexNumber? k₁ k₂ k₃ k₄ = some m)
    (hnot : isLowSurrogate n = false) (hhigh : isHighSurrogate n = true)
    (hlow : isLowSurrogate m = true) (rest : List UInt8) :
    textBytes (ascii '\\' :: ascii 'u' :: h₁ :: h₂ :: h₃ :: h₄ ::
      ascii '\\' :: ascii 'u' :: k₁ :: k₂ :: k₃ :: k₄ :: rest) =
      prepend (Utf8.encodeChar (Char.ofNat (0x10000 + (n - 0xD800) * 0x400 + (m - 0xDC00))))
        (textBytes rest) := by
  rw [textBytes.eq_def]
  simp only [backslash_ne_quote, not_backslash_lt, hn, hm, hnot, hhigh, hlow, if_false, if_true,
    Bool.false_eq_true]

/-- The bytes of a character that is no quote, backslash or control character stand for themselves. -/
theorem plain_of_mem_encodeChar (hquote : c ≠ '"') (hbackslash : c ≠ '\\') (hcontrol : 0x20 ≤ c.toNat) :
    ∀ b ∈ Utf8.encodeChar c, b ≠ ascii '"' ∧ b ≠ ascii '\\' ∧ ¬ b < 0x20 := by
  intro b hb
  have hne {d : Char} (hd : d.toNat < 0x80) (hcd : c ≠ d) : b ≠ ascii d := by
    intro e
    have hbd : b.toNat = d.toNat := by rw [e, Utf8.toNat_ascii hd]
    by_cases hc : c.toNat < 0x80
    · rw [Utf8.encodeChar_of_lt hc, List.mem_singleton] at hb
      rw [hb, Utf8.toNat_ascii hc] at hbd
      exact hcd (Char.toNat_inj.mp hbd)
    · have := Utf8.le_of_mem_encodeChar (by omega) hb
      omega
  refine ⟨hne (by decide) hquote, hne (by decide) hbackslash, ?_⟩
  have h20 : (0x20 : UInt8).toNat = 0x20 := rfl
  rw [UInt8.lt_iff_toNat_lt, h20]
  by_cases hc : c.toNat < 0x80
  · rw [Utf8.encodeChar_of_lt hc, List.mem_singleton] at hb
    rw [hb, Utf8.toNat_ascii hc]
    omega
  · have := Utf8.le_of_mem_encodeChar (by omega) hb
    omega

theorem textBytes_of_spellsChar (h : SpellsChar c s) (rest : List UInt8) :
    textBytes (Utf8.encode s ++ rest) = prepend (Utf8.encodeChar c) (textBytes rest) := by
  have hvalid : c.toNat < 0xD800 ∨ 0xDFFF < c.toNat ∧ c.toNat < 0x110000 := c.valid
  cases h with
  | plain hquote hbackslash hcontrol =>
    rw [Utf8.encode_singleton]
    exact textBytes_append (plain_of_mem_encodeChar hquote hbackslash hcontrol) rest
  | @letter e hascii h =>
    have hs : Utf8.encode ['\\', e] = [ascii '\\', ascii e] :=
      Utf8.encode_of_lt (by simp [hascii])
    rw [hs]
    exact textBytes_letter h rest
  | @number h₁ h₂ h₃ h₄ h =>
    have hs : Utf8.encode ['\\', 'u', h₁, h₂, h₃, h₄] =
        [ascii '\\', ascii 'u', ascii h₁, ascii h₂, ascii h₃, ascii h₄] :=
      Utf8.encode_of_lt (by simp [lt_of_names h])
    have hlow : isLowSurrogate c.toNat = false := by
      simp only [isLowSurrogate, Bool.and_eq_false_iff, decide_eq_false_iff_not]
      omega
    have hhigh : isHighSurrogate c.toNat = false := by
      simp only [isHighSurrogate, Bool.and_eq_false_iff, decide_eq_false_iff_not]
      omega
    have hread := textBytes_number (hexNumber?_of_names h) hlow hhigh rest
    rw [Char.ofNat_toNat] at hread
    rw [hs]
    exact hread
  | @surrogates h₁ h₂ h₃ h₄ k₁ k₂ k₃ k₄ hwide high low =>
    have hs : Utf8.encode ['\\', 'u', h₁, h₂, h₃, h₄, '\\', 'u', k₁, k₂, k₃, k₄] =
        [ascii '\\', ascii 'u', ascii h₁, ascii h₂, ascii h₃, ascii h₄, ascii '\\', ascii 'u',
          ascii k₁, ascii k₂, ascii k₃, ascii k₄] :=
      Utf8.encode_of_lt (by simp [lt_of_names high, lt_of_names low])
    have hnot : isLowSurrogate (0xD800 + (c.toNat - 0x10000) / 0x400) = false := by
      simp only [isLowSurrogate, Bool.and_eq_false_iff, decide_eq_false_iff_not]
      omega
    have hhigh : isHighSurrogate (0xD800 + (c.toNat - 0x10000) / 0x400) = true := by
      simp only [isHighSurrogate, Bool.and_eq_true, decide_eq_true_eq]
      omega
    have hlow : isLowSurrogate (0xDC00 + (c.toNat - 0x10000) % 0x400) = true := by
      simp only [isLowSurrogate, Bool.and_eq_true, decide_eq_true_eq]
      omega
    have hn : 0x10000 + (0xD800 + (c.toNat - 0x10000) / 0x400 - 0xD800) * 0x400 +
        (0xDC00 + (c.toNat - 0x10000) % 0x400 - 0xDC00) = c.toNat := by
      omega
    have hread := textBytes_surrogates (hexNumber?_of_names high) (hexNumber?_of_names low) hnot hhigh
      hlow rest
    rw [hn, Char.ofNat_toNat] at hread
    rw [hs]
    exact hread

theorem textBytes_of_spells (h : Spells SpellsChar v w) (rest : List UInt8) :
    textBytes (Utf8.encode w ++ rest) = prepend (Utf8.encode v) (textBytes rest) := by
  induction h with
  | nil => exact (prepend_nil _).symm
  | cons h more ih =>
    rw [Utf8.encode_append, List.append_assoc, textBytes_of_spellsChar h, ih, prepend_prepend]
    rfl

/-- **Whatever way a text is spelled between quotes, reading gives the text.** -/
theorem quotedText_of_spells {v : String} (h : Spells SpellsChar v.toList w) (rest : List UInt8) :
    quotedText (Utf8.encode w ++ ascii '"' :: rest) = .ok (v, rest) := by
  have hend : textBytes (ascii '"' :: rest) = .ok ([], rest) := by
    rw [textBytes.eq_def]
    simp only [if_true]
  rw [quotedText, textBytes_of_spells h, hend]
  show Except.ok (Utf8.ofBytesLossy (Utf8.encode v.toList ++ []), rest) = _
  rw [List.append_nil, Utf8.ofBytesLossy_encode, String.ofList_toList]

/-- A character that needs no escape. -/
def isPlainChar (c : Char) : Bool := c != '"' && c != '\\' && 0x20 ≤ c.toNat

theorem spells_self (h : v.all isPlainChar = true) : Spells SpellsChar v v := by
  refine .self fun c hc => ?_
  have hplain := List.all_eq_true.mp h c hc
  simp only [isPlainChar, Bool.and_eq_true, bne_iff_ne, decide_eq_true_eq] at hplain
  obtain ⟨⟨hquote, hbackslash⟩, hcontrol⟩ := hplain
  exact .plain hquote hbackslash hcontrol

/-! ## The way that the writer takes -/

theorem hexValue?_hexDigit (n : Nat) : Text.hexValue? (Text.hexDigit n).toNat = some (n % 16) := by
  have h : ∀ k < 16, Text.hexValue? (Text.hexDigit k).toNat = some k := by decide
  have hmod : Text.hexDigit n = Text.hexDigit (n % 16) := by rw [Text.hexDigit, Text.hexDigit, Nat.mod_mod]
  rw [hmod]
  exact h (n % 16) (Nat.mod_lt n (by decide))

theorem escapedChar?_of_shortEscape? {e : Char} (h : shortEscape? c = some e) :
    e.toNat < 0x80 ∧ escapedChar? (ascii e) = some c := by
  have hc {k : Nat} (hk : c.toNat = k) : c = Char.ofNat k := by rw [← hk, Char.ofNat_toNat]
  unfold shortEscape? at h
  split_ifs at h with h1 h2 h3 h4 h5 h6 h7 <;> cases h
  · rw [h1]
    decide
  · rw [h2]
    decide
  · rw [hc h3]
    decide
  · rw [hc h4]
    decide
  · rw [h5]
    decide
  · rw [h6]
    decide
  · rw [h7]
    decide

theorem spellsChar_escapeChar (c : Char) : SpellsChar c (escapeChar c) := by
  unfold escapeChar
  cases he : shortEscape? c with
  | some e =>
    obtain ⟨hascii, h⟩ := escapedChar?_of_shortEscape? he
    exact .letter hascii h
  | none =>
    by_cases hcontrol : c.toNat < 0x20
    · have hnames : HexNames c.toNat '0' '0' (Text.hexDigit (c.toNat / 16)) (Text.hexDigit c.toNat) := by
        have hzero : Text.hexValue? '0'.toNat = some 0 := by decide
        have h1 : c.toNat / 0x1000 = 0 := by omega
        have h2 : c.toNat / 0x100 % 0x10 = 0 := by omega
        refine ⟨?_, ?_, hexValue?_hexDigit _, hexValue?_hexDigit _⟩
        · rw [hzero, h1]
        · rw [hzero, h2]
      simp only [hcontrol, if_true]
      exact .number hnames
    · have hquote : c ≠ '"' := by
        rintro rfl
        cases he
      have hbackslash : c ≠ '\\' := by
        rintro rfl
        cases he
      simp only [hcontrol, if_false]
      exact .plain hquote hbackslash (by omega)

theorem spells_escape (cs : List Char) : Spells SpellsChar cs (escape cs) := by
  induction cs with
  | nil => exact .nil
  | cons c cs ih =>
    rw [escape_cons]
    exact .cons (spellsChar_escapeChar c) ih

/-! ## An object with one text -/

variable {b : UInt8} {rest rest' bs : List UInt8} {fuel depth : Nat} {k : String} {x : Json}

theorem skipBlanks_cons (h : isBlankByte b = false) : skipBlanks (b :: rest) = b :: rest := by
  rw [skipBlanks, List.dropWhile_cons, h]
  rfl

theorem value_quoted {v : String} (h : quotedText bs = .ok (v, rest)) :
    value (fuel + 1) depth (ascii '"' :: bs) = .ok (.text v, rest) := by
  have hskip : skipBlanks (ascii '"' :: bs) = ascii '"' :: bs := skipBlanks_cons (by decide)
  rw [value, hskip]
  show (quotedText bs).map _ = _
  rw [h]
  rfl

theorem key_quoted (h : quotedText bs = .ok (k, ascii ':' :: rest)) :
    key (ascii '"' :: bs) = .ok (k, rest) := by
  have hskip : skipBlanks (ascii ':' :: rest) = ascii ':' :: rest := skipBlanks_cons (by decide)
  rw [key, if_pos rfl, h]
  simp only [Except.bind, hskip, if_true]

theorem members_last (hk : key bs = .ok (k, rest)) (hx : value fuel depth rest = .ok (x, ascii '}' :: rest'))
    (acc : Entries String Json) : members (fuel + 1) depth acc bs = .ok (acc.put k x, rest') := by
  have hskip : skipBlanks (ascii '}' :: rest') = ascii '}' :: rest' := skipBlanks_cons (by decide)
  rw [members, hk]
  simp only [Except.bind, hx, hskip, if_true]

theorem value_object {entries : Entries String Json}
    (h : members fuel depth [] (ascii '"' :: bs) = .ok (entries, rest)) :
    value (fuel + 1) (depth + 1) (ascii '{' :: ascii '"' :: bs) = .ok (.object entries, rest) := by
  have hskip : skipBlanks (ascii '{' :: ascii '"' :: bs) = ascii '{' :: ascii '"' :: bs :=
    skipBlanks_cons (by decide)
  have hskip' : skipBlanks (ascii '"' :: bs) = ascii '"' :: bs := skipBlanks_cons (by decide)
  rw [value, hskip]
  simp +decide only [hskip', h, Except.map, if_true, if_false]

/-- A value that takes up all the bytes is read. -/
theorem read_of_value {s : String} (h : value (2 * (Utf8.toBytes s).length + 2) depthLimit (Utf8.toBytes s) =
    .ok (x, [])) : read s = .ok x := by
  rw [read, readBytes, document]
  show Except.mapError _ ((value _ _ _).bind _) = _
  rw [h]
  rfl

/-- Under one key, one text. -/
theorem read_single {k x : String} {k' x' : List Char} (hk : Spells SpellsChar k.toList k')
    (hx : Spells SpellsChar x.toList x') :
    read (String.ofList ('{' :: '"' :: k' ++ '"' :: ':' :: '"' :: x' ++ ['"', '}'])) =
      .ok (.object [(k, .text x)]) := by
  have hbytes : Utf8.toBytes (String.ofList ('{' :: '"' :: k' ++ '"' :: ':' :: '"' :: x' ++ ['"', '}'])) =
      ascii '{' :: ascii '"' :: (Utf8.encode k' ++ ascii '"' :: ascii ':' :: ascii '"' ::
        (Utf8.encode x' ++ [ascii '"', ascii '}'])) := by
    have hcons {c : Char} (hc : c.toNat < 0x80) (cs : List Char) :
        Utf8.encode (c :: cs) = ascii c :: Utf8.encode cs := by
      rw [Utf8.encode_cons, Utf8.encodeChar_of_lt hc]
      rfl
    simp [Utf8.toBytes, Utf8.encode_append, hcons]
  have hkey := key_quoted (quotedText_of_spells hk
    (ascii ':' :: ascii '"' :: (Utf8.encode x' ++ [ascii '"', ascii '}'])))
  have htext (fuel depth : Nat) :
      value (fuel + 1) depth (ascii '"' :: (Utf8.encode x' ++ [ascii '"', ascii '}'])) =
        .ok (.text x, [ascii '}']) := value_quoted (quotedText_of_spells hx [ascii '}'])
  refine read_of_value ?_
  rw [hbytes]
  -- the object, its entries and the text in it take one step each
  generalize hs : ascii '{' :: ascii '"' :: (Utf8.encode k' ++ ascii '"' :: ascii ':' :: ascii '"' ::
    (Utf8.encode x' ++ [ascii '"', ascii '}'])) = bs
  obtain ⟨fuel, hfuel⟩ : ∃ fuel, 2 * bs.length + 2 = fuel + 3 := by
    refine ⟨2 * bs.length - 1, ?_⟩
    have : 0 < bs.length := by
      rw [← hs]
      exact Nat.succ_pos _
    omega
  rw [hfuel, ← hs]
  exact value_object (members_last hkey (htext fuel 126) [])

end CannedApi.Json
