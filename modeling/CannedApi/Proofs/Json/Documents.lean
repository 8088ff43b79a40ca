import CannedApi.Json.Reader
import CannedApi.Proofs.Except
import CannedApi.Proofs.Json.Texts

/-!
# JSON documents

The grammar of JSON on bytes, apart from the reader.  Its rules relate the bytes before a part of a document to
those after it.  Whatever the reader takes for a value has been written by these rules, so only a document is read
(`Json.isDocument_of_document`).
-/

namespace CannedApi.Json

open Utf8 (ascii)

/-! ## The grammar -/

/-- white space -/
inductive Blanks : List UInt8 → List UInt8 → Prop
  | none {s : List UInt8} : Blanks s s
  | more {b : UInt8} {s t : List UInt8} (h : isBlankByte b) (rest : Blanks s t) : Blanks (b :: s) t

/-- one or more digits -/
inductive Digits : List UInt8 → List UInt8 → Prop
  | last {b : UInt8} {s : List UInt8} (h : isDigitByte b) : Digits (b :: s) s
  | more {b : UInt8} {s t : List UInt8} (h : isDigitByte b) (rest : Digits s t) : Digits (b :: s) t

/-- The digits before the point: a zero, or digits of which the first is no zero. -/
inductive Integer : List UInt8 → List UInt8 → Prop
  | zero {s : List UInt8} : Integer (ascii '0' :: s) s
  | digits {b : UInt8} {s t : List UInt8} (hb : b ≠ ascii '0') (h : Digits (b :: s) t) : Integer (b :: s) t

inductive Fraction : List UInt8 → List UInt8 → Prop
  | none {s : List UInt8} : Fraction s s
  | digits {s t : List UInt8} (h : Digits s t) : Fraction (ascii '.' :: s) t

/-- digits, perhaps with a sign -/
inductive Power : List UInt8 → List UInt8 → Prop
  | unsigned {s t : List UInt8} (h : Digits s t) : Power s t
  | signed {c : UInt8} {s t : List UInt8} (hc : c = ascii '+' ∨ c = ascii '-') (h : Digits s t) : Power (c :: s) t

inductive Exponent : List UInt8 → List UInt8 → Prop
  | none {s : List UInt8} : Exponent s s
  | power {e : UInt8} {s t : List UInt8} (he : e = ascii 'e' ∨ e = ascii 'E') (h : Power s t) : Exponent (e :: s) t

/-- a number without its sign -/
inductive Unsigned : List UInt8 → List UInt8 → Prop
  | mk {s s₁ s₂ t : List UInt8} (hi : Integer s s₁) (hf : Fraction s₁ s₂) (he : Exponent s₂ t) : Unsigned s t

/-- four hexadecimal digits, in letters of either case -/
def AreHex (a b c d : UInt8) : Prop := ∀ x ∈ [a, b, c, d], (Text.hexValue? x.toNat).isSome

/-- a text behind its opening quote -/
inductive Quoted : List UInt8 → List UInt8 → Prop
  | close {s : List UInt8} : Quoted (ascii '"' :: s) s
  | plain {b : UInt8} {s t : List UInt8} (hquote : b ≠ ascii '"') (hbackslash : b ≠ ascii '\\')
    (hcontrol : ¬ b < 0x20) (rest : Quoted s t) : Quoted (b :: s) t
  | letter {e : UInt8} {s t : List UInt8} (he : e ∈ ['"', '\\', '/', 'b', 'f', 'n', 'r', 't'].map ascii)
    (rest : Quoted s t) : Quoted (ascii '\\' :: e :: s) t
  | number {a b c d : UInt8} {s t : List UInt8} (h : AreHex a b c d) (rest : Quoted s t) :
    Quoted (ascii '\\' :: ascii 'u' :: a :: b :: c :: d :: s) t

mutual

inductive Value : List UInt8 → List UInt8 → Prop
  | word {w : List Char} {s : List UInt8} (h : w ∈ ["null", "true", "false"].map String.toList) :
    Value (w.map ascii ++ s) s
  | positive {s t : List UInt8} (h : Unsigned s t) : Value s t
  | negative {s t : List UInt8} (h : Unsigned s t) : Value (ascii '-' :: s) t
  | text {s t : List UInt8} (h : Quoted s t) : Value (ascii '"' :: s) t
  | emptyArray {s t : List UInt8} (hb : Blanks s (ascii ']' :: t)) : Value (ascii '[' :: s) t
  | array {s t : List UInt8} (h : Items s t) : Value (ascii '[' :: s) t
  | emptyObject {s t : List UInt8} (hb : Blanks s (ascii '}' :: t)) : Value (ascii '{' :: s) t
  | object {s t : List UInt8} (h : Members s t) : Value (ascii '{' :: s) t

/-- a value with white space around it -/
inductive Element : List UInt8 → List UInt8 → Prop
  | mk {s s₁ s₂ t : List UInt8} (before : Blanks s s₁) (h : Value s₁ s₂) (behind : Blanks s₂ t) : Element s t

/-- the items of an array with its closing bracket -/
inductive Items : List UInt8 → List UInt8 → Prop
  | last {s t : List UInt8} (h : Element s (ascii ']' :: t)) : Items s t
  | more {s s₁ t : List UInt8} (h : Element s (ascii ',' :: s₁)) (rest : Items s₁ t) : Items s t

/-- the entries of an object with its closing brace -/
inductive Members : List UInt8 → List UInt8 → Prop
  | last {s s₁ s₂ s₃ t : List UInt8} (before : Blanks s (ascii '"' :: s₁)) (key : Quoted s₁ s₂)
    (behind : Blanks s₂ (ascii ':' :: s₃)) (h : Element s₃ (ascii '}' :: t)) : Members s t
  | more {s s₁ s₂ s₃ s₄ t : List UInt8} (before : Blanks s (ascii '"' :: s₁)) (key : Quoted s₁ s₂)
    (behind : Blanks s₂ (ascii ':' :: s₃)) (h : Element s₃ (ascii ',' :: s₄)) (rest : Members s₄ t) : Members s t

end

section
variable {s s₁ t : List UInt8} {b : UInt8}

theorem Blanks.trans (h : Blanks s s₁) (h' : Blanks s₁ t) : Blanks s t := by
  induction h with
  | none => exact h'
  | more hb _ ih => exact .more hb (ih h')

theorem blanks_skipBlanks (s : List UInt8) : Blanks s (skipBlanks s) := by
  induction s with
  | nil => exact .none
  | cons b s ih =>
    cases hb : isBlankByte b with
    | true =>
      rw [skipBlanks, List.dropWhile_cons, if_pos hb]
      exact .more hb ih
    | false =>
      rw [skipBlanks_cons hb]
      exact .none

theorem Element.blanks (hb : Blanks s s₁) (h : Element s₁ t) : Element s t := by
  obtain ⟨before, h, behind⟩ := h
  exact ⟨hb.trans before, h, behind⟩

theorem Items.blanks (hb : Blanks s s₁) (h : Items s₁ t) : Items s t := by
  cases h with
  | last h => exact .last (h.blanks hb)
  | more h rest => exact .more (h.blanks hb) rest

theorem Members.blanks (hb : Blanks s s₁) (h : Members s₁ t) : Members s t := by
  cases h with
  | last before key behind h => exact .last (hb.trans before) key behind h
  | more before key behind h rest => exact .more (hb.trans before) key behind h rest

end

/-! ## What is read -/

/-- Whatever comes out was written as `P` says. -/
def Reads {α : Type} (P : List UInt8 → List UInt8 → Prop) (s : List UInt8) (o : Outcome α) : Prop :=
  ∀ x t, o = .ok (x, t) → P s t

section
variable {α β : Type} {P Q : List UInt8 → List UInt8 → Prop} {o : Outcome α} {r : Reason} {s s' t : List UInt8}

theorem reads_ok {x : α} (h : P s t) : Reads P s (.ok (x, t)) := by
  rintro _ _ ⟨⟩
  exact h

theorem reads_faultBefore : Reads P s (faultBefore r s' : Outcome α) := by rintro _ _ ⟨⟩

theorem reads_faultAt : Reads P s (faultAt r s' : Outcome α) := by rintro _ _ ⟨⟩

theorem Reads.map {g : α → β} (h : Reads P s' o) (hPQ : ∀ t, P s' t → Q s t) :
    Reads Q s (o.map fun p => (g p.1, p.2)) := by
  intro y t hy
  obtain ⟨⟨x, t'⟩, hx, heq⟩ := Except.map_eq_ok_iff.mp hy
  cases heq
  exact hPQ t' (h x t' hx)

theorem Reads.mono (h : Reads P s' o) (hPQ : ∀ t, P s' t → Q s t) : Reads Q s o := fun x t hx => hPQ t (h x t hx)

theorem Reads.bind {f : α × List UInt8 → Outcome β} (h : Reads P s' o)
    (hf : ∀ x t, P s' t → Reads Q s (f (x, t))) : Reads Q s (o.bind f) := by
  intro y t hy
  obtain ⟨⟨x, t'⟩, hx, hfx⟩ := Except.bind_eq_ok_iff.mp hy
  exact hf x t' (h x t' hx) y t hfx

end

/-! ## Numbers -/

section
variable {negative : Bool} {b : UInt8} {n : Nat} {s t : List UInt8}

theorem digits_dropWhile (hb : isDigitByte b) (s : List UInt8) : Digits (b :: s) (s.dropWhile isDigitByte) := by
  induction s generalizing b with
  | nil => exact .last hb
  | cons c s ih =>
    rw [List.dropWhile_cons]
    split
    · exact .more hb (ih ‹_›)
    · exact .last hb

theorem Digits.dropWhile (h : Digits s t) : Digits s (t.dropWhile isDigitByte) := by
  induction h with
  | last hb => exact digits_dropWhile hb _
  | more hb _ ih => exact .more hb ih

theorem digits_exponentDigits (hb : isDigitByte b) (n : Nat) (s : List UInt8) :
    Digits (b :: s) (exponentDigits n (b :: s)).2 := by
  induction s generalizing b n with
  | nil => simp [exponentDigits, hb, Digits.last hb]
  | cons c s ih =>
    rw [exponentDigits, if_pos hb]
    dsimp only
    split
    · exact .last hb
    · by_cases hc : isDigitByte c
      · exact .more hb (ih hc _)
      · rw [exponentDigits, if_neg hc]
        exact .last hb

theorem reads_double (digits : Nat) (exponent : Int) {P : List UInt8 → List UInt8 → Prop} (h : P s t) :
    Reads P s (double negative digits exponent t) := by
  unfold double
  split
  · exact reads_ok h
  · exact reads_faultBefore

theorem reads_exponentPart (digits shift : Nat) (s : List UInt8) :
    Reads Power s (exponentPart negative digits shift s) := by
  unfold exponentPart
  split
  rename_i down s' hsign
  have hpower : ∀ {t}, Digits s' t → Power s t := by
    intro t h
    cases s with
    | nil =>
      cases hsign
      exact .unsigned h
    | cons c rest =>
      dsimp only at hsign
      split at hsign
      · cases hsign
        exact .signed (.inl ‹_›) h
      · split at hsign
        · cases hsign
          exact .signed (.inr ‹_›) h
        · cases hsign
          exact .unsigned h
  split
  · exact reads_faultBefore
  · split
    · rename_i b rest hb
      have hdigits := digits_exponentDigits hb 0 rest
      split
      rename_i n s'' hn
      rw [hn] at hdigits
      split
      · split
        · exact reads_ok (hpower hdigits.dropWhile)
        · exact reads_faultBefore
      · exact reads_double _ _ (hpower hdigits)
    · exact reads_faultBefore

/-- digits behind the point, and an exponent -/
theorem reads_fractionPart (whole s : List UInt8) :
    Reads (fun s t => ∃ s₁, Digits s s₁ ∧ Exponent s₁ t) s (fractionPart negative whole s) := by
  unfold fractionPart
  dsimp only
  split
  · exact reads_faultBefore
  · exact reads_faultAt
  · rename_i hnil _
    have hdigits : Digits s (s.dropWhile isDigitByte) := by
      cases s with
      | nil => exact absurd rfl hnil
      | cons b s =>
        by_cases hb : isDigitByte b
        · rw [List.dropWhile_cons, if_pos hb]
          exact digits_dropWhile hb s
        · rw [List.takeWhile_cons, if_neg hb] at hnil
          exact absurd rfl hnil
    split
    · rename_i b rest hrest
      split
      · exact (reads_exponentPart _ _ rest).mono fun t h => ⟨_, hdigits, hrest ▸ .power ‹_› h⟩
      · exact reads_double _ _ ⟨_, hdigits, .none⟩
    · rename_i hrest
      exact reads_double _ _ ⟨_, hdigits, hrest ▸ .none⟩

theorem reads_wholeNumber (n : Nat) {P : List UInt8 → List UInt8 → Prop} (h : P s t) :
    Reads P s (wholeNumber negative n t) := by
  by_cases hn : IsWhole (if negative then -(n : Int) else n) ∧ ¬ (negative = true ∧ n = 0)
  · rw [wholeNumber, dif_pos hn]
    exact reads_ok h
  · rw [wholeNumber, dif_neg hn]
    exact reads_double _ _ h

theorem reads_unsigned (negative : Bool) (s : List UInt8) : Reads Unsigned s (unsigned negative s) := by
  unfold unsigned
  split
  · exact reads_faultBefore
  · rename_i b rest
    split
    · rename_i hb
      have hinteger : Integer (b :: rest)
          (if b = ascii '0' then rest else (b :: rest).dropWhile isDigitByte) := by
        split
        · rename_i hzero
          exact hzero ▸ .zero
        · rw [List.dropWhile_cons, if_pos hb]
          exact .digits ‹_› (digits_dropWhile hb rest)
      dsimp only
      split
      · rename_i c more hafter
        rw [hafter] at hinteger
        split
        · exact reads_faultAt
        · split
          · rename_i hpoint
            subst hpoint
            exact (reads_fractionPart _ more).mono fun t ⟨s₁, h, he⟩ => ⟨hinteger, .digits h, he⟩
          · split
            · exact (reads_exponentPart _ _ more).mono fun t h => ⟨hinteger, .none, .power ‹_› h⟩
            · exact reads_wholeNumber _ (hafter ▸ ⟨hinteger, .none, .none⟩)
      · rename_i hafter
        rw [hafter] at hinteger
        exact reads_wholeNumber _ ⟨hinteger, .none, .none⟩
    · exact reads_faultBefore

end

/-! ## Texts -/

theorem areHex_of_hexNumber? {a b c d : UInt8} {n : Nat} (h : hexNumber? a b c d = some n) : AreHex a b c d := by
  unfold hexNumber? at h
  split at h
  · simp [AreHex, *]
  · cases h

theorem mem_of_escapedChar? {e : UInt8} {c : Char} (h : escapedChar? e = some c) :
    e ∈ ['"', '\\', '/', 'b', 'f', 'n', 'r', 't'].map ascii := by
  unfold escapedChar? at h
  simp only [List.map_cons, List.map_nil, List.mem_cons]
  grind

theorem Reads.prepend {bs s s' : List UInt8} {o : Outcome (List UInt8)} (h : Reads Quoted s' o)
    (hs : ∀ t, Quoted s' t → Quoted s t) : Reads Quoted s (prepend bs o) :=
  h.map hs

/-- How a text goes on behind its opening quote, or behind a part of it. -/
inductive TakesText : List UInt8 → Outcome (List UInt8) → Prop
  | close {rest : List UInt8} : TakesText (ascii '"' :: rest) (.ok ([], rest))
  | fault {s rest : List UInt8} {r : Reason} : TakesText s (faultBefore r rest)
  | plain {b : UInt8} {rest : List UInt8} {o : Outcome (List UInt8)} (hquote : b ≠ ascii '"')
    (hcontrol : ¬ b < 0x20) (hbackslash : b ≠ ascii '\\') (h : TakesText rest o) :
    TakesText (b :: rest) (prepend [b] o)
  | letter {e : UInt8} {c : Char} {rest : List UInt8} {o : Outcome (List UInt8)} (hc : escapedChar? e = some c)
    (h : TakesText rest o) : TakesText (ascii '\\' :: e :: rest) (prepend (Utf8.encodeChar c) o)
  | number {h₁ h₂ h₃ h₄ : UInt8} {n : Nat} {rest : List UInt8} {o : Outcome (List UInt8)}
    (hn : hexNumber? h₁ h₂ h₃ h₄ = some n) (h : TakesText rest o) :
    TakesText (ascii '\\' :: ascii 'u' :: h₁ :: h₂ :: h₃ :: h₄ :: rest)
      (prepend (Utf8.encodeChar (Char.ofNat n)) o)
  | surrogates {h₁ h₂ h₃ h₄ k₁ k₂ k₃ k₄ : UInt8} {n m : Nat} {rest : List UInt8} {o : Outcome (List UInt8)}
    (hn : hexNumber? h₁ h₂ h₃ h₄ = some n) (hm : hexNumber? k₁ k₂ k₃ k₄ = some m) (h : TakesText rest o) :
    TakesText (ascii '\\' :: ascii 'u' :: h₁ :: h₂ :: h₃ :: h₄ ::
        ascii '\\' :: ascii 'u' :: k₁ :: k₂ :: k₃ :: k₄ :: rest)
      (prepend (Utf8.encodeChar (Char.ofNat (0x10000 + (n - 0xD800) * 0x400 + (m - 0xDC00)))) o)

section
variable {rest : List UInt8}

/-- behind the first of two numbers that make one character -/
theorem takesText_high {h₁ h₂ h₃ h₄ : UInt8} {n : Nat} (hn : hexNumber? h₁ h₂ h₃ h₄ = some n)
    (hnot : isLowSurrogate n = false) (hhigh : isHighSurrogate n = true)
    (ih : ∀ s, s.length < rest.length → TakesText s (textBytes s)) :
    TakesText (ascii '\\' :: ascii 'u' :: h₁ :: h₂ :: h₃ :: h₄ :: rest)
      (textBytes (ascii '\\' :: ascii 'u' :: h₁ :: h₂ :: h₃ :: h₄ :: rest)) := by
  rw [textBytes.eq_def]
  simp only [backslash_ne_quote, not_backslash_lt, hn, hnot, hhigh, if_false, if_true, Bool.false_eq_true]
  split
  · exact .fault
  · split
    · rename_i hq
      split
      · exact .fault
      · split
        · rename_i hu
          split
          · split
            · exact .fault
            · rename_i hm
              split
              · subst hq hu
                exact .surrogates hn hm (ih _ (by simp; omega))
              · exact .fault
          · exact .fault
        · exact .fault
    · exact .fault

/-- behind `\u` -/
theorem takesText_unicode (ih : ∀ s, s.length < rest.length → TakesText s (textBytes s)) :
    TakesText (ascii '\\' :: ascii 'u' :: rest) (textBytes (ascii '\\' :: ascii 'u' :: rest)) := by
  by_cases hfour : ∃ h₁ h₂ h₃ h₄ more, rest = h₁ :: h₂ :: h₃ :: h₄ :: more
  · obtain ⟨h₁, h₂, h₃, h₄, more, rfl⟩ := hfour
    have ih' : ∀ s, s.length ≤ more.length → TakesText s (textBytes s) := fun s hs => ih s (by simp; omega)
    cases hn : hexNumber? h₁ h₂ h₃ h₄ with
    | none =>
      rw [textBytes.eq_def]
      simp only [backslash_ne_quote, not_backslash_lt, hn, if_false, if_true]
      exact .fault
    | some n =>
      cases hlow : isLowSurrogate n with
      | true =>
        rw [textBytes.eq_def]
        simp only [backslash_ne_quote, not_backslash_lt, hn, hlow, if_false, if_true]
        exact .fault
      | false =>
        cases hhigh : isHighSurrogate n with
        | true => exact takesText_high hn hlow hhigh fun s hs => ih' s (Nat.le_of_lt hs)
        | false =>
          rw [textBytes_number hn hlow hhigh]
          exact .number hn (ih' more (Nat.le_refl _))
  · rw [textBytes.eq_def]
    simp only [backslash_ne_quote, not_backslash_lt, if_false, if_true]
    split
    · exact absurd ⟨_, _, _, _, _, rfl⟩ hfour
    · exact .fault

/-- behind a backslash -/
theorem takesText_escape (ih : ∀ s, s.length < rest.length → TakesText s (textBytes s)) :
    TakesText (ascii '\\' :: rest) (textBytes (ascii '\\' :: rest)) := by
  cases rest with
  | nil =>
    rw [textBytes.eq_def]
    simp only [backslash_ne_quote, not_backslash_lt, if_false, if_true]
    exact .fault
  | cons e rest =>
    by_cases hu : e = ascii 'u'
    · subst hu
      exact takesText_unicode fun s hs => ih s (Nat.lt_succ_of_lt hs)
    · cases hc : escapedChar? e with
      | none =>
        rw [textBytes.eq_def]
        simp only [backslash_ne_quote, not_backslash_lt, hu, hc, if_false, if_true]
        exact .fault
      | some c =>
        rw [textBytes_letter hc]
        exact .letter hc (ih rest (Nat.lt_succ_self _))

end

theorem takesText (s : List UInt8) : TakesText s (textBytes s) := by
  induction hlength : s.length using Nat.strongRecOn generalizing s with
  | ind k ih =>
    have ih' : ∀ t, t.length < s.length → TakesText t (textBytes t) := fun t ht => ih _ (hlength ▸ ht) t rfl
    cases s with
    | nil =>
      rw [textBytes]
      exact .fault
    | cons b rest =>
      by_cases hbackslash : b = ascii '\\'
      · subst hbackslash
        exact takesText_escape fun t ht => ih' t (Nat.lt_succ_of_lt ht)
      · rw [textBytes.eq_def]
        dsimp only
        split
        · rename_i hquote
          exact hquote ▸ .close
        · split
          · exact .fault
          · exact .plain ‹_› ‹_› hbackslash (ih' rest (Nat.lt_succ_self _))

theorem reads_textBytes (s : List UInt8) : Reads Quoted s (textBytes s) := by
  have htakes := takesText s
  generalize textBytes s = o at htakes ⊢
  induction htakes with
  | close => exact reads_ok .close
  | fault => exact reads_faultBefore
  | plain hquote hcontrol hbackslash _ ih => exact ih.prepend fun t h => .plain hquote hbackslash hcontrol h
  | letter hc _ ih => exact ih.prepend fun t h => .letter (mem_of_escapedChar? hc) h
  | number hn _ ih => exact ih.prepend fun t h => .number (areHex_of_hexNumber? hn) h
  | surrogates hn hm _ ih =>
    exact ih.prepend fun t h => .number (areHex_of_hexNumber? hn) (.number (areHex_of_hexNumber? hm) h)

theorem reads_quotedText (s : List UInt8) : Reads Quoted s (quotedText s) :=
  (reads_textBytes s).map fun _ h => h

/-- a key and its colon -/
theorem reads_key (s : List UInt8) :
    Reads (fun s t => ∃ s₁ s₂, s = ascii '"' :: s₁ ∧ Quoted s₁ s₂ ∧ Blanks s₂ (ascii ':' :: t)) s (key s) := by
  unfold key
  split
  · exact reads_faultAt
  · rename_i q s
    split
    · rename_i hq
      refine (reads_quotedText s).bind fun k s₂ h => ?_
      dsimp only
      split
      · exact reads_faultAt
      · rename_i b rest hrest
        split
        · rename_i hb
          have hblanks := blanks_skipBlanks s₂
          rw [hrest, hb] at hblanks
          exact reads_ok ⟨s, s₂, by rw [hq], h, hblanks⟩
        · exact reads_faultAt
    · exact reads_faultAt

/-! ## Values -/

theorem reads_keyword (x : Json) (cs : List Char) (s : List UInt8) :
    Reads (fun s t => s = cs.map ascii ++ t) s (keyword x cs s) := by
  induction cs generalizing s with
  | nil => exact reads_ok rfl
  | cons c cs ih =>
    cases s with
    | nil => exact reads_faultBefore
    | cons b s =>
      unfold keyword
      split
      · rename_i hb
        refine (ih s).mono fun t h => ?_
        rw [hb, h]
        rfl
      · exact reads_faultBefore

/-- a value with white space before it -/
def Begun (s t : List UInt8) : Prop := ∃ s₁, Blanks s s₁ ∧ Value s₁ t

theorem Begun.element {s s₁ t : List UInt8} (h : Begun s s₁) (hb : Blanks s₁ t) : Element s t := by
  obtain ⟨s₂, before, h⟩ := h
  exact ⟨before, h, hb⟩

/-- What a supply of fuel allows for is written by the grammar. -/
structure Written (fuel : Nat) : Prop where
  value : ∀ depth s, Reads Begun s (value fuel depth s)
  items : ∀ depth s, Reads Items s (items fuel depth s)
  members : ∀ depth acc s, Reads Members s (members fuel depth acc s)

section
variable {fuel : Nat}

theorem Written.value_succ (h : Written fuel) (depth : Nat) (s : List UInt8) :
    Reads Begun s (Json.value (fuel + 1) depth s) := by
  have hblanks := blanks_skipBlanks s
  unfold Json.value
  split
  · exact reads_faultAt
  rename_i b rest hrest
  rw [hrest] at hblanks
  -- the first byte that is no white space tells which rule applies
  have begun : ∀ t, Value (b :: rest) t → Begun s t := fun t h => ⟨_, hblanks, h⟩
  have word (c : Char) (cs : List Char) (hw : c :: cs ∈ ["null", "true", "false"].map String.toList)
      (hb : b = ascii c) (x : Json) : Reads Begun s (keyword x cs rest) := by
    refine (reads_keyword x cs rest).mono fun t h => begun t ?_
    rw [hb, h]
    exact .word hw
  split
  · exact word 'n' _ (by decide) ‹_› .null
  split
  · exact word 't' _ (by decide) ‹_› (.bool true)
  split
  · exact word 'f' _ (by decide) ‹_› (.bool false)
  split
  · rename_i hb
    exact (reads_unsigned true rest).mono fun t h => begun t (hb ▸ .negative h)
  split
  · exact (reads_unsigned false (b :: rest)).mono fun t h => begun t (.positive h)
  split
  · rename_i hb
    exact (reads_quotedText rest).map fun t h => begun t (hb ▸ .text h)
  have hinner := blanks_skipBlanks rest
  split
  · rename_i hb
    subst hb
    split
    · exact reads_faultAt
    · split
      · exact reads_faultAt
      · rename_i c more hmore
        rw [hmore] at hinner
        split
        · rename_i hc
          exact reads_ok (begun _ (.emptyArray (hc ▸ hinner)))
        · exact (h.items _ (c :: more)).map fun t h => begun t (.array (h.blanks hinner))
  split
  · rename_i hb
    subst hb
    split
    · exact reads_faultAt
    · split
      · exact reads_faultAt
      · rename_i c more hmore
        rw [hmore] at hinner
        split
        · rename_i hc
          exact reads_ok (begun _ (.emptyObject (hc ▸ hinner)))
        · exact (h.members _ [] (c :: more)).map fun t h => begun t (.object (h.blanks hinner))
  · exact reads_faultAt

theorem Written.items_succ (h : Written fuel) (depth : Nat) (s : List UInt8) :
    Reads Items s (Json.items (fuel + 1) depth s) := by
  unfold Json.items
  refine (h.value depth s).bind fun x s₁ hx => ?_
  have hbehind := blanks_skipBlanks s₁
  dsimp only
  split
  · exact reads_faultAt
  rename_i b rest hrest
  rw [hrest] at hbehind
  split
  · rename_i hb
    exact reads_ok (.last (hx.element (hb ▸ hbehind)))
  split
  · rename_i hb
    have hinner := blanks_skipBlanks rest
    split
    · exact reads_faultAt
    rename_i c more hmore
    rw [hmore] at hinner
    split
    · exact reads_faultAt
    · exact (h.items depth (c :: more)).map fun t h => .more (hx.element (hb ▸ hbehind)) (h.blanks hinner)
  · exact reads_faultAt

theorem Written.members_succ (h : Written fuel) (depth : Nat) (acc : Entries String Json) (s : List UInt8) :
    Reads Members s (Json.members (fuel + 1) depth acc s) := by
  unfold Json.members
  refine (reads_key s).bind fun k s₃ hk => ?_
  obtain ⟨s₁, s₂, rfl, hkey, hcolon⟩ := hk
  refine (h.value depth s₃).bind fun x s₄ hx => ?_
  have hbehind := blanks_skipBlanks s₄
  dsimp only
  split
  · exact reads_faultAt
  rename_i b rest hrest
  rw [hrest] at hbehind
  split
  · rename_i hb
    exact reads_ok (.last .none hkey hcolon (hx.element (hb ▸ hbehind)))
  split
  · rename_i hb
    have hinner := blanks_skipBlanks rest
    split
    · exact reads_faultAt
    rename_i c more hmore
    rw [hmore] at hinner
    split
    · exact reads_faultAt
    · exact (h.members depth (acc.put k x) (c :: more)).mono fun t h =>
        .more .none hkey hcolon (hx.element (hb ▸ hbehind)) (h.blanks hinner)
  · exact reads_faultAt

end

theorem written (fuel : Nat) : Written fuel := by
  induction fuel with
  | zero =>
    refine ⟨fun _ _ => ?_, fun _ _ => ?_, fun _ _ _ => ?_⟩
    · unfold value
      exact reads_faultBefore
    · unfold items
      exact reads_faultBefore
    · unfold members
      exact reads_faultBefore
  | succ fuel ih => exact ⟨ih.value_succ, ih.items_succ, ih.members_succ⟩

end CannedApi.Json
