import CannedApi.Proofs.Random.Draws
import CannedApi.Proofs.Time.Fields
import CannedApi.Random.Generator

/-!
# What random values look like

The texts that each generator may give (`Generator.Allows`), said without the draws that make them.  A draw of a
value ends, whatever the source of its words, with one of these texts (`Generator.yields_draw`).
-/

namespace CannedApi.Random

open Text (IsDigits)

/-! ## The texts -/

/-- an item of each of the two lists, with a text between them -/
def IsPair (firsts : List String) (between : String) (lasts : List String) (text : String) : Prop :=
  ∃ first ∈ firsts, ∃ last ∈ lasts, text = first ++ between ++ last

/-- Four to ten words with single spaces between them, the first letter in upper case, and a period. -/
def IsSentence (text : String) : Prop :=
  ∃ words : List String, 4 ≤ words.length ∧ words.length ≤ 10 ∧ (∀ w ∈ words, w ∈ Words.filler) ∧
    ∃ c rest, (" ".intercalate words).toList = c :: rest ∧ c.toUpper.isUpper ∧
      text.toList = c.toUpper :: (rest ++ ['.'])

/-- a hexadecimal digit in lower case -/
def IsHex (c : Char) : Prop := Text.isDigit c ∨ 'a' ≤ c ∧ c ≤ 'f'

/-- `n` hexadecimal digits -/
def IsHexes (n : ℕ) (cs : List Char) : Prop := cs.length = n ∧ ∀ c ∈ cs, IsHex c

/-- An identifier of version 4: the version stands behind the second hyphen, the variant behind the third. -/
def IsIdentifier (text : String) : Prop :=
  ∃ a b c variant d e, IsHexes 8 a ∧ IsHexes 4 b ∧ IsHexes 3 c ∧ variant ∈ ['8', '9', 'a', 'b'] ∧ IsHexes 3 d ∧
    IsHexes 12 e ∧
    text.toList = a ++ '-' :: (b ++ '-' :: '4' :: (c ++ '-' :: variant :: (d ++ '-' :: e)))

/-- The texts that a generator may give at a moment. -/
def Generator.Allows (m : Moment) : Generator → String → Prop
  | .uuid, value => IsIdentifier value
  | .name, value => IsPair Words.firstNames " " Words.lastNames value
  | .email, value =>
    ∃ first ∈ Words.firstNames, ∃ last ∈ Words.lastNames, ∃ n, (1 ≤ n ∧ n ≤ 99) ∧ ∃ domain ∈ Words.mailDomains,
      value = first.toLower ++ "." ++ last.toLower ++ Text.decimalText n ++ "@" ++ domain
  | .phone, value =>
    ∃ a b c area office line, (200 ≤ a ∧ a ≤ 999) ∧ (200 ≤ b ∧ b ≤ 999) ∧ IsDigits 3 a area ∧ IsDigits 3 b office ∧
      IsDigits 4 c line ∧ value.toList = '(' :: (area ++ ')' :: ' ' :: (office ++ '-' :: line))
  | .number, value => ∃ n, (1 ≤ n ∧ n ≤ 1000) ∧ value = Text.decimalText n
  | .boolean, value => value ∈ ["true", "false"]
  | .avatar, value =>
    ∃ n, (1 ≤ n ∧ n ≤ 99999999) ∧ value = "https://avatars.githubusercontent.com/u/" ++ Text.decimalText n
  | .url, value => ∃ host, IsPair Words.filler "." Words.topDomains host ∧ value = "https://" ++ host
  | .date, value =>
    ∃ t : ℤ, m.now.nanoseconds - 86400 * 1000000000 < t ∧ t ≤ m.now.nanoseconds ∧ Instant.Denotes value (t / 1000000)
  | .text, value => IsSentence value
  | .paragraph, value =>
    ∃ sentences : List String, 3 ≤ sentences.length ∧ sentences.length ≤ 6 ∧ (∀ s ∈ sentences, IsSentence s) ∧
      value = " ".intercalate sentences
  | .word, value => value ∈ Words.filler
  | .company, value => IsPair Words.lastNames " " Words.companyEndings value
  | .address, value =>
    ∃ n, (1 ≤ n ∧ n ≤ 9999) ∧ ∃ street, IsPair Words.lastNames " " Words.streetEndings street ∧
      value = Text.decimalText n ++ " " ++ street
  | .city, value => value ∈ Words.cities
  | .country, value => value ∈ Words.countries
  | .zipCode, value => value.length = 5 ∧ ∀ c ∈ value.toList, Text.isDigit c
  | .color, value => value ∈ Words.colors

/-! ## Sentences -/

theorem toList_spaced_cons (w : String) (ws : List String) :
    ∃ rest, (spaced (w :: ws)).toList = w.toList ++ rest := by
  cases ws with
  | nil => exact ⟨[], by simp [spaced]⟩
  | cons v vs => exact ⟨' ' :: (spaced (v :: vs)).toList, by simp [spaced, String.intercalate_cons_cons]⟩

theorem filler_begins : ∀ w ∈ Words.filler, ∃ c rest, w.toList = c :: rest ∧ c.toUpper.isUpper := by
  have h : ∀ w ∈ Words.filler, w.toList.head?.any (·.toUpper.isUpper) := by decide
  intro w hw
  have := h w hw
  cases hl : w.toList with
  | nil => simp [hl] at this
  | cons c rest => exact ⟨c, rest, rfl, by simpa [hl] using this⟩

theorem yields_sentence : Yields sentence IsSentence := by
  refine .bind (yields_range (by decide)) fun n hn =>
    (yields_times (yields_pick (by decide)) n).map fun words hwords => ?_
  obtain ⟨hlen, hlisted⟩ := hwords
  obtain ⟨w, ws, rfl⟩ : ∃ w ws, words = w :: ws := List.exists_cons_of_length_pos (by omega)
  obtain ⟨c, tail, hw, hc⟩ := filler_begins w (hlisted w List.mem_cons_self)
  obtain ⟨rest, hrest⟩ := toList_spaced_cons w ws
  rw [hw, List.cons_append] at hrest
  refine ⟨w :: ws, by omega, by omega, hlisted, c, tail ++ rest, hrest, hc, ?_⟩
  simp [capital, hrest]

theorem IsSentence.ne_empty {text : String} (h : IsSentence text) : text ≠ "" := by
  obtain ⟨_, -, -, -, c, rest, -, -, htext⟩ := h
  rintro rfl
  cases htext

/-! ## Identifiers -/

theorem hexDigit_mod (n : ℕ) : Text.hexDigit (n % 16) = Text.hexDigit n := by
  simp [Text.hexDigit]

theorem isHex_hexDigit (n : ℕ) : IsHex (Text.hexDigit n) := by
  have h : ∀ k < 16, IsHex (Text.hexDigit k) := by unfold IsHex; decide
  rw [← hexDigit_mod]
  exact h _ (Nat.mod_lt _ (by decide))

theorem isHexes_hexDigits (n v : ℕ) : IsHexes n (hexDigits n v) := by
  induction n generalizing v with
  | zero => exact ⟨rfl, fun c hc => absurd hc List.not_mem_nil⟩
  | succ n ih =>
    obtain ⟨hlen, hhex⟩ := ih (v / 16)
    refine ⟨by simp [hexDigits, hlen], fun c hc => ?_⟩
    rcases List.mem_append.mp hc with hc | hc
    · exact hhex c hc
    · rw [List.mem_singleton.mp hc]
      exact isHex_hexDigit v

theorem hexDigits_four (v : ℕ) : hexDigits 4 v = Text.hexDigit (v / 4096) :: hexDigits 3 v := by
  simp [hexDigits, Nat.div_div_eq_div_mul]

theorem isIdentifier_uuidText (high low : UInt64) : IsIdentifier (uuidText high low) := by
  let h := high.toNat / 0x10000 * 0x10000 + 0x4000 + high.toNat % 0x1000
  let l := low.toNat % twoTo 62 + twoTo 63
  have hversion : Text.hexDigit (h / 4096) = '4' := by
    rw [← hexDigit_mod, show h / 4096 % 16 = 4 by omega]
    rfl
  have hvariant : Text.hexDigit (l / twoTo 48 / 4096) ∈ ['8', '9', 'a', 'b'] := by
    have hall : ∀ k < 12, 8 ≤ k → Text.hexDigit k ∈ ['8', '9', 'a', 'b'] := by decide
    have hl : l = low.toNat % 4611686018427387904 + 9223372036854775808 := rfl
    rw [show twoTo 48 = 281474976710656 from rfl]
    exact hall _ (by omega) (by omega)
  refine ⟨_, _, _, _, _, _, isHexes_hexDigits 8 (h / twoTo 32), isHexes_hexDigits 4 (h / twoTo 16),
    isHexes_hexDigits 3 h, hvariant, isHexes_hexDigits 3 (l / twoTo 48), isHexes_hexDigits 12 l, ?_⟩
  simp [uuidText, hexDigits_four h, hexDigits_four (l / twoTo 48), hversion, h, l]

/-! ## Pairs and numbers -/

theorem yields_pair {firsts lasts : List String} (hf : firsts ≠ []) (hl : lasts ≠ []) (between : String) :
    Yields (do
      let first ← pick firsts
      let last ← pick lasts
      return first ++ between ++ last) (IsPair firsts between lasts) :=
  .bind (yields_pick hf) fun first hfirst => (yields_pick hl).map fun last hlast =>
    ⟨first, hfirst, last, hlast, rfl⟩

theorem IsPair.ne_empty {firsts lasts : List String} {between value : String} (h : IsPair firsts between lasts value)
    (hb : between ≠ "") : value ≠ "" := by
  obtain ⟨first, -, last, -, rfl⟩ := h
  simp [hb]

theorem lower_eq (s : String) : lower s = s.toLower := by
  have hmap : s.toLower.toList = s.toList.map Char.toLower := String.toList_map
  rw [← String.toList_inj, hmap, lower, String.toList_ofList]

/-! ## Dates -/

theorem nanos_minusMillis_lt (t : Instant) (ms : ℕ) : (t.minusMillis ms).nanos < Instant.nanosPerSecond := by
  simp only [Instant.minusMillis, Instant.nanosPerSecond]
  omega

theorem nanoseconds_minusMillis (t : Instant) (ms : ℕ) :
    (t.minusMillis ms).nanoseconds = t.nanoseconds - ms * 1000000 := by
  simp only [Instant.minusMillis, Instant.nanoseconds]
  omega

/-! ## Values -/

theorem decimalText_ne_empty (n : ℕ) : Text.decimalText n ≠ "" := by
  simp [Text.decimalText, Text.decimal_ne_nil]

namespace Generator

variable (m : Moment)

theorem yields_email : Yields (draw m .email) (Allows m .email) := by
  refine .bind (yields_pick (by decide)) fun first hfirst => .bind (yields_pick (by decide)) fun last hlast =>
    .bind (yields_range (by decide)) fun n hn => (yields_pick (by decide)).map fun domain hdomain => ?_
  refine ⟨first, hfirst, last, hlast, n, by omega, domain, hdomain, ?_⟩
  simp [← lower_eq, toString]

theorem yields_phone : Yields (draw m .phone) (Allows m .phone) := by
  refine .bind (yields_range (by decide)) fun a ha => .bind (yields_range (by decide)) fun b hb =>
    (yields_range (by decide)).map fun c hc => ?_
  refine ⟨a, b, c, _, _, _, by omega, by omega, Text.isDigits_padded (by decide) ha.2,
    Text.isDigits_padded (by decide) hb.2, Text.isDigits_padded (by decide) hc.2, ?_⟩
  simp [Text.paddedText, toString]

theorem yields_date : Yields (draw m .date) (Allows m .date) := by
  refine (yields_wideBelow (by decide)).map fun ms hms => ?_
  have hlt : ms < 86400000 := hms
  have hdenotes := Instant.denotes_iso (nanos_minusMillis_lt m.now ms)
  rw [nanoseconds_minusMillis] at hdenotes
  exact ⟨_, by omega, by omega, hdenotes⟩

/-- A draw of a value ends with a text that its generator may give. -/
theorem yields_draw (g : Generator) : Yields (g.draw m) (g.Allows m) := by
  cases g with
  | uuid => exact .pure (isIdentifier_uuidText m.high m.low)
  | name => exact yields_pair (by decide) (by decide) " "
  | email => exact yields_email m
  | phone => exact yields_phone m
  | number => exact (yields_range (by decide)).map fun n hn => ⟨n, by omega, rfl⟩
  | boolean =>
    refine yields_coin.map fun b _ => ?_
    cases b <;> simp [Allows]
  | avatar => exact (yields_range (by decide)).map fun n hn => ⟨n, by omega, rfl⟩
  | url =>
    exact .bind (yields_pick (by decide)) fun word hword => (yields_pick (by decide)).map fun top htop =>
      ⟨_, ⟨word, hword, top, htop, rfl⟩, by simp [toString, String.append_assoc]⟩
  | date => exact yields_date m
  | text => exact yields_sentence
  | paragraph =>
    refine .bind (yields_range (by decide)) fun n hn => (yields_times yields_sentence n).map fun xs hxs => ?_
    exact ⟨xs, by omega, by omega, hxs.2, rfl⟩
  | word => exact yields_pick (by decide)
  | company => exact yields_pair (by decide) (by decide) " "
  | address =>
    exact .bind (yields_range (by decide)) fun n hn => .bind (yields_pick (by decide)) fun last hlast =>
      (yields_pick (by decide)).map fun ending hending =>
        ⟨n, by omega, _, ⟨last, hlast, ending, hending, rfl⟩, by simp [toString, String.append_assoc]⟩
  | city => exact yields_pick (by decide)
  | country => exact yields_pick (by decide)
  | zipCode =>
    refine (yields_range (by decide)).map fun n hn => ?_
    have hdigits : IsDigits 5 n (Text.padded 5 n) := Text.isDigits_padded (by decide) hn.2
    exact ⟨by simpa [Text.paddedText] using hdigits.1, by simpa [Text.paddedText] using hdigits.isDigit⟩
  | color => exact yields_pick (by decide)

variable {m}

theorem Allows.ne_empty {g : Generator} {value : String} (h : g.Allows m value) : value ≠ "" := by
  have hlisted (items : List String) (hitems : "" ∉ items) (hv : value ∈ items) : value ≠ "" := by
    rintro rfl
    exact hitems hv
  cases g with
  | uuid =>
    obtain ⟨a, b, c, variant, d, e, -, -, -, -, -, -, heq⟩ := h
    rintro rfl
    simp at heq
  | name => exact IsPair.ne_empty h (by decide)
  | email =>
    obtain ⟨first, -, last, -, n, -, domain, -, rfl⟩ := h
    simp
  | phone =>
    obtain ⟨a, b, c, x, y, z, -, -, -, -, -, heq⟩ := h
    rintro rfl
    simp at heq
  | number =>
    obtain ⟨n, -, rfl⟩ := h
    exact decimalText_ne_empty n
  | boolean => exact hlisted _ (by decide) h
  | avatar =>
    obtain ⟨n, -, rfl⟩ := h
    simp
  | url =>
    obtain ⟨host, -, rfl⟩ := h
    simp
  | date =>
    obtain ⟨t, -, -, f, -, ⟨y, mo, d, h, mi, s, ms, -, -, -, -, -, -, -, heq⟩, -⟩ := h
    rintro rfl
    simp at heq
  | text => exact IsSentence.ne_empty h
  | paragraph =>
    obtain ⟨sentences, hlen, -, hall, rfl⟩ := h
    obtain ⟨s, ss, rfl⟩ : ∃ s ss, sentences = s :: ss := List.exists_cons_of_length_pos (by omega)
    obtain ⟨rest, hrest⟩ := toList_spaced_cons s ss
    have := (hall s List.mem_cons_self).ne_empty
    intro hempty
    rw [spaced, hempty] at hrest
    simp_all
  | word => exact hlisted _ (by decide) h
  | company => exact IsPair.ne_empty h (by decide)
  | address =>
    obtain ⟨n, -, street, -, rfl⟩ := h
    simp
  | city => exact hlisted _ (by decide) h
  | country => exact hlisted _ (by decide) h
  | zipCode =>
    rintro rfl
    exact absurd h.1 (by decide)
  | color => exact hlisted _ (by decide) h

/-- From every source a draw ends, each of its loops and so the whole behind finitely many words, and gives a text
that its generator may give; no text is empty. -/
theorem draw_shape (m : Moment) (g : Generator) (s : Source) :
    Yields (g.draw m) (g.Allows m) ∧ (∃ k, (g.draw m s).2 = s.after k) ∧
      g.Allows m (g.draw m s).1 ∧ (g.draw m s).1 ≠ "" := by
  have hyields := yields_draw m g
  have hallows := hyields.holds s
  exact ⟨hyields, hyields.exists_after s, hallows, hallows.ne_empty⟩

end Generator

end CannedApi.Random
