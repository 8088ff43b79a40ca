import CannedApi.Proofs.Json.Places
import CannedApi.Proofs.Template.Reading

/-!
# Templates keep their shape

Rendering goes into every part of a template and changes nothing but texts: at each place the rendered template
shows what the template shows there, with a text filled in (`head_at?_render`).  Values are told by what they
show at their places, so what holds of rendered texts holds of rendered templates.  One such fact is that a
template reads only what its slots mention (`render_keeps_and_reads`).
-/

namespace CannedApi.Template

/-- The surroundings of a place. -/
def Ambient.within (a : Ambient) (place : List Nat) : Ambient := fun more => a (place ++ more)

/-- Some text in the template has a slot with this expression. -/
def Mentions (t : Json) (e : Expression) : Prop :=
  ∃ place s, t.at? place = some (.text s) ∧ e ∈ expressions s

/-- A head with the text in it, if there is one, filled in. -/
def fillHead (fill : String → String) : Json.Head → Json.Head
  | .text s => .text (fill s)
  | h => h

/-! ## Parts -/

section
variable (a : Ambient) (c : Context)

theorem getElem?_renderItems (i j : Nat) (items : List Json) :
    (renderItems a c i items)[j]? = (items[j]?).map (render (a.child (i + j)) c) := by
  induction items generalizing i j with
  | nil => rfl
  | cons x items ih =>
    cases j with
    | zero => rfl
    | succ j =>
      rw [renderItems, List.getElem?_cons_succ, List.getElem?_cons_succ, ih, Nat.add_right_comm, Nat.add_assoc]

theorem getElem?_renderEntries (i j : Nat) (entries : List (String × Json)) :
    (renderEntries a c i entries)[j]? =
      (entries[j]?).map fun p => (p.1, render (a.child (i + j)) c p.2) := by
  induction entries generalizing i j with
  | nil => rfl
  | cons p entries ih =>
    cases j with
    | zero => rfl
    | succ j =>
      rw [renderEntries, List.getElem?_cons_succ, List.getElem?_cons_succ, ih, Nat.add_right_comm, Nat.add_assoc]

theorem length_renderItems (i : Nat) (items : List Json) :
    (renderItems a c i items).length = items.length := by
  induction items generalizing i with
  | nil => rfl
  | cons x items ih => rw [renderItems, List.length_cons, List.length_cons, ih]

theorem keys_renderEntries (i : Nat) (entries : List (String × Json)) :
    Entries.keys (renderEntries a c i entries) = Entries.keys entries := by
  induction entries generalizing i with
  | nil => rfl
  | cons p entries ih => exact congrArg (p.1 :: ·) (ih (i + 1))

theorem part?_render (t : Json) (i : Nat) :
    (render a c t).part? i = (t.part? i).map (render (a.child i) c) := by
  cases t with
  | array items =>
    have h := getElem?_renderItems a c 0 i items
    rwa [Nat.zero_add] at h
  | object entries =>
    have h := getElem?_renderEntries a c 0 i entries
    rw [Nat.zero_add] at h
    rw [render, Json.part?, h, Json.part?, Option.map_map, Option.map_map]
    rfl
  | null => rfl
  | bool b => rfl
  | number n => rfl
  | text s => rfl

theorem head_render (t : Json) : (render a c t).head = fillHead (renderText a c) t.head := by
  cases t with
  | array items => exact congrArg Json.Head.array (length_renderItems a c 0 items)
  | object entries => exact congrArg Json.Head.object (keys_renderEntries a c 0 entries)
  | null => rfl
  | bool b => rfl
  | number n => rfl
  | text s => rfl

end

/-! ## Places -/

theorem at?_render (a : Ambient) (c : Context) (t : Json) (place : List Nat) :
    (render a c t).at? place = (t.at? place).map (render (a.within place) c) := by
  induction place generalizing a t with
  | nil => rfl
  | cons i place ih =>
    rw [Json.at?_cons, Json.at?_cons, part?_render, Option.bind_map, Option.map_bind]
    exact congrArg (t.part? i).bind (funext fun x => ih (a.child i) x)

/-- At each place a rendered template shows what the template shows there, with a text filled in. -/
theorem head_at?_render (a : Ambient) (c : Context) (t : Json) (place : List Nat) :
    ((render a c t).at? place).map Json.head =
      ((t.at? place).map Json.head).map (fillHead (renderText (a.within place) c)) := by
  rw [at?_render, Option.map_map, Option.map_map]
  exact congrArg (fun f => (t.at? place).map f) (funext fun x => head_render _ c x)

/-- It does not matter how a text is filled in that stands nowhere in the template. -/
theorem fillHead_congr {t : Json} {place : List Nat} {f g : String → String}
    (h : ∀ s, t.at? place = some (.text s) → f s = g s) :
    ((t.at? place).map Json.head).map (fillHead f) = ((t.at? place).map Json.head).map (fillHead g) := by
  cases hx : t.at? place with
  | none => rfl
  | some x =>
    cases x with
    | text s => exact congrArg (fun v => some (Json.Head.text v)) (h s hx)
    | null => rfl
    | bool b => rfl
    | number n => rfl
    | array items => rfl
    | object entries => rfl

theorem fillHead_comp (f g : String → String) : fillHead f ∘ fillHead g = fillHead (f ∘ g) := by
  funext h
  cases h <;> rfl

/-! ## What a template mentions -/

section
variable {e : Expression}

theorem mentions_iff {t : Json} : Mentions t e ↔
    (∃ s, t = .text s ∧ e ∈ expressions s) ∨ ∃ i x, t.part? i = some x ∧ Mentions x e := by
  constructor
  · rintro ⟨place, s, hplace, he⟩
    cases place with
    | nil => exact Or.inl ⟨s, Option.some.inj hplace, he⟩
    | cons i place =>
      obtain ⟨x, hx, hrest⟩ := Option.bind_eq_some_iff.mp hplace
      exact Or.inr ⟨i, x, hx, place, s, hrest, he⟩
  · rintro (⟨s, rfl, he⟩ | ⟨i, x, hx, place, s, hplace, he⟩)
    · exact ⟨[], s, rfl, he⟩
    · exact ⟨i :: place, s, Option.bind_eq_some_iff.mpr ⟨x, hx, hplace⟩, he⟩

theorem mentions_text {s : String} : Mentions (.text s) e ↔ e ∈ expressions s := by
  rw [mentions_iff]
  constructor
  · rintro (⟨s, hs, he⟩ | ⟨i, x, hx, -⟩)
    · cases hs
      exact he
    · cases hx
  · exact fun he => Or.inl ⟨s, rfl, he⟩

theorem mentions_array {items : List Json} : Mentions (.array items) e ↔ ∃ x ∈ items, Mentions x e := by
  rw [mentions_iff]
  constructor
  · rintro (⟨s, hs, -⟩ | ⟨i, x, hx, h⟩)
    · cases hs
    · exact ⟨x, List.mem_of_getElem? hx, h⟩
  · rintro ⟨x, hx, h⟩
    obtain ⟨i, hi⟩ := List.mem_iff_getElem?.mp hx
    exact Or.inr ⟨i, x, hi, h⟩

theorem mentions_object {entries : List (String × Json)} :
    Mentions (.object entries) e ↔ ∃ p ∈ entries, Mentions p.2 e := by
  rw [mentions_iff]
  constructor
  · rintro (⟨s, hs, -⟩ | ⟨i, x, hx, h⟩)
    · cases hs
    · obtain ⟨p, hp, rfl⟩ := Option.map_eq_some_iff.mp hx
      exact ⟨p, List.mem_of_getElem? hp, h⟩
  · rintro ⟨p, hp, h⟩
    obtain ⟨i, hi⟩ := List.mem_iff_getElem?.mp hp
    exact Or.inr ⟨i, p.2, congrArg (Option.map Prod.snd) hi, h⟩

end

/-! ## The main result -/

/-- **A template keeps its shape and reads only what it mentions.**  For requests that have the same texts, or
none, for the expressions in its slots, it is rendered alike.  At each place the rendered template shows what the
template shows there (keys, lengths, numbers), and where that is a text, this text rendered. -/
theorem render_keeps_and_reads (t : Json) (a : Ambient) :
    (∀ c₁ c₂ : Context, (∀ e, Mentions t e → c₁.text? e = c₂.text? e) → render a c₁ t = render a c₂ t) ∧
      ∀ (c : Context) (place : List Nat),
        ((render a c t).at? place).map Json.head =
          ((t.at? place).map Json.head).map (fillHead (renderText (a.within place) c)) := by
  refine ⟨fun c₁ c₂ h => ?_, fun c place => head_at?_render a c t place⟩
  refine Json.eq_of_heads fun place => ?_
  rw [head_at?_render, head_at?_render]
  refine fillHead_congr fun s hs => ?_
  exact renderText_congr (fun e he => h e ⟨place, s, hs, he⟩) _

/-! ## A template with a text in an array -/

namespace Nested

/-- The key of the array looks like a slot. -/
def template : Json :=
  .object [("{{$now}}", .array [.text "{{$params.id}}/{{$body.0}}", .bool true]), ("b", .text "{{x}}")]

/-- the body is an array -/
def first : Context := ⟨[("id", "7")], [], some (.array [.text "y"])⟩

/-- the body is an object, and there is more that the template does not mention -/
def second : Context :=
  ⟨[("q", "1"), ("id", "7")], [("id", .one "8")], some (.object [("1", .null), ("0", .text "y")])⟩

def ambient : Ambient := .ofSeed default 0

theorem expressions_mixed : expressions "{{$params.id}}/{{$body.0}}" = [.param "id", .body "0"] := by decide +kernel

theorem expressions_unknown : expressions "{{x}}" = [.unknown "x"] := by decide +kernel

theorem agree : ∀ e, Mentions template e → first.text? e = second.text? e := by
  intro e he
  obtain ⟨p, hp, he⟩ := mentions_object.mp he
  simp only [List.mem_cons, List.not_mem_nil, or_false] at hp
  rcases hp with rfl | rfl
  · obtain ⟨x, hx, he⟩ := mentions_array.mp he
    simp only [List.mem_cons, List.not_mem_nil, or_false] at hx
    rcases hx with rfl | rfl
    · rw [mentions_text, expressions_mixed] at he
      simp only [List.mem_cons, List.not_mem_nil, or_false] at he
      rcases he with rfl | rfl <;> rfl
    · rcases mentions_iff.mp he with ⟨s, hs, -⟩ | ⟨i, x, hx, -⟩
      · cases hs
      · cases hx
  · rw [mentions_text, expressions_unknown, List.mem_singleton] at he
    rw [he]
    rfl

theorem renderText_mixed : renderText (ambient.within [0, 0]) first "{{$params.id}}/{{$body.0}}" = "7/y" := by
  decide +kernel

end Nested

theorem render_keeps_and_reads_nested :
    render Nested.ambient Nested.first Nested.template = render Nested.ambient Nested.second Nested.template ∧
      ((render Nested.ambient Nested.first Nested.template).at? []).map Json.head =
        some (.object ["{{$now}}", "b"]) ∧
      ((render Nested.ambient Nested.first Nested.template).at? [0, 0]).map Json.head =
        some (.text "7/y") := by
  obtain ⟨hreads, hkeeps⟩ := render_keeps_and_reads Nested.template Nested.ambient
  refine ⟨hreads _ _ Nested.agree, ?_, ?_⟩
  · rw [hkeeps]
    rfl
  · rw [hkeeps]
    show some (Json.Head.text (renderText (Nested.ambient.within [0, 0]) Nested.first _)) = _
    rw [Nested.renderText_mixed]

end CannedApi.Template
