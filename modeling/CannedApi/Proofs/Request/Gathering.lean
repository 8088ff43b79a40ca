import CannedApi.Request.Query
import Mathlib.Data.List.Induction

/-!
# Repeated keys gather their values

Pairs are taken in one after the other.  After each of them a query has, under each key, the values of the pairs
so far with that key (`QueryParams.get?_ofPairs`), and its keys in the order in which they came first
(`QueryParams.keys_ofPairs`).  A form takes in the same pairs step by step as the query does, and so is the query
with its values written as JSON (`Form.ofPairs_eq`).  Which pairs a text has makes no difference to that
(`gathers_raw`).
-/

namespace CannedApi

/-- the values of the pairs with a key, in order -/
def valuesUnder (ps : List (String × String)) (k : String) : List String :=
  (ps.filter fun p => p.1 = k).map Prod.snd

theorem valuesUnder_concat (ps : List (String × String)) (p : String × String) (k : String) :
    valuesUnder (ps ++ [p]) k = valuesUnder ps k ++ if p.1 = k then [p.2] else [] := by
  rw [valuesUnder, List.filter_append, List.map_append, valuesUnder]
  by_cases h : p.1 = k <;> simp [h]

/-! ## A query -/

/-- a value alone, or several -/
def QueryValue.ofValues? : List String → Option QueryValue
  | [] => none
  | [v] => some (.one v)
  | vs => some (.many vs)

/-- One value more. -/
theorem QueryValue.ofValues?_concat (vs : List String) (w : String) : ofValues? (vs ++ [w]) =
    some (match ofValues? vs with
      | none => .one w
      | some v => v.add w) := by
  match vs with
  | [] => rfl
  | [_] => rfl
  | _ :: _ :: _ => rfl

namespace QueryParams

theorem get?_addPair (q : QueryParams) (p : String × String) (k : String) :
    Entries.get? (addPair q p) k =
      if p.1 = k then some (match Entries.get? q k with
        | none => .one p.2
        | some v => v.add p.2)
      else Entries.get? q k := by
  unfold addPair
  by_cases h : p.1 = k
  · subst h
    cases hget : Entries.get? q p.1 <;> simp [Entries.get?_put]
  · cases Entries.get? q p.1 <;> simp [Entries.get?_put, h]

theorem keys_addPair (q : QueryParams) (p : String × String) : Entries.keys (addPair q p) =
    if p.1 ∈ Entries.keys q then Entries.keys q else Entries.keys q ++ [p.1] := by
  unfold addPair
  cases Entries.get? q p.1 <;> exact Entries.keys_put q p.1 _

theorem ofPairs_concat (ps : List (String × String)) (p : String × String) :
    ofPairs (ps ++ [p]) = addPair (ofPairs ps) p := by
  rw [ofPairs, List.foldl_append]
  rfl

/-- A query has the values of all pairs with a key. -/
theorem get?_ofPairs (ps : List (String × String)) (k : String) :
    Entries.get? (ofPairs ps) k = QueryValue.ofValues? (valuesUnder ps k) := by
  induction ps using List.reverseRecOn with
  | nil => rfl
  | append_singleton ps p ih =>
    rw [ofPairs_concat, get?_addPair, valuesUnder_concat, ih]
    by_cases h : p.1 = k
    · rw [if_pos h, if_pos h, QueryValue.ofValues?_concat]
    · rw [if_neg h, if_neg h, List.append_nil]

theorem distinct_ofPairs (ps : List (String × String)) : Entries.Distinct (ofPairs ps) := by
  induction ps using List.reverseRecOn with
  | nil => exact List.nodup_nil
  | append_singleton ps p ih =>
    rw [ofPairs_concat, addPair]
    cases Entries.get? (ofPairs ps) p.1 <;> exact Entries.distinct_put ih _ _

/-- Its keys are in the order in which they came first. -/
theorem keys_ofPairs (ps : List (String × String)) :
    Entries.keys (ofPairs ps) = (ps.map Prod.fst).eraseDups := by
  induction ps using List.reverseRecOn with
  | nil => rfl
  | append_singleton ps p ih =>
    rw [ofPairs_concat, keys_addPair, ih, List.map_append, List.map_singleton, Entries.eraseDups_concat]
    simp only [List.mem_eraseDups]

end QueryParams

/-! ## A form -/

/-- a query value as JSON -/
def QueryValue.toJson : QueryValue → Json
  | .one v => .text v
  | .many vs => .array (vs.map .text)

namespace Form

/-- the query with its values as JSON -/
def ofQuery (q : QueryParams) : Entries String Json := q.map fun e => (e.1, e.2.toJson)

theorem add_toJson (v : QueryValue) (w : String) : add v.toJson w = (v.add w).toJson := by
  cases v with
  | one v => rfl
  | many vs => simp [add, QueryValue.toJson, QueryValue.add]

theorem keys_ofQuery (q : QueryParams) : Entries.keys (ofQuery q) = Entries.keys q := by
  show List.map _ (List.map _ _) = _
  rw [List.map_map]
  rfl

theorem get?_ofQuery (q : QueryParams) (k : String) :
    Entries.get? (ofQuery q) k = (Entries.get? q k).map QueryValue.toJson := by
  induction q with
  | nil => rfl
  | cons e rest ih =>
    show (if e.1 = k then _ else Entries.get? (ofQuery rest) k) = Option.map _ (if e.1 = k then _ else _)
    by_cases h : e.1 = k
    · rw [if_pos h, if_pos h]
      rfl
    · rw [if_neg h, if_neg h, ih]

theorem put_ofQuery (q : QueryParams) (k : String) (v : QueryValue) :
    Entries.put (ofQuery q) k v.toJson = ofQuery (Entries.put q k v) := by
  induction q with
  | nil => rfl
  | cons e rest ih =>
    show (if e.1 = k then _ else _ :: Entries.put (ofQuery rest) k v.toJson) =
      ofQuery (if e.1 = k then _ else _)
    by_cases h : e.1 = k
    · rw [if_pos h, if_pos h]
      rfl
    · rw [if_neg h, if_neg h, ih]
      rfl

/-- A form takes in a pair as a query does. -/
theorem addPair_ofQuery (q : QueryParams) (p : String × String) :
    addPair (ofQuery q) p = ofQuery (QueryParams.addPair q p) := by
  unfold addPair QueryParams.addPair
  rw [get?_ofQuery]
  cases Entries.get? q p.1 with
  | none => exact put_ofQuery q p.1 (.one p.2)
  | some v =>
    rw [← put_ofQuery, ← add_toJson]
    rfl

/-- A form is the query of the same pairs. -/
theorem ofPairs_eq (ps : List (String × String)) : ofPairs ps = ofQuery (QueryParams.ofPairs ps) := by
  induction ps using List.reverseRecOn with
  | nil => rfl
  | append_singleton ps p ih =>
    rw [QueryParams.ofPairs_concat, ← addPair_ofQuery, ← ih, ofPairs, List.foldl_append]
    rfl

end Form

/-! ## Both -/

/-- A query and a form have gathered the pairs. -/
structure Gathers (ps : List (String × String)) (q : QueryParams) (form : Json) : Prop where
  distinct : Entries.Distinct q
  mem_keys : ∀ k, k ∈ Entries.keys q ↔ k ∈ ps.map Prod.fst
  /-- A key that comes once has its value. -/
  once : ∀ k v, valuesUnder ps k = [v] → Entries.get? q k = some (.one v)
  /-- A key that comes more than once has all its values, in order. -/
  again : ∀ k, 1 < (valuesUnder ps k).length → Entries.get? q k = some (.many (valuesUnder ps k))
  /-- The form has the keys in the order in which they came first, and the values of the query. -/
  form_eq : ∃ fields, form = .object fields ∧ Entries.keys fields = (ps.map Prod.fst).eraseDups ∧
    ∀ k, (∀ v, Entries.get? q k = some (.one v) → Entries.get? fields k = some (.text v)) ∧
      ∀ vs, Entries.get? q k = some (.many vs) → Entries.get? fields k = some (.array (vs.map .text))

/-- Pairs are gathered whatever they are. -/
theorem Gathers.ofPairs (ps : List (String × String)) :
    Gathers ps (QueryParams.ofPairs ps) (.object (Form.ofPairs ps)) where
  distinct := QueryParams.distinct_ofPairs ps
  mem_keys k := by rw [QueryParams.keys_ofPairs, List.mem_eraseDups]
  once k v h := by rw [QueryParams.get?_ofPairs, h]; rfl
  again k h := by
    rw [QueryParams.get?_ofPairs]
    match hvs : valuesUnder ps k, h with
    | _ :: _ :: _, _ => rfl
  form_eq := by
    have hget (k : String) := Form.get?_ofQuery (QueryParams.ofPairs ps) k
    rw [← Form.ofPairs_eq] at hget
    refine ⟨Form.ofPairs ps, rfl, ?_, fun k => ⟨fun v hv => ?_, fun vs hvs => ?_⟩⟩
    · rw [Form.ofPairs_eq, Form.keys_ofQuery, QueryParams.keys_ofPairs]
    · rw [hget, hv]; rfl
    · rw [hget, hvs]; rfl

/-- **A query and a form gather alike.**  Whatever pairs are read from a text, its query has just their keys, a key
that comes once with its value and any other with all its values in order; and the text as a form is an object with
the keys in the order in which they came first, a text for each single value and an array of texts for each of the
others. -/
theorem gathers_raw (pairs : List UInt8 → List (String × String)) (raw : String) :
    Gathers (pairs (Utf8.toBytes raw)) (QueryParams.ofRawBy pairs (some raw))
      (Form.toJsonBy pairs (Utf8.toBytes raw)) :=
  Gathers.ofPairs _

end CannedApi
