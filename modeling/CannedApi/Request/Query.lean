import CannedApi.Template.Context
import CannedApi.Text.Percent

/-!
# Queries and forms

A query and a form body are written alike, as pairs of a key and a value.  Repeated keys gather their
values in order; a query gathers them as query values, a form as JSON.
-/

namespace CannedApi

namespace QueryValue

/-- the value with one more -/
def add : QueryValue → String → QueryValue
  | .one v, w => .many [v, w]
  | .many vs, w => .many (vs ++ [w])

end QueryValue

namespace QueryParams

def addPair (q : QueryParams) (p : String × String) : QueryParams :=
  match Entries.get? q p.1 with
  | none => Entries.put q p.1 (.one p.2)
  | some v => Entries.put q p.1 (v.add p.2)

def ofPairs (ps : List (String × String)) : QueryParams := ps.foldl addPair []

/-- The values of a raw query whose pairs are read by `pairs`; without a query there are none. -/
def ofRawBy (pairs : List UInt8 → List (String × String)) : Option String → QueryParams
  | none => []
  | some raw => ofPairs (pairs (Utf8.toBytes raw))

/-- The values of a raw query. -/
def ofRaw (raw : Option String) : QueryParams := ofRawBy Percent.formPairs raw

end QueryParams

namespace Form

/-- a form value with one more: texts, and arrays of texts for repeated keys -/
def add : Json → String → Json
  | .array vs, w => .array (vs ++ [.text w])
  | v, w => .array [v, .text w]

def addPair (f : Entries String Json) (p : String × String) : Entries String Json :=
  match Entries.get? f p.1 with
  | none => Entries.put f p.1 (.text p.2)
  | some v => Entries.put f p.1 (add v p.2)

def ofPairs (ps : List (String × String)) : Entries String Json := ps.foldl addPair []

/-- The object that a form body describes whose pairs are read by `pairs`. -/
def toJsonBy (pairs : List UInt8 → List (String × String)) (bytes : List UInt8) : Json :=
  .object (ofPairs (pairs bytes))

/-- The object that a form body describes. -/
def toJson (bytes : List UInt8) : Json := toJsonBy Percent.formPairs bytes

end Form

end CannedApi
