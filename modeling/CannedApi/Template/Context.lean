import CannedApi.Json.Writer
import CannedApi.Text.Split

/-!
# What a template can refer to

The values of one request that slots may name: parameters of the path, of the query, and the body.
-/

namespace CannedApi

/-- The value of a query key: repeated keys have several. -/
inductive QueryValue where
  | one (value : String)
  | many (values : List String)
  deriving DecidableEq, Repr

/-- repeated values are joined by commas -/
def QueryValue.text : QueryValue → String
  | .one v => v
  | .many vs => ",".intercalate vs

abbrev QueryParams := Entries String QueryValue

namespace Template

structure Context where
  params : Entries String String
  query : QueryParams
  body : Option Json
  deriving Inhabited

namespace Context

/-- the place in an array that a key names: a number of 64 bits, with an optional plus sign -/
def index? (key : String) : Option Nat :=
  let digits := match key.toList with
    | '+' :: rest => rest
    | cs => cs
  (Text.readDecimal digits).bind fun n => if n < 18446744073709551616 then some n else none

/-- the value in a body that a key names -/
def member? : Json → String → Option Json
  | .object entries, key => Entries.get? entries key
  | .array items, key => (index? key).bind fun i => items[i]?
  | _, _ => none

/-- The text of a value in a slot: texts as they are, `null` not at all, all else as JSON. -/
def valueText? : Json → Option String
  | .null => none
  | .text s => some s
  | x => some x.write

def bodyText? (c : Context) (key : String) : Option String :=
  c.body.bind fun b => (member? b key).bind valueText?

def queryText? (c : Context) (key : String) : Option String :=
  (Entries.get? c.query key).map QueryValue.text

def paramText? (c : Context) (key : String) : Option String := Entries.get? c.params key

end Context

end Template

end CannedApi
