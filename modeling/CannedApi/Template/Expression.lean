import CannedApi.Text.Blank
import CannedApi.Text.Split

/-!
# Expressions

What stands in a slot: the time, a random value, or a value of the request by its key.  White space
around it does not count.
-/

namespace CannedApi.Template

inductive Expression where
  | now
  | random (generator : String)
  | param (key : String)
  | query (key : String)
  | body (key : String)
  | unknown (text : String)
  deriving DecidableEq, Repr

namespace Expression

/-- the openings of the expressions that end in a name -/
def openings : List (String × (String → Expression)) :=
  [("$random.", .random), ("$params.", .param), ("$query.", .query), ("$body.", .body)]

/-- The expression that the inside of a slot spells. -/
def ofChars (inner : List Char) : Expression :=
  let cs := Text.trimmed inner
  if cs = "$now".toList then .now
  else
    let known := openings.findSome? fun p =>
      (Text.dropHead? p.1.toList cs).map fun key => p.2 (String.ofList key)
    known.getD (.unknown (String.ofList cs))

end Expression

end CannedApi.Template
