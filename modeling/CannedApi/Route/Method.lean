/-!
# Methods

The seven methods that a canned answer may have.  A token names one of them in any letter case; the
case of letters is that of ASCII.
-/

namespace CannedApi

inductive Method where
  | get
  | post
  | put
  | delete
  | patch
  | head
  | options
  deriving DecidableEq, Repr, Inhabited

/-- A token that names no method. -/
structure UnknownMethod where
  token : String
  deriving DecidableEq, Repr

def UnknownMethod.message (e : UnknownMethod) : String := s!"unsupported HTTP method: {e.token}"

/-- equal up to the case of ASCII letters -/
def sameLetters (a b : List Char) : Bool := a.map Char.toLower == b.map Char.toLower

namespace Method

def all : List Method := [.get, .post, .put, .delete, .patch, .head, .options]

def name : Method → String
  | .get => "GET"
  | .post => "POST"
  | .put => "PUT"
  | .delete => "DELETE"
  | .patch => "PATCH"
  | .head => "HEAD"
  | .options => "OPTIONS"

def ofChars? (token : List Char) : Option Method :=
  all.find? fun m => sameLetters m.name.toList token

/-- The method that a token names. -/
def ofToken? (token : String) : Option Method := ofChars? token.toList

def ofToken (token : String) : Except UnknownMethod Method :=
  match ofToken? token with
  | some m => .ok m
  | none => .error ⟨token⟩

theorem mem_all (m : Method) : m ∈ all := by cases m <;> decide

theorem ofChars?_name (m : Method) : ofChars? m.name.toList = some m := by cases m <;> decide

end Method

end CannedApi
