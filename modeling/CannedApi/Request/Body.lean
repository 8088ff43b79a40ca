import CannedApi.Json.Reader
import CannedApi.Request.Query
import CannedApi.Text.Blank

/-!
# Request bodies

What a body means depends on its content type: JSON, a form, or nothing that a template could refer
to.  A body that cannot be used counts as none.
-/

namespace CannedApi.Body

inductive Media where
  | json
  | form
  deriving DecidableEq, Repr

/-- Header values are texts only if all bytes are printable ASCII or tabs. -/
def headerText? (value : List UInt8) : Option (List Char) :=
  if value.all fun b => (0x20 ≤ b && b < 0x7F) || b == 0x09 then
    some (value.map fun b => Char.ofNat b.toNat)
  else none

/-- The media type in a content type: the part before the first `;`, without white space around it and
in lower case. -/
def mediaName (contentType : List Char) : List Char :=
  (Text.trimmed ((Text.pieces ';' contentType).headD [])).map Char.toLower

def Media.ofName? (name : List Char) : Option Media :=
  if name = "application/json".toList ∨ "+json".toList.isSuffixOf name then some .json
  else if name = "application/x-www-form-urlencoded".toList then some .form
  else none

/-- The media type of a content type, if it is one that is read. -/
def media? (contentType : List UInt8) : Option Media :=
  (headerText? contentType).bind fun cs => Media.ofName? (mediaName cs)

/-- the value of bytes of a media type -/
def read? : Media → List UInt8 → Option Json
  | .form, bytes => some (Form.toJson bytes)
  | .json, bytes =>
    match Utf8.ofBytes? bytes with
    | none => none
    | some s => (Json.read s).toOption

/-- The value of a body, if it has one. -/
def parse (contentType : Option (List UInt8)) (bytes : List UInt8) : Option Json :=
  if bytes = [] then none
  else contentType.bind fun t => (media? t).bind fun m => read? m bytes

/-- the value of a body of at most `limit` bytes; a longer one counts as none -/
def parseLimited (limit : Nat) (contentType : Option (List UInt8)) (bytes : List UInt8) :
    Option Json :=
  if limit < bytes.length then none else parse contentType bytes

end CannedApi.Body
