import CannedApi.Text.Digits
import CannedApi.Text.Extender
import CannedApi.Text.Unprintable
import CannedApi.Text.Utf8

/-!
# Quoted text

Texts between double quotes, for people to read: quotes, backslashes and what leaves no mark of its own
are escaped.
-/

namespace CannedApi.Text

def quoteChar (c : Char) : List Char :=
  if c = '"' then ['\\', '"']
  else if c = '\\' then ['\\', '\\']
  else if c = '\n' then ['\\', 'n']
  else if c = '\r' then ['\\', 'r']
  else if c = '\t' then ['\\', 't']
  else if c.toNat = 0 then ['\\', '0']
  else if isExtender c || isUnprintable c then '\\' :: 'u' :: '{' :: hexDecimal c.toNat ++ ['}']
  else [c]

/-- a text between quotes -/
def quote (s : String) : String := String.ofList ('"' :: s.toList.flatMap quoteChar ++ ['"'])

end CannedApi.Text
