import CannedApi.Entries

/-!
# TOML values and tables

The tree that a TOML document describes.  A table remembers how it came to be, because that decides who
may add to it: dotted keys add to tables that dotted keys made, a header adds to a table that was only
implied by longer headers, and a table between braces is closed.
-/

namespace CannedApi.Toml

/-- How a table came to be. -/
inductive Origin where
  /-- written between braces -/
  | inline
  /-- opened by its own header -/
  | header
  /-- part of the path of a header -/
  | implied
  /-- part of a dotted key -/
  | dotted
  deriving DecidableEq, Repr

/-- Of numbers with a fraction and of dates only the kind is kept: no setting has one. -/
inductive Value where
  | text (s : String)
  | integer (n : Int)
  | float
  | boolean (b : Bool)
  | datetime
  | array (items : List Value)
  | table (origin : Origin) (entries : List (String × Value))
  /-- tables that were each opened by a doubled header -/
  | rows (tables : List (List (String × Value)))
  deriving Repr, Inhabited

abbrev Table := Entries String Value

namespace Table

/-- Puts a value under a dotted key, which must be new. -/
def insert (t : Table) (path : List String) (key : String) (v : Value) : Option Table :=
  match path with
  | [] => if (Entries.get? t key).isSome then none else some (Entries.put t key v)
  | k :: rest =>
    match Entries.get? t k with
    | none => (insert [] rest key v).map fun inner => Entries.put t k (.table .dotted inner)
    | some (.table .dotted es) =>
      (insert es rest key v).map fun inner => Entries.put t k (.table .dotted inner)
    | some (.table .implied es) =>
      if rest = [] then none
      else (insert es rest key v).map fun inner => Entries.put t k (.table .implied inner)
    | some (.rows tables) =>
      match rest, tables.getLast? with
      | _ :: _, some es =>
        (insert es rest key v).map fun inner => Entries.put t k (.rows (tables.dropLast ++ [inner]))
      | _, _ => none
    | some _ => none

/-- the pairs of dotted keys and values put into a table one after the other -/
def insertAll (t : Table) (pairs : List (List String × String × Value)) : Option Table :=
  pairs.foldlM (fun t p => t.insert p.1 p.2.1 p.2.2) t

/-- Changes the value at the end of a header's path; tables on the way that do not exist are implied. -/
def alter (t : Table) (path : List String) (key : String) (f : Option Value → Option Value) :
    Option Table :=
  match path with
  | [] => (f (Entries.get? t key)).map fun v => Entries.put t key v
  | k :: rest =>
    match Entries.get? t k with
    | none => (alter [] rest key f).map fun inner => Entries.put t k (.table .implied inner)
    | some (.table .inline _) => none
    | some (.table origin es) =>
      (alter es rest key f).map fun inner => Entries.put t k (.table origin inner)
    | some (.rows tables) =>
      match tables.getLast? with
      | some es =>
        (alter es rest key f).map fun inner => Entries.put t k (.rows (tables.dropLast ++ [inner]))
      | none => none
    | some _ => none

/-- The table that a header opens: a new one, or one that was implied so far. -/
def openTable (pairs : List (List String × String × Value)) : Option Value → Option Value
  | none => (insertAll [] pairs).map (.table .header)
  | some (.table .implied es) => (insertAll es pairs).map (.table .header)
  | some _ => none

/-- The table that a doubled header opens stands behind those that were opened so before. -/
def openRow (pairs : List (List String × String × Value)) : Option Value → Option Value
  | none => (insertAll [] pairs).map fun t => .rows [t]
  | some (.rows tables) => (insertAll [] pairs).map fun t => .rows (tables ++ [t])
  | some _ => none

end Table

end CannedApi.Toml
