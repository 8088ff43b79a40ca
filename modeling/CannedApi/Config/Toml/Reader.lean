import CannedApi.Config.Toml.Scalar

/-!
# Reading TOML

A document is pairs of keys and values, then sections under headers.  Values may hold values; how deep
is limited, as is the number of parts of a key.  Only whether a document can be read matters, not what
is wrong with one that cannot.
-/

namespace CannedApi.Toml

/-! ## Keys -/

/-- fewer parts than this in a key, and fewer values than this inside each other -/
def depthLimit : Nat := 80

def isBareKeyChar (c : Char) : Bool := c.isAlphanum || c == '-' || c == '_'

/-- one part of a key: bare, or a text on one line -/
def keyPart (cs : List Char) : Reading String :=
  match cs with
  | '"' :: rest => (basicText (rest.length + 1) rest).map fun p => (String.ofList p.1, p.2)
  | '\'' :: rest => (literalText rest).map fun p => (String.ofList p.1, p.2)
  | cs =>
    let bare := cs.takeWhile isBareKeyChar
    if bare = [] then none else some (String.ofList bare, cs.dropWhile isBareKeyChar)

/-- the parts of a key, blanks around them skipped -/
def keyParts : Nat → List Char → Reading (List String)
  | 0, _ => none
  | fuel + 1, cs =>
    (keyPart (skipSpaces cs)).bind fun p =>
      match skipSpaces p.2 with
      | '.' :: rest => (keyParts fuel rest).map fun q => (p.1 :: q.1, q.2)
      | rest => some ([p.1], rest)

/-- A key: the parts that lead to its last part, and that. -/
def key (cs : List Char) : Reading (List String × String) :=
  (keyParts (depthLimit - 1) cs).bind fun p =>
    match p.1.getLast? with
    | some last => some ((p.1.dropLast, last), p.2)
    | none => none

/-! ## Values -/

/-- blanks, line ends and comments with their line ends -/
def skipFiller : Nat → List Char → List Char
  | 0, cs => cs
  | fuel + 1, cs =>
    let cs := skipSpaces cs
    match newline? cs with
    | some rest => skipFiller fuel rest
    | none =>
      match cs with
      | '#' :: rest =>
        match newline? (skipComment ('#' :: rest)) with
        | some rest => skipFiller fuel rest
        | none => cs
      | cs => cs

def filler (cs : List Char) : List Char := skipFiller (cs.length + 1) cs

/-- a word that stands for a value -/
def word (w : String) (v : Value) (cs : List Char) : Reading Value :=
  if w.toList.isPrefixOf cs then some (v, cs.drop w.length) else none

mutual

/-- a value; `depth` more values may be opened -/
def value : Nat → Nat → List Char → Reading Value
  | 0, _, _ => none
  | fuel + 1, depth, cs =>
    match cs with
    | '"' :: _ => (text cs).map fun p => (.text p.1, p.2)
    | '\'' :: _ => (text cs).map fun p => (.text p.1, p.2)
    | '[' :: rest =>
      match depth with
      | 0 => none
      | depth + 1 =>
        match filler rest with
        | ']' :: rest => some (.array [], rest)
        | _ => (items fuel depth rest).map fun p => (.array p.1, p.2)
    | '{' :: rest =>
      match depth with
      | 0 => none
      | depth + 1 =>
        match skipSpaces rest with
        | '}' :: rest => some (.table .inline [], rest)
        | _ =>
          (fields fuel depth rest).bind fun p =>
            (Table.insertAll [] p.1).map fun t => (.table .inline t, p.2)
    | 't' :: _ => word "true" (.boolean true) cs
    | 'f' :: _ => word "false" (.boolean false) cs
    | _ => number cs

/-- the items of an array from one that must be there, and its closing bracket -/
def items : Nat → Nat → List Char → Reading (List Value)
  | 0, _, _ => none
  | fuel + 1, depth, cs =>
    (value fuel depth (filler cs)).bind fun p =>
      match filler p.2 with
      | ']' :: rest => some ([p.1], rest)
      | ',' :: rest =>
        match filler rest with
        | ']' :: rest => some ([p.1], rest)
        | _ => (items fuel depth rest).map fun q => (p.1 :: q.1, q.2)
      | _ => none

/-- the pairs of an inline table from one that must be there, and its closing brace -/
def fields : Nat → Nat → List Char → Reading (List (List String × String × Value))
  | 0, _, _ => none
  | fuel + 1, depth, cs =>
    (key cs).bind fun k =>
      (expect '=' k.2).bind fun cs =>
        (value fuel depth (skipSpaces cs)).bind fun p =>
          let pair := (k.1.1, k.1.2, p.1)
          match skipSpaces p.2 with
          | '}' :: rest => some ([pair], rest)
          | ',' :: rest => (fields fuel depth rest).map fun q => (pair :: q.1, q.2)
          | _ => none

end

/-! ## Documents -/

inductive Statement where
  | pair (path : List String) (key : String) (v : Value)
  | header (path : List String) (key : String)
  | rowHeader (path : List String) (key : String)

/-- the end of a line, a comment before it skipped -/
def lineEnd (cs : List Char) : Option (List Char) :=
  match skipComment (skipSpaces cs) with
  | [] => some []
  | cs => newline? cs

/-- a pair, or a header in its brackets -/
def statement (cs : List Char) : Reading Statement :=
  match cs with
  | '[' :: '[' :: rest =>
    (key rest).bind fun k =>
      ((expect ']' k.2).bind (expect ']')).map fun rest => (.rowHeader k.1.1 k.1.2, rest)
  | '[' :: rest =>
    (key rest).bind fun k => (expect ']' k.2).map fun rest => (.header k.1.1 k.1.2, rest)
  | cs =>
    (key cs).bind fun k =>
      (expect '=' k.2).bind fun rest =>
        let rest := skipSpaces rest
        (value (2 * rest.length + 2) (depthLimit - 1) rest).map fun p =>
          (.pair k.1.1 k.1.2 p.1, p.2)

/-- the statements of a document, blank lines and comments skipped -/
def statements : Nat → List Char → Option (List Statement)
  | 0, _ => none
  | fuel + 1, cs =>
    match skipSpaces cs with
    | [] => some []
    | c :: rest =>
      if c = '#' ∨ c = '\n' ∨ c = '\r' then (lineEnd (c :: rest)).bind (statements fuel)
      else
        (statement (c :: rest)).bind fun p =>
          (lineEnd p.2).bind fun rest => (statements fuel rest).map (p.1 :: ·)

/-- the pairs up to the next header, and the statements from it on -/
def cutPairs : List Statement → List (List String × String × Value) × List Statement
  | .pair path key v :: rest =>
    let p := cutPairs rest
    ((path, key, v) :: p.1, p.2)
  | rest => ([], rest)

/-- puts the sections of a document into its table, one after the other -/
def sections : Nat → Table → List Statement → Option Table
  | 0, _, _ => none
  | _, t, [] => some t
  | fuel + 1, t, .header path key :: rest =>
    let p := cutPairs rest
    (t.alter path key (Table.openTable p.1)).bind fun t => sections fuel t p.2
  | fuel + 1, t, .rowHeader path key :: rest =>
    let p := cutPairs rest
    (t.alter path key (Table.openRow p.1)).bind fun t => sections fuel t p.2
  | fuel + 1, t, .pair path key v :: rest =>
    (t.insert path key v).bind fun t => sections fuel t rest

/-- The table that a document describes. -/
def document (s : String) : Option Table :=
  let cs := s.toList
  let cs := if cs.head? = some (Char.ofNat 0xFEFF) then cs.drop 1 else cs
  (statements (cs.length + 1) cs).bind fun sts => sections (sts.length + 1) [] sts

end CannedApi.Toml
