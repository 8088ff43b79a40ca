import CannedApi.Route.Pattern
import CannedApi.Text.Blank
import CannedApi.Text.Split

/-!
# How names become routes

A file `<name>.json` or `<name>.<method>.json` in the directory of canned answers is a route.  Inside
one name `-[<parameter>]` ends the literal before it and names a parameter; every other bracket is
literal.  All routes stand below a common path, whose normal form is empty or starts with a slash and
does not end with one.
-/

namespace CannedApi.Naming

/-! ## The common path -/

def dropSlashes (cs : List Char) : List Char := (cs.reverse.dropWhile (· = '/')).reverse

/-- A slash in front and none behind; nothing but slashes is one slash, and a single slash or nothing
is nothing. -/
def normalChars (p : List Char) : List Char :=
  let t := Text.trimmed p
  if t = [] ∨ t = ['/'] then []
  else
    let t := if t.head? = some '/' then t else '/' :: t
    let short := dropSlashes t
    if short = [] then ['/'] else short

/-- The normal form of the path that all routes stand below. -/
def normalizeBase (base : String) : String := String.ofList (normalChars base.toList)

/-- the literals of the common path -/
def baseSegments (base : List Char) : Pattern :=
  ((Text.pieces '/' base).filter (· ≠ [])).map fun cs => .literal (String.ofList cs)

/-! ## File names -/

/-- the ending of every file with an answer -/
def ending : List Char := ['.', 'j', 's', 'o', 'n']

/-- The method and the rest of a file name without its ending: a method may stand after the last dot
or be the whole name. -/
def splitStem (stem : List Char) : Method × List Char :=
  match Text.cutLast '.' stem with
  | some (logical, token) =>
    match Method.ofChars? token with
    | some m => (m, logical)
    | none => (.get, stem)
  | none =>
    match Method.ofChars? stem with
    | some m => (m, [])
    | none => (.get, stem)

def splitChars (name : List Char) : Option (Method × List Char) :=
  (Text.dropTail? ending name).map splitStem

/-- The method and the logical name of a file, if its name has the ending. -/
def splitMethod (name : String) : Option (Method × String) :=
  (splitChars name.toList).map fun p => (p.1, String.ofList p.2)

theorem splitMethod_of_ending {name : String} {stem : List Char} (h : name.toList = stem ++ ending) :
    splitMethod name = some ((splitStem stem).1, String.ofList (splitStem stem).2) := by
  rw [splitMethod, splitChars, h, Text.dropTail?_append]
  rfl

/-! ## Expansion -/

/-- the text before the first `]` and the text after it -/
abbrev cutBracket (cs : List Char) : Option (List Char × List Char) := Text.cutFirst ']' cs

theorem length_lt_of_cutFirst {mark : Char} {l a b : List Char}
    (h : Text.cutFirst mark l = some (a, b)) : b.length < l.length := by
  rw [Text.eq_of_cutFirst h]
  simp
  omega

def literalOf (cs : List Char) : Pattern := if cs = [] then [] else [.literal (String.ofList cs)]

/-- The segments of a name: `acc` holds the literal read so far, in reverse. -/
def expandFrom (acc : List Char) (cs : List Char) : Pattern :=
  match cs with
  | [] => literalOf acc.reverse
  | '-' :: '[' :: rest =>
    match h : cutBracket rest with
    | some (c :: name, after) =>
      have := length_lt_of_cutFirst h
      literalOf acc.reverse ++ .param (String.ofList (c :: name)) :: expandFrom [] after
    | _ => expandFrom ('[' :: '-' :: acc) rest
  | c :: rest => expandFrom (c :: acc) rest
termination_by cs.length
decreasing_by all_goals simp_wf; try omega

theorem expandFrom_param {rest name after : List Char} {c : Char}
    (h : cutBracket rest = some (c :: name, after)) (acc : List Char) :
    expandFrom acc ('-' :: '[' :: rest) =
      literalOf acc.reverse ++ .param (String.ofList (c :: name)) :: expandFrom [] after := by
  rw [expandFrom]
  split
  · rename_i c' name' after' h'
    rw [h] at h'
    simp only [Option.some.injEq, Prod.mk.injEq, List.cons.injEq] at h'
    rw [h'.1.1, h'.1.2, h'.2]
  · rename_i hne
    exact absurd h (hne c name after)

theorem expandFrom_open {rest : List Char}
    (h : ∀ c name after, cutBracket rest ≠ some (c :: name, after)) (acc : List Char) :
    expandFrom acc ('-' :: '[' :: rest) = expandFrom ('[' :: '-' :: acc) rest := by
  rw [expandFrom]
  split
  · rename_i c name after hcut
    exact absurd hcut (h c name after)
  · rfl

theorem expandFrom_char {c : Char} {rest : List Char}
    (h : ∀ more, c = '-' → rest = '[' :: more → False) (acc : List Char) :
    expandFrom acc (c :: rest) = expandFrom (c :: acc) rest := by
  rw [expandFrom]
  exact h

/-- A name is at its end, or it begins with a parameter, with an opening that nothing closes, or with another
character. -/
@[elab_as_elim]
theorem expandFrom_induction {P : List Char → List Char → Prop} (nil : ∀ acc, P acc [])
    (param : ∀ acc rest c name after, cutBracket rest = some (c :: name, after) → P [] after →
      P acc ('-' :: '[' :: rest))
    (opening : ∀ acc rest, (∀ c name after, cutBracket rest ≠ some (c :: name, after)) →
      P ('[' :: '-' :: acc) rest → P acc ('-' :: '[' :: rest))
    (char : ∀ acc c rest, (∀ more, c = '-' → rest = '[' :: more → False) → P (c :: acc) rest → P acc (c :: rest))
    (acc cs : List Char) : P acc cs :=
  expandFrom.induct P nil (fun acc rest c name after h _ ih => param acc rest c name after h ih) opening char
    acc cs

def expandChars (cs : List Char) : Pattern := expandFrom [] cs

/-- The segments of one name. -/
def expand (raw : String) : Pattern := expandChars raw.toList

/-- the pattern of a file: the common path, the directories above the file, its logical name -/
def pattern (base : String) (dirs : List String) (logical : String) : Pattern :=
  baseSegments base.toList ++ dirs.flatMap expand ++ expand logical

end CannedApi.Naming
