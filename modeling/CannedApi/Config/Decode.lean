import CannedApi.Config.Settings
import CannedApi.Config.Toml.Value
import CannedApi.Json.Value

/-!
# Settings from data

Settings are read from a tree of plain data, which JSON and TOML both turn into.  What is not said keeps
its default, what is not known is passed over, and a value of the wrong type or out of range is refused.
A record may also be given as a list of its fields in order.
-/

namespace CannedApi.Config

inductive Data where
  | null
  | boolean (b : Bool)
  | integer (n : Int)
  | fraction
  | text (s : String)
  | date
  /-- a list may be strict about items that are too many -/
  | list (items : List Data) (strict : Bool)
  | table (entries : List (String × Data))
  deriving Repr, Inhabited

namespace Data

mutual

def ofJson : Json → Data
  | .null => .null
  | .bool b => .boolean b
  | .number (.whole n _) => .integer n
  | .number (.double _) => .fraction
  | .text s => .text s
  | .array items => .list (ofJsonItems items) true
  | .object entries => .table (ofJsonEntries entries)

def ofJsonItems : List Json → List Data
  | [] => []
  | x :: rest => ofJson x :: ofJsonItems rest

def ofJsonEntries : List (String × Json) → List (String × Data)
  | [] => []
  | (k, x) :: rest => (k, ofJson x) :: ofJsonEntries rest

end

mutual

def ofToml : Toml.Value → Data
  | .text s => .text s
  | .integer n => .integer n
  | .float => .fraction
  | .boolean b => .boolean b
  | .datetime => .date
  | .array items => .list (ofTomlItems items) false
  | .table _ entries => .table (ofTomlEntries entries)
  | .rows tables => .list (ofTomlRows tables) false

def ofTomlItems : List Toml.Value → List Data
  | [] => []
  | x :: rest => ofToml x :: ofTomlItems rest

def ofTomlEntries : List (String × Toml.Value) → List (String × Data)
  | [] => []
  | (k, x) :: rest => (k, ofToml x) :: ofTomlEntries rest

def ofTomlRows : List (List (String × Toml.Value)) → List Data
  | [] => []
  | t :: rest => .table (ofTomlEntries t) :: ofTomlRows rest

end

/-! ## Single values -/

def text? : Data → Option String
  | .text s => some s
  | _ => none

def boolean? : Data → Option Bool
  | .boolean b => some b
  | _ => none

/-- a whole number from zero to a bound -/
def natural? (bound : Nat) : Data → Option Nat
  | .integer n => if 0 ≤ n ∧ n ≤ bound then some n.toNat else none
  | _ => none

/-- a text that may be absent -/
def optionalText? : Data → Option (Option String)
  | .null => some none
  | .text s => some (some s)
  | _ => none

/-! ## Records -/

/-- Data that can stand for a record of so many fields; a date has no field that any record knows. -/
def isRecord (fields : Nat) : Data → Bool
  | .table _ => true
  | .date => true
  | .list items strict => !strict || items.length ≤ fields
  | _ => false

/-- the field with a name, or in a list the one at its place -/
def field? (d : Data) (place : Nat) (name : String) : Option Data :=
  match d with
  | .table entries => Entries.get? entries name
  | .list items _ => items[place]?
  | _ => none

/-- a field read, or its default where nothing is said -/
def field {α : Type} (d : Data) (place : Nat) (name : String) (read : Data → Option α)
    (default : α) : Option α :=
  match d.field? place name with
  | some x => read x
  | none => some default

def portBound : Nat := 65535
def sizeBound : Nat := 18446744073709551615

def observability? (d : Data) : Option Observability :=
  if d.isRecord 2 then do
    let base : Observability := {}
    let logLevel ← d.field 0 "log_level" text? base.logLevel
    let metricsAddress ← d.field 1 "metrics_address" optionalText? base.metricsAddress
    return { logLevel, metricsAddress }
  else none

/-- The settings that data describes. -/
def settings? (d : Data) : Option Settings :=
  if d.isRecord 10 then do
    let start : Settings := {}
    let mockDir ← d.field 0 "mock_dir" (fun x => x.text?.map Path.ofText) start.mockDir
    let base ← d.field 1 "prefix" text? start.base
    let enable ← d.field 2 "enable" boolean? start.enable
    let watch ← d.field 3 "watch" boolean? start.watch
    let host ← d.field 4 "host" text? start.host
    let port ← d.field 5 "port" (natural? portBound) start.port
    let cache ← d.field 6 "cache" boolean? start.cache
    let cors ← d.field 7 "cors" boolean? start.cors
    let maxBodySize ← d.field 8 "max_body_size" (natural? sizeBound) start.maxBodySize
    let observability ← d.field 9 "observability" observability? start.observability
    return { mockDir, base, enable, watch, host, port, cache, cors, maxBodySize, observability }
  else none

end Data

end CannedApi.Config
