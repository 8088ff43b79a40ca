import CannedApi.Config.Settings

/-!
# The command line

Options with and without values, in a long form (`--port 80`, `--port=80`) and some in a short one
(`-p 80`, `-p80`, `-p=80`); short ones may be written together (`-wp80`).  No option may be given twice,
and nothing but options is allowed.
-/

namespace CannedApi

/-- What the command line says. -/
structure Flags where
  port : Option Nat := none
  dir : Option Path := none
  base : Option String := none
  watch : Bool := false
  config : Option Path := none
  host : Option String := none
  cache : Bool := false
  logLevel : Option String := none
  deriving DecidableEq, Repr

/-- Why a command line does not lead to a run. -/
inductive Stop where
  /-- help was asked for -/
  | help
  | misuse
  deriving DecidableEq, Repr

namespace Flags

inductive Opt where
  | port
  | dir
  | base
  | watch
  | config
  | host
  | cache
  | logLevel
  | help
  deriving DecidableEq, Repr

namespace Opt

def ofLong? : String → Option Opt
  | "port" => some .port
  | "dir" => some .dir
  | "prefix" => some .base
  | "watch" => some .watch
  | "config" => some .config
  | "host" => some .host
  | "cache" => some .cache
  | "log-level" => some .logLevel
  | "help" => some .help
  | _ => none

def ofShort? : Char → Option Opt
  | 'p' => some .port
  | 'd' => some .dir
  | 'w' => some .watch
  | 'c' => some .config
  | 'h' => some .help
  | _ => none

def takesValue : Opt → Bool
  | .watch => false
  | .cache => false
  | .help => false
  | _ => true

end Opt

/-- a port: a whole number with an optional sign, in the range of ports -/
def port? (value : List Char) : Option Nat :=
  let (negative, digits) := match value with
    | '-' :: rest => (true, rest)
    | '+' :: rest => (false, rest)
    | cs => (false, cs)
  (Text.readDecimal digits).bind fun n =>
    if n ≤ 65535 ∧ (negative = true → n = 0) then some n else none

/-- a path that is not empty -/
def path? (value : String) : Option Path := if value = "" then none else some (.ofText value)

/-- the value of an option that has none yet -/
def fill {α : Type} (old : Option α) (new : Option α) : Except Stop (Option α) :=
  match old, new with
  | none, some v => .ok (some v)
  | _, _ => .error .misuse

/-- an option without a value that has not been given yet -/
def turnOn (old : Bool) : Except Stop Bool := if old then .error .misuse else .ok true

/-- gives an option a value -/
def setValue (f : Flags) (o : Opt) (v : String) : Except Stop Flags :=
  match o with
  | .port => (fill f.port (port? v.toList)).map fun x => { f with port := x }
  | .dir => (fill f.dir (path? v)).map fun x => { f with dir := x }
  | .base => (fill f.base (some v)).map fun x => { f with base := x }
  | .config => (fill f.config (path? v)).map fun x => { f with config := x }
  | .host => (fill f.host (some v)).map fun x => { f with host := x }
  | .logLevel => (fill f.logLevel (some v)).map fun x => { f with logLevel := x }
  | .watch => .error .misuse
  | .cache => .error .misuse
  | .help => .error .misuse

/-- gives an option that takes no value -/
def setPlain (f : Flags) (o : Opt) : Except Stop Flags :=
  match o with
  | .watch => (turnOn f.watch).map fun x => { f with watch := x }
  | .cache => (turnOn f.cache).map fun x => { f with cache := x }
  | .help => .error .help
  | _ => .error .misuse

/-- What short options written together leave to be done: nothing, or the value of the last one. -/
inductive Pending where
  | done (f : Flags)
  | needs (f : Flags) (o : Opt)

/-- short options written together; what stands behind one with a value is its value -/
def shorts (f : Flags) : List Char → Except Stop Pending
  | [] => .ok (.done f)
  | c :: rest =>
    match Opt.ofShort? c with
    | none => .error .misuse
    | some o =>
      if o.takesValue then
        match rest with
        | [] => .ok (.needs f o)
        | '=' :: v => (f.setValue o (String.ofList v)).map .done
        | v => (f.setValue o (String.ofList v)).map .done
      else (f.setPlain o).bind fun f => shorts f rest

/-- a long option, with its value if that is attached -/
def long (f : Flags) (name : List Char) : Except Stop Pending :=
  let (name, value) := match Text.cutFirst '=' name with
    | some (n, v) => (n, some (String.ofList v))
    | none => (name, none)
  match Opt.ofLong? (String.ofList name), value with
  | none, _ => .error .misuse
  | some o, some v => (f.setValue o v).map .done
  | some o, none => if o.takesValue then .ok (.needs f o) else (f.setPlain o).map .done

/-- one argument that starts an option; nothing else may stand there -/
def start (f : Flags) (arg : List Char) : Except Stop Pending :=
  match arg with
  | '-' :: '-' :: name => long f name
  | '-' :: c :: cs => shorts f (c :: cs)
  | _ => .error .misuse

/-- An argument that can be the value of the option before it: it does not look like an option. -/
def isValue (arg : String) : Bool := arg = "-" || arg.toList.head? != some '-'

/-- reads the arguments on top of what has been said -/
def parseFrom (f : Flags) : List String → Except Stop Flags
  | [] => .ok f
  | ["--"] => .ok f
  | arg :: rest =>
    if arg = "--" then .error .misuse
    else
      match f.start arg.toList with
      | .error e => .error e
      | .ok (.done f) => parseFrom f rest
      | .ok (.needs f o) =>
        match rest with
        | [] => .error .misuse
        | v :: rest =>
          if isValue v then
            match f.setValue o v with
            | .error e => .error e
            | .ok f => parseFrom f rest
          else .error .misuse

/-- What a command line says. -/
def parse (args : List String) : Except Stop Flags := parseFrom {} args

/-- help on the command line -/
def usage : String :=
  "\n".intercalate
    ["Serve mock API responses from a directory of JSON files", "",
      "Usage: api-mocker [OPTIONS]", "",
      "Options:",
      "  -p, --port <PORT>            Port to listen on",
      "  -d, --dir <DIR>              Mock directory",
      "      --prefix <PREFIX>        URL prefix for every route, e.g. /api",
      "  -w, --watch                  Reload routes when mock files change",
      "  -c, --config <CONFIG>        TOML config file; flags override its values",
      "      --host <HOST>            Host to bind",
      "      --cache                  Keep loaded mocks in memory until the next reload",
      "      --log-level <LOG_LEVEL>  Log level",
      "  -h, --help                   Print help"]

/-- The settings with everything put in place that the command line says. -/
def applyTo (f : Flags) (s : Settings) : Settings where
  mockDir := f.dir.getD s.mockDir
  base := f.base.getD s.base
  enable := s.enable
  watch := s.watch || f.watch
  host := f.host.getD s.host
  port := f.port.getD s.port
  cache := s.cache || f.cache
  cors := s.cors
  maxBodySize := s.maxBodySize
  observability :=
    { s.observability with logLevel := f.logLevel.getD s.observability.logLevel }

end Flags

end CannedApi
