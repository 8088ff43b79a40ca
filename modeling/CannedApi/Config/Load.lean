import CannedApi.Config.Decode
import CannedApi.Config.Toml.Reader
import CannedApi.Config.Validation
import CannedApi.Disk.Resolve
import CannedApi.Json.Writer

/-!
# Settings files

A settings file is TOML.  It is refused if it cannot be read, if it does not describe settings, or if the
settings that it describes are not valid.
-/

namespace CannedApi

inductive ConfigError where
  | disk (e : OsError)
  | notSettings
  | invalid (problems : List SettingsProblem)
  deriving DecidableEq, Repr

def ConfigError.message : ConfigError → String
  | .disk e => s!"IO error: {e.message}"
  | .notSettings => "Parse error: the text does not describe settings"
  | .invalid ps => "Validation failed: " ++ ", ".intercalate (ps.map SettingsProblem.message)

namespace Settings

/-- the settings that the text of a settings file describes, valid or not -/
def ofToml? (text : String) : Option Settings :=
  (Toml.document text).bind fun t => Config.Data.settings? (Config.Data.ofToml (.table .header t))

/-- the settings that a JSON value describes, valid or not -/
def ofJson? (x : Json) : Option Settings := Config.Data.settings? (Config.Data.ofJson x)

def checked (s : Settings) : Except ConfigError Settings :=
  if s.problems = [] then .ok s else .error (.invalid s.problems)

/-- The valid settings in a file. -/
def load (d : Disk) (p : Path) : Except ConfigError Settings :=
  match d.readText p with
  | .error e => .error (.disk e)
  | .ok text =>
    match ofToml? text with
    | none => .error .notSettings
    | some s => s.checked

/-- the settings as JSON -/
def toJson (s : Settings) : Json :=
  .object
    [("mock_dir", .text s.mockDir.display), ("prefix", .text s.base), ("enable", .bool s.enable),
      ("watch", .bool s.watch), ("host", .text s.host), ("port", .ofNat s.port),
      ("cache", .bool s.cache), ("cors", .bool s.cors), ("max_body_size", .ofNat s.maxBodySize),
      ("observability", .object
        [("log_level", .text s.observability.logLevel),
          ("metrics_address", match s.observability.metricsAddress with
            | some a => .text a
            | none => .null)])]

end Settings

end CannedApi
