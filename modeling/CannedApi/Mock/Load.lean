import CannedApi.Disk.Resolve
import CannedApi.Json.Reader
import CannedApi.Mock.Basic

/-!
# Loading answers

A file becomes an answer in three steps, each of which may fail: reading its text, reading the JSON in
it, and taking the settings out.
-/

namespace CannedApi

inductive LoadCause where
  | disk (e : OsError)
  | json (e : Json.ReadError)
  | setting (e : SettingError)

structure LoadError where
  path : Path
  cause : LoadCause

def LoadError.message (e : LoadError) : String :=
  let file := e.path.display
  match e.cause with
  | .disk c => s!"failed to read {file}: {c.message}"
  | .json c => s!"invalid JSON in {file}: {c.message}"
  | .setting c => s!"invalid $config in {file}: {c.message}"

/-- The answer in a file. -/
def Mock.load (d : Disk) (p : Path) : Except LoadError Mock :=
  match d.readText p with
  | .error e => .error ⟨p, .disk e⟩
  | .ok text =>
    match Json.read text with
    | .error e => .error ⟨p, .json e⟩
    | .ok x => (Mock.ofJson x).mapError fun e => ⟨p, .setting e⟩

end CannedApi
