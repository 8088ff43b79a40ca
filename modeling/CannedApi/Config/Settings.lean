import CannedApi.Disk.Path
import CannedApi.Route.Naming
import CannedApi.Text.Digits

/-!
# Settings

Everything about a server that can be configured, with the values that hold where nothing is said.
-/

namespace CannedApi

structure Observability where
  logLevel : String := "info"
  /-- where counters are served, if anywhere -/
  metricsAddress : Option String := none
  deriving DecidableEq, Repr

structure Settings where
  /-- the directory with the answers -/
  mockDir : Path := Path.ofText "./mocks"
  /-- the path that all routes stand below, as it was written -/
  base : String := ""
  /-- whether the layer in front of another handler answers at all -/
  enable : Bool := true
  /-- whether changes of the directory are followed -/
  watch : Bool := false
  host : String := "127.0.0.1"
  port : Nat := 3000
  /-- whether loaded answers are remembered -/
  cache : Bool := false
  /-- whether pages of every origin may read the answers -/
  cors : Bool := true
  /-- how many bytes of a request body are read -/
  maxBodySize : Nat := 2097152
  observability : Observability := {}
  deriving DecidableEq, Repr

namespace Settings

/-- the normal form of the path that all routes stand below -/
def normalBase (s : Settings) : String := Naming.normalizeBase s.base

/-- host and port as they are shown -/
def bindAddress (s : Settings) : String := s!"{s.host}:{Text.decimalText s.port}"

/-- The log filter for a level: that level for the program and for its requests. -/
def logFilter (level : String) : String := s!"api_mocker={level},tower_http={level}"

end Settings

end CannedApi
