import CannedApi.Config.Settings
import CannedApi.Config.SocketAddress
import CannedApi.Text.Blank

/-!
# Valid settings

What settings must satisfy before a server is started with them.  All problems are found, in a fixed
order, not only the first.
-/

namespace CannedApi

inductive SettingsProblem where
  | port
  | emptyMockDir
  | emptyHost
  | zeroBodyLimit
  | metricsAddress (given : String)
  deriving DecidableEq, Repr

def SettingsProblem.message : SettingsProblem → String
  | .port => "port must be between 1 and 65535"
  | .emptyMockDir => "mock_dir must not be empty"
  | .emptyHost => "host must not be empty"
  | .zeroBodyLimit => "max_body_size must be greater than zero"
  | .metricsAddress given => s!"metrics_address is not a socket address: {given}"

namespace Settings

def metricsProblem (o : Observability) : List SettingsProblem :=
  match o.metricsAddress with
  | none => []
  | some a => if (SocketAddress.parse? a).isSome then [] else [.metricsAddress a]

/-- All problems of the settings. -/
def problems (s : Settings) : List SettingsProblem :=
  (if s.port = 0 then [.port] else []) ++
  (if s.mockDir.bytes = [] then [.emptyMockDir] else []) ++
  (if Text.trim s.host = "" then [.emptyHost] else []) ++
  (if s.maxBodySize = 0 then [.zeroBodyLimit] else []) ++
  metricsProblem s.observability

end Settings

end CannedApi
