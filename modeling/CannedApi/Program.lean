import CannedApi.CommandLine
import CannedApi.Config.Load
import CannedApi.Server.Session

/-!
# The program

From arguments to a running server: the command line is read, then the settings file if one is named,
then what the command line says is put in place, and the result is checked.
-/

namespace CannedApi

/-- Why the program does not go on to serve. -/
inductive Refusal where
  | commandLine (s : Stop)
  | settingsFile (path : Path) (e : ConfigError)
  | settings (problems : List SettingsProblem)
  deriving DecidableEq, Repr

namespace Refusal

/-- what is written to the standard error output, apart from help on the usage -/
def lines : Refusal → List String
  | .commandLine _ => []
  | .settingsFile p e => [s!"Failed to load config {p.display}: {e.message}"]
  | .settings ps => ps.map fun p => s!"Invalid configuration: {p.message}"

def exitCode : Refusal → Nat
  | .commandLine .help => 0
  | .commandLine .misuse => 2
  | .settingsFile _ _ => 1
  | .settings _ => 1

end Refusal

namespace Program

/-- the settings in the file that the command line names, or those that hold where nothing is said -/
def fileSettings (f : Flags) (d : Disk) : Except Refusal Settings :=
  match f.config with
  | none => .ok {}
  | some p => (Settings.load d p).mapError fun e => .settingsFile p e

/-- The settings that the program runs with. -/
def configure (args : List String) (d : Disk) : Except Refusal Settings :=
  match Flags.parse args with
  | .error s => .error (.commandLine s)
  | .ok f =>
    (fileSettings f d).bind fun s =>
      let s := f.applyTo s
      if s.problems = [] then .ok s else .error (.settings s.problems)

/-- The exit code of a run that is stopped from outside once it serves. -/
def exitCode (args : List String) (d : Disk) (addressTaken : Bool) : Nat :=
  match configure args d with
  | .error r => r.exitCode
  | .ok s =>
    match Session.start s d addressTaken with
    | .error _ => 1
    | .ok _ => 0

end Program

end CannedApi
