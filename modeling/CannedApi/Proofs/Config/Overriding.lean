import CannedApi.Program
import CannedApi.Proofs.Except
import CannedApi.Proofs.Text.Utf8

/-!
# The command line and the settings file

What the command line gives is put in place of what the file says.  The file is checked alone, before
that, so that the problems of the file that the command line would mend are refused as well; the others
are still there afterwards (`Flags.mem_problems_applyTo_iff`).
-/

namespace CannedApi

/-! ## Problems one by one -/

namespace SettingsProblem

/-- The settings have the problem. -/
def Holds (s : Settings) : SettingsProblem → Prop
  | .port => s.port = 0
  | .emptyMockDir => s.mockDir.bytes = []
  | .emptyHost => Text.trim s.host = ""
  | .zeroBodyLimit => s.maxBodySize = 0
  | .metricsAddress a => s.observability.metricsAddress = some a ∧ SocketAddress.parse? a = none

/-- The problem is with a value that the command line gives. -/
def IsGiven (f : Flags) : SettingsProblem → Prop
  | .port => f.port ≠ none
  | .emptyMockDir => f.dir ≠ none
  | .emptyHost => f.host ≠ none
  | .zeroBodyLimit => False
  | .metricsAddress _ => False

end SettingsProblem

theorem Settings.mem_metricsProblem_iff {o : Observability} {q : SettingsProblem} :
    q ∈ Settings.metricsProblem o ↔
      ∃ a, o.metricsAddress = some a ∧ SocketAddress.parse? a = none ∧ q = .metricsAddress a := by
  unfold Settings.metricsProblem
  cases o.metricsAddress with
  | none => simp
  | some a => cases h : SocketAddress.parse? a <;> simp [h]

theorem Settings.mem_problems_iff {s : Settings} {q : SettingsProblem} :
    q ∈ s.problems ↔ q.Holds s := by
  unfold Settings.problems
  simp only [List.mem_append, Settings.mem_metricsProblem_iff]
  cases q <;> simp [SettingsProblem.Holds]

namespace Flags

variable {f : Flags} {s x : Settings}

/-! ## What the command line makes of settings -/

/-- The value is the one given, or the one of the file where none is given. -/
def Chosen {α : Type} (given : Option α) (file value : α) : Prop :=
  (∀ v, given = some v → value = v) ∧ (given = none → value = file)

theorem chosen_iff {α : Type} {given : Option α} {file value : α} :
    Chosen given file value ↔ value = given.getD file := by
  cases given <;> simp [Chosen]

/-- The settings of a file with every value in place that the command line gives. -/
structure Effective (f : Flags) (s x : Settings) : Prop where
  port : Chosen f.port s.port x.port
  mockDir : Chosen f.dir s.mockDir x.mockDir
  base : Chosen f.base s.base x.base
  host : Chosen f.host s.host x.host
  logLevel : Chosen f.logLevel s.observability.logLevel x.observability.logLevel
  watch : x.watch = true ↔ s.watch = true ∨ f.watch = true
  cache : x.cache = true ↔ s.cache = true ∨ f.cache = true
  enable : x.enable = s.enable
  cors : x.cors = s.cors
  maxBodySize : x.maxBodySize = s.maxBodySize
  metricsAddress : x.observability.metricsAddress = s.observability.metricsAddress

theorem effective_iff : f.Effective s x ↔ x = f.applyTo s := by
  constructor
  · rintro ⟨port, mockDir, base, host, logLevel, watch, cache, enable, cors, maxBodySize, metrics⟩
    rw [chosen_iff] at port mockDir base host logLevel
    rw [← Bool.or_eq_true] at watch cache
    rw [← Bool.eq_iff_iff] at watch cache
    obtain ⟨_, _, _, _, _, _, _, _, _, _, _⟩ := x
    simp only at port mockDir base host logLevel watch cache enable cors maxBodySize metrics
    subst port mockDir base host watch cache enable cors maxBodySize
    simp only [applyTo, Settings.mk.injEq, true_and]
    rw [← logLevel, ← metrics]
  · rintro rfl
    constructor
    all_goals simp [applyTo, chosen_iff]

/-- A value that the command line does not give has the problems that it has in the file. -/
theorem mem_problems_applyTo_iff {q : SettingsProblem} (h : ¬ q.IsGiven f) :
    q ∈ (f.applyTo s).problems ↔ q ∈ s.problems := by
  rw [Settings.mem_problems_iff, Settings.mem_problems_iff]
  cases q <;> simp_all [SettingsProblem.IsGiven, SettingsProblem.Holds, applyTo]

/-- When nothing is wrong with the values in place, the file has problems only with those replaced. -/
theorem problems_eq_nil_iff (h : (f.applyTo s).problems = []) :
    s.problems = [] ↔ ∀ q ∈ s.problems, ¬ q.IsGiven f := by
  refine ⟨fun hnone q hq => ?_, fun hkept => ?_⟩
  · rw [hnone] at hq
    cases hq
  · refine List.eq_nil_iff_forall_not_mem.mpr fun q hq => ?_
    rw [← mem_problems_applyTo_iff (hkept q hq), h] at hq
    cases hq

end Flags

/-! ## A server with its settings -/

/-- The server runs with just these settings. -/
structure Session.RunsWith (y : Session) (x : Settings) : Prop where
  settings : y.settings = x
  mockDir : y.dispatcher.mockDir = x.mockDir
  base : y.dispatcher.base = x.normalBase
  cache : y.dispatcher.cache = .new x.cache
  watcher : y.watcher.isSome = x.watch

theorem Session.runsWith_of_start {x : Settings} {d : Disk} {taken : Bool} {y : Session}
    (h : Session.start x d taken = .ok y) : y.RunsWith x := by
  obtain ⟨z, hbind, hwatch⟩ := Except.bind_eq_ok_iff.mp h
  unfold Session.bind at hbind
  split at hbind
  · cases hbind
  rename_i u hu
  obtain ⟨index, -, rfl⟩ := Except.map_eq_ok_iff.mp hu
  split at hbind
  · cases hbind
  cases hbind
  unfold Session.watch at hwatch
  split at hwatch
  · rename_i hon
    split at hwatch
    · cases hwatch
    · cases hwatch
      exact ⟨rfl, rfl, rfl, rfl, hon.symm⟩
  · rename_i hoff
    cases hwatch
    refine ⟨rfl, rfl, rfl, rfl, ?_⟩
    simpa using hoff

namespace Program

variable {args : List String} {f : Flags} {d : Disk} {p : Path} {text : String} {s : Settings}

/-! ## From the file to the server -/

theorem fileSettings_of_text (hfile : f.config = some p) (htext : d.readText p = .ok text)
    (hs : Settings.ofToml? text = some s) :
    fileSettings f d =
      if s.problems = [] then .ok s else .error (.settingsFile p (.invalid s.problems)) := by
  rw [fileSettings, hfile]
  simp only [Settings.load, htext, hs, Settings.checked]
  split <;> rfl

theorem configure_of_text (hargs : Flags.parse args = .ok f) (hfile : f.config = some p)
    (htext : d.readText p = .ok text) (hs : Settings.ofToml? text = some s) :
    configure args d =
      if s.problems ≠ [] then .error (.settingsFile p (.invalid s.problems))
      else if (f.applyTo s).problems ≠ [] then .error (.settings (f.applyTo s).problems)
      else .ok (f.applyTo s) := by
  simp only [configure, hargs, fileSettings_of_text hfile htext hs]
  by_cases hnone : s.problems = []
  · by_cases hmerged : (f.applyTo s).problems = [] <;> simp [hnone, hmerged, Except.bind]
  · simp [hnone, Except.bind]

theorem exitCode_of_configure {x : Settings} (h : configure args d = .ok x) (taken : Bool) :
    exitCode args d taken = 0 ↔ ∃ y, Session.start x d taken = .ok y := by
  rw [exitCode, h]
  cases hstart : Session.start x d taken <;> simp [hstart]

/-- **The command line is put in place of the file.**  For every file whose text describes settings and
every command line, the program goes past the settings just if there is no problem with the settings that
are in effect, and none in the file with a value that the command line gives.  It is these settings that
the server is started and runs with. -/
theorem configure_effective (hargs : Flags.parse args = .ok f) (hfile : f.config = some p)
    (htext : d.readText p = .ok text) (hs : Settings.ofToml? text = some s) :
    (∀ x, configure args d = .ok x ↔
      f.Effective s x ∧ x.problems = [] ∧ ∀ q ∈ s.problems, ¬ q.IsGiven f) ∧
    (∀ taken, exitCode args d taken = 0 ↔
      ∃ x y, configure args d = .ok x ∧ Session.start x d taken = .ok y ∧ y.RunsWith x) := by
  have hconfigure := configure_of_text hargs hfile htext hs
  constructor
  · intro x
    rw [Flags.effective_iff, hconfigure]
    constructor
    · intro h
      split at h
      · cases h
      rename_i hnone
      split at h
      · cases h
      rename_i hmerged
      cases h
      rw [Classical.not_not] at hnone hmerged
      exact ⟨rfl, hmerged, (Flags.problems_eq_nil_iff hmerged).mp hnone⟩
    · rintro ⟨rfl, hmerged, hkept⟩
      have hnone := (Flags.problems_eq_nil_iff hmerged).mpr hkept
      simp [hnone, hmerged]
  · intro taken
    cases hx : configure args d with
    | ok x =>
      rw [exitCode_of_configure hx]
      constructor
      · rintro ⟨y, hy⟩
        exact ⟨x, y, rfl, hy, Session.runsWith_of_start hy⟩
      · rintro ⟨_, y, hsame, hy, -⟩
        cases hsame
        exact ⟨y, hy⟩
    | error r =>
      have hcode : r.exitCode = 1 := by
        rw [hconfigure] at hx
        split at hx
        · cases hx
          rfl
        split at hx
        · cases hx
          rfl
        · cases hx
      simp [exitCode, hx, hcode]

/-! ## A value of the file that is replaced -/

def servedName : FileName := ⟨Utf8.toBytes "served.toml", by decide⟩

/-- a disk with a settings file -/
def served (text : String) : Disk :=
  Disk.empty.put [servedName] (.file .file (Utf8.toBytes text))

theorem readText_served (text : String) :
    (served text).readText (.ofText "served.toml") = .ok text := by
  have hfile : ∀ bs, (Disk.empty.put [servedName] (.file .file bs)).readFile
      (.ofText "served.toml") = .ok bs := by
    intro bs
    rfl
  rw [Disk.readText, served, hfile]
  simp [Except.bind, Utf8.ofBytes?_toBytes]

/-- a file in which the host is blank -/
def blankHost : String := "host = \" \"\n"

theorem ofToml?_blankHost : Settings.ofToml? blankHost = some { host := " " } := by
  have hcs : blankHost.toList = ['h', 'o', 's', 't', ' ', '=', ' ', '"', ' ', '"', '\n'] := by
    simp [blankHost]
  rw [Settings.ofToml?, Toml.document, hcs]
  rfl

/-- a file in which the port is said and changes are followed -/
def ported : String := "port = 80\nwatch = true\n"

theorem ofToml?_ported : Settings.ofToml? ported = some { port := 80, watch := true } := by
  have hcs : ported.toList = ['p', 'o', 'r', 't', ' ', '=', ' ', '8', '0', '\n', 'w', 'a', 't', 'c',
      'h', ' ', '=', ' ', 't', 'r', 'u', 'e', '\n'] := by
    simp [ported]
  rw [Settings.ofToml?, Toml.document, hcs]
  rfl

/-- Another port is given, and answers are to be remembered. -/
theorem configure_effective_ported :
    Flags.parse ["-c", "served.toml", "-p81", "--cache"] =
        .ok { config := some (.ofText "served.toml"), port := some 81, cache := true } ∧
      (served ported).readText (.ofText "served.toml") = .ok ported ∧
      Settings.ofToml? ported = some { port := 80, watch := true } ∧
      configure ["-c", "served.toml", "-p81", "--cache"] (served ported) =
        .ok { port := 81, watch := true, cache := true } := by
  have hargs : Flags.parse ["-c", "served.toml", "-p81", "--cache"] =
      .ok { config := some (.ofText "served.toml"), port := some 81, cache := true } := rfl
  have hfile : Settings.problems { port := 80, watch := true } = [] := rfl
  have hmerged : Settings.problems { port := 81, watch := true, cache := true } = [] := rfl
  refine ⟨hargs, readText_served ported, ofToml?_ported, ?_⟩
  refine ((configure_effective hargs rfl (readText_served ported) ofToml?_ported).1 _).mpr ?_
  refine ⟨Flags.effective_iff.mpr rfl, hmerged, fun q hq => ?_⟩
  rw [hfile] at hq
  cases hq

/-- A host that is blank in the file is refused, though another one is given. -/
theorem not_configure_effective :
    ¬ ∀ (args : List String) (f : Flags) (d : Disk) (p : Path) (text : String) (s : Settings),
      Flags.parse args = .ok f → f.config = some p → d.readText p = .ok text →
        Settings.ofToml? text = some s →
          ∀ x, configure args d = .ok x ↔ f.Effective s x ∧ x.problems = [] := by
  intro h
  have hargs : Flags.parse ["-c", "served.toml", "--host", "127.0.0.1"] =
      .ok { config := some (.ofText "served.toml"), host := some "127.0.0.1" } := rfl
  have hblank : Settings.problems { host := " " } = [.emptyHost] := rfl
  have hmended : Settings.problems {} = [] := rfl
  have hrefused := configure_of_text hargs rfl (readText_served blankHost) ofToml?_blankHost
  rw [hblank, if_pos (List.cons_ne_nil _ _)] at hrefused
  have hok := (h _ _ _ _ _ _ hargs rfl (readText_served blankHost) ofToml?_blankHost {}).mpr
    ⟨Flags.effective_iff.mpr rfl, hmended⟩
  rw [hrefused] at hok
  cases hok

end Program

end CannedApi
