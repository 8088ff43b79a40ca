import CannedApi.Proofs.Json.Texts
import CannedApi.Proofs.Route.Capture
import CannedApi.Proofs.Server.Steady
import CannedApi.Proofs.Template.Single

/-!
# Parameters arrive intact

A directory with one file, which answers with its one parameter.  On the way from the path of a request to
the answer the parameter passes through the cutting of the path, the undoing of escapes, the template and the
name of the file, and comes out as it was spelled, whatever it is (`Site.param_intact`).
-/

namespace CannedApi

open Template (IsParamName paramSlot)

/-- an object with one text, which is a slot; the name in the slot is as `spelled` -/
def echoText (spelled : List Char) : String :=
  String.ofList ('{' :: '"' :: ['x'] ++ '"' :: ':' :: '"' :: paramSlot spelled ++ ['"', '}'])

/-- In the directory is one file: its name is a literal and a parameter, and its answer is the
parameter. -/
structure Disk.HoldsEcho (d : Disk) (dir : Path) (l n : String) (name : FileName) : Prop where
  named : name.bytes = Utf8.toBytes (paramFileName l n)
  alone : d.list dir = .ok [name]
  content : ∃ spelled, Spells Json.SpellsChar n.toList spelled ∧
    d.readFile (dir.join name) = .ok (Utf8.toBytes (echoText spelled))

namespace Disk

variable {d : Disk} {p : Path}

theorem stat_of_readFile {bs : List UInt8} (h : d.readFile p = .ok bs) : d.stat p = .ok .file := by
  obtain ⟨⟨r, e⟩, hfind, h⟩ := Except.bind_eq_ok_iff.mp h
  cases e with
  | directory access => cases h
  | link target => cases h
  | file access content =>
    rw [stat, hfind]
    rfl

end Disk

section
variable {d : Disk} {dir : Path} {l n : String} {name : FileName}

/-- the route of the file -/
def echoRoute (dir : Path) (l n : String) (name : FileName) : Route :=
  ⟨.get, [.literal l, .param n], dir.join name⟩

theorem Disk.HoldsEcho.build (h : d.HoldsEcho dir l n name) (hl : l ≠ "")
    (hopen : ¬ ['-', '['] <:+: l.toList) (hn : IsParamName n) :
    RouteIndex.build d dir "" = .ok (.ofRoutes [echoRoute dir l n name]) := by
  obtain ⟨spelled, -, hfile⟩ := h.content
  have hstat : ∀ m ∈ [name], d.stat (dir.join m) = .ok .file := by
    intro m hm
    rw [List.mem_singleton.mp hm]
    exact stat_of_readFile hfile
  have hroute := Scan.route?_param h.named hl hopen hn.ne_empty hn.bracket (dir.join name)
  have hbase : Naming.normalizeBase "" = "" := by decide
  rw [RouteIndex.build_of_files (isDirectory_of_list h.alone) h.alone hstat, hbase, List.filter_cons,
    if_pos (Scan.isAnswerName_param h.named)]
  show Except.ok (RouteIndex.ofRoutes (List.filterMap (Scan.route? "") [⟨[], name, dir.join name⟩])) = _
  rw [List.filterMap_cons, hroute]
  rfl

theorem spells_paramSlot {spelled : List Char} (h : Spells Json.SpellsChar n.toList spelled) :
    Spells Json.SpellsChar (paramSlot n.toList) (paramSlot spelled) := by
  have hopen : Spells Json.SpellsChar ('{' :: '{' :: '$' :: "params.".toList)
      ('{' :: '{' :: '$' :: "params.".toList) := Json.spells_self rfl
  have hclose : Spells Json.SpellsChar ['}', '}'] ['}', '}'] := Json.spells_self rfl
  exact (hopen.append h).append hclose

theorem Disk.HoldsEcho.load (h : d.HoldsEcho dir l n name) : Mock.load d (dir.join name) =
    .ok ⟨.object [("x", .text (String.ofList (paramSlot n.toList)))], .none⟩ := by
  obtain ⟨spelled, hspelled, hfile⟩ := h.content
  have htext : d.readText (dir.join name) = .ok (echoText spelled) := by
    simp only [readText, hfile, Except.bind, Utf8.ofBytes?_toBytes]
  have hkey : Spells Json.SpellsChar "x".toList ['x'] := Json.spells_self rfl
  have hslot := spells_paramSlot hspelled
  rw [← String.toList_ofList (l := paramSlot n.toList)] at hslot
  have hread : Json.read (echoText spelled) = _ := Json.read_single hkey hslot
  have hkeys : Entries.get? [("x", Json.text (String.ofList (paramSlot n.toList)))] Mock.settingsKey =
      none := by
    rw [Entries.get?_cons, if_neg (by decide)]
    rfl
  rw [Mock.load, htext]
  simp only [hread, Mock.ofJson, hkeys]
  rfl

/-- the answer of a server without memory -/
theorem Disk.HoldsEcho.freshAnswer {v w : String} (h : d.HoldsEcho dir l n name) (hl : IsPlain l)
    (hn : IsParamName n) (hv : v ≠ "") (hw : Spells Percent.SpellsChar v.toList w.toList)
    (a : Template.Ambient) {r : Request} (hmethod : r.method = "GET")
    (hpath : r.path = "/" ++ l ++ "/" ++ w) :
    Dispatcher.freshAnswer d (.ofRoutes [echoRoute dir l n name]) a r =
      some ⟨200, .object [("x", .text v)], 0⟩ := by
  have hplain : IsPlain w := by
    have hne : v.toList ≠ [] := fun e => hv (String.toList_inj.mp e)
    refine ⟨?_, Percent.slash_not_mem_of_spells hw⟩
    rintro rfl
    exact Percent.ne_nil_of_spells hw hne rfl
  have hmatch : (RouteIndex.ofRoutes [echoRoute dir l n name]).matchRequest r.method r.path =
      some ⟨echoRoute dir l n name, [(n, v)]⟩ := by
    rw [hmethod, hpath]
    exact RouteIndex.matchRequest_param hl hplain (Percent.text?_of_spells hw)
  have hvalue : Template.Context.paramText? ⟨[(n, v)], r.query, r.body⟩ n = some v := by
    rw [Template.Context.paramText?, Entries.get?_cons, if_pos rfl]
  unfold Dispatcher.freshAnswer
  rw [hmatch]
  show some (Dispatcher.answer a ⟨echoRoute dir l n name, [(n, v)]⟩ r
    ((Mock.load d (dir.join name)).map _)) = _
  rw [h.load]
  show some (Answer.mk 200 (.object [("x", .text (Template.renderText (a.child 0)
    ⟨[(n, v)], r.query, r.body⟩ (String.ofList (paramSlot n.toList))))]) 0) = _
  rw [Template.renderText_param hn hvalue]

end

namespace Site

/-- **Parameters arrive intact.**  In a directory is one file, named by a literal and a parameter, that
answers with its parameter.  Whatever text the parameter is, and whatever way it is spelled in the path of a
request, the answer has the text: at every moment of a run in which no file changes. -/
theorem param_intact {c : Settings} {d : Disk} {l n v w : String} {name : FileName}
    (hbase : c.normalBase = "") (hl : l ≠ "") (hslash : '/' ∉ l.toList)
    (hopen : ¬ ['-', '['] <:+: l.toList) (hn : IsParamName n) (hd : d.HoldsEcho c.mockDir l n name)
    (hv : v ≠ "") (hw : Spells Percent.SpellsChar v.toList w.toList) :
    ∃ s, start c d = .ok s ∧ ∀ actions : List Action, (∀ x ∈ actions, x.KeepsFiles) →
      ∀ (a : Template.Ambient) (r : Request), r.method = "GET" → r.path = "/" ++ l ++ "/" ++ w →
        ((s.run actions).2.step (.handle a r)).1 =
          .answer (some ⟨200, .object [("x", .text v)], 0⟩) := by
  have hstarts : (start c d).map (fun s => s.dispatcher.index) = _ := start_cache c d c.cache
  rw [hbase, hd.build hl hopen hn] at hstarts
  obtain ⟨s, hs, hindex⟩ := Except.map_eq_ok_iff.mp hstarts
  refine ⟨s, hs, fun actions hkeep a r hmethod hpath => ?_⟩
  have hsteady := (run_steady (steady_start hs) hkeep).2
  rw [hindex] at hsteady
  have hreply := (step_steady hsteady (x := .handle a r) trivial).1
  rw [hreply, Action.freshReply, hd.freshAnswer ⟨hl, hslash⟩ hn hv hw a hmethod hpath]

/-! ## A parameter that is hard to get through -/

namespace Echo

open ServerRun.Lost (mocks)

/-- the name of the parameter has a quote -/
def spelled : List Char := ['i', '\\', '"', 'd']

theorem file_legal : IsFileName (Utf8.toBytes (paramFileName "a-" "i\"d")) := by decide

def file : FileName := ⟨_, file_legal⟩

def disk : Disk := (Disk.empty.put [mocks] (.directory .directory)).put [mocks, file]
  (.file .file (Utf8.toBytes (echoText spelled)))

def settings : Settings := { mockDir := .ofText "mocks" }

def value : String := "%/{{$now}}é"

def segment : String := "%25%2f{{$now}}%c3%A9"

def request : Request := ⟨"GET", "/" ++ "a-" ++ "/" ++ segment, [], none⟩

theorem isParamName : IsParamName "i\"d" := by
  refine ⟨by decide, by decide, ⟨fun c hc => ?_, by decide, by decide⟩, fun c hc => ?_⟩
  · simp only [String.reduceToList, List.mem_cons, List.not_mem_nil, or_false] at hc
    rcases hc with rfl | rfl | rfl <;> rfl
  · cases hc
    decide

theorem holdsEcho : disk.HoldsEcho settings.mockDir "a-" "i\"d" file := by
  have hlist : disk.list settings.mockDir = .ok [file] :=
    Disk.list_of_sorted ⟨[mocks], .directory, rfl, rfl, .refl _⟩ (List.pairwise_singleton _ _)
  have hread : disk.readFile (settings.mockDir.join file) = .ok (Utf8.toBytes (echoText spelled)) := by
    rfl
  have hspelled : Spells Json.SpellsChar "i\"d".toList spelled := Json.spells_escape _
  exact ⟨rfl, hlist, spelled, hspelled, hread⟩

theorem spells_segment : Spells Percent.SpellsChar value.toList segment.toList := by
  have hpercent : Percent.SpellsChar '%' ['%', '2', '5'] := .escaped (.cons rfl rfl .nil)
  have hslash : Percent.SpellsChar '/' ['%', '2', 'f'] := .escaped (.cons rfl rfl .nil)
  have hself : Spells Percent.SpellsChar "{{$now}}".toList "{{$now}}".toList := by
    refine .self fun c hc => ?_
    simp only [String.reduceToList, List.mem_cons, List.not_mem_nil, or_false] at hc
    rcases hc with rfl | rfl | rfl | rfl | rfl | rfl | rfl | rfl <;> exact .plain (by decide) (by decide)
  have hlast : Percent.SpellsChar 'é' ['%', 'c', '3', '%', 'A', '9'] := by
    have hbytes : Utf8.encodeChar 'é' = [0xC3, 0xA9] := by decide
    refine .escaped ?_
    rw [hbytes]
    exact .cons rfl rfl (.cons rfl rfl .nil)
  exact .cons hpercent (.cons hslash (hself.append (.cons hlast .nil)))

end Echo

theorem param_intact_echo :
    ∃ s, start Echo.settings Echo.disk = .ok s ∧
      ((s.run [.reload]).2.step (.handle ServerRun.Lost.ambient Echo.request)).1 =
        .answer (some ⟨200, .object [("x", .text Echo.value)], 0⟩) := by
  have hbase : Echo.settings.normalBase = "" := by decide
  obtain ⟨s, hs, hreply⟩ := param_intact hbase (by decide) (by decide) (by decide) Echo.isParamName
    Echo.holdsEcho (by decide) Echo.spells_segment
  have hkeep : ∀ x ∈ [Action.reload], x.KeepsFiles := by simp [Action.KeepsFiles]
  exact ⟨s, hs, hreply _ hkeep _ Echo.request rfl rfl⟩

end Site

end CannedApi
