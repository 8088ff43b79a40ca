import CannedApi.Proofs.Route.Capture
import CannedApi.Proofs.Route.Expanding
import CannedApi.Proofs.Route.Ranking
import CannedApi.Proofs.Route.Walk
import CannedApi.Route.Description

/-!
# What the name of a file says

A method may stand behind the last dot of a name without its ending, or be all of it; what is left is the
logical name.  The pattern is the common path cut at its slashes, then what the directories expand to, then
what the logical name expands to (`Route.describe_named`).  Putting the pattern together in one list neither
loses nor repeats a segment (`Naming.assemble_eq`), and the walk gives each file the route that its path
has (`Scan.Finds.describe_eq`).
-/

namespace CannedApi

/-! ## Methods in any letter case -/

theorem toNat_toLower (c : Char) :
    c.toLower.toNat = if 65 ≤ c.toNat ∧ c.toNat ≤ 90 then c.toNat + 32 else c.toNat := by
  have hrange : (c.val ≥ 'A'.val ∧ c.val ≤ 'Z'.val) ↔ 65 ≤ c.toNat ∧ c.toNat ≤ 90 := Iff.rfl
  unfold Char.toLower
  by_cases h : c.val ≥ 'A'.val ∧ c.val ≤ 'Z'.val
  · rw [dif_pos h, if_pos (hrange.mp h)]
    have hle := (hrange.mp h).2
    show (c.val + 32).toNat = _
    rw [UInt32.toNat_add]
    show (c.toNat + 32) % _ = _
    omega
  · rw [dif_neg h, if_neg fun e => h (hrange.mpr e)]

/-- A capital letter has two spellings. -/
theorem toLower_eq_toLower_iff {c t : Char} (hc : 65 ≤ c.toNat ∧ c.toNat ≤ 90) :
    c.toLower = t.toLower ↔ t = c ∨ t = c.toLower := by
  simp only [← Char.toNat_inj, toNat_toLower, if_pos hc]
  split <;> omega

namespace Method

/-- The token is the name of the method, each letter in one of its two cases. -/
def Spells (m : Method) (token : List Char) : Prop :=
  List.Forall₂ (fun c t => t = c ∨ t = c.toLower) m.name.toList token

instance (m : Method) (token : List Char) : Decidable (m.Spells token) :=
  inferInstanceAs (Decidable (List.Forall₂ _ _ _))

theorem capital_of_mem_name {m : Method} {c : Char} (h : c ∈ m.name.toList) :
    65 ≤ c.toNat ∧ c.toNat ≤ 90 := by
  have hall : (m.name.toList.all fun c => 65 ≤ c.toNat && c.toNat ≤ 90) = true := by cases m <;> rfl
  have hc := List.all_eq_true.mp hall c h
  rwa [Bool.and_eq_true, decide_eq_true_eq, decide_eq_true_eq] at hc

theorem spells_iff {m : Method} {token : List Char} :
    m.Spells token ↔ sameLetters m.name.toList token = true := by
  rw [sameLetters, beq_iff_eq, ← List.forall₂_eq_eq_eq, List.forall₂_map_left_iff,
    List.forall₂_map_right_iff, Spells, List.forall₂_iff_zip, List.forall₂_iff_zip]
  refine and_congr_right fun _ => forall_congr' fun c => forall_congr' fun t => ?_
  refine imp_congr_right fun hmem => ?_
  exact (toLower_eq_toLower_iff (capital_of_mem_name (List.of_mem_zip hmem).1)).symm

theorem ofChars?_eq_some_iff {m : Method} {token : List Char} :
    ofChars? token = some m ↔ m.Spells token := by
  have h := @ofToken?_eq_some_iff (String.ofList token) m
  rw [ofToken?, String.toList_ofList] at h
  exact h.trans spells_iff.symm

theorem ofChars?_eq_none {token : List Char} (h : ∀ m : Method, ¬ m.Spells token) : ofChars? token = none := by
  cases hm : ofChars? token with
  | none => rfl
  | some m => exact absurd (ofChars?_eq_some_iff.mp hm) (h m)

theorem Spells.dot_not_mem {m : Method} {token : List Char} (h : m.Spells token) : '.' ∉ token := by
  intro hdot
  have hsame := beq_iff_eq.mp (spells_iff.mp h)
  have hmem : '.' ∈ m.name.toList.map Char.toLower := hsame ▸ List.mem_map.mpr ⟨'.', hdot, rfl⟩
  revert hmem
  cases m <;> decide

end Method

/-! ## The name -/

theorem Text.pieces_eq_splitOn {α : Type} [DecidableEq α] (mark : α) (l : List α) :
    pieces mark l = l.splitOn mark := by
  induction l with
  | nil => rfl
  | cons c rest ih =>
    have hcons : (c :: rest).splitOn mark =
        if (c == mark) = true then [] :: rest.splitOn mark else (rest.splitOn mark).modifyHead (c :: ·) :=
      List.splitOnP_cons_eq_if_modifyHead c rest
    rw [hcons, ← ih]
    by_cases h : c = mark
    · simp [pieces, h]
    · cases hp : pieces mark rest with
      | nil => exact absurd hp (pieces_ne_nil mark rest)
      | cons p ps => simp [pieces, h, hp]

namespace Naming

/-- No method stands behind the last dot of the name, nor in place of a name without a dot. -/
structure Unmarked (name : List Char) : Prop where
  behind : ∀ front token, name = front ++ '.' :: token → '.' ∉ token → ∀ m : Method, ¬ m.Spells token
  alone : '.' ∉ name → ∀ m : Method, ¬ m.Spells name

section
variable {m : Method} {name token : List Char}

theorem splitStem_marked (h : m.Spells token) (name : List Char) :
    splitStem (name ++ '.' :: token) = (m, name) := by
  rw [splitStem, Text.cutLast_append h.dot_not_mem]
  simp only [Method.ofChars?_eq_some_iff.mpr h]

theorem splitStem_method (h : m.Spells token) : splitStem token = (m, []) := by
  rw [splitStem, Text.cutLast_of_not_mem h.dot_not_mem]
  simp only [Method.ofChars?_eq_some_iff.mpr h]

theorem splitStem_unmarked (h : Unmarked name) : splitStem name = (.get, name) := by
  rw [splitStem]
  cases hcut : Text.cutLast '.' name with
  | none => simp only [Method.ofChars?_eq_none (h.alone (Text.not_mem_of_cutLast_eq_none hcut))]
  | some p =>
    have htoken := h.behind p.1 p.2 (Text.eq_of_cutLast hcut) (Text.not_mem_of_cutLast hcut)
    simp only [Method.ofChars?_eq_none htoken]

end

/-! ## The pattern, put together in one list -/

theorem expandAllInto_eq (names : List String) (out : Pattern) :
    expandAllInto names out = .ok (out ++ names.flatMap expand) := by
  induction names generalizing out with
  | nil => simp [expandAllInto]
  | cons n rest ih =>
    rw [expandAllInto, expandInto_eq]
    show expandAllInto rest (out ++ expand n) = _
    rw [ih, List.flatMap_cons, List.append_assoc]

theorem expand_empty : expand "" = [] := by
  show expandFrom [] [] = []
  rw [expandFrom]
  rfl

/-- The pattern has the segments of the common path, of the directories and of the logical name, each once. -/
theorem assemble_eq (base : String) (directories : List String) (logical : String) :
    assemble base directories logical = .ok (pattern base directories logical) := by
  rw [assemble, expandAllInto_eq, pattern]
  by_cases h : logical = ""
  · rw [h, expand_empty, List.append_nil]
    rfl
  · show (if logical = "" then _ else _) = _
    rw [if_neg h, expandInto_eq]

/-- the common path cut at its slashes, a literal for each piece that is not empty -/
def commonLiterals (base : String) : Pattern :=
  ((base.toList.splitOn '/').filter (· ≠ [])).map fun cs => .literal (String.ofList cs)

/-- what stands before the logical name: the common path, then what each directory expands to -/
def pathPattern (base : String) (dirs : List (List UInt8)) : Pattern :=
  commonLiterals base ++ dirs.flatMap fun bs => expand (Utf8.ofBytesLossy bs)

theorem baseSegments_eq (base : String) : baseSegments base.toList = commonLiterals base := by
  rw [baseSegments, Text.pieces_eq_splitOn, commonLiterals]

end Naming

/-! ## The path -/

section
variable {root file : Path} {dirs : List (List UInt8)} {bs : List UInt8}

theorem Path.placement?_of_parts (h : file.parts = root.parts ++ (dirs.map .name ++ [.name bs])) :
    root.placement? file = (Utf8.ofBytes? bs).map fun name => ⟨dirs.map Utf8.ofBytesLossy, name⟩ := by
  unfold placement?
  rw [h, Text.dropHead?_append, Option.bind_some, List.getLast?_concat, List.dropLast_concat,
    List.map_map]
  rfl

theorem Route.describe_of_parts (h : file.parts = root.parts ++ (dirs.map .name ++ [.name bs]))
    (base : String) : describe root base file =
      .ok (((Utf8.ofBytes? bs).bind Naming.splitMethod).map fun p =>
        ⟨p.1, Naming.pattern base (dirs.map Utf8.ofBytesLossy) p.2, file⟩) := by
  unfold describe
  rw [Path.placement?_of_parts h]
  cases Utf8.ofBytes? bs with
  | none => rfl
  | some name =>
    rw [Option.map_some, Option.bind_some]
    cases hsplit : Naming.splitMethod name with
    | none => simp only [hsplit, Option.map_none]
    | some p => simp only [hsplit, Naming.assemble_eq, Except.map, Option.map_some]

end

/-- A file lies below `root` in directories with these names and has this name itself. -/
def Path.LiesAt (root : Path) (dirs : List (List UInt8)) (name : String) (file : Path) : Prop :=
  file.parts = root.parts ++ (dirs.map .name ++ [.name (Utf8.toBytes name)])

/-! ## Method and pattern -/

namespace Route

section
variable {root file : Path} {dirs : List (List UInt8)} {name : String} {stem : List Char}

theorem describe_of_liesAt (h : root.LiesAt dirs name file) (hname : name.toList = stem ++ Naming.ending)
    (base : String) : describe root base file = .ok (some
      ⟨(Naming.splitStem stem).1,
        Naming.pathPattern base dirs ++ Naming.expand (String.ofList (Naming.splitStem stem).2), file⟩) := by
  rw [describe_of_parts h, Utf8.ofBytes?_toBytes, Option.bind_some, Naming.splitMethod_of_ending hname,
    Option.map_some, Naming.pattern, Naming.baseSegments_eq, List.flatMap_map, Naming.pathPattern]

end

/-- **The name of a file decides its method, and its place and name the pattern.**  Whatever the root, the
common path and the directories: behind the last dot of the name without its ending a method in any letter case is the
method, and what stands before is expanded; a name without such a method is expanded as a whole, for the method `GET`;
a name that is a method adds nothing to the pattern. -/
theorem describe_named (root : Path) (base : String) (dirs : List (List UInt8)) (file : Path) :
    (∀ (l tok : String) (m : Method), m.Spells tok.toList →
      root.LiesAt dirs (l ++ "." ++ tok ++ ".json") file →
      describe root base file = .ok (some ⟨m, Naming.pathPattern base dirs ++ Naming.expand l, file⟩)) ∧
    (∀ l : String, Naming.Unmarked l.toList → root.LiesAt dirs (l ++ ".json") file →
      describe root base file = .ok (some ⟨.get, Naming.pathPattern base dirs ++ Naming.expand l, file⟩)) ∧
    ∀ (tok : String) (m : Method), m.Spells tok.toList → root.LiesAt dirs (tok ++ ".json") file →
      describe root base file = .ok (some ⟨m, Naming.pathPattern base dirs, file⟩) := by
  refine ⟨fun l tok m hm h => ?_, fun l hl h => ?_, fun tok m hm h => ?_⟩
  · have hname : (l ++ "." ++ tok ++ ".json").toList = (l.toList ++ '.' :: tok.toList) ++ Naming.ending := by
      simp [Naming.ending]
    rw [describe_of_liesAt h hname, Naming.splitStem_marked hm, String.ofList_toList]
  · have hname : (l ++ ".json").toList = l.toList ++ Naming.ending := by simp [Naming.ending]
    rw [describe_of_liesAt h hname, Naming.splitStem_unmarked hl, String.ofList_toList]
  · have hname : (tok ++ ".json").toList = tok.toList ++ Naming.ending := by simp [Naming.ending]
    rw [describe_of_liesAt h hname, Naming.splitStem_method hm, String.ofList_nil, Naming.expand_empty,
      List.append_nil]

namespace Knotty

def root : Path := .ofText "./mocks//"

/-- one directory with a parameter in its name, and one whose name is no text -/
def dirs : List (List UInt8) := [Utf8.toBytes "u-[id]", [0xFF]]

def file (name : String) : Path := ⟨Utf8.toBytes "./mocks/u-[id]//" ++ 0xFF :: slash :: Utf8.toBytes name⟩

theorem unmarked : Naming.Unmarked "v1.2-[n]".toList := by
  have hcut : Text.cutLast '.' "v1.2-[n]".toList = some ("v1".toList, "2-[n]".toList) := rfl
  refine ⟨fun front token hname htoken m hm => ?_, fun hdot => ?_⟩
  · rw [hname, Text.cutLast_append htoken] at hcut
    cases hcut
    revert hm
    cases m <;> decide
  · exact absurd (by decide) hdot

end Knotty

/-- Only the last dot counts, and only behind it a method does. -/
theorem describe_named_knotty :
    describe Knotty.root "/api//" (Knotty.file "list.get.json.PoSt.json") = .ok (some
      ⟨.post, [.literal "api", .literal "u", .param "id", .literal "\uFFFD", .literal "list.get.json"],
        Knotty.file "list.get.json.PoSt.json"⟩) ∧
    describe Knotty.root "/api//" (Knotty.file "v1.2-[n].json") = .ok (some
      ⟨.get, [.literal "api", .literal "u", .param "id", .literal "\uFFFD", .literal "v1.2", .param "n"],
        Knotty.file "v1.2-[n].json"⟩) ∧
    describe Knotty.root "/api//" (Knotty.file "opTIONs.json") = .ok (some
      ⟨.options, [.literal "api", .literal "u", .param "id", .literal "\uFFFD"],
        Knotty.file "opTIONs.json"⟩) := by
  have hpath : Naming.pathPattern "/api//" Knotty.dirs =
      [.literal "api", .literal "u", .param "id", .literal "\uFFFD"] := by decide +kernel
  have hlist : Naming.expand "list.get.json" = [.literal "list.get.json"] := by decide +kernel
  have hversion : Naming.expand "v1.2-[n]" = [.literal "v1.2", .param "n"] := by decide +kernel
  refine ⟨?_, ?_, ?_⟩
  · have h := (describe_named Knotty.root "/api//" Knotty.dirs
      (Knotty.file "list.get.json.PoSt.json")).1 "list.get.json" "PoSt" .post (by decide) rfl
    rwa [hpath, hlist] at h
  · have h := (describe_named Knotty.root "/api//" Knotty.dirs
      (Knotty.file "v1.2-[n].json")).2.1 "v1.2-[n]" Knotty.unmarked rfl
    rwa [hpath, hversion] at h
  · have h := (describe_named Knotty.root "/api//" Knotty.dirs
      (Knotty.file "opTIONs.json")).2.2 "opTIONs" .options (by decide) rfl
    rwa [hpath] at h

end Route

/-! ## The files that the walk finds -/

namespace Scan

variable {d : Disk} {root dir : Path} {above : List FileName}

theorem Visits.parts_eq (h : Visits d root above dir) :
    dir.parts = root.parts ++ (above.map FileName.bytes).map .name := by
  induction h with
  | root => simp
  | inside outer _ _ _ ih => simp [Path.parts_join, ih]

/-- The walk gives a file that it finds the route that its path has. -/
theorem Finds.describe_eq {f : FoundFile} (h : Finds d root f) (base : String) :
    Route.describe root base f.path = .ok (route? base f) := by
  obtain ⟨dir, names, hvisits, -, -, hpath⟩ := h.listed
  have hparts : f.path.parts = root.parts ++
      ((f.directories.map FileName.bytes).map .name ++ [.name f.name.bytes]) := by
    rw [hpath, Path.parts_join, hvisits.parts_eq, List.append_assoc]
  rw [Route.describe_of_parts hparts, route?, FileName.text?, List.map_map]
  cases Utf8.ofBytes? f.name.bytes with
  | none => rfl
  | some name => rfl

end Scan

end CannedApi
