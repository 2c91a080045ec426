import OwlzopsMapper.Lib.Climb
import OwlzopsMapper.Rust.Path

/-! # Where snapshots are written

`snapshot_run` of `runner.rs` names a directory after the hostname of the report, which the scanned host
chooses.  `Path::join` drops the output directory when the hostname is an absolute path, and a hostname
with `..` in it leads out of it.  The Excel writer of `output.rs` makes a file name of the hostname first
(`hostnameToSafeFilename`).

Places are lexical: `..` takes away the component before it.  **A snapshot stays below its output directory
exactly when the hostname, read as a path, does** (`snapshot_confined_iff`); a safe file name does. -/

namespace OwlzopsMapper
namespace Snapshot

open Rust Lib

/-! ### Paths -/

/-- `Path::join`. -/
def joinPath (dir name : String) : String :=
  if startsWith name "/" then name
  else if dir = "" ∨ endsWith dir "/" = true then dir ++ name
  else dir ++ "/" ++ name

/-- The local time, as it is written in file names. -/
structure Timestamp where
  text : String
  plain : '/' ∉ text.toList

/-- `hostname_to_safe_filename`. -/
def hostnameToSafeFilename (s : String) : String :=
  let cleaned := String.ofList (s.toList.map fun c =>
    if c.isAlphanum || c == '-' || c == '_' || c == '.' then c else '_')
  if cleaned = "" ∨ cleaned = "." ∨ cleaned = ".." then "unknown" else cleaned

section snapshot
variable (outputDir hostname : String) (timestamp : Timestamp)

/-- The directory of a host's snapshots. -/
def dirPath : String := joinPath outputDir hostname

def filePath : String := joinPath (dirPath outputDir hostname) (timestamp.text ++ ".json")

end snapshot

/-! ### Lexical resolution -/

def steps (p : String) : List (Step String) :=
  (Path.names p).map fun c => if c = ".." then .up else .down c

def isAbsolute (p : String) : Bool := startsWith p "/"

/-- Where a path leads: from the root, or from the working directory. -/
structure Location where
  rooted : Bool
  place : Place String
deriving DecidableEq

def Location.of (rooted : Bool) (walked : List (Step String)) : Location :=
  ⟨rooted, Place.walk rooted {} walked⟩

def locate (p : String) : Location := .of (isAbsolute p) (steps p)

/-- The second location is the first or below it. -/
def Location.Inside (l m : Location) : Prop := m.rooted = l.rooted ∧ l.place.Inside m.place

/-- The second location is below the first. -/
def Location.Below (l m : Location) : Prop := l.Inside m ∧ m ≠ l

def endsDown (walked : List (Step String)) : Bool :=
  match walked.getLast? with
  | some (.down _) => true
  | _ => false

/-- The beginnings of a path that end in a name: `create_dir_all` makes a directory of each that is
missing. -/
def beginnings (walked : List (Step String)) : List (List (Step String)) := walked.inits.filter endsDown

/-- The directories that are made for a host, those of the output directory as the operator wrote it
apart. -/
def madeDirs (outputDir hostname : String) : List Location :=
  ((beginnings (steps (dirPath outputDir hostname))).filter fun walked =>
    ¬ (isAbsolute (dirPath outputDir hostname) = isAbsolute outputDir ∧
      walked <+: steps outputDir)).map (.of (isAbsolute (dirPath outputDir hostname)))

/-- Every directory that is made lies in the output directory, or on the way to it, and the snapshot
lies below it. -/
def Confined (outputDir hostname : String) (timestamp : Timestamp) : Prop :=
  (∀ made ∈ madeDirs outputDir hostname,
    (locate outputDir).Inside made ∨ made.Inside (locate outputDir)) ∧
  (locate outputDir).Below (locate (filePath outputDir hostname timestamp))

/-! ### Hostnames as paths -/

/-- The names that a walk takes away when it climbs so many steps. -/
def climbed (out : Location) (k : ℕ) : List String :=
  out.place.names.drop (out.place.names.length - k)

/-- A walk does not climb above the top. -/
def HasRoom (out : Location) (k : ℕ) : Prop := out.rooted = true ∨ k ≤ out.place.names.length

/-- A relative hostname that climbs comes down by the names it went up. -/
def Returns (out : Location) (hostname : String) : Prop :=
  (∀ walked ∈ beginnings (steps hostname), HasRoom out (Place.reach walked).ups ∧
    (climbed out (Place.reach walked).ups <+: (Place.reach walked).names ∨
      (Place.reach walked).names <+: climbed out (Place.reach walked).ups)) ∧
  HasRoom out (Place.reach (steps hostname)).ups ∧
  climbed out (Place.reach (steps hostname)).ups <+: (Place.reach (steps hostname)).names

/-- An absolute hostname leads to the output directory and on from there. -/
def LeadsThrough (outputDir hostname : String) : Prop :=
  isAbsolute outputDir = true ∧
  (∀ walked ∈ beginnings (steps hostname), ¬ walked <+: steps outputDir →
    (locate outputDir).place.names <+: (Place.walk true {} walked).names ∨
      (Place.walk true {} walked).names <+: (locate outputDir).place.names) ∧
  (locate outputDir).place.names <+: (locate hostname).place.names

/-- The hostname stays in the output directory. -/
def Stays (outputDir hostname : String) : Prop :=
  if isAbsolute hostname then LeadsThrough outputDir hostname
  else Returns (locate outputDir) hostname

/-! ### Steps of joined paths -/

theorem steps_append (dir name : String) : steps (dir ++ "/" ++ name) = steps dir ++ steps name := by
  unfold steps
  rw [Path.names_join, List.map_append]

theorem exists_of_endsWith {dir : String} (h : endsWith dir "/" = true) :
    ∃ init, dir = init ++ "/" := by
  unfold endsWith at h
  rw [List.isSuffixOf_iff_suffix] at h
  obtain ⟨init, hinit⟩ := h
  exact ⟨String.ofList init, String.toList_inj.mp (by simp [← hinit])⟩

theorem steps_joinPath (dir : String) {name : String} (h : isAbsolute name = false) :
    steps (joinPath dir name) = steps dir ++ steps name := by
  have hrel : ¬ startsWith name "/" = true := by
    unfold isAbsolute at h
    rw [h]
    decide
  unfold joinPath
  rw [if_neg hrel]
  split
  · rename_i hdir
    rcases hdir with rfl | hslash
    · have hnone : steps "" = [] := by decide
      rw [hnone, String.empty_append, List.nil_append]
    · obtain ⟨init, rfl⟩ := exists_of_endsWith hslash
      have hinit : steps (init ++ "/") = steps init := by
        have hnone : steps "" = [] := by decide
        have := steps_append init ""
        rwa [String.append_empty, hnone, List.append_nil] at this
      rw [steps_append, hinit]
  · exact steps_append dir name

theorem isAbsolute_joinPath (dir : String) {name : String} (h : isAbsolute name = false) :
    isAbsolute (joinPath dir name) = isAbsolute dir := by
  have hrel : ¬ startsWith name "/" = true := by
    unfold isAbsolute at h
    rw [h]
    decide
  have hstart : ∀ more, dir ≠ "" → startsWith (dir ++ more) "/" = startsWith dir "/" := by
    intro more hne
    unfold startsWith
    rw [String.toList_append]
    cases hdir : dir.toList with
    | nil => exact absurd (String.toList_eq_nil_iff.mp hdir) hne
    | cons c cs => simp [List.isPrefixOf]
  unfold joinPath isAbsolute
  rw [if_neg hrel]
  by_cases hempty : dir = ""
  · subst hempty
    rw [if_pos (.inl rfl), String.empty_append]
    exact h
  · split
    · exact hstart name hempty
    · rw [String.append_assoc]
      exact hstart _ hempty

theorem joinPath_of_absolute (dir : String) {name : String} (h : isAbsolute name = true) :
    joinPath dir name = name := if_pos h

/-- The name of the file is one step down. -/
theorem steps_file (timestamp : Timestamp) : isAbsolute (timestamp.text ++ ".json") = false ∧
    ∃ file, steps (timestamp.text ++ ".json") = [.down file] := by
  have hslash : '/' ∉ (timestamp.text ++ ".json").toList := by
    rw [String.toList_append, List.mem_append, not_or]
    exact ⟨timestamp.plain, by decide⟩
  have hend : ∀ s : String, s.toList.getLast? ≠ some 'n' → timestamp.text ++ ".json" ≠ s := by
    rintro s hs rfl
    rw [String.toList_append, List.getLast?_append] at hs
    exact hs rfl
  have hname : Path.isName (timestamp.text ++ ".json") = true :=
    decide_eq_true ⟨hend "" (by decide), hend "." (by decide)⟩
  constructor
  · unfold isAbsolute startsWith
    rw [Bool.eq_false_iff]
    intro h
    obtain ⟨rest, hrest⟩ := List.isPrefixOf_iff_prefix.mp h
    exact hslash (hrest ▸ List.mem_append_left _ (by decide))
  · refine ⟨timestamp.text ++ ".json", ?_⟩
    unfold steps
    rw [Path.names_of_not_mem hslash hname, List.map_singleton, if_neg (hend ".." (by decide))]

/-! ### The snapshot -/

theorem locate_ups_of_rooted (walked : List (Step String)) :
    (Location.of true walked).place.ups = 0 := by
  unfold Location.of
  rw [Place.walk_eq]
  rfl

/-- The snapshot lies below the output directory when its directory lies inside. -/
theorem below_filePath_iff (outputDir hostname : String) (timestamp : Timestamp) :
    (locate outputDir).Below (locate (filePath outputDir hostname timestamp)) ↔
      (locate outputDir).Inside (locate (dirPath outputDir hostname)) := by
  obtain ⟨hrel, file, hfile⟩ := steps_file timestamp
  have hlocate : locate (filePath outputDir hostname timestamp) =
      ⟨(locate (dirPath outputDir hostname)).rooted, (locate (dirPath outputDir hostname)).place.ups,
        (locate (dirPath outputDir hostname)).place.names ++ [file]⟩ := by
    unfold locate filePath Location.of
    rw [isAbsolute_joinPath _ hrel, steps_joinPath _ hrel, hfile, Place.walk_append]
    rfl
  rw [hlocate]
  generalize locate (dirPath outputDir hostname) = dir
  generalize locate outputDir = out
  obtain ⟨rooted, ups, names⟩ := dir
  obtain ⟨rooted', ups', names'⟩ := out
  unfold Location.Below Location.Inside Place.Inside
  dsimp only
  constructor
  · rintro ⟨⟨rfl, rfl, hpre⟩, hne⟩
    refine ⟨rfl, rfl, (List.prefix_concat_iff.mp hpre).resolve_left ?_⟩
    rintro rfl
    exact hne rfl
  · rintro ⟨rfl, rfl, hpre⟩
    refine ⟨⟨rfl, rfl, hpre.trans (List.prefix_append _ _)⟩, fun heq => ?_⟩
    injection heq with _ hplace
    injection hplace with _ hnames
    have hlen := hpre.length_le
    rw [← hnames, List.length_append, List.length_singleton] at hlen
    omega

theorem endsDown_append {walked more : List (Step String)} (h : more ≠ []) :
    endsDown (walked ++ more) = endsDown more := by
  unfold endsDown
  rw [List.getLast?_append_of_ne_nil _ h]

theorem mem_beginnings {walked path : List (Step String)} :
    walked ∈ beginnings path ↔ walked <+: path ∧ endsDown walked = true := by
  unfold beginnings
  rw [List.mem_filter, List.mem_inits]

/-- For a relative hostname, the directories that are made are those it names. -/
theorem mem_madeDirs {outputDir hostname : String} (h : isAbsolute hostname = false)
    {made : Location} : made ∈ madeDirs outputDir hostname ↔ ∃ walked ∈ beginnings (steps hostname),
      made = ⟨(locate outputDir).rooted,
        Place.walk (locate outputDir).rooted (locate outputDir).place walked⟩ := by
  unfold madeDirs dirPath
  rw [steps_joinPath _ h, isAbsolute_joinPath _ h]
  simp only [List.mem_map, List.mem_filter, mem_beginnings, decide_eq_true_eq, true_and]
  constructor
  · rintro ⟨walked, ⟨⟨hpre, hdown⟩, hnot⟩, rfl⟩
    obtain hpre' | ⟨rest, rfl⟩ := (List.prefix_or_prefix_of_prefix hpre (List.prefix_append _ _))
    · exact absurd hpre' hnot
    · have hrest : rest ≠ [] := by
        rintro rfl
        exact hnot (by simp)
      refine ⟨rest, ⟨(List.prefix_append_right_inj _).mp hpre, ?_⟩, ?_⟩
      · rwa [endsDown_append hrest] at hdown
      · unfold Location.of
        rw [Place.walk_append]
        rfl
  · rintro ⟨walked, ⟨hpre, hdown⟩, rfl⟩
    have hne : walked ≠ [] := by
      rintro rfl
      cases hdown
    refine ⟨steps outputDir ++ walked,
      ⟨⟨(List.prefix_append_right_inj _).mpr hpre, by rwa [endsDown_append hne]⟩, fun hlong => ?_⟩, ?_⟩
    · have hlen := hlong.length_le
      rw [List.length_append] at hlen
      exact hne (List.length_eq_zero_iff.mp (by omega))
    · unfold Location.of
      rw [Place.walk_append]
      rfl

theorem confined_of_relative {outputDir hostname : String} (h : isAbsolute hostname = false)
    (timestamp : Timestamp) :
    Confined outputDir hostname timestamp ↔ Returns (locate outputDir) hostname := by
  unfold Confined Returns
  rw [below_filePath_iff]
  have hdir : locate (dirPath outputDir hostname) = ⟨(locate outputDir).rooted,
      Place.walk (locate outputDir).rooted (locate outputDir).place (steps hostname)⟩ := by
    unfold locate dirPath Location.of
    rw [isAbsolute_joinPath _ h, steps_joinPath _ h, Place.walk_append]
  refine and_congr ?_ ?_
  · simp only [mem_madeDirs h]
    constructor
    · intro hmade walked hwalked
      have hstep := hmade _ ⟨walked, hwalked, rfl⟩
      unfold Location.Inside at hstep
      simp only [true_and] at hstep
      rw [Place.inside_walk_iff, Place.walk_inside_iff, ← and_or_left] at hstep
      exact hstep
    · rintro hall _ ⟨walked, hwalked, rfl⟩
      have hstep := hall walked hwalked
      unfold Location.Inside
      simp only [true_and]
      rw [Place.inside_walk_iff, Place.walk_inside_iff, ← and_or_left]
      exact hstep
  · rw [hdir]
    unfold Location.Inside
    simp only [true_and]
    rw [Place.inside_walk_iff]
    rfl

theorem confined_of_absolute {outputDir hostname : String} (h : isAbsolute hostname = true)
    (timestamp : Timestamp) :
    Confined outputDir hostname timestamp ↔ LeadsThrough outputDir hostname := by
  have hdir : dirPath outputDir hostname = hostname := joinPath_of_absolute outputDir h
  unfold Confined LeadsThrough
  rw [below_filePath_iff]
  unfold madeDirs
  rw [hdir, h]
  by_cases hout : isAbsolute outputDir = true
  · have hups : (locate outputDir).place.ups = 0 := by
      unfold locate
      rw [hout]
      exact locate_ups_of_rooted _
    have hrooted : (locate outputDir).rooted = true := hout
    have hhost : locate hostname = .of true (steps hostname) := by
      unfold locate
      rw [h]
    have hinside : ∀ walked, (locate outputDir).Inside (.of true walked) ↔
        (locate outputDir).place.names <+: (Place.walk true {} walked).names := by
      intro walked
      have hzero := locate_ups_of_rooted walked
      unfold Location.Inside Place.Inside
      rw [hrooted, hups, hzero]
      simp [Location.of]
    have hleads : ∀ walked, Location.Inside (.of true walked) (locate outputDir) ↔
        (Place.walk true {} walked).names <+: (locate outputDir).place.names := by
      intro walked
      have hzero := locate_ups_of_rooted walked
      unfold Location.Inside Place.Inside
      rw [hrooted, hups, hzero]
      simp [Location.of]
    rw [hhost, hinside]
    simp only [List.mem_map, List.mem_filter, decide_eq_true_eq, hout, true_and]
    refine and_congr_left fun _ => ⟨fun hmade walked hwalked hnot => ?_, ?_⟩
    · rw [← hinside, ← hleads]
      exact hmade _ ⟨walked, ⟨hwalked, hnot⟩, rfl⟩
    · rintro hall _ ⟨walked, ⟨hwalked, hnot⟩, rfl⟩
      rw [hinside, hleads]
      exact hall walked hwalked hnot
  · have hno : ¬ (locate outputDir).Inside (locate hostname) := by
      rintro ⟨hroot, _⟩
      exact hout (hroot.symm.trans h)
    simp [hout, hno]

/-- The characters of a cleaned hostname. -/
def fileChar (c : Char) : Char :=
  if c.isAlphanum || c == '-' || c == '_' || c == '.' then c else '_'

theorem fileChar_ne_slash (c : Char) : fileChar c ≠ '/' := by
  unfold fileChar
  split
  · rename_i hc
    rintro rfl
    exact absurd hc (by decide)
  · decide

/-- A safe file name is one step down. -/
theorem steps_hostnameToSafeFilename (s : String) :
    isAbsolute (hostnameToSafeFilename s) = false ∧
      ∃ name, steps (hostnameToSafeFilename s) = [.down name] := by
  have hsafe : '/' ∉ (hostnameToSafeFilename s).toList ∧ hostnameToSafeFilename s ≠ "" ∧
      hostnameToSafeFilename s ≠ "." ∧ hostnameToSafeFilename s ≠ ".." := by
    unfold hostnameToSafeFilename
    dsimp only
    split
    · decide
    · rename_i hplain
      rw [not_or, not_or] at hplain
      refine ⟨?_, hplain⟩
      rw [String.toList_ofList]
      intro hmem
      obtain ⟨c, _, hc⟩ := List.mem_map.mp hmem
      exact fileChar_ne_slash c hc
  obtain ⟨hslash, hempty, hdot, hup⟩ := hsafe
  have hname : Path.isName (hostnameToSafeFilename s) = true := decide_eq_true ⟨hempty, hdot⟩
  constructor
  · unfold isAbsolute startsWith
    rw [Bool.eq_false_iff]
    intro h
    obtain ⟨rest, hrest⟩ := List.isPrefixOf_iff_prefix.mp h
    exact hslash (hrest ▸ List.mem_append_left _ (by decide))
  · refine ⟨hostnameToSafeFilename s, ?_⟩
    unfold steps
    rw [Path.names_of_not_mem hslash hname, List.map_singleton, if_neg hup]

theorem confined_of_down {outputDir hostname name : String} (hrel : isAbsolute hostname = false)
    (hdown : steps hostname = [.down name]) (timestamp : Timestamp) :
    Confined outputDir hostname timestamp := by
  rw [confined_of_relative hrel]
  have hclimb : climbed (locate outputDir) 0 = [] := by
    unfold climbed
    rw [Nat.sub_zero, List.drop_length]
  have hreach : Place.reach [Step.down name] = ⟨0, [name]⟩ := rfl
  refine ⟨fun walked hwalked => ?_, ?_, ?_⟩
  · obtain ⟨hpre, hdowns⟩ := mem_beginnings.mp hwalked
    rw [hdown] at hpre
    rcases List.prefix_cons_iff.mp hpre with rfl | ⟨rest, rfl, hrest⟩
    · cases hdowns
    · rw [List.prefix_nil.mp hrest, hreach]
      refine ⟨.inr (Nat.zero_le _), .inl ?_⟩
      rw [hclimb]
      exact List.nil_prefix
  · rw [hdown]
    exact .inr (Nat.zero_le _)
  · rw [hdown, hreach, hclimb]
    exact List.nil_prefix

/-- **A snapshot lies below its output directory exactly when the hostname stays there: a relative hostname
that climbs comes down by the names it went up, and an absolute one leads through the output directory.
A safe file name in its place would always do.** -/
theorem snapshot_confined_iff (outputDir hostname : String) (timestamp : Timestamp) :
    (Confined outputDir hostname timestamp ↔ Stays outputDir hostname) ∧
      Confined outputDir (hostnameToSafeFilename hostname) timestamp := by
  obtain ⟨hrel, name, hdown⟩ := steps_hostnameToSafeFilename hostname
  refine ⟨?_, confined_of_down hrel hdown timestamp⟩
  unfold Stays
  by_cases h : isAbsolute hostname = true
  · rw [if_pos h]
    exact confined_of_absolute h timestamp
  · rw [if_neg h]
    exact confined_of_relative (Bool.eq_false_iff.mpr h) timestamp

def noon : Timestamp := ⟨"2025-01-01_12-00-00", by decide⟩

/-- A host that calls itself by a path writes where it likes. -/
theorem hostname_escapes : ¬ Confined "/snapshots" "../etc/cron.d" noon ∧
    ¬ Confined "/snapshots" "/etc/cron.d" noon := by
  constructor
  · rintro ⟨_, ⟨_, _, hnames⟩, _⟩
    revert hnames
    decide
  · rintro ⟨_, ⟨_, _, hnames⟩, _⟩
    revert hnames
    decide

end Snapshot
end OwlzopsMapper
