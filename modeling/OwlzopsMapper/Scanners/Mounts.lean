import OwlzopsMapper.Lib.Escape
import OwlzopsMapper.Models
import OwlzopsMapper.Rust.Decimal
import OwlzopsMapper.Rust.FileSystem
import OwlzopsMapper.Rust.Words

/-! # Mounts that mask

`mounts.rs` reads `/proc/self/mountinfo` line by line (`classifyLine`) and reports a mount over the
directory of a process, and a mount at or under a log directory that is a tmpfs or has another root
than `/`.  The findings are capped, and what lies beyond the cap is counted in a note.

A line is what the kernel writes for a `MountEntry`: numbers, the root and the mount point with octal
escapes, any number of optional tags, a hyphen, and what is known of the file system.
`MountEntry.Masks` says which mounts mask something; on btrfs, the root of an ordinary mount is its
subvolume.  **`masking_exact_iff`** says for which tables the scan reports and counts the masking
mounts and no others. -/

namespace OwlzopsMapper
namespace Mounts

open Rust Lib

/-! ### The scanner -/

def maskableLogRoots : List String := ["/var/log", "/var/lib/docker/containers"]

def maxFindings : ℕ := 64

structure Finding extends MountMaskingFinding where
  mountSource : String

/-- Exactly `/proc/<digits>`. -/
def isPidDir (mountPoint : String) : Bool :=
  (stripPrefix mountPoint "/proc/").any fun rest => rest ≠ "" && rest.toList.all Char.isDigit

def isAtOrUnder (path root : String) : Bool :=
  path = root || (stripPrefix path root).any (startsWith · "/")

def classifyFields (rootInFs mountPoint fstype mountSource : String) : Option Finding :=
  if isPidDir mountPoint then
    some
      { targetPath := mountPoint
        mountSource := mountSource
        fstype := fstype
        reason := "overlay hides a PID from /proc (process masking)" }
  else match maskableLogRoots.find? (isAtOrUnder mountPoint) with
    | none => none
    | some root =>
        if fstype = "tmpfs" ∨ rootInFs ≠ "/" then
          some
            { targetPath := mountPoint
              mountSource := mountSource
              fstype := fstype
              reason := (if fstype = "tmpfs" then "tmpfs" else "bind") ++ " overlay on " ++ root ++
                " (evidence hiding)" }
        else none

def classifyLine (line : String) : Option Finding :=
  match splitOnceStr " - " line with
  | none => none
  | some (left, right) =>
      match splitWhitespace left, splitWhitespace right with
      | _ :: _ :: _ :: rootInFs :: mountPoint :: _, fstype :: rest =>
          classifyFields rootInFs mountPoint fstype (rest.head?.getD "-")
      | _, _ => none

inductive Note where
  | unreadable (path : String)
  | truncated (path : String)
  /-- So many lines matched beyond the cap. -/
  | overCap (n : ℕ)

def Note.text : Note → String
  | .unreadable path => "mount masking scan skipped: " ++ path ++ " unreadable"
  | .truncated path => path ++ " truncated — mount masking scan may be incomplete"
  | .overCap n => "mount masking: finding cap (" ++ toString maxFindings ++ ") reached; " ++
      toString n ++ " further masking mount(s) matched but were NOT recorded — SEC-021 evidence " ++
      "is a LOWER BOUND"

/-- The state of the loop over the lines. -/
structure Progress where
  findings : List Finding := []
  overCap : ℕ := 0

def Progress.step (p : Progress) (line : String) : Progress :=
  if maxFindings ≤ p.findings.length then
    if (classifyLine line).isSome then { p with overCap := p.overCap + 1 } else p
  else match classifyLine line with
    | some f => { p with findings := p.findings ++ [f] }
    | none => p

/-- `detect_from_path`, for what `read_procfs_capped` answers: the content and whether it was cut. -/
def detectFromPath (path : String) (read : Except ErrorKind (String × Bool)) :
    List Finding × List Note :=
  match read with
  | .error _ => ([], [.unreadable path])
  | .ok (content, truncated) =>
      let p := (lines content).foldl Progress.step {}
      (p.findings, (if truncated then [.truncated path] else []) ++
        if 0 < p.overCap then [.overCap p.overCap] else [])

/-- The number of lines that a note discloses. -/
def Note.disclosed : Note → ℕ
  | .overCap n => n
  | _ => 0

def disclosed (notes : List Note) : ℕ := (notes.map Note.disclosed).sum

/-! ### The table of the kernel -/

/-- A field that is written as it is. -/
structure Word where
  text : String
  isWord : IsWord isWhitespace text.toList
  ne_hyphen : text ≠ "-"

structure MountEntry where
  mountId : ℕ
  parentId : ℕ
  major : ℕ
  minor : ℕ
  /-- What is mounted: a path inside the file system. -/
  root : String
  mountPoint : String
  options : Word
  /-- The optional fields, such as `shared:1`. -/
  tags : List Word
  fsName : Word
  subtype : Option String
  /-- The device, or whatever the file system takes for one. -/
  source : String
  superOptions : List String
  root_ne : root ≠ "" ∧ root ≠ "-"
  mountPoint_absolute : startsWith mountPoint "/" = true

/-- The characters that are escaped in paths. -/
def inPath (c : Char) : Bool := [' ', '\t', '\n', '\\'].contains c

/-- The characters that are escaped in names. -/
def inName (c : Char) : Bool := inPath c || c == '#'

def octalDigit (n : ℕ) : Char := Char.ofNat ('0'.toNat + n % 8)

def octal (c : Char) : List Char :=
  [octalDigit (c.toNat / 64), octalDigit (c.toNat / 8), octalDigit c.toNat]

def escapeText (special : Char → Bool) (s : String) : List Char :=
  escape '\\' special octal s.toList

namespace MountEntry
variable (e : MountEntry)

def device : List Char := (toString e.major).toList ++ ':' :: (toString e.minor).toList

/-- The fields before the hyphen, but for the first one. -/
def fields : List (List Char) :=
  [(toString e.parentId).toList, e.device, escapeText inPath e.root,
    escapeText inPath e.mountPoint, e.options.text.toList] ++ e.tags.map fun tag => tag.text.toList

def left : List Char := (toString e.mountId).toList ++ written ' ' e.fields

/-- The type of the file system, as it is shown. -/
def fsText : List Char := e.fsName.text.toList ++
  (e.subtype.elim [] fun name => '.' :: escapeText inName name)

def right : List Char :=
  e.fsText ++ ' ' :: (escapeText inName e.source ++
    ' ' :: escapeText inPath (join "," e.superOptions))

/-- The line of a mount. -/
def line : List Char := e.left ++ (" - ".toList ++ e.right)

/-- The type of the file system. -/
def fsType : String :=
  e.fsName.text ++ (e.subtype.elim "" fun name => "." ++ name)

/-- The option `subvol=`. -/
def subvol : Option String := e.superOptions.findSome? (stripPrefix · "subvol=")

/-- The root with which the file system itself was mounted. -/
def origin : String := if e.fsType = "btrfs" then e.subvol.getD "/" else "/"

end MountEntry

/-- `/proc/<digits>`. -/
def IsPidPath (p : String) : Prop :=
  ∃ digits : String, digits ≠ "" ∧ (∀ c ∈ digits.toList, c.isDigit = true) ∧ p = "/proc/" ++ digits

/-- A directory itself, or a path below it. -/
def AtOrUnder (dir p : String) : Prop := p = dir ∨ ∃ rest, p = dir ++ "/" ++ rest

def InLogs (p : String) : Prop := ∃ dir ∈ maskableLogRoots, AtOrUnder dir p

/-- The mount hides a process or logs. -/
def MountEntry.Masks (e : MountEntry) : Prop :=
  IsPidPath e.mountPoint ∨ InLogs e.mountPoint ∧ (e.fsType = "tmpfs" ∨ e.root ≠ e.origin)

/-- The text of a table. -/
def table (es : List MountEntry) : String := String.ofList (terminated (es.map MountEntry.line))

/-! ### The loop -/

/-- **The loop** keeps the first findings and counts the others. -/
theorem foldl_step (ls : List String) : ∀ {p : Progress}, p.findings.length ≤ maxFindings →
    (ls.foldl Progress.step p).findings =
        (p.findings ++ ls.filterMap classifyLine).take maxFindings ∧
      (ls.foldl Progress.step p).findings.length + (ls.foldl Progress.step p).overCap =
        p.findings.length + p.overCap + (ls.filterMap classifyLine).length := by
  induction ls with
  | nil =>
      intro p hp
      rw [List.foldl_nil, List.filterMap_nil, List.append_nil, List.take_of_length_le hp]
      exact ⟨rfl, rfl⟩
  | cons l ls ih =>
      intro p hp
      rw [List.foldl_cons]
      by_cases hfull : maxFindings ≤ p.findings.length
      · -- nothing is added any more
        have hlen : p.findings.length = maxFindings := Nat.le_antisymm hp hfull
        have hcut : ∀ fs : List Finding, (p.findings ++ fs).take maxFindings = p.findings := by
          intro fs
          rw [← hlen, List.take_left]
        cases hline : classifyLine l with
        | none =>
            have hstep : p.step l = p := by
              rw [Progress.step, if_pos hfull, hline]
              rfl
            rw [hstep, List.filterMap_cons_none hline]
            exact ih hp
        | some f =>
            have hstep : p.step l = { p with overCap := p.overCap + 1 } := by
              rw [Progress.step, if_pos hfull, hline]
              rfl
            obtain ⟨hfindings, hcount⟩ := @ih { p with overCap := p.overCap + 1 } hp
            rw [hstep, List.filterMap_cons_some hline]
            refine ⟨?_, ?_⟩
            · rw [hfindings, hcut, hcut]
            · rw [hcount, List.length_cons]
              dsimp only
              omega
      · cases hline : classifyLine l with
        | none =>
            have hstep : p.step l = p := by
              rw [Progress.step, if_neg hfull, hline]
            rw [hstep, List.filterMap_cons_none hline]
            exact ih hp
        | some f =>
            have hstep : p.step l = { p with findings := p.findings ++ [f] } := by
              rw [Progress.step, if_neg hfull, hline]
            have hlen : (p.findings ++ [f]).length ≤ maxFindings := by
              rw [List.length_append, List.length_singleton]
              omega
            obtain ⟨hfindings, hcount⟩ := @ih { p with findings := p.findings ++ [f] } hlen
            rw [hstep, List.filterMap_cons_some hline]
            refine ⟨?_, ?_⟩
            · rw [hfindings, List.append_assoc, List.singleton_append]
            · rw [hcount, List.length_cons]
              dsimp only
              rw [List.length_append, List.length_singleton]
              omega

theorem disclosed_detect (path content : String) (truncated : Bool) :
    disclosed (detectFromPath path (.ok (content, truncated))).2 =
      ((lines content).foldl Progress.step {}).overCap := by
  unfold detectFromPath disclosed
  dsimp only
  generalize (lines content).foldl Progress.step {} = p
  rw [List.map_append, List.sum_append]
  have hcut : ((if truncated then [Note.truncated path] else []).map Note.disclosed).sum = 0 := by
    cases truncated <;> rfl
  rw [hcut, Nat.zero_add]
  by_cases hover : 0 < p.overCap
  · rw [if_pos hover]
    exact Nat.add_zero _
  · rw [if_neg hover]
    exact (Nat.eq_zero_of_not_pos hover).symm

/-- The scan of any text: its first findings, and the number of all of them. -/
theorem detect_eq (path content : String) (truncated : Bool) :
    (detectFromPath path (.ok (content, truncated))).1 =
        ((lines content).filterMap classifyLine).take maxFindings ∧
      (detectFromPath path (.ok (content, truncated))).1.length +
          disclosed (detectFromPath path (.ok (content, truncated))).2 =
        ((lines content).filterMap classifyLine).length := by
  have hempty : ({} : Progress).findings.length ≤ maxFindings := Nat.zero_le _
  obtain ⟨hfindings, hcount⟩ := foldl_step (lines content) hempty
  rw [disclosed_detect]
  refine ⟨hfindings, ?_⟩
  exact hcount.trans (Nat.zero_add _)

/-! ### What a path is -/

theorem isPidDir_iff {p : String} : isPidDir p = true ↔ IsPidPath p := by
  unfold isPidDir IsPidPath
  constructor
  · intro h
    obtain ⟨rest, hrest, h⟩ := (Option.any_eq_true _ _).mp h
    simp only [ne_eq, decide_not, Bool.and_eq_true, Bool.not_eq_true', decide_eq_false_iff_not,
      List.all_eq_true] at h
    exact ⟨rest, h.1, h.2, eq_append_of_stripPrefix hrest⟩
  · rintro ⟨digits, hne, hdigits, rfl⟩
    rw [stripPrefix_append, Option.any_some]
    simpa [hne] using hdigits

theorem isAtOrUnder_iff {p dir : String} : isAtOrUnder p dir = true ↔ AtOrUnder dir p := by
  unfold isAtOrUnder AtOrUnder
  rw [Bool.or_eq_true, decide_eq_true_iff]
  refine or_congr_right ⟨fun h => ?_, ?_⟩
  · obtain ⟨rest, hrest, hslash⟩ := (Option.any_eq_true _ _).mp h
    obtain ⟨more, rfl⟩ := (startsWith_iff _ _).mp hslash
    exact ⟨more, by rw [eq_append_of_stripPrefix hrest, String.append_assoc]⟩
  · rintro ⟨rest, rfl⟩
    rw [String.append_assoc, stripPrefix_append, Option.any_some, startsWith_append]

theorem exists_atOrUnder_iff {p : String} :
    (maskableLogRoots.find? (isAtOrUnder p)).isSome = true ↔ InLogs p := by
  rw [List.find?_isSome]
  simp only [isAtOrUnder_iff, InLogs]

instance (p : String) : Decidable (IsPidPath p) := decidable_of_iff _ isPidDir_iff

instance (p : String) : Decidable (InLogs p) := decidable_of_iff _ exists_atOrUnder_iff

instance (e : MountEntry) : Decidable e.Masks := inferInstanceAs (Decidable (_ ∨ _ ∧ (_ ∨ _)))

/-- What the fields of a line amount to. -/
theorem isSome_classifyFields {root p fstype source : String} :
    (classifyFields root p fstype source).isSome = true ↔
      IsPidPath p ∨ InLogs p ∧ (fstype = "tmpfs" ∨ root ≠ "/") := by
  rw [← isPidDir_iff, ← exists_atOrUnder_iff]
  unfold classifyFields
  cases hpid : isPidDir p with
  | true => simp
  | false =>
      rw [if_neg (by simp)]
      cases maskableLogRoots.find? (isAtOrUnder p) with
      | none => simp
      | some dir =>
          dsimp only
          split
          · rename_i h
            simp [h]
          · rename_i h
            simp [h]

/-! ### Escaped fields -/

theorem isDigit_of_mem_octal {c d : Char} (h : d ∈ octal c) : d.isDigit = true := by
  have hdigit : ∀ n, (octalDigit n).isDigit = true := by
    intro n
    have hall : ∀ k < 8, (Char.ofNat ('0'.toNat + k)).isDigit = true := by decide
    exact hall _ (Nat.mod_lt n (by decide))
  simp only [octal, List.mem_cons, List.not_mem_nil, or_false] at h
  rcases h with rfl | rfl | rfl <;> exact hdigit _

/-- The characters of an escaped text. -/
theorem of_mem_escapeText {special : Char → Bool} {s : String} {d : Char}
    (h : d ∈ escapeText special s) :
    (d ∈ s.toList ∧ special d = false) ∨ d = '\\' ∨ d.isDigit = true := by
  refine (of_mem_escape h).imp_right (Or.imp_right ?_)
  rintro ⟨c, _, hd⟩
  exact isDigit_of_mem_octal hd

/-- A special character is written as its code. -/
theorem not_mem_escapeText {special : Char → Bool} {s : String} {c : Char} (hc : special c = true)
    (hback : c ≠ '\\') (hdigit : c.isDigit = false) : c ∉ escapeText special s := by
  intro hmem
  rcases of_mem_escapeText hmem with ⟨_, hplain⟩ | hmark | hcode
  · rw [hc] at hplain
    cases hplain
  · exact hback hmark
  · rw [hdigit] at hcode
    cases hcode

/-- The texts the scanner looks for have no character that is escaped. -/
theorem plain_of_all {p : List Char}
    (h : (p.all fun c => c != '\\' && !inPath c) = true) : ∀ c ∈ p, IsPlain '\\' inPath c := by
  intro c hc
  have hboth := List.all_eq_true.mp h c hc
  rw [Bool.and_eq_true, bne_iff_ne, Bool.not_eq_true'] at hboth
  exact hboth

/-- The path a field stands for. -/
def shownText (cs : List Char) : String := String.ofList (escape '\\' inPath octal cs)

theorem shownText_eq_iff {p : String} {cs : List Char}
    (hp : (p.toList.all fun c => c != '\\' && !inPath c) = true) :
    shownText cs = p ↔ String.ofList cs = p := by
  rw [← String.toList_inj, ← String.toList_inj, shownText, String.toList_ofList, String.toList_ofList]
  exact escape_eq_iff (plain_of_all hp)

/-- Escaping a path changes neither whether it is the directory of a process … -/
theorem isPidPath_shownText {cs : List Char} :
    IsPidPath (shownText cs) ↔ IsPidPath (String.ofList cs) := by
  have hproc : ∀ c ∈ "/proc/".toList, IsPlain '\\' inPath c := plain_of_all (by decide)
  have hdigit : ∀ c, inPath c = true → ¬ c.isDigit = true := by
    intro c hc
    have hall : [' ', '\t', '\n', '\\'].all (!·.isDigit) = true := by decide
    simpa using List.all_eq_true.mp hall c (List.contains_iff_mem.mp hc)
  unfold IsPidPath shownText
  constructor
  · rintro ⟨digits, hne, hdigits, heq⟩
    have hlist := congrArg String.toList heq
    rw [String.toList_ofList, String.toList_append] at hlist
    obtain ⟨rest, rfl, hrest⟩ := (escape_eq_append_iff hproc).mp hlist
    have hself : rest = digits.toList := by
      rw [← hrest]
      have hplain : ∀ c ∈ rest, c.isDigit = true := by
        rw [← hrest] at hdigits
        exact (forall_mem_escape_iff (by decide) hdigit).mp hdigits
      symm
      apply escape_of_plain
      intro c hc
      exact Bool.eq_false_iff.mpr fun hspecial => hdigit c hspecial (hplain c hc)
    exact ⟨digits, hne, hdigits, String.toList_inj.mp (by simp [hself])⟩
  · rintro ⟨digits, hne, hdigits, heq⟩
    have hlist := congrArg String.toList heq
    rw [String.toList_ofList, String.toList_append] at hlist
    refine ⟨digits, hne, hdigits, String.toList_inj.mp ?_⟩
    rw [hlist, String.toList_ofList, String.toList_append]
    apply escape_of_plain
    intro c hc
    rcases List.mem_append.mp hc with hc | hc
    · exact (hproc c hc).2
    · exact Bool.eq_false_iff.mpr fun hspecial => hdigit c hspecial (hdigits c hc)

theorem atOrUnder_shownText {dir : String} {cs : List Char}
    (hdir : (dir.toList.all fun c => c != '\\' && !inPath c) = true) :
    AtOrUnder dir (shownText cs) ↔ AtOrUnder dir (String.ofList cs) := by
  have hunder : ∀ s : String, (∃ rest, s = dir ++ "/" ++ rest) ↔ (dir ++ "/").toList <+: s.toList := by
    intro s
    constructor
    · rintro ⟨rest, rfl⟩
      exact ⟨rest.toList, by simp⟩
    · rintro ⟨rest, hrest⟩
      exact ⟨String.ofList rest, String.toList_inj.mp (by simp [← hrest])⟩
  have hslash : ∀ c ∈ (dir ++ "/").toList, IsPlain '\\' inPath c := by
    apply plain_of_all
    rw [String.toList_append, List.all_append, hdir]
    decide
  unfold AtOrUnder
  rw [shownText_eq_iff hdir, hunder, hunder, shownText, String.toList_ofList, String.toList_ofList,
    prefix_escape_iff hslash]

/-- … nor whether it lies at or under a log directory. -/
theorem inLogs_shownText {cs : List Char} : InLogs (shownText cs) ↔ InLogs (String.ofList cs) := by
  have hroots : ∀ dir ∈ maskableLogRoots,
      (dir.toList.all fun c => c != '\\' && !inPath c) = true := by decide
  unfold InLogs
  refine exists_congr fun dir => and_congr_right fun hdir => ?_
  exact atOrUnder_shownText (hroots dir hdir)

/-! ### The fields of a line -/

/-- Whitespace that is not escaped in a path. -/
def stays (c : Char) : Bool := isWhitespace c && !inPath c

namespace Word

theorem not_mem (w : Word) {c : Char} (h : isWhitespace c = true) : c ∉ w.text.toList := by
  intro hmem
  have := w.isWord.solid c hmem
  rw [h] at this
  cases this

end Word

theorem isWord_toString (n : ℕ) : IsWord isWhitespace (toString n).toList where
  ne_nil := by
    have hlist : (toString n).toList = Nat.toDigits 10 n := Nat.toList_repr
    rw [hlist]
    exact Nat.toDigits_ne_nil
  solid _ hc := not_isWhitespace_of_isDigit (isDigit_of_mem_toString hc)

/-- An escaped text without whitespace that stays is one word. -/
theorem isWord_escape {cs : List Char} (hne : cs ≠ []) (h : ∀ c ∈ cs, stays c = false) :
    IsWord isWhitespace (escape '\\' inPath octal cs) where
  ne_nil := fun hnil => hne (escape_eq_nil_iff.mp hnil)
  solid d hd := by
    rcases of_mem_escape hd with ⟨hmem, hplain⟩ | rfl | ⟨c, _, hcode⟩
    · have hstays := h d hmem
      rw [stays, hplain, Bool.not_false, Bool.and_true] at hstays
      exact hstays
    · decide
    · exact not_isWhitespace_of_isDigit (isDigit_of_mem_octal hcode)

namespace MountEntry
variable (e : MountEntry)

theorem isWord_device : IsWord isWhitespace e.device where
  ne_nil := by simp [device]
  solid c hc := by
    rcases List.mem_append.mp hc with hc | hc
    · exact (isWord_toString e.major).solid c hc
    · rcases List.mem_cons.mp hc with rfl | hc
      · decide
      · exact (isWord_toString e.minor).solid c hc

/-- No field before the hyphen has a blank in it or is a hyphen. -/
theorem of_mem_fields {w : List Char} (h : w ∈ e.fields) : ' ' ∉ w ∧ w ≠ ['-'] := by
  have hword : ∀ {w : List Char}, IsWord isWhitespace w → ' ' ∉ w := by
    intro w hw hmem
    cases hw.solid ' ' hmem
  have hpath : ∀ s : String, s ≠ "-" →
      ' ' ∉ escapeText inPath s ∧ escapeText inPath s ≠ ['-'] := by
    intro s hs
    refine ⟨not_mem_escapeText (by decide) (by decide) (by decide), fun hhyphen => hs ?_⟩
    have hself := (escape_eq_iff (plain_of_all (by decide))).mp hhyphen
    exact String.toList_inj.mp (by rw [hself]; rfl)
  have hkept : ∀ w : Word, ' ' ∉ w.text.toList ∧ w.text.toList ≠ ['-'] := fun w =>
    ⟨hword w.isWord, fun hhyphen => w.ne_hyphen (String.toList_inj.mp (by rw [hhyphen]; rfl))⟩
  have hmount : e.mountPoint ≠ "-" := by
    intro hhyphen
    have habs := e.mountPoint_absolute
    rw [hhyphen] at habs
    cases habs
  simp only [fields, List.mem_append, List.mem_cons, List.not_mem_nil, or_false, List.mem_map] at h
  rcases h with (rfl | rfl | rfl | rfl | rfl) | ⟨tag, _, rfl⟩
  · refine ⟨hword (isWord_toString _), fun hhyphen => ?_⟩
    have := @isDigit_of_mem_toString e.parentId '-' (hhyphen ▸ List.mem_singleton.mpr rfl)
    cases this
  · refine ⟨hword e.isWord_device, fun hhyphen => ?_⟩
    have hcolon : ':' ∈ ['-'] := hhyphen ▸ List.mem_append_right _ List.mem_cons_self
    exact absurd hcolon (by decide)
  · exact hpath e.root e.root_ne.2
  · exact hpath e.mountPoint hmount
  · exact hkept e.options
  · exact hkept tag

/-- The first hyphen between blanks is the one behind the tags. -/
theorem splitOnceStr_line (after : List Char) :
    splitOnceStr " - " (String.ofList (e.left ++ (" - ".toList ++ after))) =
      some (String.ofList e.left, String.ofList after) := by
  have hfields := splitAround_written (c := ' ') (m := ['-']) (by decide) (fun w hw => e.of_mem_fields hw)
    after
  have hblank : ' ' ∉ (toString e.mountId).toList := by
    intro hmem
    cases (isWord_toString e.mountId).solid ' ' hmem
  have hsep : " - ".toList = ' ' :: (['-'] ++ [' ']) := rfl
  unfold splitOnceStr left
  rw [hsep, String.toList_ofList, List.append_assoc, splitAround_skip _ _ hblank, hfields]
  rfl

/-- The mount point up to whitespace that is not escaped. -/
def shown : List Char := e.mountPoint.toList.takeWhile (!stays ·)

theorem isWord_shown : IsWord isWhitespace (escape '\\' inPath octal e.shown) := by
  obtain ⟨rest, hrest⟩ := (startsWith_iff _ _).mp e.mountPoint_absolute
  have hlist : e.mountPoint.toList = '/' :: rest.toList := by
    rw [hrest, String.toList_append]
    rfl
  refine isWord_escape ?_ fun c hc => ?_
  · unfold shown
    rw [hlist, List.takeWhile_cons_of_pos (by decide)]
    exact List.cons_ne_nil _ _
  · simpa using List.mem_takeWhile_imp hc

/-- The field of the mount point, up to whitespace that is not escaped, and from there. -/
theorem exists_behind_shown : ∃ back, escapeText inPath e.mountPoint =
    escape '\\' inPath octal e.shown ++ back ∧ ∀ c, back.head? = some c → isWhitespace c = true := by
  refine ⟨escape '\\' inPath octal (e.mountPoint.toList.dropWhile (!stays ·)), ?_, ?_⟩
  · unfold escapeText shown
    rw [← escape_append, List.takeWhile_append_dropWhile]
  · intro c hc
    have hstop := List.head?_dropWhile_not (!stays ·) e.mountPoint.toList
    cases hback : e.mountPoint.toList.dropWhile (!stays ·) with
    | nil =>
        rw [hback] at hc
        cases hc
    | cons d back =>
        rw [hback, List.head?_cons] at hstop
        obtain ⟨hspace, hplain⟩ := Bool.and_eq_true_iff.mp (by simpa using hstop : stays d = true)
        rw [hback, escape_cons_plain (by simpa using hplain)] at hc
        obtain rfl := Option.some.inj hc
        exact hspace

/-- The words before the hyphen. -/
theorem splitWhitespace_left (hroot : ∀ c ∈ e.root.toList, stays c = false) : ∃ id parent dev more,
    splitWhitespace (String.ofList e.left) =
      id :: parent :: dev :: shownText e.root.toList :: shownText e.shown :: more := by
  have hnil : e.root.toList ≠ [] := fun h => e.root_ne.1 (String.toList_eq_nil_iff.mp h)
  have hrootWord := isWord_escape hnil hroot
  have hnext : ∀ {w v : List Char} {vs : List (List Char)}, IsWord isWhitespace w →
      words isWhitespace (w ++ written ' ' (v :: vs)) =
        w :: words isWhitespace (v ++ written ' ' vs) := by
    intro w v vs hw
    rw [written_cons, List.cons_append, words_word_sep hw (by decide)]
  obtain ⟨back, hback, hspace⟩ := e.exists_behind_shown
  have hmount : ∀ {v : List Char} {vs : List (List Char)},
      words isWhitespace (escapeText inPath e.mountPoint ++ written ' ' (v :: vs)) =
        escape '\\' inPath octal e.shown :: words isWhitespace (back ++ written ' ' (v :: vs)) := by
    intro v vs
    rw [hback, List.append_assoc]
    apply words_keyword e.isWord_shown
    intro c hc
    cases back with
    | nil =>
        obtain rfl := Option.some.inj hc
        decide
    | cons d back => exact hspace c hc
  have hleft : e.left = (toString e.mountId).toList ++ written ' '
      ((toString e.parentId).toList :: e.device :: escape '\\' inPath octal e.root.toList ::
        escapeText inPath e.mountPoint :: e.options.text.toList ::
          e.tags.map fun tag => tag.text.toList) := rfl
  rw [splitWhitespace_eq, hleft, hnext (isWord_toString _), hnext (isWord_toString _),
    hnext e.isWord_device, hnext hrootWord, hmount]
  exact ⟨_, _, _, _, rfl⟩

/-- The first word behind the hyphen tells a tmpfs. -/
theorem splitWhitespace_right : ∃ fstype rest,
    splitWhitespace (String.ofList e.right) = fstype :: rest ∧
      (fstype = "tmpfs" ↔ e.fsType = "tmpfs") := by
  have hword : ∀ tail : List Char, ∃ more,
      words isWhitespace (e.fsName.text.toList ++ tail) =
        (e.fsName.text.toList ++ tail.takeWhile (!isWhitespace ·)) :: more := by
    intro tail
    have hkeyword : IsWord isWhitespace
        (e.fsName.text.toList ++ tail.takeWhile (!isWhitespace ·)) := by
      refine ⟨by simp [e.fsName.isWord.ne_nil], fun d hd => ?_⟩
      rcases List.mem_append.mp hd with hd | hd
      · exact e.fsName.isWord.solid d hd
      · simpa using List.mem_takeWhile_imp hd
    have hrest : ∀ d, (tail.dropWhile (!isWhitespace ·)).head? = some d → isWhitespace d = true := by
      intro d hd
      have hstop := List.head?_dropWhile_not (!isWhitespace ·) tail
      rw [hd] at hstop
      simpa using hstop
    have hsplit := words_keyword hkeyword hrest
    rw [List.append_assoc, List.takeWhile_append_dropWhile] at hsplit
    exact ⟨_, hsplit⟩
  unfold right fsText fsType
  rw [List.append_assoc]
  obtain ⟨more, hmore⟩ := hword ((e.subtype.elim [] fun name => '.' :: escapeText inName name) ++
    ' ' :: (escapeText inName e.source ++ ' ' :: escapeText inPath (join "," e.superOptions)))
  rw [splitWhitespace_eq, hmore, List.map_cons]
  refine ⟨_, _, rfl, ?_⟩
  cases e.subtype with
  | none =>
      have hblank : ∀ cs : List Char, (' ' :: cs).takeWhile (!isWhitespace ·) = [] := fun cs =>
        List.takeWhile_cons_of_neg (by decide)
      rw [Option.elim_none, Option.elim_none, List.nil_append, hblank, List.append_nil,
        String.ofList_toList, String.append_empty]
  | some name =>
      -- a type with a subtype has a dot in it
      have hdot : '.' ∉ "tmpfs".toList := by decide
      rw [Option.elim_some, Option.elim_some, List.cons_append,
        List.takeWhile_cons_of_pos (by decide)]
      refine iff_of_false (fun heq => hdot ?_) fun heq => hdot ?_
      · rw [← heq, String.toList_ofList]
        exact List.mem_append_right _ List.mem_cons_self
      · rw [← heq, String.toList_append, String.toList_append]
        exact List.mem_append_right _ List.mem_cons_self

end MountEntry

/-! ### Whitespace that is not escaped -/

/-- A process directory has no whitespace in its name. -/
theorem not_isPidPath_of_mem {p : String} {c : Char} (hc : c ∈ p.toList)
    (hspace : isWhitespace c = true) : ¬ IsPidPath p := by
  rintro ⟨digits, _, hdigits, rfl⟩
  rw [String.toList_append, List.mem_append] at hc
  rcases hc with hc | hc
  · have hall : ("/proc/".toList.all fun d => !isWhitespace d) = true := by decide
    have := List.all_eq_true.mp hall c hc
    rw [hspace] at this
    cases this
  · rw [not_isWhitespace_of_isDigit (hdigits c hc)] at hspace
    cases hspace

/-- A process directory is no log directory. -/
theorem not_inLogs_of_isPidPath {p : String} (h : IsPidPath p) : ¬ InLogs p := by
  obtain ⟨digits, _, _, rfl⟩ := h
  have hproc : ("/proc/" ++ digits).toList.take 2 = ['/', 'p'] := by
    rw [String.toList_append]
    rfl
  have hvar : ∀ dir ∈ maskableLogRoots, ∀ x : String, (dir ++ x).toList.take 2 = ['/', 'v'] := by
    intro dir hdir x
    simp only [maskableLogRoots, List.mem_cons, List.not_mem_nil, or_false] at hdir
    rw [String.toList_append]
    rcases hdir with rfl | rfl <;> rfl
  rintro ⟨dir, hdir, hat | ⟨rest, hunder⟩⟩
  · have hlogs := hvar dir hdir ""
    rw [String.append_empty, ← hat, hproc] at hlogs
    exact absurd hlogs (by decide)
  · have hlogs := hvar dir hdir ("/" ++ rest)
    rw [← String.append_assoc, ← hunder, hproc] at hlogs
    exact absurd hlogs (by decide)

/-- No log directory lies under another one. -/
theorem not_mem_roots_of_under {dir : String} (hdir : dir ∈ maskableLogRoots) (rest : String) :
    dir ++ "/" ++ rest ∉ maskableLogRoots := by
  have hapart : ∀ dir ∈ maskableLogRoots, ∀ dir' ∈ maskableLogRoots,
      ¬ (dir ++ "/").toList <+: dir'.toList := by decide
  intro hmem
  exact hapart dir hdir _ hmem ⟨rest.toList, by simp⟩

namespace MountEntry
variable (e : MountEntry)

/-- A btrfs mount over logs where `/` and the subvolume say different things about its root. -/
def SubvolumeAtLogs : Prop :=
  e.fsType = "btrfs" ∧ InLogs e.mountPoint ∧
    (e.root ≠ "/" ∧ e.root = e.origin ∨ e.root = "/" ∧ e.root ≠ e.origin)

/-- A mount point whose name goes on behind whitespace, where up to there it is a process directory,
or a log directory under a mount that the scanner reports. -/
def CutToMask : Prop :=
  String.ofList e.shown ≠ e.mountPoint ∧
    (IsPidPath (String.ofList e.shown) ∨
      String.ofList e.shown ∈ maskableLogRoots ∧ (e.fsType = "tmpfs" ∨ e.root ≠ "/"))

instance : Decidable e.SubvolumeAtLogs :=
  inferInstanceAs (Decidable (_ ∧ _ ∧ (_ ∧ _ ∨ _ ∧ _)))

instance : Decidable e.CutToMask := inferInstanceAs (Decidable (_ ∧ (_ ∨ _ ∧ (_ ∨ _))))

theorem overlay_iff :
    (InLogs e.mountPoint ∧ (e.fsType = "tmpfs" ∨ e.root ≠ "/") ↔
      InLogs e.mountPoint ∧ (e.fsType = "tmpfs" ∨ e.root ≠ e.origin)) ↔ ¬ e.SubvolumeAtLogs := by
  unfold SubvolumeAtLogs
  by_cases hbtrfs : e.fsType = "btrfs"
  · have hother : e.fsType ≠ "tmpfs" := by
      rw [hbtrfs]
      decide
    have hapart : ∀ a b : Prop, (¬ a ↔ ¬ b) ↔ ¬ (¬ a ∧ b ∨ a ∧ ¬ b) := by
      intro a b
      by_cases ha : a <;> by_cases hb : b <;> simp [ha, hb]
    by_cases hlogs : InLogs e.mountPoint
    · rw [and_iff_right hlogs, and_iff_right hlogs, or_iff_right hother, or_iff_right hother,
        and_iff_right hbtrfs, and_iff_right hlogs]
      exact hapart _ _
    · simp [hlogs]
  · have horigin : e.origin = "/" := if_neg hbtrfs
    rw [horigin]
    exact iff_of_true Iff.rfl fun h => hbtrfs h.1

/-- Where the name of the mount point is cut, there is more of it. -/
theorem exists_cut (h : String.ofList e.shown ≠ e.mountPoint) :
    ∃ c back, e.mountPoint.toList = e.shown ++ c :: back ∧ stays c = true := by
  have hwhole := @List.takeWhile_append_dropWhile _ (!stays ·) e.mountPoint.toList
  have hstop := List.head?_dropWhile_not (!stays ·) e.mountPoint.toList
  cases hback : e.mountPoint.toList.dropWhile (!stays ·) with
  | nil =>
      rw [hback, List.append_nil] at hwhole
      exact absurd (String.toList_inj.mp (by rw [shown, hwhole, String.toList_ofList])) h
  | cons c back =>
      rw [hback] at hwhole hstop
      exact ⟨c, back, hwhole.symm, by simpa using hstop⟩

/-- A cut name lies under the log directories that what is left of it lies under. -/
theorem inLogs_iff_of_cut (h : String.ofList e.shown ≠ e.mountPoint) :
    InLogs e.mountPoint ↔
      InLogs (String.ofList e.shown) ∧ String.ofList e.shown ∉ maskableLogRoots := by
  obtain ⟨c, back, hmount, hstays⟩ := e.exists_cut h
  have hplain : ∀ dir ∈ maskableLogRoots, ∀ d ∈ (dir ++ "/").toList, (!stays d) = true := by
    intro dir hdir d hd
    have hall : (maskableLogRoots.all fun dir => (dir ++ "/").toList.all (!stays ·)) = true := by
      decide
    exact List.all_eq_true.mp (List.all_eq_true.mp hall dir hdir) d hd
  constructor
  · rintro ⟨dir, hdir, hat | ⟨rest, hunder⟩⟩
    · -- there is no whitespace in the name of a log directory
      have hmem : c ∈ (dir ++ "/").toList := by
        rw [String.toList_append, ← hat, hmount]
        simp
      have := hplain dir hdir c hmem
      rw [hstays] at this
      cases this
    · have hshown : String.ofList e.shown =
          dir ++ "/" ++ String.ofList (rest.toList.takeWhile (!stays ·)) := by
        have hlist : e.mountPoint.toList = (dir ++ "/").toList ++ rest.toList := by
          rw [hunder, @String.toList_append (dir ++ "/") rest]
        apply String.toList_inj.mp
        rw [shown, hlist, List.takeWhile_append_of_pos (hplain dir hdir), String.toList_ofList,
          @String.toList_append (dir ++ "/"), String.toList_ofList]
      rw [hshown]
      exact ⟨⟨dir, hdir, Or.inr ⟨_, rfl⟩⟩, not_mem_roots_of_under hdir _⟩
  · rintro ⟨⟨dir, hdir, hat | ⟨rest, hunder⟩⟩, hnot⟩
    · rw [hat] at hnot
      exact absurd hdir hnot
    · refine ⟨dir, hdir, Or.inr ⟨String.ofList (rest.toList ++ c :: back), ?_⟩⟩
      have hlist := congrArg String.toList hunder
      rw [String.toList_ofList] at hlist
      apply String.toList_inj.mp
      rw [hmount, hlist]
      simp

/-- The scanner and the mount agree about a line when its root is read whole. -/
theorem view_iff :
    ((IsPidPath (String.ofList e.shown) ∨ InLogs (String.ofList e.shown) ∧
        (e.fsType = "tmpfs" ∨ e.root ≠ "/")) ↔ e.Masks) ↔
      ¬ e.SubvolumeAtLogs ∧ ¬ e.CutToMask := by
  rw [← e.overlay_iff]
  unfold Masks CutToMask
  by_cases hcut : String.ofList e.shown = e.mountPoint
  · rw [hcut]
    by_cases hpid : IsPidPath e.mountPoint
    · have hlogs := not_inLogs_of_isPidPath hpid
      simp [hpid, hlogs]
    · simp [hpid]
  · obtain ⟨c, back, hmount, hstays⟩ := e.exists_cut hcut
    have hspace : isWhitespace c = true := (Bool.and_eq_true_iff.mp hstays).1
    have hnopid : ¬ IsPidPath e.mountPoint :=
      not_isPidPath_of_mem (by rw [hmount]; simp) hspace
    have hlogs := e.inLogs_iff_of_cut hcut
    by_cases hpid : IsPidPath (String.ofList e.shown)
    · have hnologs := not_inLogs_of_isPidPath hpid
      simp [hpid, hnologs, hnopid, hlogs, hcut]
    · by_cases hroot : String.ofList e.shown ∈ maskableLogRoots
      · have hin : InLogs (String.ofList e.shown) := ⟨_, hroot, Or.inl rfl⟩
        simp [hpid, hroot, hin, hnopid, hlogs, hcut]
      · simp [hpid, hroot, hnopid, hlogs, hcut]

end MountEntry

/-! ### The table -/

namespace MountEntry
variable (e : MountEntry)

theorem newline_not_mem_line : '\n' ∉ e.line := by
  have hdigits : ∀ n : ℕ, '\n' ∉ (toString n).toList := by
    intro n hmem
    cases (isWord_toString n).solid '\n' hmem
  have hpath : ∀ s : String, '\n' ∉ escapeText inPath s := fun s =>
    not_mem_escapeText (by decide) (by decide) (by decide)
  have hname : ∀ s : String, '\n' ∉ escapeText inName s := fun s =>
    not_mem_escapeText (by decide) (by decide) (by decide)
  have hword : ∀ w : Word, '\n' ∉ w.text.toList := fun w => w.not_mem (by decide)
  have hdevice : '\n' ∉ e.device := fun hmem => by cases e.isWord_device.solid '\n' hmem
  have hfields : ∀ w ∈ e.fields, '\n' ∉ w := by
    intro w hw
    simp only [fields, List.mem_append, List.mem_cons, List.not_mem_nil, or_false, List.mem_map] at hw
    rcases hw with (rfl | rfl | rfl | rfl | rfl) | ⟨tag, _, rfl⟩
    · exact hdigits _
    · exact hdevice
    · exact hpath _
    · exact hpath _
    · exact hword _
    · exact hword tag
  have hleft : '\n' ∉ e.left := by
    unfold left written
    rw [List.mem_append, List.mem_flatMap, not_or]
    refine ⟨hdigits _, ?_⟩
    rintro ⟨w, hw, hmem⟩
    rcases List.mem_cons.mp hmem with hblank | hmem
    · cases hblank
    · exact hfields w hw hmem
  have hfs : '\n' ∉ e.fsText := by
    unfold fsText
    cases e.subtype with
    | none => simpa using hword e.fsName
    | some name => simpa using ⟨hword e.fsName, hname name⟩
  unfold line right
  simp [hleft, hfs, hname, hpath]

/-- The line as it is read: a carriage return at its end is lost. -/
theorem classifyLine_read :
    classifyLine (String.ofList (stripTerminator (e.line ++ ['\n']))) =
      classifyLine (String.ofList e.line) := by
  have hright : e.right ≠ [] := by simp [right]
  have hread : stripTerminator (e.line ++ ['\n']) =
      e.left ++ (" - ".toList ++ stripTerminator (e.right ++ ['\n'])) := by
    unfold line
    rw [← List.append_assoc, stripTerminator_append _ hright, List.append_assoc]
  unfold classifyLine
  rw [hread, splitOnceStr_line, line, splitOnceStr_line]
  dsimp only
  rw [splitWhitespace_eq (stripTerminator _), words_stripTerminator, ← splitWhitespace_eq]

/-- **A line** matches exactly when its mount masks something, but for the two kinds of mounts. -/
theorem matches_iff (hroot : ∀ c ∈ e.root.toList, stays c = false) :
    ((classifyLine (String.ofList e.line)).isSome = true ↔ e.Masks) ↔
      ¬ e.SubvolumeAtLogs ∧ ¬ e.CutToMask := by
  obtain ⟨id, parent, dev, more, hleft⟩ := e.splitWhitespace_left hroot
  obtain ⟨fstype, rest, hright, hfs⟩ := e.splitWhitespace_right
  have hclassify : classifyLine (String.ofList e.line) = classifyFields (shownText e.root.toList)
      (shownText e.shown) fstype (rest.head?.getD "-") := by
    unfold classifyLine
    rw [line, splitOnceStr_line]
    dsimp only
    rw [hleft, hright]
  have hslash : shownText e.root.toList = "/" ↔ e.root = "/" := by
    rw [shownText_eq_iff (by decide), String.ofList_toList]
  rw [hclassify, isSome_classifyFields, isPidPath_shownText, inLogs_shownText, hfs, ne_eq, hslash]
  exact e.view_iff

end MountEntry

/-- **The scan of a table**: its first findings, and the number of all of them. -/
theorem detect_table (path : String) (es : List MountEntry) (truncated : Bool) :
    (detectFromPath path (.ok (table es, truncated))).1 =
        (es.filterMap fun e => classifyLine (String.ofList e.line)).take maxFindings ∧
      (detectFromPath path (.ok (table es, truncated))).1.length +
          disclosed (detectFromPath path (.ok (table es, truncated))).2 =
        es.countP fun e => (classifyLine (String.ofList e.line)).isSome := by
  have hlines : (lines (table es)).filterMap classifyLine =
      es.filterMap fun e => classifyLine (String.ofList e.line) := by
    have hnewline : ∀ l ∈ es.map MountEntry.line, '\n' ∉ l := by
      intro l hl
      obtain ⟨e, _, rfl⟩ := List.mem_map.mp hl
      exact e.newline_not_mem_line
    unfold table
    rw [lines_of_terminated hnewline, List.map_map, List.filterMap_map]
    apply List.filterMap_congr
    intro e _
    rw [Function.comp_apply, Function.comp_apply, MountEntry.classifyLine_read]
  obtain ⟨hfindings, hcount⟩ := detect_eq path (table es) truncated
  rw [hlines] at hfindings hcount
  refine ⟨hfindings, hcount.trans ?_⟩
  rw [List.length_filterMap_eq_countP]

/-- What the scan says about a table is right: the lines of masking mounts match and no others, the
findings are those of the first matching lines, and a note tells how many more there are. -/
structure Exact (path : String) (es : List MountEntry) (truncated : Bool) : Prop where
  matching : ∀ e ∈ es, (classifyLine (String.ofList e.line)).isSome = true ↔ e.Masks
  findings : (detectFromPath path (.ok (table es, truncated))).1 =
    (es.filterMap fun e => classifyLine (String.ofList e.line)).take maxFindings
  total : (detectFromPath path (.ok (table es, truncated))).1.length +
    disclosed (detectFromPath path (.ok (table es, truncated))).2 = es.countP (·.Masks)

/-- **The masking mounts of a table are reported and counted, and no others, exactly when no mount is one
of a btrfs subvolume over logs and no mount point is cut at whitespace that hides what it is.** -/
theorem masking_exact_iff (path : String) (es : List MountEntry) (truncated : Bool)
    (hroot : ∀ e ∈ es, ∀ c ∈ e.root.toList, stays c = false) :
    Exact path es truncated ↔ ∀ e ∈ es, ¬ e.SubvolumeAtLogs ∧ ¬ e.CutToMask := by
  obtain ⟨hfindings, hcount⟩ := detect_table path es truncated
  constructor
  · intro h e he
    exact (e.matches_iff (hroot e he)).mp (h.matching e he)
  · intro h
    have hmatching : ∀ e ∈ es, (classifyLine (String.ofList e.line)).isSome = true ↔ e.Masks :=
      fun e he => (e.matches_iff (hroot e he)).mpr (h e he)
    refine ⟨hmatching, hfindings, hcount.trans ?_⟩
    apply List.countP_congr
    intro e he
    rw [hmatching e he, decide_eq_true_iff]

/-! ### Tables -/

def Word.of (text : String)
    (h : (text != "" && text != "-" && text.toList.all (!isWhitespace ·)) = true) : Word where
  text := text
  isWord := by
    rw [Bool.and_eq_true, Bool.and_eq_true, bne_iff_ne] at h
    refine ⟨fun hnil => h.1.1 (String.toList_eq_nil_iff.mp hnil), fun c hc => ?_⟩
    simpa using List.all_eq_true.mp h.2 c hc
  ne_hyphen := by
    rw [Bool.and_eq_true, Bool.and_eq_true, bne_iff_ne, bne_iff_ne] at h
    exact h.1.2

/-- A process is hidden by an empty tmpfs. -/
def hiddenProcess : MountEntry where
  mountId := 99
  parentId := 23
  major := 0
  minor := 99
  root := "/"
  mountPoint := "/proc/4242"
  options := .of "rw,relatime" (by decide)
  tags := [.of "shared:3" (by decide), .of "master:2" (by decide), .of "propagate_from:1" (by decide)]
  fsName := .of "tmpfs" (by decide)
  subtype := none
  source := "none"
  superOptions := ["rw", "size=4k"]
  root_ne := by decide
  mountPoint_absolute := by decide

/-- The logs are a subvolume of their own, as installers of distributions set it up. -/
def logSubvolume : MountEntry where
  mountId := 45
  parentId := 28
  major := 0
  minor := 31
  root := "/@log"
  mountPoint := "/var/log"
  options := .of "rw,relatime" (by decide)
  tags := [.of "shared:20" (by decide)]
  fsName := .of "btrfs" (by decide)
  subtype := none
  source := "/dev/sda2"
  superOptions := ["rw", "space_cache=v2", "subvolid=257", "subvol=/@log"]
  root_ne := by decide
  mountPoint_absolute := by decide

/-- A directory of logs with a blank in its name, from elsewhere on its disk. -/
def boundLogs : MountEntry :=
  { logSubvolume with
    mountPoint := "/var/log/my app"
    root := "/decoy"
    root_ne := by decide
    mountPoint_absolute := by decide }

example : String.ofList boundLogs.line = "45 28 0:31 /decoy /var/log/my\\040app rw,relatime shared:20 " ++
    "- btrfs /dev/sda2 rw,space_cache=v2,subvolid=257,subvol=/@log" := by decide +kernel

theorem hidden_process_exact : Exact "/proc/self/mountinfo" [hiddenProcess, boundLogs] false := by
  have hall : ([hiddenProcess, boundLogs].all fun e => e.root.toList.all (!stays ·)) = true := by
    decide +kernel
  have hroot : ∀ e ∈ [hiddenProcess, boundLogs], ∀ c ∈ e.root.toList, stays c = false := by
    intro e he c hc
    simpa using List.all_eq_true.mp (List.all_eq_true.mp hall e he) c hc
  apply (masking_exact_iff "/proc/self/mountinfo" [hiddenProcess, boundLogs] false hroot).mpr
  decide +kernel

/-- An ordinary mount of a subvolume is reported as a bind mount that hides evidence. -/
theorem log_subvolume_reported :
    (detectFromPath "/proc/self/mountinfo" (.ok (table [logSubvolume], false))).1.map
        (fun f => (f.targetPath, f.reason)) =
      [("/var/log", "bind overlay on /var/log (evidence hiding)")] ∧ ¬ logSubvolume.Masks := by
  decide +kernel

end Mounts
end OwlzopsMapper
