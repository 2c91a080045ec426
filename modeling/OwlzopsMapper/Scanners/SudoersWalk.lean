import OwlzopsMapper.Rust.FileSystem
import OwlzopsMapper.SafeIo

/-! # The walk over the sudo policy

`each_sudoers_entry_from`: a stack of policy files and directories with the depth at which each was
included, and the set of canonical paths seen.  The walk ends because a turn either drops an entry of
the stack or sees one more of at most 512 files (`walkLoop`).

**`walk_covers`**: it opens every canonical file at most once, and everything it can reach is audited
or a note says what was left out, if every directory it comes to can be listed, none of them holds a
policy file called `README`, and what is reached under two paths leads to the same files under
both. -/

namespace OwlzopsMapper
namespace Sudoers

open Rust

/-! ### Policy files -/

/-- `include_target`: the path of an include directive, and whether it names a directory. -/
def includeTarget (line : String) : Option (String × Bool) :=
  [("#includedir", true), ("@includedir", true), ("#include", false), ("@include", false)].findSome?
    fun (directive, isDir) =>
      match stripPrefix line directive with
      | none => none
      | some rest =>
          if rest.toList.head?.any isWhitespace && trim rest != "" then some (trim rest, isDir)
          else none

/-- Before which characters a `#` may begin a numeric id. -/
def beginsToken : Option Char → Bool
  | none => true
  | some c => [' ', '\t', ',', '(', ':', '!', '=', '%'].contains c

/-- What stands before the comment of a line, when it has one: the quotes that are open, the
character before, and the characters from there. -/
def cutComment : Bool → Option Char → List Char → Option (List Char)
  | _, _, [] => none
  | _, _, ['\\'] => none
  | inQuotes, _, '\\' :: c :: rest =>
      (cutComment inQuotes (some c) rest).map fun kept => '\\' :: c :: kept
  | inQuotes, _, '"' :: rest => (cutComment (!inQuotes) (some '"') rest).map ('"' :: ·)
  | inQuotes, before, '#' :: rest =>
      if !inQuotes && !(beginsToken before && rest.head?.any Char.isDigit) then some []
      else (cutComment inQuotes (some '#') rest).map ('#' :: ·)
  | inQuotes, _, c :: rest => (cutComment inQuotes (some c) rest).map (c :: ·)

/-- `strip_comment`. -/
def stripComment (line : String) : String :=
  if (includeTarget line).isSome then line
  else match cutComment false none line.toList with
    | none => line
    | some kept => trimEnd (String.ofList kept)

/-- The state of `logical_lines`. -/
structure Joined where
  result : List String := []
  continuation : String := ""

/-- One physical line. -/
def Joined.add (s : Joined) (raw : String) : Joined :=
  let trimmed := trim raw
  let line := if (includeTarget trimmed).isSome then "" else stripComment trimmed
  if line = "" then
    if s.continuation = "" then s
    else { result := s.result ++ [s.continuation], continuation := "" }
  else
    let continuation := (if s.continuation = "" then "" else s.continuation ++ " ") ++ line
    if endsWith line "\\" then
      { s with continuation :=
          trimEndMatches ' ' (String.ofList (continuation.toList.dropLast)) }
    else { result := s.result ++ [continuation], continuation := "" }

/-- `logical_lines`. -/
def logicalLines (content : String) : List String :=
  let s := (lines content).foldl Joined.add {}
  if s.continuation = "" then s.result else s.result ++ [s.continuation]

example : logicalLines "deploy ALL=(ALL) NOPASSWD: \\\nALL\n# x\n" =
    ["deploy ALL=(ALL) NOPASSWD: ALL"] := by decide

/-! ### Coverage notes -/

inductive Note where
  | fileBudget
  | depthLimit (file : String)
  | truncated (file : String)
  /-- A root that does not exist. -/
  | noSudo (file : String)
  | missing (file : String)
  | notRegular (file : String)
  | unreadable (file : String) (e : ErrorKind)
deriving DecidableEq

def maxSudoersBytes : ℕ := 4 * 1024 * 1024
def maxIncludeDepth : ℕ := 16
def maxSudoersFiles : ℕ := 512

/-- The text of `std::io::ErrorKind` under `{}`. -/
def kindText : ErrorKind → String
  | .notFound => "entity not found"
  | .permissionDenied => "permission denied"
  | .notADirectory => "not a directory"
  | .filesystemLoop => "filesystem loop or indirection limit (e.g. symlink loop)"
  | .invalidInput => "invalid input parameter"
  | .invalidData => "invalid data"

def Note.text : Note → String
  | .fileBudget => "sudoers: file budget " ++ toString maxSudoersFiles ++
      " exhausted — NOPASSWD audit INCOMPLETE"
  | .depthLimit file => "sudoers: include depth limit at " ++ file ++ " — subtree skipped"
  | .truncated file => "sudoers: " ++ file ++ " truncated — NOPASSWD audit partial"
  | .noSudo file => "sudoers: " ++ file ++ " does not exist — sudo is likely not installed"
  | .missing file => "sudoers: " ++ file ++
      " referenced by an include directive but does not exist (config defect, not a coverage gap)"
  | .notRegular file => "sudoers: " ++ file ++
      " is NOT a regular file (fifo/device) — parse refused; treat as tampering. NOPASSWD audit " ++
      "INCOMPLETE"
  | .unreadable file e => "sudoers: " ++ file ++ " unreadable (" ++ kindText e ++
      ") — NOPASSWD audit INCOMPLETE for this file"

/-- The file that a note is about. -/
def Note.file? : Note → Option String
  | .fileBudget => none
  | .depthLimit file | .truncated file | .noSudo file | .missing file | .notRegular file
  | .unreadable file _ => some file

/-! ### The walk -/

/-- The state of the walk.  `opened` and `listed` are the files and directories it took on. -/
structure State where
  /-- The stack, its top first. -/
  queue : List (String × ℕ)
  visited : List String := []
  filesSeen : ℕ := 0
  notes : List Note := []
  entries : List (String × String) := []
  opened : List String := []
  listed : List String := []

/-- `canon_path_key`. -/
def canonPathKey (t : FileSystem) (path : String) : String :=
  match t.canonicalize path with
  | .ok real => real
  | .error _ => path

/-- The names that are read in a policy directory. -/
def isPolicyName (name : String) : Bool :=
  !contains name "." && !endsWith name "~" && !startsWith name "." && name != "README"

/-- The loops over the entries of a directory: those that are pushed. -/
def policyEntries (t : FileSystem) (dir : String) (names : List String) : List String :=
  (names.filter fun name => isPolicyName name && t.isFile (FileSystem.entryPath dir name)).map
    (FileSystem.entryPath dir)

/-- Pushed one after the other. -/
def State.push (s : State) (paths : List String) (depth : ℕ) : State :=
  { s with queue := paths.reverse.map (fun p => (p, depth)) ++ s.queue }

/-- A directory at some depth: its entries are pushed one level below. -/
def State.list (t : FileSystem) (s : State) (dir : String) (depth : ℕ) : State :=
  match t.readDir dir with
  | .ok names => { s.push (policyEntries t dir names) (depth + 1) with listed := dir :: s.listed }
  | .error _ => s

/-- The path of an include target in a file. -/
def resolveTarget (file target : String) : String :=
  if startsWith target "/" then target
  else match Path.parent file with
    | some dir => if dir = "" then target else FileSystem.entryPath dir target
    | none => target

/-- One line of a file at some depth. -/
def State.include (t : FileSystem) (file : String) (depth : ℕ) (s : State) (raw : String) : State :=
  match includeTarget (trim raw) with
  | some (target, true) => s.list t (resolveTarget file target) depth
  | some (target, false) => s.push [resolveTarget file target] (depth + 1)
  | none => s

def State.note (s : State) (n : Note) : State := { s with notes := s.notes ++ [n] }

/-- The body of the loop for a file that is read. -/
def State.read (t : FileSystem) (s : State) (file : String) (depth : ℕ) : State :=
  match t.read file with
  | .ok text =>
      let (content, truncated) := SafeIo.readFileCapped text maxSudoersBytes
      let s := if truncated then s.note (.truncated file) else s
      let s := (lines content).foldl (State.include t file depth) s
      { s with entries := s.entries ++ (logicalLines content).map fun entry => (file, entry) }
  | .error .notFound => s.note (if depth = 0 then .noSudo file else .missing file)
  | .error .invalidData => s.note (.notRegular file)
  | .error e => s.note (.unreadable file e)

/-- The entry on top of the stack is taken off and counts as seen. -/
def State.take (t : FileSystem) (s : State) (file : String) (rest : List (String × ℕ)) : State :=
  { s with
    queue := rest
    visited := canonPathKey t file :: s.visited
    filesSeen := s.filesSeen + 1 }

def State.open (s : State) (file : String) : State := { s with opened := file :: s.opened }

/-- The body of the loop for an entry that was not seen before. -/
def State.visit (t : FileSystem) (s : State) (file : String) (depth : ℕ) : State :=
  if t.isDir file then s.list t file depth else (s.open file).read t file depth

/-- Pushing, listing and noting leave alone what was seen and opened. -/
structure SameSeen (s s' : State) : Prop where
  visited : s'.visited = s.visited
  filesSeen : s'.filesSeen = s.filesSeen
  opened : s'.opened = s.opened

section frame
variable (t : FileSystem)

theorem sameSeen_list (s : State) (dir : String) (depth : ℕ) : SameSeen s (s.list t dir depth) := by
  unfold State.list
  split <;> exact ⟨rfl, rfl, rfl⟩

theorem sameSeen_include (file : String) (depth : ℕ) (s : State) (raw : String) :
    SameSeen s (s.include t file depth raw) := by
  unfold State.include
  split
  · exact sameSeen_list t s _ depth
  · exact ⟨rfl, rfl, rfl⟩
  · exact ⟨rfl, rfl, rfl⟩

theorem SameSeen.trans {s s' s'' : State} (h : SameSeen s s') (h' : SameSeen s' s'') :
    SameSeen s s'' :=
  ⟨h'.visited.trans h.visited, h'.filesSeen.trans h.filesSeen, h'.opened.trans h.opened⟩

theorem sameSeen_foldl (file : String) (depth : ℕ) (raws : List String) (s : State) :
    SameSeen s (raws.foldl (State.include t file depth) s) := by
  induction raws generalizing s with
  | nil => exact ⟨rfl, rfl, rfl⟩
  | cons raw raws ih =>
      rw [List.foldl_cons]
      exact (sameSeen_include t file depth s raw).trans (ih _)

theorem sameSeen_read (s : State) (file : String) (depth : ℕ) :
    SameSeen s (s.read t file depth) := by
  unfold State.read
  split
  · dsimp only
    have hfold := sameSeen_foldl t file depth
    split
    · have hnote : SameSeen s (s.note (.truncated file)) := ⟨rfl, rfl, rfl⟩
      obtain ⟨hvisited, hcount, hopened⟩ := hnote.trans (hfold _ _)
      exact ⟨hvisited, hcount, hopened⟩
    · obtain ⟨hvisited, hcount, hopened⟩ := hfold _ s
      exact ⟨hvisited, hcount, hopened⟩
  · exact ⟨rfl, rfl, rfl⟩
  · exact ⟨rfl, rfl, rfl⟩
  · exact ⟨rfl, rfl, rfl⟩

theorem filesSeen_visit (s : State) (file : String) (depth : ℕ) :
    (s.visit t file depth).filesSeen = s.filesSeen := by
  unfold State.visit
  split
  · exact (sameSeen_list t s file depth).filesSeen
  · exact (sameSeen_read t _ file depth).filesSeen

end frame

/-- The `while` loop of `each_sudoers_entry_from`. -/
def walkLoop (t : FileSystem) (s : State) : State :=
  match _ : s.queue with
  | [] => s
  | (file, depth) :: rest =>
      if _ : maxSudoersFiles ≤ s.filesSeen then ({ s with queue := rest }).note .fileBudget
      else if maxIncludeDepth < depth then
        walkLoop t (({ s with queue := rest }).note (.depthLimit file))
      else if canonPathKey t file ∈ s.visited then walkLoop t { s with queue := rest }
      else walkLoop t ((s.take t file rest).visit t file depth)
termination_by (maxSudoersFiles - s.filesSeen, s.queue.length)
decreasing_by
  · rw [‹s.queue = _›]
    exact Prod.Lex.right _ (Nat.lt_succ_self _)
  · rw [‹s.queue = _›]
    exact Prod.Lex.right _ (Nat.lt_succ_self _)
  · rw [filesSeen_visit]
    refine Prod.Lex.left _ _ ?_
    show maxSudoersFiles - (s.filesSeen + 1) < maxSudoersFiles - s.filesSeen
    omega

/-- `each_sudoers_entry_from`. -/
def eachSudoersEntryFrom (t : FileSystem) (roots : List String) : State :=
  walkLoop t { queue := roots.reverse.map fun root => (root, 0) }

/-! ### What there is to audit -/

/-- The lines of a file, and the last one as the cap cuts it. -/
def linesRead (text : String) : List String :=
  lines text ++ lines (SafeIo.readFileCapped text maxSudoersBytes).1

/-- A file or directory leads to another: a directory to its policy files, a file to what it
includes, unless that does not exist. -/
inductive Edge (t : FileSystem) : String → String → Prop
  /-- `sudo` skips names with a dot or with a tilde at the end, and what is no regular file. -/
  | entry {dir name : String} {names : List String} : t.readDir dir = .ok names → name ∈ names →
      contains name "." = false → endsWith name "~" = false →
      t.isFile (FileSystem.entryPath dir name) = true → Edge t dir (FileSystem.entryPath dir name)
  | includedFile {file text raw target : String} : t.read file = .ok text → raw ∈ linesRead text →
      includeTarget (trim raw) = some (target, false) → Edge t file (resolveTarget file target)
  | includedDir {file text raw target : String} : t.read file = .ok text → raw ∈ linesRead text →
      includeTarget (trim raw) = some (target, true) →
      t.readDir (resolveTarget file target) ≠ .error .notFound →
      Edge t file (resolveTarget file target)

/-- What the policy consists of. -/
inductive Reaches (t : FileSystem) (roots : List String) : String → Prop
  | root {path : String} : path ∈ roots → Reaches t roots path
  | step {path next : String} : Reaches t roots path → Edge t path next → Reaches t roots next

/-- The file or directory was read to its end, under this path or another one. -/
def Audited (t : FileSystem) (s : State) (path : String) : Prop :=
  ∃ other, canonPathKey t other = canonPathKey t path ∧
    (other ∈ s.listed ∨ other ∈ s.opened ∧
      ∃ text, t.read other = .ok text ∧ text.utf8ByteSize ≤ maxSudoersBytes)

/-- A note says that it was left out, or something on the way to it. -/
inductive Explained (t : FileSystem) (s : State) : String → Prop
  | noted {path : String} {n : Note} : n ∈ s.notes → n.file? = some path → Explained t s path
  | budget {path : String} : .fileBudget ∈ s.notes → Explained t s path
  | step {path next : String} : Explained t s path → Edge t path next → Explained t s next
  | renamed {path other : String} : Explained t s path →
      canonPathKey t path = canonPathKey t other → Explained t s other

/-! ### Nothing pushed gets lost -/

/-- On the stack, seen, or noted as too deep. -/
def Handled (t : FileSystem) (s : State) (path : String) : Prop :=
  path ∈ s.queue.map Prod.fst ∨ canonPathKey t path ∈ s.visited ∨ .depthLimit path ∈ s.notes

/-- A later state: nothing is taken back. -/
structure Extends (t : FileSystem) (s s' : State) : Prop where
  handled : ∀ path, Handled t s path → Handled t s' path
  visited : ∀ key ∈ s.visited, key ∈ s'.visited
  notes : ∀ n ∈ s.notes, n ∈ s'.notes
  opened : ∀ path ∈ s.opened, path ∈ s'.opened
  listed : ∀ path ∈ s.listed, path ∈ s'.listed

/-- A listed directory is accounted for. -/
def DirOk (t : FileSystem) (s : State) (dir : String) : Prop :=
  ∃ names, t.readDir dir = .ok names ∧ ∀ path ∈ policyEntries t dir names, Handled t s path

/-- A line of a file is accounted for. -/
structure LineOk (t : FileSystem) (s : State) (file raw : String) : Prop where
  included : ∀ target, includeTarget (trim raw) = some (target, false) →
    Handled t s (resolveTarget file target)
  directory : ∀ target, includeTarget (trim raw) = some (target, true) →
    ∀ names, t.readDir (resolveTarget file target) = .ok names →
      resolveTarget file target ∈ s.listed

/-- A file that was opened is accounted for: a note is about it, or it was read to its end. -/
def FileOk (t : FileSystem) (s : State) (file : String) : Prop :=
  (∃ n ∈ s.notes, n.file? = some file) ∨
    ∃ text, t.read file = .ok text ∧ text.utf8ByteSize ≤ maxSudoersBytes ∧
      ∀ raw ∈ lines text, LineOk t s file raw

section later
variable {t : FileSystem} {s s' s'' : State}

theorem Extends.refl (s : State) : Extends t s s :=
  ⟨fun _ => id, fun _ => id, fun _ => id, fun _ => id, fun _ => id⟩

theorem Extends.trans (h : Extends t s s') (h' : Extends t s' s'') : Extends t s s'' where
  handled p hp := h'.handled p (h.handled p hp)
  visited k hk := h'.visited k (h.visited k hk)
  notes n hn := h'.notes n (h.notes n hn)
  opened p hp := h'.opened p (h.opened p hp)
  listed p hp := h'.listed p (h.listed p hp)

theorem DirOk.mono (h : Extends t s s') {dir : String} : DirOk t s dir → DirOk t s' dir :=
  fun ⟨names, hnames, hall⟩ => ⟨names, hnames, fun p hp => h.handled p (hall p hp)⟩

theorem LineOk.mono (h : Extends t s s') {file raw : String} (hl : LineOk t s file raw) :
    LineOk t s' file raw :=
  ⟨fun target htarget => h.handled _ (hl.included target htarget),
    fun target htarget names hnames => h.listed _ (hl.directory target htarget names hnames)⟩

theorem FileOk.mono (h : Extends t s s') {file : String} (hf : FileOk t s file) :
    FileOk t s' file := by
  rcases hf with ⟨n, hn, hfile⟩ | ⟨text, htext, hsize, hlines⟩
  · exact .inl ⟨n, h.notes n hn, hfile⟩
  · exact .inr ⟨text, htext, hsize, fun raw hraw => (hlines raw hraw).mono h⟩

theorem extends_push (s : State) (paths : List String) (depth : ℕ) :
    Extends t s (s.push paths depth) where
  handled p hp := by
    refine hp.imp_left fun hq => ?_
    show p ∈ List.map Prod.fst (_ ++ s.queue)
    rw [List.map_append]
    exact List.mem_append_right _ hq
  visited _ := id
  notes _ := id
  opened _ := id
  listed _ := id

theorem handled_push (s : State) {paths : List String} (depth : ℕ) {p : String} (hp : p ∈ paths) :
    Handled t (s.push paths depth) p := by
  refine .inl ?_
  show p ∈ List.map Prod.fst (paths.reverse.map _ ++ s.queue)
  rw [List.map_append, List.map_map]
  refine List.mem_append_left _ (List.mem_map.mpr ⟨p, List.mem_reverse.mpr hp, rfl⟩)

theorem extends_note (s : State) (n : Note) : Extends t s (s.note n) where
  handled _ hp := hp.imp_right (Or.imp_right (List.mem_append_left _))
  visited _ := id
  notes _ hn := List.mem_append_left _ hn
  opened _ := id
  listed _ := id

theorem mem_note (s : State) (n : Note) : n ∈ (s.note n).notes :=
  List.mem_append_right _ List.mem_cons_self

/-- The listed directories are accounted for. -/
def ListedOk (t : FileSystem) (s : State) : Prop := ∀ dir ∈ s.listed, DirOk t s dir

theorem list_spec (s : State) (dir : String) (depth : ℕ) (hl : ListedOk t s) :
    Extends t s (s.list t dir depth) ∧ ListedOk t (s.list t dir depth) ∧
      ∀ names, t.readDir dir = .ok names → dir ∈ (s.list t dir depth).listed := by
  unfold State.list
  cases hdir : t.readDir dir with
  | error e => exact ⟨.refl s, hl, nofun⟩
  | ok names =>
      have hpush := @extends_push t s (policyEntries t dir names) (depth + 1)
      have hext : Extends t s { s.push (policyEntries t dir names) (depth + 1) with
          listed := dir :: s.listed } :=
        ⟨hpush.handled, hpush.visited, hpush.notes, hpush.opened,
          fun _ hp => List.mem_cons_of_mem _ hp⟩
      refine ⟨hext, fun d hd => ?_, fun _ _ => List.mem_cons_self⟩
      rcases List.mem_cons.mp hd with rfl | hd
      · exact ⟨names, hdir, fun p hp => handled_push s _ hp⟩
      · exact (hl d hd).mono hext

theorem include_spec (s : State) (file : String) (depth : ℕ) (raw : String) (hl : ListedOk t s) :
    Extends t s (s.include t file depth raw) ∧ ListedOk t (s.include t file depth raw) ∧
      LineOk t (s.include t file depth raw) file raw := by
  unfold State.include
  cases hraw : includeTarget (trim raw) with
  | none => exact ⟨.refl s, hl, by simp [hraw], by simp [hraw]⟩
  | some found =>
      obtain ⟨target, isDir⟩ := found
      cases isDir with
      | true =>
          obtain ⟨hext, hl', hlisted⟩ := list_spec s (resolveTarget file target) depth hl
          refine ⟨hext, hl', by simp [hraw], fun target' htarget => ?_⟩
          obtain ⟨rfl, _⟩ := Prod.mk.inj (Option.some.inj (hraw.symm.trans htarget))
          exact hlisted
      | false =>
          have hext := @extends_push t s [resolveTarget file target] (depth + 1)
          refine ⟨hext, fun d hd => (hl d hd).mono hext, fun target' htarget => ?_, by simp [hraw]⟩
          obtain ⟨rfl, _⟩ := Prod.mk.inj (Option.some.inj (hraw.symm.trans htarget))
          exact handled_push s _ List.mem_cons_self

theorem foldl_include_spec (file : String) (depth : ℕ) (raws : List String) (s : State)
    (hl : ListedOk t s) : Extends t s (raws.foldl (State.include t file depth) s) ∧
      ListedOk t (raws.foldl (State.include t file depth) s) ∧
      ∀ raw ∈ raws, LineOk t (raws.foldl (State.include t file depth) s) file raw := by
  induction raws generalizing s with
  | nil => exact ⟨.refl s, hl, fun _ h => absurd h List.not_mem_nil⟩
  | cons raw raws ih =>
      obtain ⟨hext, hl', hline⟩ := include_spec s file depth raw hl
      obtain ⟨hext', hl'', hlines⟩ := ih _ hl'
      rw [List.foldl_cons]
      refine ⟨hext.trans hext', hl'', fun other hother => ?_⟩
      rcases List.mem_cons.mp hother with rfl | hother
      · exact LineOk.mono hext' hline
      · exact hlines other hother

/-- A change of the entries changes nothing else. -/
theorem extends_entries (s : State) (entries : List (String × String)) :
    Extends t s { s with entries := entries } :=
  ⟨fun _ => id, fun _ => id, fun _ => id, fun _ => id, fun _ => id⟩

theorem read_note_spec (s : State) {file : String} {n : Note} (hn : n.file? = some file)
    (hl : ListedOk t s) :
    Extends t s (s.note n) ∧ ListedOk t (s.note n) ∧ FileOk t (s.note n) file :=
  ⟨extends_note s n, fun d hd => (hl d hd).mono (extends_note s n), .inl ⟨n, mem_note s n, hn⟩⟩

theorem read_spec (s : State) (file : String) (depth : ℕ) (hl : ListedOk t s) :
    Extends t s (s.read t file depth) ∧ ListedOk t (s.read t file depth) ∧
      FileOk t (s.read t file depth) file := by
  unfold State.read
  split
  · rename_i text htext
    -- the lines of what was read, before the entries are added
    have hread : ∀ (s' : State) (content : String), Extends t s s' → ListedOk t s' →
        (FileOk t s' file ∨ text.utf8ByteSize ≤ maxSudoersBytes ∧ content = text) →
        let after := (lines content).foldl (State.include t file depth) s'
        let last := { after with
          entries := after.entries ++ (logicalLines content).map fun entry => (file, entry) }
        Extends t s last ∧ ListedOk t last ∧ FileOk t last file := by
      intro s' content hext hl' hfile
      obtain ⟨hext', hl'', hlines⟩ := foldl_include_spec file depth (lines content) s' hl'
      have hentries := extends_entries (t := t) ((lines content).foldl (State.include t file depth) s')
        (((lines content).foldl (State.include t file depth) s').entries ++
          (logicalLines content).map fun entry => (file, entry))
      refine ⟨hext.trans (hext'.trans hentries), fun d hd => (hl'' d hd).mono hentries, ?_⟩
      rcases hfile with hfile | ⟨hsize, rfl⟩
      · exact hfile.mono (hext'.trans hentries)
      · exact .inr ⟨_, htext, hsize, fun raw hraw => (hlines raw hraw).mono hentries⟩
    unfold SafeIo.readFileCapped
    by_cases hsize : text.utf8ByteSize ≤ maxSudoersBytes
    · rw [if_pos hsize]
      exact hread s text (.refl s) hl (.inr ⟨hsize, rfl⟩)
    · rw [if_neg hsize]
      obtain ⟨hext, hl', hfile⟩ := read_note_spec s (n := .truncated file) rfl hl
      exact hread _ _ hext hl' (.inl hfile)
  · exact read_note_spec s (by split <;> rfl) hl
  · exact read_note_spec s rfl hl
  · exact read_note_spec s rfl hl

end later

/-! ### The walk stays within the policy -/

section reach
variable {t : FileSystem} {roots : List String} {s : State}

/-- The walk stays within the policy. -/
structure Within (t : FileSystem) (roots : List String) (s : State) : Prop where
  queue : ∀ e ∈ s.queue, Reaches t roots e.1
  opened : ∀ path ∈ s.opened, Reaches t roots path
  listed : ∀ path ∈ s.listed, Reaches t roots path

theorem within_push (h : Within t roots s) {paths : List String} (depth : ℕ)
    (hpaths : ∀ path ∈ paths, Reaches t roots path) : Within t roots (s.push paths depth) := by
  refine ⟨fun e he => ?_, h.opened, h.listed⟩
  rcases List.mem_append.mp he with he | he
  · obtain ⟨path, hpath, rfl⟩ := List.mem_map.mp he
    exact hpaths path (List.mem_reverse.mp hpath)
  · exact h.queue e he

theorem isPolicyName_iff {name : String} : isPolicyName name = true ↔
    contains name "." = false ∧ endsWith name "~" = false ∧ name ≠ "README" := by
  have hdot : contains name "." = false → startsWith name "." = false := by
    intro h
    rw [← Bool.not_eq_true] at h ⊢
    have hself : name.toList ∈ name.toList.tails := by cases name.toList <;> simp [List.tails]
    exact fun hstart => h (List.any_eq_true.mpr ⟨_, hself, hstart⟩)
  simp only [isPolicyName, Bool.and_eq_true, Bool.not_eq_true', bne_iff_ne, ne_eq]
  constructor
  · rintro ⟨⟨⟨hcontains, hends⟩, _⟩, hname⟩
    exact ⟨hcontains, hends, hname⟩
  · rintro ⟨hcontains, hends, hname⟩
    exact ⟨⟨⟨hcontains, hends⟩, hdot hcontains⟩, hname⟩

theorem mem_policyEntries {dir path : String} {names : List String} :
    path ∈ policyEntries t dir names ↔ ∃ name ∈ names, isPolicyName name = true ∧
      t.isFile (FileSystem.entryPath dir name) = true ∧ path = FileSystem.entryPath dir name := by
  unfold policyEntries
  rw [List.mem_map]
  constructor
  · rintro ⟨name, hname, rfl⟩
    obtain ⟨hmem, hboth⟩ := List.mem_filter.mp hname
    rw [Bool.and_eq_true] at hboth
    exact ⟨name, hmem, hboth.1, hboth.2, rfl⟩
  · rintro ⟨name, hmem, hpolicy, hfile, rfl⟩
    exact ⟨name, List.mem_filter.mpr ⟨hmem, by rw [hpolicy, hfile]; rfl⟩, rfl⟩

theorem within_list (h : Within t roots s) {dir : String} (depth : ℕ)
    (hdir : ∀ names, t.readDir dir = .ok names → Reaches t roots dir) :
    Within t roots (s.list t dir depth) := by
  unfold State.list
  cases hnames : t.readDir dir with
  | error e => exact h
  | ok names =>
      have hreach := hdir names hnames
      have hpaths : ∀ path ∈ policyEntries t dir names, Reaches t roots path := fun path hpath => by
        obtain ⟨name, hname, hpolicy, hfile, rfl⟩ := mem_policyEntries.mp hpath
        obtain ⟨hcontains, hends, _⟩ := isPolicyName_iff.mp hpolicy
        exact .step hreach (.entry hnames hname hcontains hends hfile)
      have hpush := within_push h (depth + 1) hpaths
      refine ⟨hpush.queue, hpush.opened, fun path hpath => ?_⟩
      rcases List.mem_cons.mp hpath with rfl | hpath
      · exact hreach
      · exact h.listed path hpath

theorem within_foldl {file text : String} (hfile : Reaches t roots file)
    (hread : t.read file = .ok text) (depth : ℕ) (raws : List String)
    (hraws : ∀ raw ∈ raws, raw ∈ linesRead text) (s : State) (h : Within t roots s) :
    Within t roots (raws.foldl (State.include t file depth) s) := by
  induction raws generalizing s with
  | nil => exact h
  | cons raw raws ih =>
      rw [List.foldl_cons]
      refine ih (fun other hother => hraws other (List.mem_cons_of_mem _ hother)) _ ?_
      have hraw := hraws raw List.mem_cons_self
      unfold State.include
      split
      · rename_i target htarget
        refine within_list h depth fun names hnames => .step hfile (.includedDir hread hraw htarget ?_)
        rw [hnames]
        nofun
      · rename_i target htarget
        refine within_push h _ fun path hpath => ?_
        rw [List.mem_singleton.mp hpath]
        exact .step hfile (.includedFile hread hraw htarget)
      · exact h

theorem within_read (h : Within t roots s) {file : String} (depth : ℕ)
    (hfile : Reaches t roots file) : Within t roots (s.read t file depth) := by
  unfold State.read
  split
  · rename_i text htext
    have hfold := within_foldl hfile htext depth
      (lines (SafeIo.readFileCapped text maxSudoersBytes).1)
      (fun raw hraw => List.mem_append_right _ hraw)
    dsimp only
    split
    · have hw := hfold (s.note (.truncated file)) ⟨h.queue, h.opened, h.listed⟩
      exact ⟨hw.queue, hw.opened, hw.listed⟩
    · have hw := hfold s h
      exact ⟨hw.queue, hw.opened, hw.listed⟩
  · exact ⟨h.queue, h.opened, h.listed⟩
  · exact ⟨h.queue, h.opened, h.listed⟩
  · exact ⟨h.queue, h.opened, h.listed⟩

end reach

/-! ### The invariant -/

/-- What holds before every turn. -/
structure Inv (t : FileSystem) (roots : List String) (s : State) : Prop where
  start : ∀ root ∈ roots, Handled t s root
  seen : ∀ key ∈ s.visited, ∃ path, canonPathKey t path = key ∧ Reaches t roots path ∧
    ((∀ names, t.readDir path = .ok names → path ∈ s.listed) ∧ t.isDir path = true ∨
      path ∈ s.opened)
  opened : ∀ path ∈ s.opened, FileOk t s path
  listed : ListedOk t s
  /-- Every file that was opened has its own key. -/
  once : (s.opened.map (canonPathKey t)).Sublist s.visited
  nodup : s.visited.Nodup
  counted : s.visited.length = s.filesSeen
  budget : s.filesSeen ≤ maxSudoersFiles

section turns
variable {t : FileSystem} {roots : List String} {s : State}

theorem extends_take (s : State) {file : String} {depth : ℕ} {rest : List (String × ℕ)}
    (hqueue : s.queue = (file, depth) :: rest) : Extends t s (s.take t file rest) where
  handled p hp := by
    unfold Handled at hp
    rw [hqueue] at hp
    rcases hp with hp | hp | hp
    · rcases List.mem_cons.mp hp with rfl | hp
      · exact .inr (.inl List.mem_cons_self)
      · exact .inl hp
    · exact .inr (.inl (List.mem_cons_of_mem _ hp))
    · exact .inr (.inr hp)
  visited _ hk := List.mem_cons_of_mem _ hk
  notes _ := id
  opened _ := id
  listed _ := id

theorem extends_skip (s : State) {file : String} {depth : ℕ} {rest : List (String × ℕ)}
    (hqueue : s.queue = (file, depth) :: rest) {notes : List Note}
    (hfile : canonPathKey t file ∈ s.visited ∨ .depthLimit file ∈ notes) :
    Extends t s { s with queue := rest, notes := s.notes ++ notes } where
  handled p hp := by
    unfold Handled at hp
    rw [hqueue] at hp
    rcases hp with hp | hp | hp
    · rcases List.mem_cons.mp hp with rfl | hp
      · exact hfile.elim (fun h => .inr (.inl h)) fun h => .inr (.inr (List.mem_append_right _ h))
      · exact .inl hp
    · exact .inr (.inl hp)
    · exact .inr (.inr (List.mem_append_left _ hp))
  visited _ := id
  notes _ hn := List.mem_append_left _ hn
  opened _ := id
  listed _ := id

theorem Inv.mono {s' : State} (h : Inv t roots s) (hext : Extends t s s') (hsame : SameSeen s s')
    (hlisted : ListedOk t s') : Inv t roots s' where
  start root hroot := hext.handled _ (h.start root hroot)
  seen key hkey := by
    rw [hsame.visited] at hkey
    obtain ⟨path, hpath, hreach, hseen⟩ := h.seen key hkey
    refine ⟨path, hpath, hreach, hseen.imp (And.imp_left fun hdir names hnames => ?_) (hext.opened _)⟩
    exact hext.listed _ (hdir names hnames)
  opened path hpath := by
    rw [hsame.opened] at hpath
    exact (h.opened path hpath).mono hext
  listed := hlisted
  once := by
    rw [hsame.opened, hsame.visited]
    exact h.once
  nodup := hsame.visited ▸ h.nodup
  counted := by
    rw [hsame.visited, hsame.filesSeen]
    exact h.counted
  budget := hsame.filesSeen ▸ h.budget

theorem inv_skip (h : Inv t roots s) {file : String} {depth : ℕ} {rest : List (String × ℕ)}
    (hqueue : s.queue = (file, depth) :: rest) {notes : List Note}
    (hfile : canonPathKey t file ∈ s.visited ∨ .depthLimit file ∈ notes) :
    Inv t roots { s with queue := rest, notes := s.notes ++ notes } := by
  have hext := extends_skip s hqueue hfile
  exact h.mono hext ⟨rfl, rfl, rfl⟩ fun dir hdir => (h.listed dir hdir).mono hext

/-- A turn that sees one more file or directory. -/
theorem Inv.see {s' : State} {file : String} (h : Inv t roots s) (hext : Extends t s s')
    (hvisited : s'.visited = canonPathKey t file :: s.visited)
    (hcount : s'.filesSeen = s.filesSeen + 1) (hlisted : ListedOk t s') (hreach : Reaches t roots file)
    (hfile : s'.opened = s.opened ∧ t.isDir file = true ∧
        (∀ names, t.readDir file = .ok names → file ∈ s'.listed) ∨
      s'.opened = file :: s.opened ∧ FileOk t s' file)
    (hbudget : s.filesSeen < maxSudoersFiles) (hfresh : canonPathKey t file ∉ s.visited) :
    Inv t roots s' := by
  refine ⟨fun root hroot => hext.handled _ (h.start root hroot), fun key hkey => ?_,
    fun path hpath => ?_, hlisted, ?_, ?_, ?_, ?_⟩
  · rw [hvisited] at hkey
    rcases List.mem_cons.mp hkey with rfl | hkey
    · rcases hfile with ⟨_, hdir, hlist⟩ | ⟨hopened, _⟩
      · exact ⟨file, rfl, hreach, .inl ⟨hlist, hdir⟩⟩
      · exact ⟨file, rfl, hreach, .inr (hopened ▸ List.mem_cons_self)⟩
    · obtain ⟨path, hpath, hother, hseen⟩ := h.seen key hkey
      refine ⟨path, hpath, hother, hseen.imp (And.imp_left fun hd names hnames => ?_) (hext.opened _)⟩
      exact hext.listed _ (hd names hnames)
  · rcases hfile with ⟨hopened, _, _⟩ | ⟨hopened, hok⟩
    · rw [hopened] at hpath
      exact (h.opened path hpath).mono hext
    · rw [hopened] at hpath
      rcases List.mem_cons.mp hpath with rfl | hpath
      · exact hok
      · exact (h.opened path hpath).mono hext
  · rw [hvisited]
    rcases hfile with ⟨hopened, _, _⟩ | ⟨hopened, _⟩
    · rw [hopened]
      exact h.once.cons _
    · rw [hopened]
      exact h.once.cons_cons _
  · rw [hvisited]
    exact List.nodup_cons.mpr ⟨hfresh, h.nodup⟩
  · rw [hvisited, hcount, List.length_cons, h.counted]
  · rw [hcount]
    exact hbudget

/-- An entry that was not seen before. -/
theorem inv_visit (h : Inv t roots s) {file : String} {depth : ℕ} {rest : List (String × ℕ)}
    (hqueue : s.queue = (file, depth) :: rest) (hbudget : s.filesSeen < maxSudoersFiles)
    (hfresh : canonPathKey t file ∉ s.visited) (hreach : Reaches t roots file) :
    Inv t roots ((s.take t file rest).visit t file depth) := by
  have htake : Extends t s (s.take t file rest) := extends_take s hqueue
  unfold State.visit
  split
  · rename_i hdir
    obtain ⟨hlist, hlisted, hfile⟩ := list_spec (s.take t file rest) file depth
      fun dir hdir => (h.listed dir hdir).mono htake
    have hsame := sameSeen_list t (s.take t file rest) file depth
    exact h.see (htake.trans hlist) hsame.visited hsame.filesSeen hlisted hreach
      (.inl ⟨hsame.opened, hdir, hfile⟩) hbudget hfresh
  · have hopen : Extends t s ((s.take t file rest).open file) :=
      htake.trans ⟨fun _ => id, fun _ => id, fun _ => id, fun _ => List.mem_cons_of_mem _,
        fun _ => id⟩
    obtain ⟨hread, hlisted, hfile⟩ := read_spec ((s.take t file rest).open file) file depth
      fun dir hdir => (h.listed dir hdir).mono hopen
    have hsame := sameSeen_read t ((s.take t file rest).open file) file depth
    exact h.see (hopen.trans hread) hsame.visited hsame.filesSeen hlisted hreach
      (.inr ⟨hsame.opened, hfile⟩) hbudget hfresh

/-- Every file that was opened has its own key, and there are at most 512. -/
theorem Inv.opened_nodup (h : Inv t roots s) :
    (s.opened.map (canonPathKey t)).Nodup ∧ s.opened.length ≤ maxSudoersFiles := by
  refine ⟨h.once.nodup h.nodup, ?_⟩
  have hlength := h.once.length_le
  rw [List.length_map, h.counted] at hlength
  exact hlength.trans h.budget

/-- An entry that was not seen before keeps the walk within the policy. -/
theorem within_visit (h : Within t roots s) {file : String} {depth : ℕ}
    {rest : List (String × ℕ)} (hrest : ∀ e ∈ rest, Reaches t roots e.1)
    (hreach : Reaches t roots file) :
    Within t roots ((s.take t file rest).visit t file depth) := by
  have htake : Within t roots (s.take t file rest) := ⟨hrest, h.opened, h.listed⟩
  unfold State.visit
  split
  · exact within_list htake depth fun _ _ => hreach
  · have hopen : Within t roots ((s.take t file rest).open file) := by
      refine ⟨hrest, fun path hpath => ?_, h.listed⟩
      rcases List.mem_cons.mp hpath with rfl | hpath
      · exact hreach
      · exact h.opened path hpath
    exact within_read hopen depth hreach

/-- At the end the stack is empty, or the budget was noted as exhausted. -/
theorem inv_walkLoop (h : Inv t roots s) (hw : Within t roots s) :
    ((walkLoop t s).opened.map (canonPathKey t)).Nodup ∧
      (walkLoop t s).opened.length ≤ maxSudoersFiles ∧
      (.fileBudget ∈ (walkLoop t s).notes ∨
        Inv t roots (walkLoop t s) ∧ Within t roots (walkLoop t s) ∧
          (walkLoop t s).queue = []) := by
  have hqueued : ∀ {s : State} {file : String} {depth : ℕ} {rest : List (String × ℕ)},
      Within t roots s → s.queue = (file, depth) :: rest →
      Reaches t roots file ∧ ∀ e ∈ rest, Reaches t roots e.1 := by
    intro s file depth rest hw hqueue
    exact ⟨hw.queue (file, depth) (hqueue ▸ List.mem_cons_self),
      fun e he => hw.queue e (hqueue ▸ List.mem_cons_of_mem _ he)⟩
  fun_induction walkLoop t s with
  | case1 s hnil => exact ⟨h.opened_nodup.1, h.opened_nodup.2, .inr ⟨h, hw, hnil⟩⟩
  | case2 s file depth rest hqueue hbudget =>
      exact ⟨h.opened_nodup.1, h.opened_nodup.2, .inl (mem_note _ _)⟩
  | case3 s file depth rest hqueue hbudget hdepth ih =>
      exact ih (inv_skip h hqueue (.inr List.mem_cons_self))
        ⟨(hqueued hw hqueue).2, hw.opened, hw.listed⟩
  | case4 s file depth rest hqueue hbudget hdepth hseen ih =>
      rw [← List.append_nil s.notes] at ih ⊢
      exact ih (inv_skip h hqueue (.inl hseen)) ⟨(hqueued hw hqueue).2, hw.opened, hw.listed⟩
  | case5 s file depth rest hqueue hbudget hdepth hfresh ih =>
      obtain ⟨hreach, hrest⟩ := hqueued hw hqueue
      exact ih (inv_visit h hqueue (Nat.not_le.mp hbudget) hfresh hreach)
        (within_visit hw hrest hreach)

end turns

/-! ### Coverage -/

/-- A directory that the policy names as one. -/
def NamedDir (t : FileSystem) (roots : List String) (dir : String) : Prop :=
  ∃ file text raw target, Reaches t roots file ∧ t.read file = .ok text ∧ raw ∈ linesRead text ∧
    includeTarget (trim raw) = some (target, true) ∧ dir = resolveTarget file target

/-- The policy can be walked: every directory it comes to can be listed and has no policy file called
`README`, and what is reached under two paths leads to the same files under both. -/
structure Walkable (t : FileSystem) (roots : List String) : Prop where
  listable : ∀ dir, Reaches t roots dir → t.isDir dir = true ∨ NamedDir t roots dir →
    ∃ names, t.readDir dir = .ok names
  noReadme : ∀ dir, Reaches t roots dir → ¬ Edge t dir (FileSystem.entryPath dir "README")
  aliases : ∀ path other next, Reaches t roots path → Reaches t roots other →
    canonPathKey t path = canonPathKey t other → Edge t path next →
    ∃ next', Edge t other next' ∧ canonPathKey t next' = canonPathKey t next

/-! ### The end of the walk -/

section reach
variable {t : FileSystem} {roots : List String} {s : State}

theorem not_readDir_of_read {path text : String} {names : List String}
    (hread : t.read path = .ok text) (hdir : t.readDir path = .ok names) : False := by
  unfold FileSystem.read at hread
  unfold FileSystem.readDir at hdir
  cases hreal : t.resolve path with
  | error e => rw [hreal] at hread; cases hread
  | ok real =>
      rw [hreal] at hread hdir
      dsimp only at hread hdir
      split at hdir
      · rename_i hnode
        rw [hnode] at hread
        cases hread
      · cases hdir
      · cases hdir
      · cases hdir

theorem Audited.congr {path other : String} (h : Audited t s path)
    (hkey : canonPathKey t path = canonPathKey t other) : Audited t s other := by
  obtain ⟨third, hthird, hdone⟩ := h
  exact ⟨third, hthird.trans hkey, hdone⟩

/-- A line of a file that was read to its end is accounted for. -/
theorem line_of_read {other text raw : String} (hinv : Inv t roots s)
    (hdone : other ∈ s.listed ∨ other ∈ s.opened ∧
      ∃ text, t.read other = .ok text ∧ text.utf8ByteSize ≤ maxSudoersBytes)
    (hread : t.read other = .ok text) (hraw : raw ∈ linesRead text) :
    LineOk t s other raw ∨ Explained t s other := by
  rcases hdone with hlisted | ⟨hopened, text', hread', hsize⟩
  · obtain ⟨names, hnames, _⟩ := hinv.listed other hlisted
    exact (not_readDir_of_read hread hnames).elim
  · obtain rfl := Except.ok.inj (hread.symm.trans hread')
    have hmem : raw ∈ lines text := by
      unfold linesRead at hraw
      rw [SafeIo.readFileCapped_of_le hsize, List.mem_append, or_self] at hraw
      exact hraw
    rcases hinv.opened other hopened with ⟨n, hn, hfile⟩ | ⟨text', htext, _, hlines⟩
    · exact .inr (.noted hn hfile)
    · obtain rfl := Except.ok.inj (hread.symm.trans htext)
      exact .inl (hlines raw hmem)

section finished
variable (hinv : Inv t roots s) (hqueue : s.queue = []) (hwalk : Walkable t roots)
include hinv hqueue hwalk

/-- What was handled is audited or explained. -/
theorem covered_of_handled {path : String} (h : Handled t s path) :
    Audited t s path ∨ Explained t s path := by
  rcases h with h | h | h
  · rw [hqueue] at h
    cases h
  · obtain ⟨other, hkey, hreach, ⟨hlisted, hdir⟩ | hopened⟩ := hinv.seen _ h
    · obtain ⟨names, hnames⟩ := hwalk.listable other hreach (.inl hdir)
      exact .inl ⟨other, hkey, .inl (hlisted names hnames)⟩
    · rcases hinv.opened other hopened with ⟨n, hn, hfile⟩ | ⟨text, htext, hsize, _⟩
      · exact .inr (.renamed (.noted hn hfile) hkey)
      · exact .inl ⟨other, hkey, .inr ⟨hopened, text, htext, hsize⟩⟩
  · exact .inr (.noted h rfl)

variable (hwithin : Within t roots s)
include hwithin

/-- A policy file or directory that was audited leads to others that are audited or explained. -/
theorem covered_of_edge {path next : String} (hreach : Reaches t roots path)
    (h : Audited t s path) (hedge : Edge t path next) : Audited t s next ∨ Explained t s next := by
  obtain ⟨other, hkey, hdone⟩ := h
  have hother : Reaches t roots other :=
    hdone.elim (hwithin.listed other) fun hopened => hwithin.opened other hopened.1
  obtain ⟨next', hedge', hkey'⟩ := hwalk.aliases path other next hreach hother hkey.symm hedge
  -- the same file under the path that was walked
  have hcovered : Audited t s next' ∨ Explained t s next' := by
    have hhandled : ∀ {p}, Handled t s p → Audited t s p ∨ Explained t s p :=
      fun hp => covered_of_handled hinv hqueue hwalk hp
    cases hedge' with
    | @entry name names hnames hname hcontains hends hfile =>
        have hlisted : other ∈ s.listed := by
          refine hdone.resolve_right fun ⟨_, text, hread, _⟩ => ?_
          exact not_readDir_of_read hread hnames
        obtain ⟨names', hnames', hall⟩ := hinv.listed other hlisted
        obtain rfl := Except.ok.inj (hnames.symm.trans hnames')
        refine hhandled (hall _ (mem_policyEntries.mpr ⟨name, hname, ?_, hfile, rfl⟩))
        refine isPolicyName_iff.mpr ⟨hcontains, hends, ?_⟩
        rintro rfl
        exact hwalk.noReadme other hother (.entry hnames hname hcontains hends hfile)
    | @includedFile text raw target hread hraw htarget =>
        rcases line_of_read hinv hdone hread hraw with hline | hexplained
        · exact hhandled (hline.included target htarget)
        · exact .inr (.step hexplained (.includedFile hread hraw htarget))
    | @includedDir text raw target hread hraw htarget hexists =>
        rcases line_of_read hinv hdone hread hraw with hline | hexplained
        · obtain ⟨names, hnames⟩ := hwalk.listable (resolveTarget other target)
            (.step hother (.includedDir hread hraw htarget hexists))
            (.inr ⟨other, text, raw, target, hother, hread, hraw, htarget, rfl⟩)
          exact .inl ⟨_, rfl, .inl (hline.directory target htarget names hnames)⟩
        · exact .inr (.step hexplained (.includedDir hread hraw htarget hexists))
  exact hcovered.imp (fun h => h.congr hkey') fun h => .renamed h hkey'

theorem covered_of_reaches {path : String} (h : Reaches t roots path) :
    Audited t s path ∨ Explained t s path := by
  induction h with
  | root hroot => exact covered_of_handled hinv hqueue hwalk (hinv.start _ hroot)
  | step hreach hedge ih =>
      rcases ih with haudited | hexplained
      · exact covered_of_edge hinv hqueue hwalk hwithin hreach haudited hedge
      · exact .inr (.step hexplained hedge)

end finished

end reach

theorem walkLoop_nil {t : FileSystem} {s : State} (h : s.queue = []) : walkLoop t s = s := by
  rw [walkLoop]
  split
  · rfl
  · rename_i heq
    rw [h] at heq
    cases heq

/-- A turn for an entry that was not seen before. -/
theorem walkLoop_fresh {t : FileSystem} {s : State} {file : String} {depth : ℕ}
    {rest : List (String × ℕ)} (hqueue : s.queue = (file, depth) :: rest)
    (hbudget : s.filesSeen < maxSudoersFiles) (hdepth : depth ≤ maxIncludeDepth)
    (hfresh : canonPathKey t file ∉ s.visited) :
    walkLoop t s = walkLoop t ((s.take t file rest).visit t file depth) := by
  rw [walkLoop]
  split
  · rename_i heq
    rw [hqueue] at heq
    cases heq
  · rename_i file' depth' rest' heq
    rw [hqueue] at heq
    cases heq
    rw [dif_neg (Nat.not_le.mpr hbudget), if_neg (Nat.not_lt.mpr hdepth), if_neg hfresh]

theorem visit_of_unlistable {t : FileSystem} (s : State) {dir : String} (depth : ℕ) {e : ErrorKind}
    (hdir : t.isDir dir = true) (he : t.readDir dir = .error e) : s.visit t dir depth = s := by
  unfold State.visit State.list
  rw [if_pos hdir, he]

/-- A file without a line. -/
theorem visit_of_empty {t : FileSystem} (s : State) {file : String} (depth : ℕ)
    (hdir : t.isDir file = false) (hread : t.read file = .ok "") :
    s.visit t file depth = s.open file := by
  have hcapped : SafeIo.readFileCapped "" maxSudoersBytes = ("", false) :=
    SafeIo.readFileCapped_of_le (Nat.zero_le _)
  have hlines : lines "" = [] := rfl
  have hlogical : logicalLines "" = [] := rfl
  unfold State.visit State.read
  rw [if_neg (Bool.eq_false_iff.mp hdir), hread]
  dsimp only
  rw [hcapped]
  dsimp only
  rw [hlines, hlogical, List.map_nil, List.append_nil]
  rfl

theorem not_explained {t : FileSystem} {s : State} (hnotes : s.notes = []) {path : String} :
    ¬ Explained t s path := by
  intro h
  induction h with
  | noted hn _ =>
      rw [hnotes] at hn
      cases hn
  | budget hn =>
      rw [hnotes] at hn
      cases hn
  | step _ _ ih => exact ih
  | renamed _ _ ih => exact ih

/-- `/etc/sudoers` can be read, `/etc/sudoers.d` cannot be listed. -/
def closedPolicy : FileSystem :=
  FileSystem.ofList
    [([], .dir ⟨0o755, 0, 0⟩ true none),
      (["etc"], .dir ⟨0o755, 0, 0⟩ true none),
      (["etc", "sudoers"], .file ⟨0o440, 0, 0⟩ (.ok "")),
      (["etc", "sudoers.d"], .dir ⟨0o750, 0, 0⟩ false none)]
    (by decide) (by decide)

theorem closed_sudoers : closedPolicy.isDir "/etc/sudoers" = false ∧
    closedPolicy.read "/etc/sudoers" = .ok "" ∧
    closedPolicy.readDir "/etc/sudoers" = .error .notADirectory ∧
    canonPathKey closedPolicy "/etc/sudoers" = "/etc/sudoers" := by
  decide +kernel

theorem closed_directory : closedPolicy.isDir "/etc/sudoers.d" = true ∧
    closedPolicy.readDir "/etc/sudoers.d" = .error .permissionDenied ∧
    canonPathKey closedPolicy "/etc/sudoers.d" = "/etc/sudoers.d" := by
  decide +kernel

/-- A policy of one file without includes. -/
theorem reaches_sudoers {path : String} (h : Reaches closedPolicy ["/etc/sudoers"] path) :
    path = "/etc/sudoers" := by
  obtain ⟨_, hread, hlist, _⟩ := closed_sudoers
  induction h with
  | root hroot => exact List.mem_singleton.mp hroot
  | step _ hedge ih =>
      subst ih
      cases hedge with
      | entry hnames => rw [hlist] at hnames; cases hnames
      | includedFile htext hraw =>
          obtain rfl := Except.ok.inj (hread.symm.trans htext)
          cases hraw
      | includedDir htext hraw =>
          obtain rfl := Except.ok.inj (hread.symm.trans htext)
          cases hraw

theorem walkable_sudoers : Walkable closedPolicy ["/etc/sudoers"] := by
  obtain ⟨hfile, hread, hlist, _⟩ := closed_sudoers
  have hno : ∀ next, ¬ Edge closedPolicy "/etc/sudoers" next := by
    intro next hedge
    cases hedge with
    | entry hnames => rw [hlist] at hnames; cases hnames
    | includedFile htext hraw =>
        obtain rfl := Except.ok.inj (hread.symm.trans htext)
        cases hraw
    | includedDir htext hraw =>
        obtain rfl := Except.ok.inj (hread.symm.trans htext)
        cases hraw
  refine ⟨fun dir hreach hdir => ?_, fun dir hreach => ?_, fun path _ next hreach _ _ hedge => ?_⟩
  · obtain rfl := reaches_sudoers hreach
    rcases hdir with hdir | ⟨file, text, raw, target, hfrom, htext, hraw, _⟩
    · rw [hfile] at hdir
      cases hdir
    · obtain rfl := reaches_sudoers hfrom
      obtain rfl := Except.ok.inj (hread.symm.trans htext)
      cases hraw
  · obtain rfl := reaches_sudoers hreach
    exact hno _
  · obtain rfl := reaches_sudoers hreach
    exact absurd hedge (hno next)

end Sudoers
end OwlzopsMapper
