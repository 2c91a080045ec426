import OwlzopsMapper.Rust.Lines
import OwlzopsMapper.Rust.Path

/-! # File systems

What `std::fs` answers about a tree of directories, files and symbolic links, in one state of the
tree.  A node is stored under its real path, the names from the root without any link; that it hangs
in a directory is a field of `FileSystem`.

`resolve` is the path walk of the kernel: it takes a path component by component from where it
stands, goes up on `..`, splices in the target of a link, at most forty times, and needs a searchable
directory for every name.  `metadata`, `canonicalize` and `read` are the walk and a look at the node
it ends at.  **The walk ends at a directory or a file** (`isObject_of_resolve`). -/

namespace Rust

/-- Why an operation on a path failed. -/
inductive ErrorKind where
  | notFound
  | permissionDenied
  | notADirectory
  | filesystemLoop
  /-- A path with a zero byte. -/
  | invalidInput
  /-- A file that is not regular. -/
  | invalidData
deriving DecidableEq, Repr

/-- The error under `{}`. -/
def ErrorKind.text : ErrorKind → String
  | .notFound => "No such file or directory (os error 2)"
  | .permissionDenied => "Permission denied (os error 13)"
  | .notADirectory => "Not a directory (os error 20)"
  | .filesystemLoop => "Too many levels of symbolic links (os error 40)"
  | .invalidInput => "file name contained an unexpected NUL byte"
  | .invalidData => "not a regular file (FIFO or device on a scanner path)"

/-- `std::fs::Metadata`: the permission bits and the owners. -/
structure Metadata where
  mode : UInt32
  uid : UInt32
  gid : UInt32
deriving DecidableEq, Repr

/-- What a name stands for. -/
inductive Node where
  /-- A directory: may it be searched, and the names it lists when it may be read. -/
  | dir (info : Metadata) (searchable : Bool) (names : Option (List String))
  /-- A file, and what reading it gives. -/
  | file (info : Metadata) (content : Except ErrorKind String)
  | link (target : String)

def Node.isDir : Node → Bool
  | .dir .. => true
  | _ => false

/-- The metadata of a directory or a file. -/
def Node.info? : Node → Option Metadata
  | .dir info .. => some info
  | .file info _ => some info
  | .link _ => none

/-- A state of the file system as one process sees it. -/
structure FileSystem where
  node : List String → Option Node
  /-- The working directory. -/
  cwd : List String
  root_isDir : (node []).any Node.isDir = true
  cwd_isDir : (node cwd).any Node.isDir = true
  parent_isDir : ∀ dir name, (node (dir ++ [name])).isSome = true → (node dir).any Node.isDir = true

namespace FileSystem

/-- The file system of a list of nodes, a directory before what it holds. -/
def ofList (nodes : List (List String × Node)) (hroot : (nodes.lookup []).any Node.isDir = true)
    (hparent : ∀ e ∈ nodes, e.1 = [] ∨ (nodes.lookup e.1.dropLast).any Node.isDir = true) :
    FileSystem where
  node p := nodes.lookup p
  cwd := []
  root_isDir := hroot
  cwd_isDir := hroot
  parent_isDir dir name h := by
    obtain ⟨n, hn⟩ := Option.isSome_iff_exists.mp h
    have hmem : (dir ++ [name], n) ∈ nodes := by
      obtain ⟨l₁, l₂, rfl, _⟩ := List.lookup_eq_some_iff.mp hn
      exact List.mem_append_right _ List.mem_cons_self
    rcases hparent _ hmem with h | h
    · exact absurd h (by simp)
    · simpa using h

variable (t : FileSystem)

/-! ### The path walk -/

/-- Where the target of a link is walked from. -/
def startOf (path : String) (here : List String) : List String :=
  if startsWith path "/" then [] else here

/-- Where one component leads. -/
inductive Move where
  | to (real : List String)
  | follow (target : String)

/-- One component of a path, from a place in the tree. -/
def move (here : List String) (c : String) : Except ErrorKind Move :=
  match t.node here with
  | some (.dir _ searchable _) =>
      if c = "" then .ok (.to here)
      else if !searchable then .error .permissionDenied
      else if c = "." then .ok (.to here)
      else if c = ".." then .ok (.to here.dropLast)
      else match t.node (here ++ [c]) with
        | none => .error .notFound
        | some (.link target) => .ok (.follow target)
        | some _ => .ok (.to (here ++ [c]))
  | some _ => .error .notADirectory
  | none => .error .notFound

/-- Walk along components; `follow` goes on with the walk behind a link. -/
def walkWith (follow : List String → List String → Except ErrorKind (List String)) :
    List String → List String → Except ErrorKind (List String)
  | here, [] => .ok here
  | here, c :: rest =>
      match t.move here c with
      | .error e => .error e
      | .ok (.to next) => walkWith follow next rest
      | .ok (.follow target) => follow (startOf target here) (split '/' target ++ rest)

/-- The walk that may still follow this many links. -/
def walk : ℕ → List String → List String → Except ErrorKind (List String)
  | 0 => t.walkWith fun _ _ => .error .filesystemLoop
  | links + 1 => t.walkWith (walk links)

/-- The number of links the kernel follows in one walk. -/
def maxSymlinks : ℕ := 40

/-- The real path of a path. -/
def resolve (path : String) : Except ErrorKind (List String) :=
  if path = "" then .error .notFound
  else if '\x00' ∈ path.toList then .error .invalidInput
  else t.walk maxSymlinks (startOf path t.cwd) (split '/' path)

/-- The text of a real path. -/
def realText (real : List String) : String := "/" ++ join "/" real

/-! ### Questions -/

/-- The metadata of the node at a real path. -/
def infoAt (real : List String) : Option Metadata := (t.node real).bind Node.info?

/-- `std::fs::metadata`. -/
def metadata (path : String) : Except ErrorKind Metadata :=
  match t.resolve path with
  | .error e => .error e
  | .ok real => match t.infoAt real with
    | some info => .ok info
    | none => .error .notFound

/-- `std::fs::canonicalize`. -/
def canonicalize (path : String) : Except ErrorKind String := (t.resolve path).map realText

/-- The text of a file. -/
def read (path : String) : Except ErrorKind String :=
  match t.resolve path with
  | .error e => .error e
  | .ok real => match t.node real with
    | some (.file _ content) => content
    | some (.dir _ _ none) => .error .permissionDenied
    | some _ => .error .invalidData
    | none => .error .notFound

/-- The names in a directory. -/
def readDir (path : String) : Except ErrorKind (List String) :=
  match t.resolve path with
  | .error e => .error e
  | .ok real => match t.node real with
    | some (.dir _ _ (some names)) => .ok names
    | some (.dir _ _ none) => .error .permissionDenied
    | some _ => .error .notADirectory
    | none => .error .notFound

/-- `Path::is_dir`. -/
def isDir (path : String) : Bool :=
  match t.resolve path with
  | .error _ => false
  | .ok real => (t.node real).any Node.isDir

/-- `Path::is_file`. -/
def isFile (path : String) : Bool :=
  match t.resolve path with
  | .error _ => false
  | .ok real => match t.node real with
    | some (.file _ (.error .invalidData)) => false
    | some (.file ..) => true
    | _ => false

/-- `std::fs::read_link`, `none` where it fails. -/
def readLink (path : String) : Option String := do
  let dir ← Path.parent path
  let name ← Path.fileName path
  let real ← (t.resolve dir).toOption
  match t.node (real ++ [name]) with
  | some (.link target) => some target
  | _ => none

/-- The path of an entry of a directory, `dir.join(name)`. -/
def entryPath (dir name : String) : String :=
  if endsWith dir "/" then dir ++ name else dir ++ "/" ++ name

/-! ### Where a walk ends -/

/-- A directory or a file. -/
def IsObject (real : List String) : Prop := ∃ info, t.infoAt real = some info

variable {t}

theorem isObject_of_isDir {real : List String} (h : (t.node real).any Node.isDir = true) :
    t.IsObject real := by
  unfold IsObject infoAt
  cases hn : t.node real with
  | none => simp [hn] at h
  | some n =>
      cases n with
      | dir info s names => exact ⟨info, rfl⟩
      | file info content => simp [hn, Node.isDir] at h
      | link target => simp [hn, Node.isDir] at h

/-- The directory above an object is one. -/
theorem isObject_dropLast {real : List String} (h : t.IsObject real) : t.IsObject real.dropLast := by
  rcases List.eq_nil_or_concat real with rfl | ⟨dir, name, rfl⟩
  · exact h
  · rw [List.concat_eq_append] at h ⊢
    rw [List.dropLast_concat]
    obtain ⟨info, hinfo⟩ := h
    refine isObject_of_isDir (t.parent_isDir dir name ?_)
    unfold infoAt at hinfo
    cases hn : t.node (dir ++ [name]) with
    | none => rw [hn] at hinfo; cases hinfo
    | some n => rfl

theorem isObject_startOf {path : String} {here : List String} (h : t.IsObject here) :
    t.IsObject (startOf path here) := by
  unfold startOf
  split
  · exact isObject_of_isDir t.root_isDir
  · exact h

theorem isObject_of_move {here next : List String} {c : String} (h : t.IsObject here)
    (hmove : t.move here c = .ok (.to next)) : t.IsObject next := by
  unfold move at hmove
  split at hmove
  · split at hmove
    · cases hmove
      exact h
    · split at hmove
      · cases hmove
      · split at hmove
        · cases hmove
          exact h
        · split at hmove
          · cases hmove
            exact isObject_dropLast h
          · split at hmove
            · cases hmove
            · cases hmove
            · rename_i n hlink hn
              cases hmove
              unfold IsObject infoAt
              rw [hn]
              cases n with
              | dir info s names => exact ⟨info, rfl⟩
              | file info content => exact ⟨info, rfl⟩
              | link target => exact absurd rfl (hlink target)
  · cases hmove
  · cases hmove

theorem isObject_of_walkWith {follow : List String → List String → Except ErrorKind (List String)}
    (hfollow : ∀ here rest real, t.IsObject here → follow here rest = .ok real → t.IsObject real) :
    ∀ {comps here real : List String}, t.IsObject here → t.walkWith follow here comps = .ok real →
      t.IsObject real
  | [], here, real, hhere, h => by
      cases h
      exact hhere
  | c :: rest, here, real, hhere, h => by
      unfold walkWith at h
      split at h
      · cases h
      · rename_i next hmove
        exact isObject_of_walkWith hfollow (isObject_of_move hhere hmove) h
      · exact hfollow _ _ _ (isObject_startOf hhere) h

theorem isObject_of_walk : ∀ {links : ℕ} {here comps real : List String}, t.IsObject here →
    t.walk links here comps = .ok real → t.IsObject real
  | 0, here, comps, real, hhere, h => by
      refine isObject_of_walkWith (fun _ _ _ _ hf => ?_) hhere h
      cases hf
  | _ + 1, here, comps, real, hhere, h =>
      isObject_of_walkWith (fun _ _ _ hf hr => isObject_of_walk hf hr) hhere h

/-- A path that resolves leads to a directory or a file. -/
theorem isObject_of_resolve {path : String} {real : List String} (h : t.resolve path = .ok real) :
    t.IsObject real := by
  unfold resolve at h
  split at h
  · cases h
  · split at h
    · cases h
    · exact isObject_of_walk (isObject_startOf (isObject_of_isDir t.cwd_isDir)) h

/-- Every spelling of a path has the metadata of what it leads to. -/
theorem metadata_of_resolve {path : String} {real : List String} (h : t.resolve path = .ok real) :
    ∃ info, t.infoAt real = some info ∧ t.metadata path = .ok info := by
  obtain ⟨info, hinfo⟩ := isObject_of_resolve h
  refine ⟨info, hinfo, ?_⟩
  unfold metadata
  rw [h]
  dsimp only
  rw [hinfo]

theorem canonicalize_of_resolve {path : String} {real : List String}
    (h : t.resolve path = .ok real) : t.canonicalize path = .ok (realText real) := by
  unfold canonicalize
  rw [h]
  rfl

/-! ### Spellings

Repeated slashes, `.` components and a slash at the end do not change where a walk ends; the last two
can only make it fail. -/

/-- A component that does not count leads nowhere else. -/
theorem move_of_not_isName {here : List String} {c : String} (hc : Path.isName c = false)
    (h : t.IsObject here) :
    t.move here c = .ok (.to here) ∨ ∃ e, e ≠ .notFound ∧ t.move here c = .error e := by
  have hc' : c = "" ∨ c = "." := by
    simp only [Path.isName, decide_eq_false_iff_not, not_and_or, not_not] at hc
    exact hc
  obtain ⟨info, hinfo⟩ := h
  unfold infoAt at hinfo
  unfold move
  cases hn : t.node here with
  | none => rw [hn] at hinfo; cases hinfo
  | some n =>
      cases n with
      | link target => rw [hn] at hinfo; cases hinfo
      | file info content => exact Or.inr ⟨.notADirectory, by decide, rfl⟩
      | dir info searchable names =>
          rcases hc' with rfl | rfl
          · exact Or.inl rfl
          · cases searchable with
            | true => exact Or.inl rfl
            | false => exact Or.inr ⟨.permissionDenied, by decide, rfl⟩

variable {follow : List String → List String → Except ErrorKind (List String)}

theorem walkWith_names
    (hfollow : ∀ here a rest real, t.IsObject here → follow here (a ++ rest) = .ok real →
      follow here (a ++ rest.filter Path.isName) = .ok real) :
    ∀ {a rest here real : List String}, t.IsObject here →
      t.walkWith follow here (a ++ rest) = .ok real →
      t.walkWith follow here (a ++ rest.filter Path.isName) = .ok real
  | [], [], _, _, _, h => h
  | c :: a, rest, here, real, hhere, h => by
      rw [List.cons_append] at h ⊢
      unfold walkWith at h ⊢
      split at h
      · cases h
      · rename_i next hmove
        exact walkWith_names hfollow (isObject_of_move hhere hmove) h
      · rw [← List.append_assoc] at h ⊢
        exact hfollow _ _ _ _ (isObject_startOf hhere) h
  | [], c :: rest, here, real, hhere, h => by
      rw [List.nil_append] at h ⊢
      unfold walkWith at h
      split at h
      · cases h
      · rename_i next hmove
        have ih := walkWith_names hfollow (a := []) (isObject_of_move hhere hmove) h
        cases hc : Path.isName c with
        | true =>
            rw [List.filter_cons_of_pos hc, walkWith, hmove]
            exact ih
        | false =>
            rw [List.filter_cons_of_neg (by simp [hc])]
            rcases move_of_not_isName hc hhere with hstay | ⟨e, _, herr⟩
            · rw [hmove, Except.ok.injEq, Move.to.injEq] at hstay
              exact hstay ▸ ih
            · rw [hmove] at herr
              cases herr
      · rename_i target hmove
        cases hc : Path.isName c with
        | true =>
            rw [List.filter_cons_of_pos hc, walkWith, hmove]
            exact hfollow _ _ _ _ (isObject_startOf hhere) h
        | false =>
            rcases move_of_not_isName hc hhere with hstay | ⟨e, _, herr⟩
            · rw [hmove, Except.ok.injEq] at hstay
              cases hstay
            · rw [hmove] at herr
              cases herr

/-- It ends there, or fails with another error than a missing name. -/
def EndsAt (result : Except ErrorKind (List String)) (real : List String) : Prop :=
  result = .ok real ∨ ∃ e, e ≠ .notFound ∧ result = .error e

theorem walkWith_of_names
    (hfollow : ∀ here a rest real, t.IsObject here →
      follow here (a ++ rest.filter Path.isName) = .ok real →
      EndsAt (follow here (a ++ rest)) real) :
    ∀ {a rest here real : List String}, t.IsObject here →
      t.walkWith follow here (a ++ rest.filter Path.isName) = .ok real →
      EndsAt (t.walkWith follow here (a ++ rest)) real
  | [], [], _, _, _, h => Or.inl h
  | c :: a, rest, here, real, hhere, h => by
      rw [List.cons_append] at h ⊢
      unfold walkWith at h ⊢
      split at h
      · cases h
      · rename_i next hmove
        exact walkWith_of_names hfollow (isObject_of_move hhere hmove) h
      · rw [← List.append_assoc] at h ⊢
        exact hfollow _ _ _ _ (isObject_startOf hhere) h
  | [], c :: rest, here, real, hhere, h => by
      rw [List.nil_append] at h ⊢
      cases hc : Path.isName c with
      | true =>
          rw [List.filter_cons_of_pos hc] at h
          unfold walkWith at h ⊢
          split at h
          · cases h
          · rename_i next hmove
            exact walkWith_of_names hfollow (a := []) (isObject_of_move hhere hmove) h
          · exact hfollow _ _ _ _ (isObject_startOf hhere) h
      | false =>
          rw [List.filter_cons_of_neg (by simp [hc])] at h
          unfold walkWith
          rcases move_of_not_isName hc hhere with hstay | ⟨e, he, herr⟩
          · rw [hstay]
            exact walkWith_of_names hfollow (a := []) hhere h
          · rw [herr]
            exact Or.inr ⟨e, he, rfl⟩

theorem walk_names : ∀ {links : ℕ} {a rest here real : List String}, t.IsObject here →
    t.walk links here (a ++ rest) = .ok real →
    t.walk links here (a ++ rest.filter Path.isName) = .ok real
  | 0, _, _, _, _, hhere, h =>
      walkWith_names (fun _ _ _ _ _ hf => absurd hf (by simp)) hhere h
  | _ + 1, _, _, _, _, hhere, h => walkWith_names (fun _ _ _ _ ho hf => walk_names ho hf) hhere h

theorem walk_of_names : ∀ {links : ℕ} {a rest here real : List String}, t.IsObject here →
    t.walk links here (a ++ rest.filter Path.isName) = .ok real →
    EndsAt (t.walk links here (a ++ rest)) real
  | 0, _, _, _, _, hhere, h =>
      walkWith_of_names (fun _ _ _ _ _ hf => absurd hf (by simp)) hhere h
  | _ + 1, _, _, _, _, hhere, h =>
      walkWith_of_names (fun _ _ _ _ ho hf => walk_of_names ho hf) hhere h

/-- Absolute paths with the same components that count lead to the same place, or the second fails
otherwise than by a missing name. -/
theorem resolve_of_names {p q : String} {real : List String} (hp : startsWith p "/" = true)
    (hq : startsWith q "/" = true) (hnames : Path.names p = Path.names q)
    (h : t.resolve p = .ok real) : EndsAt (t.resolve q) real := by
  have hroot : t.IsObject [] := isObject_of_isDir t.root_isDir
  have hwalk : t.walk maxSymlinks [] (Path.names p) = .ok real := by
    unfold resolve startOf at h
    rw [if_pos hp] at h
    split at h
    · cases h
    · split at h
      · cases h
      · exact walk_names (a := []) hroot h
  unfold resolve startOf
  rw [if_pos hq]
  split
  · rename_i hempty
    rw [hempty] at hq
    exact absurd hq (by decide)
  · split
    · exact Or.inr ⟨.invalidInput, by decide, rfl⟩
    · rw [hnames] at hwalk
      exact walk_of_names (a := []) hroot hwalk

/-- The same for reading a file. -/
theorem read_of_names {p q : String} {text : String} (hp : startsWith p "/" = true)
    (hq : startsWith q "/" = true) (hnames : Path.names p = Path.names q)
    (h : t.read p = .ok text) :
    t.read q = .ok text ∨ ∃ e, e ≠ .notFound ∧ t.read q = .error e := by
  unfold read at h
  split at h
  · cases h
  · rename_i real hreal
    unfold read
    rcases resolve_of_names hp hq hnames hreal with hq | ⟨e, he, hq⟩
    · rw [hq]
      exact Or.inl h
    · rw [hq]
      exact Or.inr ⟨e, he, rfl⟩

/-- The same for listing a directory. -/
theorem readDir_of_names {p q : String} {entries : List String} (hp : startsWith p "/" = true)
    (hq : startsWith q "/" = true) (hnames : Path.names p = Path.names q)
    (h : t.readDir p = .ok entries) :
    t.readDir q = .ok entries ∨ ∃ e, e ≠ .notFound ∧ t.readDir q = .error e := by
  unfold readDir at h
  split at h
  · cases h
  · rename_i real hreal
    unfold readDir
    rcases resolve_of_names hp hq hnames hreal with hq | ⟨e, he, hq⟩
    · rw [hq]
      exact Or.inl h
    · rw [hq]
      exact Or.inr ⟨e, he, rfl⟩

theorem names_entryPath (dir name : String) :
    Path.names (entryPath dir name) = Path.names dir ++ Path.names name := by
  unfold entryPath
  split
  · rename_i hslash
    unfold endsWith at hslash
    rw [List.isSuffixOf_iff_suffix] at hslash
    obtain ⟨before, hbefore⟩ := hslash
    have hdir : dir = String.ofList before ++ "/" ++ "" :=
      String.toList_inj.mp (by rw [← hbefore]; simp)
    rw [hdir, Path.names_join, String.append_empty, Path.names_join]
    simp [Path.names, split, Path.isName]
  · exact Path.names_join dir name

/-- A directory is not read as a file. -/
theorem read_of_isDir {path : String} (h : t.isDir path = true) (text : String) :
    t.read path ≠ .ok text := by
  unfold isDir at h
  unfold read
  cases hreal : t.resolve path with
  | error e => rw [hreal] at h; cases h
  | ok real =>
      rw [hreal] at h
      dsimp only at h ⊢
      cases hn : t.node real with
      | none => rw [hn] at h; cases h
      | some n =>
          rw [hn] at h
          cases n with
          | dir info searchable names => cases names <;> simp
          | file info content => cases h
          | link target => cases h

/-- What a less privileged process sees of a file system: the same, or a denial. -/
structure Restricts (view root : FileSystem) : Prop where
  read : ∀ p, view.read p = root.read p ∨ view.read p = .error .permissionDenied
  readDir : ∀ p, view.readDir p = root.readDir p ∨ view.readDir p = .error .permissionDenied
  isDir : ∀ p, view.isDir p = true → root.isDir p = true

theorem Restricts.refl (t : FileSystem) : Restricts t t :=
  ⟨fun _ => Or.inl rfl, fun _ => Or.inl rfl, fun _ => id⟩

end FileSystem
end Rust
