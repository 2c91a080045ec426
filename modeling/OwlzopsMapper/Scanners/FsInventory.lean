import OwlzopsMapper.Lib.Allowance
import OwlzopsMapper.Rust.FileSystem

/-! # The inventory walk

The walk of `fs_inventory.rs` sweep the directories with binaries.  All roots share the set of files
that were met; each root has a budget of its own, which is tested at every directory and at every new
file.

`items` lists what the walk of a root comes to, and the walk is a pass over it
(`follows_walkRecursive`, `pass_walkRoots`).  **Every file is delivered once, and a root delivers at
most its budget; the note on an exhausted budget and the delivery of what a root leaves to another are
right under the condition of `inventory_told_iff`.** -/

namespace OwlzopsMapper
namespace FsInventory

open Rust Lib

/-- The device and the inode. -/
abbrev Id := ℕ × ℕ

inductive FileType where
  | dir
  | file
  | other
deriving DecidableEq

/-- Which question about an entry is answered with an error. -/
inductive Fault where
  /-- The listing itself. -/
  | entry
  | fileType
  | metadata
deriving DecidableEq

structure DirEntry where
  name : String
  fileType : FileType
  id : Id
  fault : Option Fault

/-- A tree of directories with what is in them, whether they can be read or not. -/
structure Tree where
  isDir : String → Bool
  /-- The device of a root, or the kind of error. -/
  dev : String → Except String ℕ
  readable : String → Bool
  entries : String → List DirEntry

inductive Note where
  | cannotStat (dir kind : String)
  | exhausted (dir : String)
  | otherFilesystem (path : String)
  | noRoots
deriving DecidableEq

def Note.text (scannerName : String) : Note → String
  | .cannotStat dir kind =>
      scannerName ++ ": cannot stat root " ++ dir ++ " (" ++ kind ++
        ") — filesystem boundary check disabled"
  | .exhausted dir =>
      scannerName ++ ": " ++ dir ++
        " entry budget exhausted — inventory INCOMPLETE for this root"
  | .otherFilesystem path =>
      scannerName ++ ": " ++ path ++ " is on a different filesystem — not traversed"
  | .noRoots =>
      scannerName ++ ": none of the standard binary roots exist (non-FHS layout, e.g. NixOS, or a " ++
        "minimal container) — setuid/capability inventory is EMPTY BY ABSENCE OF SCAN TARGETS, " ++
        "not by absence of findings"

/-- The state of the walk; `files` is what the callback was given. -/
structure Walk where
  seen : List Id
  budget : ℕ
  files : List (String × Id)
  notes : List Note

/-- A directory of another file system than the root, as far as both devices are known. -/
def crosses (rootDev : Option ℕ) (e : DirEntry) : Bool :=
  match rootDev with
  | some dev => e.fault ≠ some .metadata && e.id.1 ≠ dev
  | none => false

section walk
variable (tree : Tree) (rootDev : Option ℕ)

/-- The body of the loop of `walk_recursive`; at the depth limit there is no `descend`. -/
def visit (descend : Option (String → Walk → Except Walk Walk)) (dir : String) (w : Walk)
    (e : DirEntry) : Except Walk Walk :=
  if e.fault = some .entry ∨ e.fault = some .fileType then .ok w
  else match e.fileType, descend with
    | .dir, some descend =>
        if crosses rootDev e then
          .ok { w with notes := w.notes ++ [.otherFilesystem (FileSystem.entryPath dir e.name)] }
        else descend (FileSystem.entryPath dir e.name) w
    | .file, _ =>
        if e.fault = some .metadata then .ok w
        else if e.id ∈ w.seen then .ok w
        -- the file is in the set of files that were met already
        else if w.budget = 0 then .error { w with seen := e.id :: w.seen }
        else .ok { w with
          seen := e.id :: w.seen
          budget := w.budget - 1
          files := w.files ++ [(FileSystem.entryPath dir e.name, e.id)] }
    | _, _ => .ok w

def readEntries (descend : Option (String → Walk → Except Walk Walk)) (dir : String) (w : Walk) :
    Except Walk Walk :=
  if w.budget = 0 then .error w
  else if !tree.readable dir then .ok w
  else (tree.entries dir).foldlM (visit rootDev descend dir) w

/-- `walk_recursive`; the error is the exhausted budget. -/
def walkRecursive : ℕ → String → Walk → Except Walk Walk
  | n + 2 => readEntries tree rootDev (some (walkRecursive (n + 1)))
  | _ => readEntries tree rootDev none

end walk

structure Root where
  dir : String
  depth : ℕ
  budget : ℕ

/-- `SCAN_DIRS`. -/
def scanDirs : List (String × ℕ) :=
  [("/usr/bin", 1), ("/usr/sbin", 1), ("/usr/local/bin", 1), ("/usr/local/sbin", 1), ("/bin", 1),
    ("/sbin", 1), ("/run/wrappers/bin", 1), ("/usr/lib", 4), ("/usr/libexec", 4),
    ("/usr/local/lib", 4), ("/usr/lib64", 4)]

def budgetFlat : ℕ := 4096

def budgetDeep : ℕ := 40000

/-- The roots of the scanner. -/
def scanRoots : List Root :=
  scanDirs.map fun (dir, depth) => ⟨dir, depth, if depth > 1 then budgetDeep else budgetFlat⟩

section roots
variable (tree : Tree)

def rootDev (root : Root) : Option ℕ := (tree.dev root.dir).toOption

/-- The state at the start of a root. -/
def enterRoot (w : Walk) (root : Root) : Walk where
  seen := w.seen
  budget := root.budget
  files := w.files
  notes := match tree.dev root.dir with
    | .ok _ => w.notes
    | .error kind => w.notes ++ [.cannotStat root.dir kind]

/-- The body of the loop of `walk_scannable_dirs`. -/
def walkRoot (w : Walk) (root : Root) : Walk :=
  if !tree.isDir root.dir then w
  else match walkRecursive tree (rootDev tree root) root.depth root.dir (enterRoot tree w root) with
    | .ok w => w
    | .error w => { w with notes := w.notes ++ [.exhausted root.dir] }

/-- `walk_scannable_dirs`. -/
def walkScannableDirs (roots : List Root) : Walk :=
  let w := roots.foldl (walkRoot tree) ⟨[], 0, [], []⟩
  if roots.any fun root => tree.isDir root.dir then w else { w with notes := w.notes ++ [.noRoots] }

end roots

/-! ### What the walk comes to -/

section items
variable (tree : Tree) (rootDev : Option ℕ)

def entryItems (below : Option (String → List (Option Id))) (dir : String) (e : DirEntry) :
    List (Option Id) :=
  if e.fault = some .entry ∨ e.fault = some .fileType then []
  else match e.fileType, below with
    | .dir, some below =>
        if crosses rootDev e then [] else below (FileSystem.entryPath dir e.name)
    | .file, _ => if e.fault = some .metadata then [] else [some e.id]
    | _, _ => []

def dirItems (below : Option (String → List (Option Id))) (dir : String) : List (Option Id) :=
  none :: if !tree.readable dir then [] else (tree.entries dir).flatMap (entryItems rootDev below dir)

/-- The directories (`none`) and files of a walk without a budget. -/
def items : ℕ → String → List (Option Id)
  | n + 2 => dirItems tree rootDev (some (items (n + 1)))
  | _ => dirItems tree rootDev none

end items

def Walk.pass (w : Walk) : Pass Id := ⟨w.seen, w.files.map Prod.snd, w.budget⟩

def passOf : Except Walk Walk → Except (Pass Id) (Pass Id)
  | .ok w => .ok w.pass
  | .error w => .error w.pass

def stateOf : Except Walk Walk → Walk
  | .ok w => w
  | .error w => w

/-- A part of the walk is a pass, and does not say that a budget is exhausted. -/
structure Follows (w : Walk) (result : Except Walk Walk) (es : List (Option Id)) : Prop where
  pass : passOf result = w.pass.run es
  notes : ∀ dir, .exhausted dir ∈ (stateOf result).notes ↔ .exhausted dir ∈ w.notes

theorem Follows.refl (w : Walk) : Follows w (.ok w) [] := ⟨rfl, fun _ => Iff.rfl⟩

theorem Follows.bind {w : Walk} {result : Except Walk Walk} {es es' : List (Option Id)}
    {next : Walk → Except Walk Walk} (h : Follows w result es)
    (hnext : ∀ w, Follows w (next w) es') : Follows w (result >>= next) (es ++ es') := by
  have hpass := h.pass
  cases result with
  | ok u =>
      refine ⟨?_, fun dir => ((hnext u).notes dir).trans (h.notes dir)⟩
      rw [Pass.run_append, ← hpass]
      exact (hnext u).pass
  | error u =>
      refine ⟨?_, h.notes⟩
      rw [Pass.run_append, ← hpass]
      rfl

/-- The walk below a directory follows its items. -/
def Below (descend : Option (String → Walk → Except Walk Walk))
    (below : Option (String → List (Option Id))) : Prop :=
  (descend = none ∧ below = none) ∨
    ∃ walk items, descend = some walk ∧ below = some items ∧
      ∀ dir w, Follows w (walk dir w) (items dir)

section follows
variable {tree : Tree} {rootDev : Option ℕ} {descend : Option (String → Walk → Except Walk Walk)}
  {below : Option (String → List (Option Id))}

theorem follows_file (dir : String) (w : Walk) (e : DirEntry) :
    Follows w (if e.id ∈ w.seen then .ok w
      else if w.budget = 0 then .error { w with seen := e.id :: w.seen }
      else .ok { w with
        seen := e.id :: w.seen
        budget := w.budget - 1
        files := w.files ++ [(FileSystem.entryPath dir e.name, e.id)] }) [some e.id] := by
  have hmeet : ∀ r : Except Walk Walk, passOf r = w.pass.meet (some e.id) →
      passOf r = w.pass.run [some e.id] := by
    intro r hr
    unfold Pass.run
    rw [← hr]
    cases r <;> rfl
  by_cases hseen : e.id ∈ w.seen
  · rw [if_pos hseen]
    refine ⟨hmeet _ ?_, fun _ => Iff.rfl⟩
    exact (if_pos hseen).symm
  · rw [if_neg hseen]
    by_cases hbudget : w.budget = 0
    · rw [if_pos hbudget]
      refine ⟨hmeet _ ?_, fun _ => Iff.rfl⟩
      exact ((if_neg hseen).trans (if_pos hbudget)).symm
    · rw [if_neg hbudget]
      refine ⟨hmeet _ ?_, fun _ => Iff.rfl⟩
      refine Eq.trans ?_ ((if_neg hseen).trans (if_neg hbudget)).symm
      simp only [passOf, Walk.pass, List.map_append]
      rfl

theorem follows_visit (h : Below descend below) (dir : String) (w : Walk) (e : DirEntry) :
    Follows w (visit rootDev descend dir w e) (entryItems rootDev below dir e) := by
  unfold visit entryItems
  by_cases hfault : e.fault = some .entry ∨ e.fault = some .fileType
  · rw [if_pos hfault, if_pos hfault]
    exact .refl w
  · rw [if_neg hfault, if_neg hfault]
    cases e.fileType with
    | other => cases descend <;> cases below <;> exact .refl w
    | file =>
        dsimp only
        by_cases hmeta : e.fault = some .metadata
        · rw [if_pos hmeta, if_pos hmeta]
          exact .refl w
        · rw [if_neg hmeta, if_neg hmeta]
          exact follows_file dir w e
    | dir =>
        rcases h with ⟨rfl, rfl⟩ | ⟨walk, items, rfl, rfl, hbelow⟩
        · exact .refl w
        · dsimp only
          by_cases hcross : crosses rootDev e = true
          · rw [if_pos hcross, if_pos hcross]
            exact ⟨rfl, fun d => by simp [stateOf]⟩
          · rw [if_neg hcross, if_neg hcross]
            exact hbelow _ w

theorem follows_foldlM (h : Below descend below) (dir : String) (es : List DirEntry) (w : Walk) :
    Follows w (es.foldlM (visit rootDev descend dir) w)
      (es.flatMap (entryItems rootDev below dir)) := by
  induction es generalizing w with
  | nil => exact .refl w
  | cons e es ih =>
      rw [List.foldlM_cons, List.flatMap_cons]
      exact (follows_visit h dir w e).bind fun u => ih u

theorem follows_readEntries (h : Below descend below) (dir : String) (w : Walk) :
    Follows w (readEntries tree rootDev descend dir w) (dirItems tree rootDev below dir) := by
  unfold readEntries dirItems
  have hgate : w.pass.meet none = if w.budget = 0 then .error w.pass else .ok w.pass := rfl
  by_cases hbudget : w.budget = 0
  · rw [if_pos hbudget]
    rw [if_pos hbudget] at hgate
    refine ⟨?_, fun _ => Iff.rfl⟩
    unfold Pass.run
    rw [hgate]
    rfl
  · rw [if_neg hbudget]
    rw [if_neg hbudget] at hgate
    have hrest : Follows w (if !tree.readable dir then .ok w
        else (tree.entries dir).foldlM (visit rootDev descend dir) w)
        (if !tree.readable dir then [] else
          (tree.entries dir).flatMap (entryItems rootDev below dir)) := by
      by_cases hread : (!tree.readable dir) = true
      · rw [if_pos hread, if_pos hread]
        exact .refl w
      · rw [if_neg hread, if_neg hread]
        exact follows_foldlM h dir _ w
    refine ⟨?_, hrest.notes⟩
    unfold Pass.run
    rw [hgate]
    exact hrest.pass

/-- **The walk of a root is a pass over its items.** -/
theorem follows_walkRecursive (depth : ℕ) (dir : String) (w : Walk) :
    Follows w (walkRecursive tree rootDev depth dir w) (items tree rootDev depth dir) := by
  induction depth using Nat.twoStepInduction generalizing dir w with
  | zero => exact follows_readEntries (.inl ⟨rfl, rfl⟩) dir w
  | one => exact follows_readEntries (.inl ⟨rfl, rfl⟩) dir w
  | more n _ ih => exact follows_readEntries (.inr ⟨_, _, rfl, rfl, ih⟩) dir w

end follows

/-! ### All roots -/

section told
variable (tree : Tree)

/-- The budget and the items of each root that is scanned. -/
def streams (roots : List Root) : List (ℕ × List (Option Id)) :=
  (roots.filter fun root => tree.isDir root.dir).map fun root =>
    (root.budget, items tree (rootDev tree root) root.depth root.dir)

/-- What the roots come to, and the state in which they do. -/
def met (roots : List Root) : List (Pass Id × Option Id) := Pass.traces .start (streams tree roots)

/-- The files that the callback was given. -/
def delivered (roots : List Root) : List Id := (walkScannableDirs tree roots).files.map Prod.snd

/-- A file below a directory, in the depth and without leaving the file system of the root.  An entry
counts when its type, and for a file its metadata, can be read. -/
inductive Holds (rootDev : Option ℕ) : ℕ → String → Id → Prop
  | file {depth : ℕ} {dir : String} {e : DirEntry} : e ∈ tree.entries dir → e.fileType = .file →
      e.fault ≠ some .fileType → e.fault ≠ some .metadata → Holds rootDev depth dir e.id
  | deeper {n : ℕ} {dir : String} {e : DirEntry} {id : Id} : e ∈ tree.entries dir →
      e.fileType = .dir → e.fault ≠ some .fileType → crosses rootDev e = false →
      Holds rootDev (n + 1) (FileSystem.entryPath dir e.name) id → Holds rootDev (n + 2) dir id

/-- A file that is reachable from a root. -/
def Reachable (roots : List Root) (id : Id) : Prop :=
  ∃ root ∈ roots, tree.isDir root.dir = true ∧
    Holds tree (rootDev tree root) root.depth root.dir id

/-- A file that a root comes to when its budget lasts. -/
def Visible (roots : List Root) (id : Id) : Prop :=
  ∃ stream ∈ streams tree roots, some id ∈ stream.2

/-- A budget is said to be exhausted exactly when a reachable file was not delivered. -/
def ToldExactly (roots : List Root) : Prop :=
  (∃ dir, .exhausted dir ∈ (walkScannableDirs tree roots).notes) ↔
    ∃ id, Reachable tree roots id ∧ id ∉ delivered tree roots

/-- A file to which a root comes with budget left is delivered, whatever other roots left out. -/
def DeliversMet (roots : List Root) : Prop :=
  ∀ s id, (s, some id) ∈ met tree roots → 0 < s.left → id ∈ delivered tree roots

variable {tree}

theorem holds_of_mem_entryItems {rootDev : Option ℕ} {depth : ℕ}
    {below : Option (String → List (Option Id))} {dir : String} {id : Id} {e : DirEntry}
    (hbelow : ∀ f, below = some f → ∃ n, depth = n + 2 ∧
      ∀ d, some id ∈ f d → Holds tree rootDev (n + 1) d id)
    (he : e ∈ tree.entries dir) (h : some id ∈ entryItems rootDev below dir e) :
    Holds tree rootDev depth dir id := by
  unfold entryItems at h
  by_cases hfault : e.fault = some .entry ∨ e.fault = some .fileType
  · rw [if_pos hfault] at h
    cases h
  · rw [if_neg hfault] at h
    have htype : e.fault ≠ some .fileType := fun ht => hfault (.inr ht)
    cases hft : e.fileType with
    | other => rw [hft] at h; cases h
    | file =>
        rw [hft] at h
        dsimp only at h
        by_cases hmeta : e.fault = some .metadata
        · rw [if_pos hmeta] at h
          cases h
        · rw [if_neg hmeta] at h
          cases List.mem_singleton.mp h
          exact .file he hft htype hmeta
    | dir =>
        rw [hft] at h
        cases below with
        | none => cases h
        | some f =>
            obtain ⟨n, rfl, hf⟩ := hbelow f rfl
            dsimp only at h
            by_cases hcross : crosses rootDev e = true
            · rw [if_pos hcross] at h
              cases h
            · rw [if_neg hcross] at h
              exact .deeper he hft htype (Bool.not_eq_true _ ▸ hcross) (hf _ h)

theorem holds_of_mem_dirItems {rootDev : Option ℕ} {depth : ℕ}
    {below : Option (String → List (Option Id))} {dir : String} {id : Id}
    (hbelow : ∀ f, below = some f → ∃ n, depth = n + 2 ∧
      ∀ d, some id ∈ f d → Holds tree rootDev (n + 1) d id)
    (h : some id ∈ dirItems tree rootDev below dir) : Holds tree rootDev depth dir id := by
  unfold dirItems at h
  rcases List.mem_cons.mp h with h | h
  · cases h
  · by_cases hread : (!tree.readable dir) = true
    · rw [if_pos hread] at h
      cases h
    · rw [if_neg hread] at h
      obtain ⟨e, he, h⟩ := List.mem_flatMap.mp h
      exact holds_of_mem_entryItems hbelow he h

theorem holds_of_mem_items {rootDev : Option ℕ} {depth : ℕ} {dir : String} {id : Id}
    (h : some id ∈ items tree rootDev depth dir) : Holds tree rootDev depth dir id := by
  induction depth using Nat.twoStepInduction generalizing dir with
  | zero => exact holds_of_mem_dirItems (fun f hf => by cases hf) h
  | one => exact holds_of_mem_dirItems (fun f hf => by cases hf) h
  | more n _ ih =>
      refine holds_of_mem_dirItems (fun f hf => ⟨n, rfl, fun d hd => ?_⟩) h
      cases hf
      exact ih hd

theorem reachable_of_visible {roots : List Root} {id : Id} (h : Visible tree roots id) :
    Reachable tree roots id := by
  obtain ⟨stream, hstream, hid⟩ := h
  obtain ⟨root, hroot, rfl⟩ := List.mem_map.mp hstream
  obtain ⟨hroot, hdir⟩ := List.mem_filter.mp hroot
  exact ⟨root, hroot, hdir, holds_of_mem_items hid⟩

theorem exhausted_enterRoot (w : Walk) (root : Root) (dir : String) :
    .exhausted dir ∈ (enterRoot tree w root).notes ↔ .exhausted dir ∈ w.notes := by
  unfold enterRoot
  cases tree.dev root.dir with
  | ok dev => exact Iff.rfl
  | error kind => simp

/-- One root: the pass over its items, and whether it says that the budget is exhausted. -/
theorem walkRoot_spec {root : Root} (hdir : tree.isDir root.dir = true) (w : Walk) :
    (walkRoot tree w root).pass = Pass.final ((w.pass.renew root.budget).run
      (items tree (rootDev tree root) root.depth root.dir)) ∧
    ((∃ dir, .exhausted dir ∈ (walkRoot tree w root).notes) ↔
      (∃ dir, .exhausted dir ∈ w.notes) ∨ ∃ t, (w.pass.renew root.budget).run
        (items tree (rootDev tree root) root.depth root.dir) = .error t) := by
  have hfollows := @follows_walkRecursive tree (rootDev tree root) root.depth root.dir
    (enterRoot tree w root)
  have hpass := hfollows.pass
  have hnotes : ∀ dir, _ ↔ .exhausted dir ∈ w.notes :=
    fun dir => (hfollows.notes dir).trans (exhausted_enterRoot w root dir)
  change _ = (w.pass.renew root.budget).run _ at hpass
  have hscan : ¬ (!tree.isDir root.dir) = true := by rw [hdir]; decide
  unfold walkRoot
  rw [if_neg hscan, ← hpass]
  cases hwalk : walkRecursive tree (rootDev tree root) root.depth root.dir (enterRoot tree w root) with
  | ok u =>
      rw [hwalk] at hnotes
      refine ⟨rfl, ?_⟩
      constructor
      · rintro ⟨dir, hmem⟩
        exact .inl ⟨dir, (hnotes dir).mp hmem⟩
      · rintro (⟨dir, hmem⟩ | ⟨t, ht⟩)
        · exact ⟨dir, (hnotes dir).mpr hmem⟩
        · cases ht
  | error u =>
      refine ⟨rfl, ?_⟩
      exact iff_of_true ⟨root.dir, List.mem_append_right _ List.mem_cons_self⟩ (.inr ⟨_, rfl⟩)

/-- The walk over all roots is the passes over their items. -/
theorem pass_walkRoots (roots : List Root) (w : Walk) :
    (roots.foldl (walkRoot tree) w).pass = Pass.sweep w.pass (streams tree roots) ∧
    ((∃ dir, .exhausted dir ∈ (roots.foldl (walkRoot tree) w).notes) ↔
      (∃ dir, .exhausted dir ∈ w.notes) ∨ Pass.stops w.pass (streams tree roots) ≠ []) := by
  induction roots generalizing w with
  | nil => exact ⟨rfl, (or_iff_left fun h => h rfl).symm⟩
  | cons root roots ih =>
      obtain ⟨ihpass, ihnotes⟩ := ih (walkRoot tree w root)
      by_cases hdir : tree.isDir root.dir = true
      · obtain ⟨hpass, hnotes⟩ := walkRoot_spec hdir w
        have hstreams : streams tree (root :: roots) =
            (root.budget, items tree (rootDev tree root) root.depth root.dir) ::
              streams tree roots := by
          unfold streams
          rw [List.filter_cons, if_pos hdir, List.map_cons]
        rw [List.foldl_cons, hstreams, ihpass, ihnotes, hpass, hnotes]
        refine ⟨rfl, ?_⟩
        rw [Pass.stops, or_assoc]
        refine or_congr_right ?_
        cases (w.pass.renew root.budget).run
            (items tree (rootDev tree root) root.depth root.dir) with
        | ok t => exact or_iff_right fun ⟨_, h⟩ => by cases h
        | error t => exact iff_of_true (.inl ⟨t, rfl⟩) (List.cons_ne_nil _ _)
      · have hskip : walkRoot tree w root = w := by
          unfold walkRoot
          rw [if_pos (by simpa using hdir)]
        have hstreams : streams tree (root :: roots) = streams tree roots := by
          unfold streams
          rw [List.filter_cons, if_neg hdir]
        rw [hskip] at ihpass ihnotes
        rw [List.foldl_cons, hskip, hstreams]
        exact ⟨ihpass, ihnotes⟩

/-- What all roots deliver. -/
theorem delivered_eq (roots : List Root) :
    delivered tree roots = (Pass.sweep .start (streams tree roots)).taken := by
  have hpass : (roots.foldl (walkRoot tree) ⟨[], 0, [], []⟩).pass =
      Pass.sweep .start (streams tree roots) := (pass_walkRoots roots _).1
  rw [← hpass]
  unfold delivered walkScannableDirs
  dsimp only
  split <;> rfl

theorem exhausted_iff (roots : List Root) :
    (∃ dir, .exhausted dir ∈ (walkScannableDirs tree roots).notes) ↔
      Pass.stops .start (streams tree roots) ≠ [] := by
  have hnotes := (@pass_walkRoots tree roots ⟨[], 0, [], []⟩).2
  have hnone : ¬ ∃ dir, Note.exhausted dir ∈ ([] : List Note) := fun ⟨_, h⟩ => by cases h
  rw [or_iff_right hnone] at hnotes
  refine Iff.trans ?_ hnotes
  unfold walkScannableDirs
  dsimp only
  split
  · exact Iff.rfl
  · simp

/-- A root delivers at most its budget. -/
theorem walkRoot_budget (w : Walk) (root : Root) : ∃ new,
    (walkRoot tree w root).files.map Prod.snd = w.files.map Prod.snd ++ new ∧
      new.length ≤ root.budget := by
  by_cases hdir : tree.isDir root.dir = true
  · obtain ⟨new, hnew, hlen, _⟩ := (Pass.grows_run (w.pass.renew root.budget)
      (items tree (rootDev tree root) root.depth root.dir)).taken
    rw [← (walkRoot_spec hdir w).1] at hnew
    refine ⟨new, hnew, ?_⟩
    have hall : (w.pass.renew root.budget).left = root.budget := rfl
    omega
  · refine ⟨[], ?_, Nat.zero_le _⟩
    unfold walkRoot
    rw [if_pos (by simpa using hdir), List.append_nil]

end told

/-! ### Two trees -/

/-- A directory that cannot be read. -/
def closedTree : Tree where
  isDir p := p == "/a"
  dev _ := .ok 1
  readable _ := false
  entries p := if p = "/a" then [⟨"f", .file, (1, 2), none⟩] else []

/-- Two directories that hold links to one file. -/
def linkedTree : Tree where
  isDir _ := true
  dev _ := .ok 1
  readable _ := true
  entries p :=
    if p = "/a" then [⟨"f", .file, (1, 2), none⟩, ⟨"g", .file, (1, 3), none⟩]
    else [⟨"g", .file, (1, 3), none⟩]

end FsInventory
end OwlzopsMapper
