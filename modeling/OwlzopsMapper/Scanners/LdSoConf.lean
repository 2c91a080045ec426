import OwlzopsMapper.Utils
import OwlzopsMapper.SafeIo
import OwlzopsMapper.Lib.Sorting
import OwlzopsMapper.Scanners.Integrity

/-! # The library search path

`ld_so_conf.rs`: the walk over `/etc/ld.so.conf` and what it includes, as a stack of files still to be
read and a set of files seen.  The walk ends because a turn either drops an entry of the stack or sees
one more of at most 256 files (`scanLoop`).

Nothing pushed gets lost on the way: **at the end either the fan-out cap has been noted or every file
seen is accounted for, with all it includes** (`settled_scan`). -/

namespace OwlzopsMapper
namespace LdSoConf

open Rust Integrity

def maxConfBytes : ℕ := 64 * 1024
def maxConfFiles : ℕ := 256
def maxQueueLen : ℕ := maxConfFiles * 4

/-! ### Configuration lines -/

/-- A line without its comment. -/
def beforeComment (raw : String) : String :=
  match splitOnce '#' raw with
  | some (head, _) => head
  | none => raw

/-- The pattern of an include line. -/
def includePattern (raw : String) : Option String :=
  match stripPrefix (trim (beforeComment raw)) "include" with
  | none => none
  | some rest =>
      if startsWith rest " " || startsWith rest "\t" then
        if trim rest = "" then none else some (trim rest)
      else none

/-- The directory of a directory line. -/
def directoryLine (raw : String) : Option String :=
  let line := trim (beforeComment raw)
  if startsWith line "/" then some line else none

/-- `parse_ld_so_conf`: directories and include patterns. -/
def parseLdSoConf (content : String) : List String × List String :=
  ((lines content).filterMap directoryLine, (lines content).filterMap includePattern)

def globMatches (pattern name : String) : Bool :=
  match splitOnce '*' pattern with
  | none => pattern == name
  | some (pre, suf) =>
      decide (pre.utf8ByteSize + suf.utf8ByteSize ≤ name.utf8ByteSize) && startsWith name pre &&
        endsWith name suf

/-! ### Coverage notes -/

inductive Note where
  | queueCap
  | globCap
  | includeUnreadable (pattern : String) (e : ErrorKind)
  | fanOutCap
  | truncated (path : String)
  | unreadable (path : String) (e : ErrorKind)
deriving DecidableEq, Repr

def Note.text : Note → String
  | .queueCap => "ld.so.conf: include queue cap reached; SEC-051 partial"
  | .globCap => "ld.so.conf: include queue cap reached during glob; SEC-051 partial"
  | .includeUnreadable pattern e =>
      "ld.so.conf include " ++ pattern ++ " unreadable (" ++ e.text ++ "); SEC-051 partial"
  | .fanOutCap => "ld.so.conf: include fan-out cap reached; SEC-051 partial"
  | .truncated path => path ++ " exceeded cap — SEC-051 scan truncated"
  | .unreadable path e => path ++ " unreadable (" ++ e.text ++ "); SEC-051 NOT verified"

/-! ### The walk -/

/-- The loop over the entries of a directory: the stack afterwards, and a note when it was full. -/
def pushEntries (dir fileName : String) : List String → List String → List String × List Note
  | [], queue => (queue, [])
  | name :: names, queue =>
      if maxQueueLen ≤ queue.length then (queue, [.globCap])
      else if globMatches fileName name then
        pushEntries dir fileName names (FileSystem.entryPath dir name :: queue)
      else pushEntries dir fileName names queue

/-- The part of `expand_include` for a star in the last component. -/
def expandGlob (t : FileSystem) (pattern dir fileName : String) (queue : List String) :
    List String × List Note :=
  match t.readDir dir with
  | .ok names => pushEntries dir fileName names queue
  | .error e => (queue, [.includeUnreadable pattern e])

def dirIncludePattern (p : String) : String := p ++ "/" ++ "*"

/-- The call `expand_include` makes for a directory: its last component is a star
(`fileName_dirIncludePattern`). -/
def expandDirectory (t : FileSystem) (pattern : String) (queue : List String) :
    List String × List Note :=
  match Path.parent pattern with
  | some dir => expandGlob t pattern dir "*" queue
  | none => (queue, [])

def expandInclude (t : FileSystem) (pattern : String) (queue : List String) :
    List String × List Note :=
  if maxQueueLen ≤ queue.length then (queue, [.queueCap])
  else match Path.parent pattern, Path.fileName pattern with
    | some dir, some fileName =>
        if '*' ∈ fileName.toList then expandGlob t pattern dir fileName queue
        else if t.isDir pattern then expandDirectory t (dirIncludePattern pattern) queue
        else (pattern :: queue, [])
    | _, _ => (queue, [])

theorem fileName_dirIncludePattern (p : String) :
    Path.fileName (dirIncludePattern p) = some "*" :=
  Path.fileName_join p (by decide) (by decide) (by decide)

/-- What `PathBuf` compares: whether a path is absolute, and its components. -/
abbrev PathKey := Bool × List String

def pathKey (p : String) : PathKey :=
  (startsWith p "/",
    if !startsWith p "/" && (split '/' p).head? == some "." then "." :: Path.names p
    else Path.names p)

structure State where
  /-- The stack, its top first. -/
  queue : List String
  seen : List PathKey := []
  dirs : List String := []
  notes : List Note := []
deriving DecidableEq

/-- One include of a file. -/
def State.expand (t : FileSystem) (s : State) (pattern : String) : State :=
  { s with
    queue := (expandInclude t pattern s.queue).1
    notes := s.notes ++ (expandInclude t pattern s.queue).2 }

/-- The directories of a file, and whether it was cut off. -/
def State.addDirs (s : State) (path content : String) (truncated : Bool) : State :=
  { s with
    dirs := s.dirs ++ (parseLdSoConf content).1.map (trimEndMatches '/')
    notes := s.notes ++ if truncated then [.truncated path] else [] }

/-- The body of the loop for a file that was not seen before. -/
def State.visit (t : FileSystem) (s : State) (path : String) : State :=
  match t.read path with
  | .ok text =>
      let (content, truncated) := SafeIo.readFileCapped text maxConfBytes
      (parseLdSoConf content).2.foldl (State.expand t) (s.addDirs path content truncated)
  | .error .notFound => s
  | .error e => { s with notes := s.notes ++ [.unreadable path e] }

/-- The file on top of the stack is taken off and counts as seen. -/
def State.take (s : State) (path : String) (rest : List String) : State :=
  { s with queue := rest, seen := pathKey path :: s.seen }

theorem seen_foldl_expand (t : FileSystem) : ∀ (patterns : List String) (s : State),
    (patterns.foldl (State.expand t) s).seen = s.seen
  | [], _ => rfl
  | _ :: patterns, s => seen_foldl_expand t patterns (s.expand t _)

theorem seen_visit (t : FileSystem) (s : State) (path : String) :
    (s.visit t path).seen = s.seen := by
  unfold State.visit
  split
  · exact seen_foldl_expand t _ _
  · rfl
  · rfl

/-- The `while` loop of `scan_ld_so_conf`. -/
def scanLoop (t : FileSystem) (s : State) : State :=
  match _ : s.queue with
  | [] => s
  | path :: rest =>
      if _ : maxConfFiles ≤ s.seen.length then
        { s with queue := rest, notes := s.notes ++ [.fanOutCap] }
      else if pathKey path ∈ s.seen then scanLoop t { s with queue := rest }
      else scanLoop t ((s.take path rest).visit t path)
termination_by (maxConfFiles - s.seen.length, s.queue.length)
decreasing_by
  · rw [‹s.queue = path :: rest›]
    exact Prod.Lex.right _ (Nat.lt_succ_self _)
  · rw [seen_visit]
    refine Prod.Lex.left _ _ ?_
    show maxConfFiles - (s.seen.length + 1) < maxConfFiles - s.seen.length
    omega

theorem scanLoop_nil {t : FileSystem} {s : State} (h : s.queue = []) : scanLoop t s = s := by
  rw [scanLoop]
  split
  · rfl
  · rename_i heq
    rw [h] at heq
    cases heq

/-- A turn for a file that was not seen before. -/
theorem scanLoop_fresh {t : FileSystem} {s : State} {path : String} {rest : List String}
    (h : s.queue = path :: rest) (hcap : s.seen.length < maxConfFiles)
    (hfresh : pathKey path ∉ s.seen) :
    scanLoop t s = scanLoop t ((s.take path rest).visit t path) := by
  rw [scanLoop]
  split
  · rename_i heq
    rw [h] at heq
    cases heq
  · rename_i path' rest' heq
    obtain ⟨rfl, rfl⟩ := List.cons.inj (h.symm.trans heq)
    rw [dif_neg (Nat.not_le.mpr hcap), if_neg hfresh]

/-- The state before the loop: the default fragments below, `/etc/ld.so.conf` on top. -/
def State.start (t : FileSystem) : State :=
  let fragments := expandInclude t "/etc/ld.so.conf.d/*.conf" []
  { queue := "/etc/ld.so.conf" :: fragments.1, notes := fragments.2 }

/-- The state after the loop. -/
def scan (t : FileSystem) : State := scanLoop t (State.start t)

/-! ### Classification -/

def shouldReport (volatile writableByNonRoot : Bool) : Bool := volatile || writableByNonRoot

def isVolatileMount (path : String) : Bool := isVolatileExecPath path

def classifyMissing (volatile : Bool) (pmode puid pgid : UInt32) : Option Bool :=
  if shouldReport volatile (unsafeMode pmode puid pgid) then some (unsafeMode pmode puid pgid)
  else none

def classifyDir (t : FileSystem) (raw : String) : Option LdSoConfInjection :=
  match t.metadata raw with
  | .error .notFound => do
      let parent ← Path.parent raw
      let pmd ← (t.metadata parent).toOption
      let volatile := isVolatileMount parent
      let _ ← classifyMissing volatile pmd.mode pmd.uid pmd.gid
      some { path := raw, volatile := volatile, mode := none, uid := pmd.uid }
  | .error _ => none
  | .ok md =>
      if !t.isDir raw then none
      else if shouldReport (isVolatileMount raw) (isUnsafe md) then
        some { path := raw, volatile := isVolatileMount raw, mode := some md.mode, uid := md.uid }
      else none

/-- `scan_ld_so_conf`: every directory of the set is classified. -/
def scanLdSoConf (t : FileSystem) : List LdSoConfInjection :=
  Lib.sortBy (fun a b : LdSoConfInjection => compare a.path b.path)
    ((scan t).dirs.dedup.filterMap (classifyDir t))

/-! ### What is pushed is read -/

/-- On the stack, or seen. -/
def Pending (s : State) (p : String) : Prop := p ∈ s.queue ∨ pathKey p ∈ s.seen

/-- A cap was noted. -/
def Capped (s : State) : Prop :=
  .queueCap ∈ s.notes ∨ .globCap ∈ s.notes ∨ .fanOutCap ∈ s.notes

/-- An include pattern is accounted for. -/
def Expanded (t : FileSystem) (s : State) (pattern : String) : Prop :=
  Capped s ∨ ∀ dir fileName, Path.parent pattern = some dir → Path.fileName pattern = some fileName →
    if '*' ∈ fileName.toList then
      match t.readDir dir with
      | .ok names => ∀ name ∈ names, globMatches fileName name = true →
          Pending s (FileSystem.entryPath dir name)
      | .error e => .includeUnreadable pattern e ∈ s.notes
    else t.isDir pattern = true ∨ Pending s pattern

/-- A file is accounted for. -/
def Visited (t : FileSystem) (s : State) (path : String) : Prop :=
  match t.read path with
  | .ok text =>
      let (content, truncated) := SafeIo.readFileCapped text maxConfBytes
      (truncated = true → .truncated path ∈ s.notes) ∧
        (∀ d ∈ (parseLdSoConf content).1, trimEndMatches '/' d ∈ s.dirs) ∧
        ∀ pattern ∈ (parseLdSoConf content).2, Expanded t s pattern
  | .error .notFound => True
  | .error e => .unreadable path e ∈ s.notes

/-- Every file seen is accounted for. -/
def Settled (t : FileSystem) (s : State) : Prop :=
  ∀ k ∈ s.seen, ∃ path, pathKey path = k ∧ Visited t s path

/-- A later state: nothing is taken back, unless a cap was noted. -/
structure Extends (s s' : State) : Prop where
  pending : ∀ p, Pending s p → Pending s' p ∨ Capped s'
  dirs : ∀ d ∈ s.dirs, d ∈ s'.dirs
  notes : ∀ n ∈ s.notes, n ∈ s'.notes

variable {t : FileSystem} {s s' s'' : State}

theorem Capped.mono (h : ∀ n ∈ s.notes, n ∈ s'.notes) (hc : Capped s) : Capped s' :=
  hc.imp (h _) (Or.imp (h _) (h _))

theorem Extends.refl (s : State) : Extends s s := ⟨fun _ => Or.inl, fun _ => id, fun _ => id⟩

theorem Extends.trans (h : Extends s s') (h' : Extends s' s'') : Extends s s'' where
  pending p hp := by
    rcases h.pending p hp with hp | hc
    · exact h'.pending p hp
    · exact Or.inr (hc.mono h'.notes)
  dirs d hd := h'.dirs d (h.dirs d hd)
  notes n hn := h'.notes n (h.notes n hn)

theorem Expanded.mono (h : Extends s s') {pattern : String} (he : Expanded t s pattern) :
    Expanded t s' pattern := by
  by_cases hcap : Capped s'
  · exact Or.inl hcap
  have hpending : ∀ p, Pending s p → Pending s' p := fun p hp => (h.pending p hp).resolve_right hcap
  rcases he with hc | he
  · exact Or.inl (hc.mono h.notes)
  · refine Or.inr fun dir fileName hdir hname => ?_
    have he := he dir fileName hdir hname
    split
    · rename_i hstar
      rw [if_pos hstar] at he
      split
      · rename_i names hnames
        rw [hnames] at he
        exact fun name hmem hmatch => hpending _ (he name hmem hmatch)
      · rename_i e herr
        rw [herr] at he
        exact h.notes _ he
    · rename_i hstar
      rw [if_neg hstar] at he
      exact he.imp id (hpending _)

theorem Visited.mono (h : Extends s s') {path : String} (hv : Visited t s path) :
    Visited t s' path := by
  unfold Visited at *
  split
  · rename_i text htext
    rw [htext] at hv
    obtain ⟨htrunc, hdirs, hincludes⟩ := hv
    exact ⟨fun ht => h.notes _ (htrunc ht), fun d hd => h.dirs _ (hdirs d hd),
      fun pattern hp => (hincludes pattern hp).mono h⟩
  · trivial
  · rename_i e hne herr
    rw [herr] at hv
    exact h.notes _ (by simpa using hv)

/-- A file within the cap was taken whole. -/
theorem Visited.whole {path text : String} (hv : Visited t s path) (hread : t.read path = .ok text)
    (hle : text.utf8ByteSize ≤ maxConfBytes) :
    (∀ d ∈ (parseLdSoConf text).1, trimEndMatches '/' d ∈ s.dirs) ∧
      ∀ pattern ∈ (parseLdSoConf text).2, Expanded t s pattern := by
  unfold Visited at hv
  rw [hread] at hv
  dsimp only at hv
  rw [SafeIo.readFileCapped_of_le hle] at hv
  exact hv.2

/-- A longer one was noted. -/
theorem Visited.truncated {path text : String} (hv : Visited t s path)
    (hread : t.read path = .ok text) (hlt : ¬text.utf8ByteSize ≤ maxConfBytes) :
    .truncated path ∈ s.notes := by
  unfold Visited SafeIo.readFileCapped at hv
  rw [hread] at hv
  dsimp only at hv
  rw [if_neg hlt] at hv
  exact hv.1 rfl

/-- So was one that could not be read. -/
theorem Visited.unreadable {path : String} {e : ErrorKind} (hv : Visited t s path)
    (hread : t.read path = .error e) (hne : e ≠ .notFound) : .unreadable path e ∈ s.notes := by
  unfold Visited at hv
  rw [hread] at hv
  cases e with
  | notFound => exact absurd rfl hne
  | _ => exact hv

/-! ### Includes -/

theorem subset_pushEntries {dir fileName : String} : ∀ (names queue : List String),
    ∀ p ∈ queue, p ∈ (pushEntries dir fileName names queue).1
  | [], _, _, hp => hp
  | name :: names, queue, p, hp => by
      unfold pushEntries
      split
      · exact hp
      · split
        · exact subset_pushEntries names _ p (List.mem_cons_of_mem _ hp)
        · exact subset_pushEntries names _ p hp

/-- Every matching entry is pushed, or the cap is noted. -/
theorem mem_pushEntries {dir fileName : String} : ∀ (names queue : List String),
    .globCap ∈ (pushEntries dir fileName names queue).2 ∨
      ∀ name ∈ names, globMatches fileName name = true →
        FileSystem.entryPath dir name ∈ (pushEntries dir fileName names queue).1
  | [], _ => Or.inr fun _ h => absurd h List.not_mem_nil
  | name :: names, queue => by
      unfold pushEntries
      split
      · exact Or.inl List.mem_cons_self
      · split
        · refine (mem_pushEntries names _).imp id fun ih other hother hmatch => ?_
          rcases List.mem_cons.mp hother with rfl | hother
          · exact subset_pushEntries names _ _ List.mem_cons_self
          · exact ih other hother hmatch
        · rename_i hno
          refine (mem_pushEntries names _).imp id fun ih other hother hmatch => ?_
          rcases List.mem_cons.mp hother with rfl | hother
          · exact absurd hmatch hno
          · exact ih other hother hmatch

theorem subset_expandGlob {pattern dir fileName : String} (queue : List String) :
    ∀ p ∈ queue, p ∈ (expandGlob t pattern dir fileName queue).1 := by
  intro p hp
  unfold expandGlob
  split
  · exact subset_pushEntries _ _ p hp
  · exact hp

theorem subset_expandInclude {pattern : String} (queue : List String) :
    ∀ p ∈ queue, p ∈ (expandInclude t pattern queue).1 := by
  intro p hp
  unfold expandInclude
  split
  · exact hp
  · split
    · split
      · exact subset_expandGlob queue p hp
      · split
        · unfold expandDirectory
          split
          · exact subset_expandGlob queue p hp
          · exact hp
        · exact List.mem_cons_of_mem _ hp
    · exact hp

theorem extends_expand (pattern : String) : Extends s (s.expand t pattern) where
  pending p hp := Or.inl (hp.imp (subset_expandInclude s.queue p) id)
  dirs _ hd := hd
  notes _ hn := List.mem_append_left _ hn

/-- After its include a pattern is accounted for. -/
theorem expanded_expand (pattern : String) : Expanded t (s.expand t pattern) pattern := by
  have hnotes : ∀ n ∈ (expandInclude t pattern s.queue).2, n ∈ (s.expand t pattern).notes :=
    fun n hn => List.mem_append_right _ hn
  have hqueue : ∀ p ∈ (expandInclude t pattern s.queue).1, Pending (s.expand t pattern) p :=
    fun p hp => Or.inl hp
  by_cases hfull : maxQueueLen ≤ s.queue.length
  · refine Or.inl (Or.inl (hnotes _ ?_))
    unfold expandInclude
    rw [if_pos hfull]
    exact List.mem_cons_self
  by_cases hcap : .globCap ∈ (expandInclude t pattern s.queue).2
  · exact Or.inl (Or.inr (Or.inl (hnotes _ hcap)))
  refine Or.inr fun dir fileName hdir hname => ?_
  unfold expandInclude at hnotes hqueue hcap
  rw [if_neg hfull, hdir, hname] at hnotes hqueue hcap
  dsimp only at hnotes hqueue hcap
  by_cases hstar : '*' ∈ fileName.toList
  · rw [if_pos hstar] at hnotes hqueue hcap ⊢
    unfold expandGlob at hnotes hqueue hcap
    split
    · rename_i names hnames
      rw [hnames] at hqueue hcap
      exact fun name hmem hmatch =>
        hqueue _ ((mem_pushEntries names s.queue).resolve_left hcap name hmem hmatch)
    · rename_i e herr
      rw [herr] at hnotes
      exact hnotes _ List.mem_cons_self
  · rw [if_neg hstar] at hqueue ⊢
    by_cases hisDir : t.isDir pattern = true
    · exact Or.inl hisDir
    · rw [if_neg hisDir] at hqueue
      exact Or.inr (hqueue _ List.mem_cons_self)

theorem extends_foldl_expand : ∀ (patterns : List String) (s : State),
    Extends s (patterns.foldl (State.expand t) s)
  | [], s => Extends.refl s
  | pattern :: patterns, s =>
      (extends_expand pattern).trans (extends_foldl_expand patterns (s.expand t pattern))

theorem expanded_foldl_expand : ∀ (patterns : List String) (s : State),
    ∀ pattern ∈ patterns, Expanded t (patterns.foldl (State.expand t) s) pattern
  | [], _, _, h => absurd h List.not_mem_nil
  | pattern :: patterns, s, other, h => by
      rcases List.mem_cons.mp h with rfl | h
      · exact (expanded_expand other).mono (extends_foldl_expand patterns (s.expand t other))
      · exact expanded_foldl_expand patterns (s.expand t pattern) other h

/-! ### Turns of the loop -/

theorem extends_addDirs (path content : String) (truncated : Bool) :
    Extends s (s.addDirs path content truncated) where
  pending _ hp := Or.inl hp
  dirs _ hd := List.mem_append_left _ hd
  notes _ hn := List.mem_append_left _ hn

theorem extends_visit (path : String) : Extends s (s.visit t path) := by
  unfold State.visit
  split
  · exact (extends_addDirs _ _ _).trans (extends_foldl_expand _ _)
  · exact Extends.refl s
  · exact ⟨fun _ => Or.inl, fun _ => id, fun _ hn => List.mem_append_left _ hn⟩

/-- After its turn a file is accounted for. -/
theorem visited_visit (path : String) : Visited t (s.visit t path) path := by
  unfold Visited State.visit
  split
  · rename_i text htext
    dsimp only
    refine ⟨fun htrunc => ?_, fun d hd => ?_, expanded_foldl_expand _ _⟩
    · refine (extends_foldl_expand _ _).notes _ (List.mem_append_right _ ?_)
      rw [if_pos htrunc]
      exact List.mem_cons_self
    · refine (extends_foldl_expand _ _).dirs _ (List.mem_append_right _ ?_)
      exact List.mem_map_of_mem hd
  · trivial
  · rename_i e hne _
    cases e with
    | notFound => exact absurd rfl (hne ·)
    | _ => exact List.mem_append_right _ List.mem_cons_self

theorem extends_take {path : String} {rest : List String} (h : s.queue = path :: rest) :
    Extends s (s.take path rest) where
  pending p hp := by
    rcases hp with hp | hp
    · rw [h] at hp
      rcases List.mem_cons.mp hp with rfl | hp
      · exact Or.inl (Or.inr List.mem_cons_self)
      · exact Or.inl (Or.inl hp)
    · exact Or.inl (Or.inr (List.mem_cons_of_mem _ hp))
  dirs _ hd := hd
  notes _ hn := hn

theorem extends_skip {path : String} {rest : List String} (h : s.queue = path :: rest)
    (hseen : pathKey path ∈ s.seen) : Extends s { s with queue := rest } where
  pending p hp := by
    rcases hp with hp | hp
    · rw [h] at hp
      rcases List.mem_cons.mp hp with rfl | hp
      · exact Or.inl (Or.inr hseen)
      · exact Or.inl (Or.inl hp)
    · exact Or.inl (Or.inr hp)
  dirs _ hd := hd
  notes _ hn := hn

theorem Settled.extend (h : Settled t s) (he : Extends s s') (hseen : s'.seen = s.seen) :
    Settled t s' := by
  intro k hk
  obtain ⟨path, hkey, hv⟩ := h k (hseen ▸ hk)
  exact ⟨path, hkey, hv.mono he⟩

theorem settled_visit (h : Settled t s) {path : String} {rest : List String}
    (hq : s.queue = path :: rest) : Settled t ((s.take path rest).visit t path) := by
  intro k hk
  rw [seen_visit] at hk
  rcases List.mem_cons.mp hk with rfl | hk
  · exact ⟨path, rfl, visited_visit path⟩
  · obtain ⟨path', hkey, hv⟩ := h k hk
    exact ⟨path', hkey, hv.mono ((extends_take hq).trans (extends_visit path))⟩

/-- The loop keeps everything accounted for, and ends with an empty stack or the fan-out note. -/
theorem settled_scanLoop (t : FileSystem) (s : State) (h : Settled t s) :
    Settled t (scanLoop t s) ∧ Extends s (scanLoop t s) ∧
      ((scanLoop t s).queue = [] ∨ Capped (scanLoop t s)) := by
  fun_induction scanLoop t s with
  | case1 s hq => exact ⟨h, Extends.refl s, Or.inl hq⟩
  | case2 s path rest hq hcap =>
      have hcapped : Capped { s with queue := rest, notes := s.notes ++ [.fanOutCap] } :=
        Or.inr (Or.inr (List.mem_append_right _ List.mem_cons_self))
      have hext : Extends s { s with queue := rest, notes := s.notes ++ [.fanOutCap] } :=
        ⟨fun _ _ => Or.inr hcapped, fun _ => id, fun _ hn => List.mem_append_left _ hn⟩
      exact ⟨h.extend hext rfl, hext, Or.inr hcapped⟩
  | case3 s path rest hq hcap hseen ih =>
      have hext := extends_skip hq hseen
      obtain ⟨hsettled, hext', hend⟩ := ih (h.extend hext rfl)
      exact ⟨hsettled, hext.trans hext', hend⟩
  | case4 s path rest hq hcap hseen ih =>
      obtain ⟨hsettled, hext, hend⟩ := ih (settled_visit h hq)
      exact ⟨hsettled, ((extends_take hq).trans (extends_visit path)).trans hext, hend⟩

/-- What a scan leaves: a cap was noted, or everything seen is accounted for, nothing is left on the
stack, and the main file was seen. -/
theorem settled_scan (t : FileSystem) :
    Capped (scan t) ∨ (Settled t (scan t) ∧ (scan t).queue = [] ∧
      pathKey "/etc/ld.so.conf" ∈ (scan t).seen) := by
  have hstart : Settled t (State.start t) := fun k hk => absurd hk List.not_mem_nil
  obtain ⟨hsettled, hext, hend⟩ := settled_scanLoop t (State.start t) hstart
  by_cases hcap : Capped (scan t)
  · exact Or.inl hcap
  · have hempty := hend.resolve_right hcap
    have hmain := (hext.pending "/etc/ld.so.conf" (Or.inl List.mem_cons_self)).resolve_right hcap
    refine Or.inr ⟨hsettled, hempty, hmain.resolve_left ?_⟩
    rw [hempty]
    exact List.not_mem_nil

end LdSoConf
end OwlzopsMapper
