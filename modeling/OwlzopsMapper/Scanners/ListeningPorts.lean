import OwlzopsMapper.Lib.OrderedMap
import OwlzopsMapper.Lib.Sorting
import OwlzopsMapper.Models
import OwlzopsMapper.Scanners.ReverseShell
import Mathlib.Order.Defs.LinearOrder

/-! # Listening ports

The attribution of sockets to processes in `proc_net.rs`, and the list of listening ports that
`network.rs` makes of them.  The walk takes the processes by ascending number and looks at the first
descriptors of each; a socket belongs to the first process that has it.

The list of ports has one entry for each protocol, port and bind address, the one of the socket with the
lowest inode.  **Every socket is attributed to the lowest process that has it, and no executable is
hidden behind another under the condition of `listeners_shown_iff`.** -/

namespace OwlzopsMapper
namespace ListeningPorts

open Rust Lib ProcNet ReverseShell

/-! ### Attribution -/

structure ProcAttr where
  pid : Option UInt32 := none
  exePath : Option String := none
  comm : Option String := none

/-- An entry of a directory of descriptors. -/
inductive FdEntry where
  /-- The listing gives an error. -/
  | broken
  /-- The target of the link, where it can be read as text. -/
  | link (target : Option String)

inductive FdRead where
  | vanished
  | refused
  | listed (entries : List FdEntry)

/-- `/proc`, as the walk reads it. -/
structure ProcTable where
  /-- The names in `/proc`, `none` for an entry that is not handed out as text. -/
  listing : Option (List (Option String))
  fds : UInt32 → FdRead
  exe : UInt32 → Option String
  comm : UInt32 → Option (String × Bool)

inductive Note where
  | tooManyFds (pid : UInt32)
  | commTruncated (pid : UInt32)
  | incomplete (attributed wanted denied : ℕ)
deriving DecidableEq

def maxFdPerPid : ℕ := 4096

def Note.text (asRoot : Bool) : Note → String
  | .tooManyFds pid => "/proc/" ++ toString pid.toNat ++ "/fd exceeded " ++ toString maxFdPerPid ++
      " entries – socket attribution for this pid is partial"
  | .commTruncated pid => "/proc/" ++ toString pid.toNat ++ "/comm truncated"
  | .incomplete attributed wanted denied => "port attribution incomplete: " ++ toString attributed ++
      "/" ++ toString wanted ++ " sockets attributed, " ++ toString denied ++
      " /proc/<pid>/fd unreadable" ++ if asRoot then "" else " — run as root for full attribution"

structure Attribution where
  attributed : List (UInt64 × ProcAttr)
  denied : ℕ
  notes : List Note

section walk
variable (t : ProcTable) (wanted : OrderedMap UInt64 SocketMeta)

/-- What is inserted for a socket of a process. -/
def attrOf (pid : UInt32) : ProcAttr where
  pid := some pid
  exePath := t.exe pid
  comm := (t.comm pid).map fun read => trim read.1

/-- The note on the name of a process, which is read once. -/
def commNotes (pid : UInt32) (matched : Bool) : List Note :=
  match matched, t.comm pid with
  | false, some (_, true) => [.commTruncated pid]
  | _, _ => []

/-- The loop over the descriptors of a process; `matched` says that its name was read. -/
def fdLoop (pid : UInt32) : ℕ → Bool → List FdEntry → Attribution → Attribution
  | _, _, [], st => st
  | fdSeen, matched, .broken :: es, st => fdLoop pid fdSeen matched es st
  | fdSeen, matched, .link target :: es, st =>
      if maxFdPerPid < fdSeen + 1 then { st with notes := st.notes ++ [.tooManyFds pid] }
      else match target.bind socketInode with
        | none => fdLoop pid (fdSeen + 1) matched es st
        | some inode =>
            if inode ∉ wanted.keys ∨ inode ∈ st.attributed.map Prod.fst then
              fdLoop pid (fdSeen + 1) matched es st
            else fdLoop pid (fdSeen + 1) true es
              { attributed := (inode, attrOf t pid) :: st.attributed
                denied := st.denied
                notes := st.notes ++ commNotes t pid matched }

/-- The loop over the processes. -/
def pidLoop : List UInt32 → Attribution → Attribution
  | [], st => st
  | pid :: pids, st =>
      if st.attributed.length = wanted.entries.length then st
      else match t.fds pid with
        | .vanished => pidLoop pids st
        | .refused => pidLoop pids { st with denied := st.denied + 1 }
        | .listed entries => pidLoop pids (fdLoop t wanted pid 0 false entries st)

/-- The processes that `/proc` names, in ascending order. -/
def pids : List UInt32 :=
  sortBy compare ((t.listing.getD []).filterMap fun name => name.bind parseU32)

/-- `attribute_sockets_from`. -/
def attributeSockets : Attribution :=
  if wanted.entries = [] then ⟨[], 0, []⟩
  else
    let st := pidLoop t wanted (pids t) ⟨[], 0, []⟩
    if st.attributed.length < wanted.entries.length then
      { st with notes := st.notes ++
        [.incomplete st.attributed.length wanted.entries.length st.denied] }
    else st

end walk

/-! ### The list of ports -/

/-- The name that is shown for a process. -/
def processName (attr : ProcAttr) : String :=
  (attr.comm.or (attr.exePath.map (lastPiece '/'))).getD "unknown process"

/-- Protocol, port and bind address. -/
def keyOf (m : SocketMeta) : String × String × String := (m.proto, toString m.port, m.bindAddress)

def portInfo (m : SocketMeta) (attr : ProcAttr) : PortInfo where
  protocol := m.proto
  port := toString m.port
  process := processName attr
  bindAddress := m.bindAddress
  pid := attr.pid
  exePath := attr.exePath

def attrFor (attributed : List (UInt64 × ProcAttr)) (inode : UInt64) : ProcAttr :=
  (attributed.lookup inode).getD {}

/-- The loop over the sockets by ascending inode. -/
def portLoop (attributed : List (UInt64 × ProcAttr)) :
    List (String × String × String) → List (UInt64 × SocketMeta) → List PortInfo
  | _, [] => []
  | seen, (inode, m) :: rest =>
      if keyOf m ∈ seen then portLoop attributed seen rest
      else portInfo m (attrFor attributed inode) :: portLoop attributed (keyOf m :: seen) rest

def comparePorts (a b : PortInfo) : Ordering :=
  (compare a.protocol b.protocol).then ((compare a.bindAddress b.bindAddress).then
    (compare ((parseUnsigned 16 a.port).getD 0) ((parseUnsigned 16 b.port).getD 0)))

/-- The listening ports of `gather_network_info`. -/
def listeningPorts (t : ProcTable) (wanted : OrderedMap UInt64 SocketMeta) : List PortInfo :=
  sortBy comparePorts (portLoop (attributeSockets t wanted).attributed [] wanted.entries)

/-! ### The lowest process -/

section spec
variable (t : ProcTable)

def FdEntry.handed : FdEntry → Option (Option String)
  | .broken => none
  | .link target => some target

/-- The sockets among the first descriptors. -/
def inodesOf (count : ℕ) (entries : List FdEntry) : List UInt64 :=
  ((entries.filterMap FdEntry.handed).take count).filterMap fun target => target.bind socketInode

/-- The sockets a process holds open below the cap. -/
def openInodes (pid : UInt32) : List UInt64 :=
  match t.fds pid with
  | .listed entries => inodesOf maxFdPerPid entries
  | _ => []

/-- A readable process that holds the socket open below the cap. -/
def Holds (pid : UInt32) (inode : UInt64) : Prop := pid ∈ pids t ∧ inode ∈ openInodes t pid

def holder (inode : UInt64) : Option UInt32 := (pids t).find? fun pid => inode ∈ openInodes t pid

end spec

section attribution
variable {t : ProcTable} {wanted : OrderedMap UInt64 SocketMeta}

/-- A socket is claimed by a process unless it is not wanted or has one. -/
def claim (wanted : OrderedMap UInt64 SocketMeta) (attr : ProcAttr)
    (attributed : List (UInt64 × ProcAttr)) (inode : UInt64) : List (UInt64 × ProcAttr) :=
  if inode ∉ wanted.keys ∨ inode ∈ attributed.map Prod.fst then attributed
  else (inode, attr) :: attributed

theorem inodesOf_link (target : Option String) (es : List FdEntry) (count : ℕ) :
    inodesOf (count + 1) (.link target :: es) =
      (target.bind socketInode).toList ++ inodesOf count es := by
  have hhanded : (FdEntry.link target :: es).filterMap FdEntry.handed =
      target :: es.filterMap FdEntry.handed := rfl
  unfold inodesOf
  rw [hhanded, List.take_succ_cons, List.filterMap_cons]
  cases target.bind socketInode <;> rfl

/-- The descriptors of a process claim sockets for it. -/
theorem attributed_fdLoop (pid : UInt32) (entries : List FdEntry) (fdSeen : ℕ) (matched : Bool)
    (st : Attribution) : (fdLoop t wanted pid fdSeen matched entries st).attributed =
      (inodesOf (maxFdPerPid - fdSeen) entries).foldl (claim wanted (attrOf t pid))
        st.attributed := by
  induction entries generalizing fdSeen matched st with
  | nil => simp [fdLoop, inodesOf]
  | cons e es ih =>
      cases e with
      | broken =>
          rw [fdLoop, ih]
          rfl
      | link target =>
          rw [fdLoop]
          by_cases hcap : maxFdPerPid < fdSeen + 1
          · have hzero : maxFdPerPid - fdSeen = 0 := by omega
            rw [if_pos hcap, hzero]
            simp [inodesOf]
          · have hsucc : maxFdPerPid - fdSeen = (maxFdPerPid - (fdSeen + 1)) + 1 := by omega
            rw [if_neg hcap, hsucc, inodesOf_link]
            cases target.bind socketInode with
            | none => exact ih _ _ _
            | some inode =>
                dsimp only
                rw [Option.toList_some, List.singleton_append, List.foldl_cons]
                by_cases hskip : inode ∉ wanted.keys ∨ inode ∈ st.attributed.map Prod.fst
                · rw [if_pos hskip, ih, claim, if_pos hskip]
                · rw [if_neg hskip, ih, claim, if_neg hskip]

theorem lookup_eq_none {attributed : List (UInt64 × ProcAttr)} {inode : UInt64} :
    attributed.lookup inode = none ↔ inode ∉ attributed.map Prod.fst := by
  rw [List.lookup_eq_none_iff]
  simp only [List.mem_map, not_exists, not_and, bne_iff_ne]
  exact ⟨fun h p hp heq => h p hp heq.symm, fun h p hp heq => h p hp heq.symm⟩

theorem lookup_claim (attr : ProcAttr) (attributed : List (UInt64 × ProcAttr)) (i inode : UInt64) :
    (claim wanted attr attributed i).lookup inode = (attributed.lookup inode).or
      (if inode = i ∧ inode ∈ wanted.keys then some attr else none) := by
  unfold claim
  by_cases hskip : i ∉ wanted.keys ∨ i ∈ attributed.map Prod.fst
  · rw [if_pos hskip]
    by_cases hclaim : inode = i ∧ inode ∈ wanted.keys
    · obtain ⟨rfl, hwanted⟩ := hclaim
      have hmem := hskip.resolve_left (not_not_intro hwanted)
      cases hlookup : attributed.lookup inode with
      | none => exact absurd hmem (lookup_eq_none.mp hlookup)
      | some attr => rfl
    · rw [if_neg hclaim, Option.or_none]
  · rw [if_neg hskip, List.lookup_cons]
    obtain ⟨hwanted, hnew⟩ := not_or.mp hskip
    by_cases heq : inode = i
    · subst heq
      have hnone := lookup_eq_none.mpr hnew
      rw [beq_self_eq_true, if_pos ⟨rfl, not_not.mp hwanted⟩, hnone]
      rfl
    · have hbeq : (inode == i) = false := by simpa using heq
      rw [hbeq, if_neg fun h => heq h.1, Option.or_none]

theorem lookup_claims (attr : ProcAttr) (inodes : List UInt64)
    (attributed : List (UInt64 × ProcAttr)) (inode : UInt64) :
    (inodes.foldl (claim wanted attr) attributed).lookup inode = (attributed.lookup inode).or
      (if inode ∈ inodes ∧ inode ∈ wanted.keys then some attr else none) := by
  induction inodes generalizing attributed with
  | nil => simp
  | cons i inodes ih =>
      rw [List.foldl_cons, ih, lookup_claim, Option.or_assoc]
      congr 1
      by_cases hwanted : inode ∈ wanted.keys
      · by_cases heq : inode = i
        · subst heq
          simp [hwanted]
        · simp [heq, hwanted]
      · simp [hwanted]

/-- The attributed sockets are wanted sockets, each once. -/
structure Consistent (wanted : OrderedMap UInt64 SocketMeta)
    (attributed : List (UInt64 × ProcAttr)) : Prop where
  nodup : (attributed.map Prod.fst).Nodup
  wanted : ∀ inode ∈ attributed.map Prod.fst, inode ∈ wanted.keys

theorem consistent_nil (wanted : OrderedMap UInt64 SocketMeta) : Consistent wanted [] :=
  ⟨List.nodup_nil, fun _ h => absurd h List.not_mem_nil⟩

theorem Consistent.length_le {attributed : List (UInt64 × ProcAttr)}
    (h : Consistent wanted attributed) : attributed.length ≤ wanted.entries.length := by
  have hle := (List.subperm_of_subset h.nodup h.wanted).length_le
  unfold OrderedMap.keys at hle
  rwa [List.length_map, List.length_map] at hle

theorem entries_ne_nil {inode : UInt64} (h : inode ∈ wanted.keys) : wanted.entries ≠ [] := by
  intro hnil
  unfold OrderedMap.keys at h
  rw [hnil] at h
  cases h

theorem consistent_claims {attributed : List (UInt64 × ProcAttr)} (h : Consistent wanted attributed)
    (attr : ProcAttr) (inodes : List UInt64) :
    Consistent wanted (inodes.foldl (claim wanted attr) attributed) := by
  induction inodes generalizing attributed with
  | nil => exact h
  | cons i inodes ih =>
      refine ih ?_
      unfold claim
      by_cases hskip : i ∉ wanted.keys ∨ i ∈ attributed.map Prod.fst
      · rw [if_pos hskip]
        exact h
      · rw [if_neg hskip]
        obtain ⟨hwanted, hnew⟩ := not_or.mp hskip
        refine ⟨List.nodup_cons.mpr ⟨hnew, h.nodup⟩, fun inode hinode => ?_⟩
        rcases List.mem_cons.mp hinode with rfl | hinode
        · exact not_not.mp hwanted
        · exact h.wanted inode hinode

/-- When as many sockets are attributed as are wanted, all are. -/
theorem lookup_of_full {attributed : List (UInt64 × ProcAttr)} (h : Consistent wanted attributed)
    (hlen : attributed.length = wanted.entries.length) {inode : UInt64} (hinode : inode ∈ wanted.keys) :
    attributed.lookup inode ≠ none := by
  have hperm : (attributed.map Prod.fst).Perm wanted.keys := by
    refine (List.subperm_of_subset h.nodup h.wanted).perm_of_length_le ?_
    unfold OrderedMap.keys
    rw [List.length_map, List.length_map, hlen]
  intro hnone
  exact lookup_eq_none.mp hnone (hperm.mem_iff.mpr hinode)

/-- The walk attributes a socket to the first process that has it. -/
theorem lookup_pidLoop (ps : List UInt32) {st : Attribution} (h : Consistent wanted st.attributed)
    {inode : UInt64} (hinode : inode ∈ wanted.keys) :
    (pidLoop t wanted ps st).attributed.lookup inode = (st.attributed.lookup inode).or
      ((ps.find? fun pid => inode ∈ openInodes t pid).map (attrOf t)) := by
  induction ps generalizing st with
  | nil => simp [pidLoop]
  | cons pid ps ih =>
      rw [pidLoop]
      by_cases hfull : st.attributed.length = wanted.entries.length
      · rw [if_pos hfull]
        cases hlookup : st.attributed.lookup inode with
        | none => exact absurd hlookup (lookup_of_full h hfull hinode)
        | some attr => rfl
      · rw [if_neg hfull]
        unfold openInodes at ih ⊢
        rw [List.find?_cons]
        cases t.fds pid with
        | vanished => exact ih h
        | refused =>
            apply ih
            exact h
        | listed entries =>
            dsimp only
            have hattributed := @attributed_fdLoop t wanted pid entries 0 false st
            have hconsistent := consistent_claims h (attrOf t pid)
              (inodesOf (maxFdPerPid - 0) entries)
            rw [← hattributed] at hconsistent
            rw [ih hconsistent, hattributed, lookup_claims, Option.or_assoc, Nat.sub_zero]
            congr 1
            by_cases hopen : inode ∈ inodesOf maxFdPerPid entries
            · simp [hopen, hinode]
            · simp [hopen]

/-- The first process in ascending order is the lowest. -/
theorem holder_eq_some {inode : UInt64} {pid : UInt32} (h : holder t inode = some pid) :
    Holds t pid inode ∧ ∀ other, Holds t other inode → pid ≤ other := by
  have hsorted : (pids t).Pairwise fun a b => (compare a b).isLE = true :=
    pairwise_sortBy compare _
  obtain ⟨hp, before, after, heq, hnot⟩ := List.find?_eq_some_iff_append.mp h
  have hmem : pid ∈ pids t := heq ▸ List.mem_append_right _ List.mem_cons_self
  refine ⟨⟨hmem, of_decide_eq_true hp⟩, fun other ⟨hother, hopen⟩ => ?_⟩
  rw [heq] at hother hsorted
  rcases List.mem_append.mp hother with hbefore | hrest
  · have hno := hnot other hbefore
    simp [hopen] at hno
  · rcases List.mem_cons.mp hrest with rfl | hafter
    · exact UInt32.le_refl _
    · have hle := (List.pairwise_cons.mp (List.pairwise_append.mp hsorted).2.1).1 other hafter
      exact Std.isLE_compare.mp hle

theorem holder_isSome {inode : UInt64} {pid : UInt32} (h : Holds t pid inode) :
    (holder t inode).isSome = true := by
  unfold holder
  rw [List.find?_isSome]
  exact ⟨pid, h.1, by simpa using h.2⟩

theorem attributed_attributeSockets (hwanted : wanted.entries ≠ []) :
    (attributeSockets t wanted).attributed = (pidLoop t wanted (pids t) ⟨[], 0, []⟩).attributed := by
  unfold attributeSockets
  rw [if_neg hwanted]
  dsimp only
  split <;> rfl

/-- What is attributed to a wanted socket. -/
theorem lookup_attributeSockets {inode : UInt64} (hinode : inode ∈ wanted.keys) :
    (attributeSockets t wanted).attributed.lookup inode = (holder t inode).map (attrOf t) := by
  rw [attributed_attributeSockets (entries_ne_nil hinode),
    lookup_pidLoop _ (consistent_nil wanted) hinode]
  rfl

theorem consistent_pidLoop (ps : List UInt32) {st : Attribution}
    (h : Consistent wanted st.attributed) :
    Consistent wanted (pidLoop t wanted ps st).attributed := by
  induction ps generalizing st with
  | nil => exact h
  | cons pid ps ih =>
      rw [pidLoop]
      split
      · exact h
      · cases t.fds pid with
        | vanished => exact ih h
        | refused =>
            apply ih
            exact h
        | listed entries =>
            apply ih
            rw [attributed_fdLoop]
            exact consistent_claims h _ _

/-- A wanted socket that no process is found for is counted in a note. -/
theorem incomplete_noted {inode : UInt64} (hinode : inode ∈ wanted.keys)
    (hnone : (attributeSockets t wanted).attributed.lookup inode = none) :
    ∃ denied, .incomplete (attributeSockets t wanted).attributed.length wanted.entries.length denied ∈
      (attributeSockets t wanted).notes := by
  have hwanted := entries_ne_nil hinode
  rw [attributed_attributeSockets hwanted] at hnone ⊢
  have hstart : Consistent wanted (⟨[], 0, []⟩ : Attribution).attributed := consistent_nil wanted
  have hconsistent := consistent_pidLoop (t := t) (pids t) hstart
  have hle := hconsistent.length_le
  have hne : (pidLoop t wanted (pids t) ⟨[], 0, []⟩).attributed.length ≠ wanted.entries.length :=
    fun heq => lookup_of_full hconsistent heq hinode hnone
  unfold attributeSockets
  rw [if_neg hwanted]
  dsimp only
  rw [if_pos (by omega)]
  exact ⟨_, List.mem_append_right _ (List.mem_singleton.mpr rfl)⟩

/-- The executable that is shown for a socket. -/
def ownerExe (t : ProcTable) (inode : UInt64) : Option String := (holder t inode).bind t.exe

theorem exePath_attrFor {inode : UInt64} (hinode : inode ∈ wanted.keys) :
    (attrFor (attributeSockets t wanted).attributed inode).exePath = ownerExe t inode := by
  unfold attrFor ownerExe
  rw [lookup_attributeSockets hinode]
  cases holder t inode <;> rfl

end attribution

/-! ### One port for each address -/

section ports
variable {t : ProcTable} {wanted : OrderedMap UInt64 SocketMeta}

/-- The port that is listed for an address is the one of the first socket that has it. -/
theorem mem_portLoop {attributed : List (UInt64 × ProcAttr)} {sockets : List (UInt64 × SocketMeta)}
    {seen : List (String × String × String)} {info : PortInfo} :
    info ∈ portLoop attributed seen sockets ↔ ∃ key ∉ seen, ∃ socket,
      sockets.find? (fun s => keyOf s.2 = key) = some socket ∧
      info = portInfo socket.2 (attrFor attributed socket.1) := by
  induction sockets generalizing seen with
  | nil => simp [portLoop]
  | cons socket rest ih =>
      obtain ⟨inode, m⟩ := socket
      rw [portLoop]
      by_cases hseen : keyOf m ∈ seen
      · rw [if_pos hseen, ih]
        refine exists_congr fun key => and_congr_right fun hkey => ?_
        have hne : keyOf m ≠ key := fun heq => hkey (heq ▸ hseen)
        rw [List.find?_cons_of_neg (by simpa using hne)]
      · rw [if_neg hseen, List.mem_cons, ih]
        constructor
        · rintro (rfl | ⟨key, hkey, socket, hfind, hinfo⟩)
          · exact ⟨keyOf m, hseen, (inode, m), List.find?_cons_of_pos (by simp), rfl⟩
          · rw [List.mem_cons, not_or] at hkey
            refine ⟨key, hkey.2, socket, ?_, hinfo⟩
            rw [List.find?_cons_of_neg (by simpa using Ne.symm hkey.1)]
            exact hfind
        · rintro ⟨key, hkey, socket, hfind, hinfo⟩
          by_cases heq : keyOf m = key
          · rw [List.find?_cons_of_pos (by simpa using heq)] at hfind
            cases hfind
            exact .inl hinfo
          · rw [List.find?_cons_of_neg (by simpa using heq)] at hfind
            refine .inr ⟨key, ?_, socket, hfind, hinfo⟩
            rw [List.mem_cons, not_or]
            exact ⟨Ne.symm heq, hkey⟩

/-- The socket with the lowest inode among those of its address. -/
def IsFirst (wanted : OrderedMap UInt64 SocketMeta) (socket : UInt64 × SocketMeta) : Prop :=
  socket ∈ wanted.entries ∧
    ∀ other ∈ wanted.entries, keyOf other.2 = keyOf socket.2 → socket.1 ≤ other.1

theorem find_iff_isFirst {key : String × String × String} {socket : UInt64 × SocketMeta} :
    wanted.entries.find? (fun s => keyOf s.2 = key) = some socket ↔
      IsFirst wanted socket ∧ keyOf socket.2 = key := by
  have hsorted : wanted.entries.Pairwise fun a b => a.1 < b.1 := List.pairwise_map.mp wanted.sorted
  rw [List.find?_eq_some_iff_append]
  constructor
  · rintro ⟨hkey, before, after, heq, hnot⟩
    have hkey : keyOf socket.2 = key := of_decide_eq_true hkey
    refine ⟨⟨heq ▸ List.mem_append_right _ List.mem_cons_self, fun other hother hsame => ?_⟩, hkey⟩
    rw [heq] at hother hsorted
    rcases List.mem_append.mp hother with hbefore | hrest
    · have hno := hnot other hbefore
      simp [hsame, hkey] at hno
    · rcases List.mem_cons.mp hrest with rfl | hafter
      · exact UInt64.le_refl _
      · exact UInt64.le_of_lt
          ((List.pairwise_cons.mp (List.pairwise_append.mp hsorted).2.1).1 other hafter)
  · rintro ⟨⟨hmem, hfirst⟩, hkey⟩
    obtain ⟨before, after, heq⟩ := List.append_of_mem hmem
    refine ⟨decide_eq_true hkey, before, after, heq, fun other hbefore => ?_⟩
    have hlt : other.1 < socket.1 := by
      rw [heq] at hsorted
      exact (List.pairwise_append.mp hsorted).2.2 other hbefore socket List.mem_cons_self
    have hother : other ∈ wanted.entries := heq ▸ List.mem_append_left _ hbefore
    have hne : keyOf other.2 ≠ key := fun hsame =>
      absurd hlt (UInt64.not_lt.mpr (hfirst other hother (hsame.trans hkey.symm)))
    simpa using hne

theorem exists_first {socket : UInt64 × SocketMeta} (h : socket ∈ wanted.entries) :
    ∃ first, IsFirst wanted first ∧ keyOf first.2 = keyOf socket.2 := by
  cases hfind : wanted.entries.find? fun s => keyOf s.2 = keyOf socket.2 with
  | none =>
      have hno := List.find?_eq_none.mp hfind socket h
      simp at hno
  | some first => exact ⟨first, find_iff_isFirst.mp hfind⟩

theorem mem_listeningPorts {info : PortInfo} : info ∈ listeningPorts t wanted ↔
    ∃ socket, IsFirst wanted socket ∧
      info = portInfo socket.2 (attrFor (attributeSockets t wanted).attributed socket.1) := by
  unfold listeningPorts
  rw [(sortBy_perm _ _).mem_iff, mem_portLoop]
  simp only [find_iff_isFirst]
  constructor
  · rintro ⟨key, _, socket, ⟨hfirst, _⟩, hinfo⟩
    exact ⟨socket, hfirst, hinfo⟩
  · rintro ⟨socket, hfirst, hinfo⟩
    exact ⟨_, List.not_mem_nil, socket, ⟨hfirst, rfl⟩, hinfo⟩

end ports

/-! ### Hidden listeners -/

/-- The executable of every attributed listening socket is listed with its address. -/
def NoneHidden (t : ProcTable) (wanted : OrderedMap UInt64 SocketMeta) : Prop :=
  ∀ inode m attr exe, (inode, m) ∈ wanted.entries →
    (attributeSockets t wanted).attributed.lookup inode = some attr → attr.exePath = some exe →
    ∃ info ∈ listeningPorts t wanted, info.protocol = m.proto ∧ info.port = toString m.port ∧
      info.bindAddress = m.bindAddress ∧ info.exePath = some exe

/-- **Every listening socket that a readable process holds open is attributed to the lowest one.  No
executable is hidden behind another exactly when every listening socket with an executable has it in
common with the socket of the lowest inode of its protocol, port and bind address.** -/
theorem listeners_shown_iff (t : ProcTable) (wanted : OrderedMap UInt64 SocketMeta) :
    (∀ inode ∈ wanted.keys, ∀ pid, Holds t pid inode → ∃ low,
      (attributeSockets t wanted).attributed.lookup inode = some (attrOf t low) ∧
      Holds t low inode ∧ ∀ other, Holds t other inode → low ≤ other) ∧
    (NoneHidden t wanted ↔ ∀ socket ∈ wanted.entries, ∀ exe, ownerExe t socket.1 = some exe →
      ∀ first, IsFirst wanted first → keyOf first.2 = keyOf socket.2 →
        ownerExe t first.1 = some exe) := by
  have hkeys : ∀ socket ∈ wanted.entries, socket.1 ∈ wanted.keys :=
    fun socket h => List.mem_map_of_mem h
  constructor
  · intro inode hinode pid hholds
    obtain ⟨low, hlow⟩ := Option.isSome_iff_exists.mp (holder_isSome hholds)
    refine ⟨low, ?_, holder_eq_some hlow⟩
    rw [lookup_attributeSockets hinode, hlow]
    rfl
  · constructor
    · intro h socket hsocket exe hexe first hfirst hkey
      obtain ⟨pid, hpid, hpidExe⟩ := Option.bind_eq_some_iff.mp hexe
      have hlookup := lookup_attributeSockets (t := t) (hkeys socket hsocket)
      rw [hpid] at hlookup
      obtain ⟨info, hinfo, hproto, hport, haddress, hpath⟩ :=
        h socket.1 socket.2 _ exe hsocket hlookup hpidExe
      obtain ⟨shown, hshown, rfl⟩ := mem_listeningPorts.mp hinfo
      have hsame : keyOf shown.2 = keyOf first.2 := by
        rw [hkey]
        exact Prod.ext hproto (Prod.ext hport haddress)
      have hle := hshown.2 first hfirst.1 hsame.symm
      have hge := hfirst.2 shown hshown.1 hsame
      have hinode : shown.1 = first.1 := UInt64.le_antisymm hle hge
      rw [← hinode, ← exePath_attrFor (hkeys shown hshown.1)]
      exact hpath
    · intro h inode m attr exe hmem hattr hexe
      have hinode := hkeys _ hmem
      obtain ⟨first, hfirst, hkey⟩ := exists_first hmem
      have howner : ownerExe t inode = some exe := by
        rw [← exePath_attrFor hinode]
        unfold attrFor
        rw [hattr]
        exact hexe
      refine ⟨_, mem_listeningPorts.mpr ⟨first, hfirst, rfl⟩, ?_⟩
      obtain ⟨hproto, hrest⟩ := Prod.mk.inj hkey
      obtain ⟨hport, haddress⟩ := Prod.mk.inj hrest
      refine ⟨hproto, hport, haddress, ?_⟩
      rw [← h _ hmem exe howner first hfirst hkey, ← exePath_attrFor (hkeys first hfirst.1)]
      rfl

/-- Two executables that listen at one address. -/
def sharedPort : ProcTable where
  listing := some [some "1", some "2"]
  fds pid := if pid = 1 then .listed [.link (some "socket:[7]")]
    else if pid = 2 then .listed [.link (some "socket:[9]")] else .vanished
  exe pid := if pid = 1 then some "/a" else some "/b"
  comm _ := none

def sharedSockets : OrderedMap UInt64 SocketMeta where
  entries := [(7, ⟨"tcp", "0.0.0.0", 80⟩), (9, ⟨"tcp", "0.0.0.0", 80⟩)]
  sorted := by decide

/-- Both sockets are attributed, and the second executable is not listed. -/
theorem sharedPort_hidden : ¬ NoneHidden sharedPort sharedSockets := by
  intro h
  have howner : ((attributeSockets sharedPort sharedSockets).attributed.lookup 9).map
      ProcAttr.exePath = some (some "/b") := by decide +kernel
  obtain ⟨attr, hattr, hexe⟩ := Option.map_eq_some_iff.mp howner
  obtain ⟨info, hinfo, _, _, _, hpath⟩ := h 9 ⟨"tcp", "0.0.0.0", 80⟩ attr "/b"
    (List.mem_cons_of_mem _ List.mem_cons_self) hattr hexe
  have hshown : (portLoop (attributeSockets sharedPort sharedSockets).attributed []
      sharedSockets.entries).map PortInfo.exePath = [some "/a"] := by decide +kernel
  have hmem : some "/b" ∈ [some "/a"] := by
    rw [← hshown, ← hpath]
    exact List.mem_map_of_mem ((sortBy_perm _ _).mem_iff.mp hinfo)
  simp at hmem

end ListeningPorts
end OwlzopsMapper
