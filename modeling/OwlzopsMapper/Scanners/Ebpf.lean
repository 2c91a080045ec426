import OwlzopsMapper.Lib.CappedBuffer
import OwlzopsMapper.Lib.Sorting
import OwlzopsMapper.Rust.Utf8
import OwlzopsMapper.SafeIo

/-! # The eBPF inventory

`ebpf.rs`: programs, maps and links by the descriptors of the processes that hold them, and the pins
below `/sys/fs/bpf`.  Each list ends at 256, a process at 4096 descriptors and the directories at a
depth of eight.

The lists are the beginnings of what there is, however the loops are cut short
(`inventory_capped`).  **An inventory without a note is complete** (`complete_of_silent`): no
descriptor, no process and no pin is missing from it. -/

namespace OwlzopsMapper
namespace Ebpf

open Rust Lib SafeIo

def maxBpfObjects : ℕ := 256
def maxPinDepth : ℕ := 8
def maxFdPerPid : ℕ := 4096

/-- `BpfProgInfo`. -/
structure ProgInfo where
  progId : UInt32
  progType : String
  progName : Option String
  progTag : String
  pid : UInt32
  comm : String
deriving DecidableEq, Repr

/-- `BpfMapInfo`. -/
structure MapInfo where
  mapId : UInt32
  mapType : String
  pid : UInt32
  comm : String
deriving DecidableEq, Repr

/-- `BpfLinkInfo`. -/
structure LinkInfo where
  linkId : UInt32
  progId : UInt32
  attachType : String
  pid : UInt32
  comm : String
deriving DecidableEq, Repr

/-- `BpfPinInfo`. -/
structure PinInfo where
  path : String
  objType : String
  objId : UInt32
deriving DecidableEq, Repr

/-- `EbpfInventory`. -/
structure Inventory where
  programs : List ProgInfo
  maps : List MapInfo
  pins : List PinInfo
  links : List LinkInfo
  progTags : List String

/-! ### What a descriptor is -/

def parseU32Field (line label : String) : Option UInt32 :=
  (stripPrefix line label).bind fun s => parseU32 (trim s)

def isBpfFd (linkTarget : String) : Bool :=
  match stripPrefix linkTarget "anon_inode:" with
  | none => false
  | some rest =>
      let rest := (stripPrefix rest "[").getD rest
      startsWith rest "bpf-" || startsWith rest "bpf_"

inductive ObjType where
  | link
  | map
  | prog
deriving DecidableEq, Repr

structure BpfFdInfo where
  objType : ObjType
  id : UInt32
  typeOrName : Option String
  progTag : String
  progId : UInt32
deriving DecidableEq, Repr

/-- The variables of the loop over the lines. -/
structure Fields where
  progId : Option UInt32 := none
  mapId : Option UInt32 := none
  linkId : Option UInt32 := none
  progType : Option String := none
  mapType : Option String := none
  linkType : Option String := none
  progName : Option String := none
  progTag : String := ""

def Fields.read (f : Fields) (line : String) : Fields :=
  match parseU32Field line "prog_id:" with
  | some v => { f with progId := some v }
  | none =>
  match parseU32Field line "map_id:" with
  | some v => { f with mapId := some v }
  | none =>
  match parseU32Field line "link_id:" with
  | some v => { f with linkId := some v }
  | none =>
  match stripPrefix line "prog_type:" with
  | some v => { f with progType := some (trim v) }
  | none =>
  match stripPrefix line "map_type:" with
  | some v => { f with mapType := some (trim v) }
  | none =>
  match stripPrefix line "link_type:" with
  | some v => { f with linkType := some (trim v) }
  | none =>
  match stripPrefix line "prog_name:" with
  | some v => { f with progName := some (trim v) }
  | none =>
  match stripPrefix line "prog_tag:" with
  | some v => { f with progTag := trim v }
  | none => f

/-- A link also has a `prog_id`, so it is asked for first. -/
def Fields.info (f : Fields) : Option BpfFdInfo :=
  match f.linkId with
  | some id => some ⟨.link, id, f.linkType, f.progTag, f.progId.getD 0⟩
  | none =>
      match f.mapId with
      | some id => some ⟨.map, id, f.mapType, f.progTag, 0⟩
      | none => f.progId.map fun id => ⟨.prog, id, f.progName <|> f.progType, f.progTag, id⟩

def parseBpfFdinfo (fdinfo : String) : Option BpfFdInfo :=
  ((lines fdinfo).foldl Fields.read {}).info

/-! ### What the scanner reads -/

/-- `entry.file_type()`. -/
inductive FileType where
  | symlink
  | dir
  | other
deriving DecidableEq, Repr

/-- `/proc` and `/sys/fs/bpf`; a name that is no text is `none`. -/
structure Host where
  isRoot : Bool
  listing : Except ProcMiss (List (Option String))
  comm : UInt32 → Option (List UInt8)
  fds : UInt32 → Except ProcMiss (List (Option String))
  fdLink : UInt32 → UInt32 → Option String
  fdinfo : UInt32 → UInt32 → Option (List UInt8)
  /-- The entries of a directory of pins; the type of an entry can be unreadable. -/
  bpffs : String → Except ProcMiss (List (String × Option FileType))

/-- An entry of one of the three lists. -/
inductive Obj where
  | prog (p : ProgInfo)
  | map (m : MapInfo)
  | link (l : LinkInfo)
deriving DecidableEq, Repr

def Obj.prog? : Obj → Option ProgInfo
  | .prog p => some p
  | .map _ | .link _ => none

def Obj.map? : Obj → Option MapInfo
  | .map m => some m
  | .prog _ | .link _ => none

def Obj.link? : Obj → Option LinkInfo
  | .link l => some l
  | .prog _ | .map _ => none

def Host.commOf (h : Host) (pid : UInt32) : String :=
  match h.comm pid with
  | some bytes => trim (fromUtf8Lossy (bytes.take 4096))
  | none => ""

/-- The object that is listed for a descriptor. -/
def BpfFdInfo.obj (info : BpfFdInfo) (pid : UInt32) (comm : String) : Obj :=
  match info.objType with
  | .prog => .prog ⟨info.id, info.typeOrName.getD "", none, info.progTag, pid, comm⟩
  | .map => .map ⟨info.id, info.typeOrName.getD "", pid, comm⟩
  | .link => .link ⟨info.id, info.progId, info.typeOrName.getD "", pid, comm⟩

/-- The checks of the body of the inner loop. -/
def Host.object (h : Host) (pid : UInt32) (name : Option String) : Option Obj :=
  (name.bind parseU32).bind fun fdnum =>
    (h.fdLink pid fdnum).bind fun target =>
      if isBpfFd target then
        (h.fdinfo pid fdnum).bind fun bytes =>
          (parseBpfFdinfo (fromUtf8Lossy (bytes.take 8192))).map fun info => info.obj pid (h.commOf pid)
      else none

/-! ### The loops -/

/-- The variables of `scan_proc_bpf`, and the coverage notes. -/
structure State where
  programs : List ProgInfo := []
  maps : List MapInfo := []
  links : List LinkInfo := []
  dropped : ℕ := 0
  denied : ℕ := 0
  notes : List String := []

def State.full (st : State) : Bool :=
  maxBpfObjects ≤ st.programs.length && maxBpfObjects ≤ st.maps.length &&
    maxBpfObjects ≤ st.links.length

/-- `push_capped`. -/
def pushCapped {α : Type} (vec : List α) (item : α) (dropped : ℕ) : List α × ℕ :=
  pushCounted maxBpfObjects vec item dropped

def State.push (st : State) : Obj → State
  | .prog p =>
      let (programs, dropped) := pushCapped st.programs p st.dropped
      { st with programs := programs, dropped := dropped }
  | .map m =>
      let (maps, dropped) := pushCapped st.maps m st.dropped
      { st with maps := maps, dropped := dropped }
  | .link l =>
      let (links, dropped) := pushCapped st.links l st.dropped
      { st with links := links, dropped := dropped }

def budgetNote (pid : UInt32) : String :=
  "ebpf: pid " ++ toString pid.toNat ++ " fd budget exhausted at " ++ toString maxFdPerPid ++
    " — inventory INCOMPLETE for this PID"

/-- The loop over the descriptors of a process. -/
def fdLoop (h : Host) (pid : UInt32) : ℕ → List (Option String) → State → State
  | _, [], st => st
  | scanned, name :: rest, st =>
      if maxFdPerPid < scanned + 1 then { st with notes := st.notes ++ [budgetNote pid] }
      else if st.full then { st with dropped := st.dropped + 1 }
      else fdLoop h pid (scanned + 1) rest (((h.object pid name).map st.push).getD st)

/-- The loop over `/proc`. -/
def procLoop (h : Host) : List (Option String) → State → State
  | [], st => st
  | name :: rest, st =>
      if st.full then { st with dropped := st.dropped + 1 }
      else match name.bind parseU32 with
        | none => procLoop h rest st
        | some pid =>
            match h.fds pid with
            | .error e =>
                procLoop h rest (if e = .vanished then st else { st with denied := st.denied + 1 })
            | .ok entries => procLoop h rest (fdLoop h pid 0 entries st)

def procNote (e : ProcMiss) : String :=
  "ebpf: /proc unreadable (" ++ e.kind ++ ") — BPF program/map/link inventory NOT enumerated"

def deniedNote (isRoot : Bool) (denied : ℕ) : String :=
  "ebpf: /proc/<pid>/fd unreadable for " ++ toString denied ++ " process(es)" ++
    (if isRoot then "" else " — run as root for full coverage") ++
    "; BPF program/map/link inventory is a LOWER BOUND"

def scanProcBpf (h : Host) : State :=
  match h.listing with
  | .error e => { notes := [procNote e] }
  | .ok names =>
      let st := procLoop h names {}
      { st with notes := st.notes ++ if 0 < st.denied then [deniedNote h.isRoot st.denied] else [] }

/-! ### Pins -/

structure Pins where
  pins : List PinInfo := []
  dropped : ℕ := 0
  notes : List String := []

def depthNote (dir : String) : String := "ebpf: pin scan depth limit at " ++ dir

def dirNote (dir : String) (e : ProcMiss) : String :=
  "ebpf: " ++ dir ++ " unreadable (" ++ e.kind ++
    ") — pinned objects below it NOT enumerated; a pin outlives its creator (persistence surface)"

/-- `Path::join` with the name of an entry. -/
def child (dir name : String) : String := dir ++ "/" ++ name

def pinAt (path : String) : PinInfo := ⟨path, "unknown", 0⟩

def Pins.push (st : Pins) (path : String) : Pins :=
  let (pins, dropped) := pushCounted maxBpfObjects st.pins (pinAt path) st.dropped
  { st with pins := pins, dropped := dropped }

def scanBpfDir (h : Host) : ℕ → String → Pins → Pins
  | 0, dir, st => { st with notes := st.notes ++ [depthNote dir] }
  | depth + 1, dir, st =>
      match h.bpffs dir with
      | .error .vanished => st
      | .error e => { st with notes := st.notes ++ [dirNote dir e] }
      | .ok entries => entries.foldl (fun st entry =>
          match entry.2 with
          | none => st
          | some .symlink => st
          | some .dir => scanBpfDir h depth (child dir entry.1) st
          | some .other => st.push (child dir entry.1)) st

def pinsNote (dropped : ℕ) : String :=
  "ebpf: " ++ toString dropped ++ " pinned object(s) dropped at MAX_BPF_OBJECTS (" ++
    toString maxBpfObjects ++ ") — pin inventory INCOMPLETE. A pinned program outlives its " ++
    "creating process, so this is a persistence surface."

def bpfRoot : String := "/sys/fs/bpf"

def scanBpfPins (h : Host) : List PinInfo × List String :=
  let st := scanBpfDir h maxPinDepth bpfRoot {}
  (st.pins, st.notes ++ if 0 < st.dropped then [pinsNote st.dropped] else [])

def droppedNote (dropped : ℕ) : String :=
  "ebpf: " ++ toString dropped ++ " object(s) dropped at MAX_BPF_OBJECTS — inventory INCOMPLETE"

def pinTypeNote (n : ℕ) : String :=
  "ebpf: type/id of " ++ toString n ++ " pin(s) in /sys/fs/bpf unknown — requires BPF_OBJ_GET " ++
    "outside pure-VFS mode; pin path recorded (Raw Truth)"

/-- The note that comes with any pin: the scanner never learns what is pinned. -/
def standingNotes (pins : List PinInfo) : List String :=
  if pins.isEmpty then [] else [pinTypeNote pins.length]

/-- `gather_ebpf_inventory`, with the coverage notes. -/
def gatherEbpfInventory (h : Host) : Inventory × List String :=
  let st := scanProcBpf h
  let (pins, pinNotes) := scanBpfPins h
  ({ programs := st.programs
     maps := st.maps
     pins := pins
     links := st.links
     progTags := sortedSet ((st.programs.map ProgInfo.progTag).filter (· != "")) },
    st.notes ++ pinNotes ++ (if 0 < st.dropped then [droppedNote st.dropped] else []) ++
      standingNotes pins)

/-! ### The lists -/

/-- No list is longer than the cap. -/
def Within (objs : List Obj) : Prop :=
  (objs.filterMap Obj.prog?).length ≤ maxBpfObjects ∧
    (objs.filterMap Obj.map?).length ≤ maxBpfObjects ∧ (objs.filterMap Obj.link?).length ≤ maxBpfObjects

/-- Every list reaches the cap. -/
def Filled (objs : List Obj) : Prop :=
  maxBpfObjects ≤ (objs.filterMap Obj.prog?).length ∧
    maxBpfObjects ≤ (objs.filterMap Obj.map?).length ∧ maxBpfObjects ≤ (objs.filterMap Obj.link?).length

/-- The state after these objects, whether or not all of them were looked at. -/
structure Shows (st : State) (objs : List Obj) : Prop where
  programs : st.programs = (objs.filterMap Obj.prog?).take maxBpfObjects
  maps : st.maps = (objs.filterMap Obj.map?).take maxBpfObjects
  links : st.links = (objs.filterMap Obj.link?).take maxBpfObjects
  quiet : st.dropped = 0 → Within objs
  loud : 0 < st.dropped → ¬ Within objs ∨ Filled objs

theorem Shows.push {st : State} {objs : List Obj} (h : Shows st objs) (o : Obj) :
    Shows (st.push o) (objs ++ [o]) := by
  obtain ⟨hprograms, hmaps, hlinks, hquiet, hloud⟩ := h
  unfold Within at hquiet hloud
  unfold Filled at hloud
  cases o with
  | prog p =>
      simp only [State.push, hprograms, pushCapped, pushCounted_take]
      refine ⟨by simp [Obj.prog?], by simp [List.filterMap_cons, Obj.map?, hmaps], by simp [List.filterMap_cons, Obj.link?, hlinks], ?_, ?_⟩
      · split <;> simp [Within, List.filterMap_cons, Obj.prog?, Obj.map?, Obj.link?] <;> omega
      · split <;> simp [Within, Filled, List.filterMap_cons, Obj.prog?, Obj.map?, Obj.link?] <;> omega
  | map m =>
      simp only [State.push, hmaps, pushCapped, pushCounted_take]
      refine ⟨by simp [List.filterMap_cons, Obj.prog?, hprograms], by simp [Obj.map?], by simp [List.filterMap_cons, Obj.link?, hlinks], ?_, ?_⟩
      · split <;> simp [Within, List.filterMap_cons, Obj.prog?, Obj.map?, Obj.link?] <;> omega
      · split <;> simp [Within, Filled, List.filterMap_cons, Obj.prog?, Obj.map?, Obj.link?] <;> omega
  | link l =>
      simp only [State.push, hlinks, pushCapped, pushCounted_take]
      refine ⟨by simp [List.filterMap_cons, Obj.prog?, hprograms], by simp [List.filterMap_cons, Obj.map?, hmaps], by simp [Obj.link?], ?_, ?_⟩
      · split <;> simp [Within, List.filterMap_cons, Obj.prog?, Obj.map?, Obj.link?] <;> omega
      · split <;> simp [Within, Filled, List.filterMap_cons, Obj.prog?, Obj.map?, Obj.link?] <;> omega

/-- A loop that stops with full lists has what there is to show, whatever comes after. -/
theorem Shows.stop {st : State} {objs : List Obj} (h : Shows st objs) (hfull : st.full = true)
    (more : List Obj) : Shows { st with dropped := st.dropped + 1 } (objs ++ more) := by
  have hfilled : Filled objs := by
    simp only [State.full, h.programs, h.maps, h.links, List.length_take, Bool.and_eq_true,
      decide_eq_true_eq] at hfull
    unfold Filled
    omega
  obtain ⟨hprogs, hmaps, hlinks⟩ := hfilled
  refine ⟨?_, ?_, ?_, fun h0 => absurd h0 (Nat.succ_ne_zero _), fun _ => .inr ?_⟩
  · rw [List.filterMap_append, List.take_append_of_le_length hprogs, h.programs]
  · rw [List.filterMap_append, List.take_append_of_le_length hmaps, h.maps]
  · rw [List.filterMap_append, List.take_append_of_le_length hlinks, h.links]
  · unfold Filled
    simp only [List.filterMap_append, List.length_append]
    omega

theorem Shows.note {st : State} {objs : List Obj} (h : Shows st objs) (notes : List String) :
    Shows { st with notes := notes } objs :=
  ⟨h.programs, h.maps, h.links, h.quiet, h.loud⟩

theorem Shows.deny {st : State} {objs : List Obj} (h : Shows st objs) (denied : ℕ) :
    Shows { st with denied := denied } objs :=
  ⟨h.programs, h.maps, h.links, h.quiet, h.loud⟩

theorem shows_empty : Shows {} [] := by
  refine ⟨rfl, rfl, rfl, fun _ => ?_, fun h => absurd h (Nat.lt_irrefl 0)⟩
  simp [Within]

/-- The objects of a process, in the order of its descriptors. -/
def fdObjects (h : Host) (pid : UInt32) (entries : List (Option String)) : List Obj :=
  entries.filterMap (h.object pid)

theorem fdLoop_shows {h : Host} {pid : UInt32} {entries : List (Option String)} :
    ∀ (scanned : ℕ) {st : State} {objs : List Obj}, Shows st objs →
      Shows (fdLoop h pid scanned entries st)
        (objs ++ fdObjects h pid (entries.take (maxFdPerPid - scanned))) := by
  induction entries with
  | nil =>
      intro scanned st objs hst
      simpa [fdLoop, fdObjects] using hst
  | cons name entries ih =>
      intro scanned st objs hst
      rw [fdLoop]
      split
      · rename_i hbudget
        have hnone : maxFdPerPid - scanned = 0 := by omega
        rw [hnone, List.take_zero]
        simpa [fdObjects] using hst.note _
      · rename_i hbudget
        split
        · rename_i hfull
          exact hst.stop hfull _
        · have htake : maxFdPerPid - scanned = maxFdPerPid - (scanned + 1) + 1 := by omega
          rw [htake, List.take_succ_cons, fdObjects, List.filterMap_cons]
          cases h.object pid name with
          | none => exact ih _ hst
          | some o =>
              have hnext := ih (scanned + 1) (hst.push o)
              rw [List.append_assoc] at hnext
              exact hnext

/-- The objects of a process within its budget. -/
def pidObjects (h : Host) (pid : UInt32) : List Obj :=
  match h.fds pid with
  | .ok entries => fdObjects h pid (entries.take maxFdPerPid)
  | .error _ => []

def listedPids (names : List (Option String)) : List UInt32 := names.filterMap (·.bind parseU32)

theorem listedPids_cons_none {name : Option String} {names : List (Option String)}
    (h : name.bind parseU32 = none) : listedPids (name :: names) = listedPids names := by
  rw [listedPids, List.filterMap_cons, h]
  rfl

theorem listedPids_cons_some {name : Option String} {names : List (Option String)} {pid : UInt32}
    (h : name.bind parseU32 = some pid) :
    listedPids (name :: names) = pid :: listedPids names := by
  rw [listedPids, List.filterMap_cons, h]
  rfl

theorem procLoop_shows {h : Host} {names : List (Option String)} :
    ∀ {st : State} {objs : List Obj}, Shows st objs →
      Shows (procLoop h names st) (objs ++ (listedPids names).flatMap (pidObjects h)) := by
  induction names with
  | nil =>
      intro st objs hst
      simpa [procLoop, listedPids] using hst
  | cons name names ih =>
      intro st objs hst
      rw [procLoop]
      split
      · rename_i hfull
        exact hst.stop hfull _
      · cases hname : name.bind parseU32 with
        | none =>
            rw [listedPids_cons_none hname]
            exact ih hst
        | some pid =>
            rw [listedPids_cons_some hname, List.flatMap_cons]
            dsimp only
            cases hfds : h.fds pid with
            | error e =>
                have hnone : pidObjects h pid = [] := by rw [pidObjects, hfds]
                rw [hnone, List.nil_append]
                dsimp only
                split
                · exact ih hst
                · exact ih (hst.deny _)
            | ok entries =>
                have hobjs : pidObjects h pid = fdObjects h pid (entries.take maxFdPerPid) := by
                  rw [pidObjects, hfds]
                have hfd : Shows (fdLoop h pid 0 entries st)
                    (objs ++ fdObjects h pid (entries.take maxFdPerPid)) := fdLoop_shows 0 hst
                have hnext := ih hfd
                rw [List.append_assoc] at hnext
                rw [hobjs]
                exact hnext

/-! ### The notes of the loops -/

@[simp] theorem notes_push (st : State) (o : Obj) : (st.push o).notes = st.notes := by
  cases o <;> rfl

@[simp] theorem denied_push (st : State) (o : Obj) : (st.push o).denied = st.denied := by
  cases o <;> rfl

theorem le_dropped_push (st : State) (o : Obj) : st.dropped ≤ (st.push o).dropped := by
  cases o <;> exact le_pushCounted _ _ _

theorem denied_fdLoop {h : Host} {pid : UInt32} {entries : List (Option String)} :
    ∀ (scanned : ℕ) (st : State), (fdLoop h pid scanned entries st).denied = st.denied := by
  induction entries with
  | nil => exact fun _ _ => rfl
  | cons name entries ih =>
      intro scanned st
      rw [fdLoop]
      split
      · rfl
      · split
        · rfl
        · rw [ih]
          cases h.object pid name with
          | none => rfl
          | some o => exact denied_push st o

theorem le_dropped_fdLoop {h : Host} {pid : UInt32} {entries : List (Option String)} :
    ∀ (scanned : ℕ) (st : State), st.dropped ≤ (fdLoop h pid scanned entries st).dropped := by
  induction entries with
  | nil => exact fun _ _ => Nat.le_refl _
  | cons name entries ih =>
      intro scanned st
      rw [fdLoop]
      split
      · exact Nat.le_refl _
      · split
        · exact Nat.le_succ _
        · refine Nat.le_trans ?_ (ih _ _)
          cases h.object pid name with
          | none => exact Nat.le_refl _
          | some o => exact le_dropped_push st o

/-- A process whose descriptors were all looked at. -/
theorem notes_fdLoop {h : Host} {pid : UInt32} {entries : List (Option String)} :
    ∀ (scanned : ℕ) (st : State), (fdLoop h pid scanned entries st).dropped = 0 →
      (fdLoop h pid scanned entries st).notes = st.notes ++
        if maxFdPerPid - scanned < entries.length then [budgetNote pid] else [] := by
  induction entries with
  | nil =>
      intro scanned st _
      simp [fdLoop]
  | cons name entries ih =>
      intro scanned st h0
      rw [fdLoop] at h0 ⊢
      split at h0
      · rename_i hbudget
        rw [if_pos hbudget, if_pos (by rw [List.length_cons]; omega)]
      · rename_i hbudget
        rw [if_neg hbudget]
        split at h0
        · exact absurd h0 (Nat.succ_ne_zero _)
        · rename_i hfull
          rw [if_neg hfull, ih _ _ h0]
          have hnotes : (((h.object pid name).map st.push).getD st).notes = st.notes := by
            cases h.object pid name with
            | none => rfl
            | some o => exact notes_push st o
          rw [hnotes, List.length_cons]
          have hiff : maxFdPerPid - (scanned + 1) < entries.length ↔
              maxFdPerPid - scanned < entries.length + 1 := by omega
          simp only [hiff]

def isDenied (h : Host) (pid : UInt32) : Bool :=
  match h.fds pid with
  | .error e => e != .vanished
  | .ok _ => false

def budgetNotes (h : Host) (pid : UInt32) : List String :=
  match h.fds pid with
  | .error _ => []
  | .ok entries => if maxFdPerPid < entries.length then [budgetNote pid] else []

theorem le_dropped_procLoop {h : Host} {names : List (Option String)} :
    ∀ st : State, st.dropped ≤ (procLoop h names st).dropped := by
  induction names with
  | nil => exact fun _ => Nat.le_refl _
  | cons name names ih =>
      intro st
      rw [procLoop]
      split
      · exact Nat.le_succ _
      · split
        · exact ih st
        · split
          · split
            · exact ih st
            · exact ih { st with denied := st.denied + 1 }
          · exact Nat.le_trans (le_dropped_fdLoop _ _) (ih _)

/-- A run in which no object was dropped has looked at every process. -/
theorem procLoop_silent {h : Host} {names : List (Option String)} :
    ∀ st : State, (procLoop h names st).dropped = 0 →
      (procLoop h names st).denied = st.denied + ((listedPids names).filter (isDenied h)).length ∧
      (procLoop h names st).notes = st.notes ++ (listedPids names).flatMap (budgetNotes h) := by
  induction names with
  | nil =>
      intro st _
      simp [procLoop, listedPids]
  | cons name names ih =>
      intro st h0
      rw [procLoop] at h0 ⊢
      split at h0
      · exact absurd h0 (Nat.succ_ne_zero _)
      · rename_i hfull
        rw [if_neg hfull]
        cases hname : name.bind parseU32 with
        | none =>
            rw [hname] at h0
            rw [listedPids_cons_none hname]
            exact ih st h0
        | some pid =>
            rw [hname] at h0
            dsimp only at h0 ⊢
            rw [listedPids_cons_some hname, List.filter_cons, List.flatMap_cons]
            cases hfds : h.fds pid with
            | error e =>
                rw [hfds] at h0
                dsimp only at h0 ⊢
                by_cases he : e = .vanished
                · rw [if_pos he] at h0 ⊢
                  simpa [isDenied, budgetNotes, hfds, he] using ih st h0
                · rw [if_neg he] at h0 ⊢
                  obtain ⟨hdenied, hnotes⟩ := ih { st with denied := st.denied + 1 } h0
                  have hcount : isDenied h pid = true := by simpa [isDenied, hfds] using he
                  refine ⟨?_, by simpa [budgetNotes, hfds] using hnotes⟩
                  rw [if_pos hcount, List.length_cons]
                  dsimp only at hdenied
                  omega
            | ok entries =>
                rw [hfds] at h0
                dsimp only at h0 ⊢
                obtain ⟨hdenied, hnotes⟩ := ih _ h0
                have hfd0 : (fdLoop h pid 0 entries st).dropped = 0 :=
                  Nat.le_zero.mp ((le_dropped_procLoop _).trans (Nat.le_of_eq h0))
                rw [denied_fdLoop] at hdenied
                rw [notes_fdLoop 0 st hfd0, List.append_assoc] at hnotes
                refine ⟨by simpa [isDenied, hfds] using hdenied, ?_⟩
                simpa [budgetNotes, hfds] using hnotes

/-! ### The pins -/

/-- A file that can be reached from the directory without following a link. -/
inductive Pinned (h : Host) : String → String → Prop
  | here {dir name : String} {entries : List (String × Option FileType)} :
      h.bpffs dir = .ok entries → (name, some .other) ∈ entries → Pinned h dir (child dir name)
  | inside {dir name path : String} {entries : List (String × Option FileType)} :
      h.bpffs dir = .ok entries → (name, some .dir) ∈ entries → Pinned h (child dir name) path →
      Pinned h dir path

/-- The files down to a depth, in the order of the walk. -/
def walk (h : Host) : ℕ → String → List String
  | 0, _ => []
  | depth + 1, dir =>
      match h.bpffs dir with
      | .error _ => []
      | .ok entries => entries.flatMap fun entry =>
          match entry.2 with
          | none | some .symlink => []
          | some .dir => walk h depth (child dir entry.1)
          | some .other => [child dir entry.1]

def walkNotes (h : Host) : ℕ → String → List String
  | 0, dir => [depthNote dir]
  | depth + 1, dir =>
      match h.bpffs dir with
      | .error e => if e = .vanished then [] else [dirNote dir e]
      | .ok entries => entries.flatMap fun entry =>
          match entry.2 with
          | some .dir => walkNotes h depth (child dir entry.1)
          | none | some .symlink | some .other => []

/-- The state after these files. -/
def Pins.after (given : List String) (notes : List String) : Pins where
  pins := (given.map pinAt).take maxBpfObjects
  dropped := (given.map pinAt).length - maxBpfObjects
  notes := notes

theorem push_after (given notes : List String) (path : String) :
    (Pins.after given notes).push path = Pins.after (given ++ [path]) notes := by
  unfold Pins.push Pins.after
  rw [pushCounted_excess, List.map_append]
  rfl

theorem scanBpfDir_after {h : Host} : ∀ (depth : ℕ) (dir : String) (given notes : List String),
    scanBpfDir h depth dir (Pins.after given notes) =
      Pins.after (given ++ walk h depth dir) (notes ++ walkNotes h depth dir)
  | 0, dir, given, notes => by simp [scanBpfDir, walk, walkNotes, Pins.after]
  | depth + 1, dir, given, notes => by
      rw [scanBpfDir, walk, walkNotes]
      cases h.bpffs dir with
      | error e =>
          cases e with
          | vanished => simp
          | denied => simp [Pins.after]
          | other kind => simp [Pins.after]
      | ok entries =>
          dsimp only
          induction entries generalizing given notes with
          | nil => simp
          | cons entry entries ih =>
              obtain ⟨name, type⟩ := entry
              rw [List.foldl_cons, List.flatMap_cons, List.flatMap_cons, ← List.append_assoc,
                ← List.append_assoc]
              match type with
              | none => simpa using ih given notes
              | some .symlink => simpa using ih given notes
              | some .dir =>
                  dsimp only
                  rw [scanBpfDir_after depth]
                  exact ih _ _
              | some .other =>
                  dsimp only
                  rw [push_after, List.append_nil]
                  exact ih _ _

theorem pinned_of_mem_walk {h : Host} {path : String} : ∀ {depth : ℕ} {dir : String},
    path ∈ walk h depth dir → Pinned h dir path
  | 0, dir, hmem => by simp [walk] at hmem
  | depth + 1, dir, hmem => by
      rw [walk] at hmem
      cases hdir : h.bpffs dir with
      | error e => simp [hdir] at hmem
      | ok entries =>
          rw [hdir] at hmem
          obtain ⟨⟨name, type⟩, hentry, hin⟩ := List.mem_flatMap.mp hmem
          match type with
          | none => simp at hin
          | some .symlink => simp at hin
          | some .dir => exact .inside hdir hentry (pinned_of_mem_walk hin)
          | some .other =>
              obtain rfl := List.mem_singleton.mp hin
              exact .here hdir hentry

/-- A walk that has nothing to say has come to every file. -/
theorem mem_walk_of_pinned {h : Host} {path dir : String} (hp : Pinned h dir path) :
    ∀ {depth : ℕ}, walkNotes h depth dir = [] → path ∈ walk h depth dir := by
  induction hp with
  | @here dir name entries hdir hentry =>
      intro depth hnotes
      cases depth with
      | zero => simp [walkNotes] at hnotes
      | succ depth =>
          rw [walk, hdir]
          exact List.mem_flatMap.mpr ⟨_, hentry, List.mem_singleton.mpr rfl⟩
  | @inside dir name path entries hdir hentry _ ih =>
      intro depth hnotes
      cases depth with
      | zero => simp [walkNotes] at hnotes
      | succ depth =>
          rw [walkNotes, hdir] at hnotes
          rw [walk, hdir]
          exact List.mem_flatMap.mpr ⟨_, hentry, ih (List.flatMap_eq_nil_iff.mp hnotes _ hentry)⟩

theorem scanBpfPins_eq (h : Host) : scanBpfPins h =
    (((walk h maxPinDepth bpfRoot).take maxBpfObjects).map pinAt,
      walkNotes h maxPinDepth bpfRoot ++
        if 0 < (walk h maxPinDepth bpfRoot).length - maxBpfObjects then
          [pinsNote ((walk h maxPinDepth bpfRoot).length - maxBpfObjects)] else []) := by
  have hstart : ({} : Pins) = Pins.after [] [] := rfl
  rw [scanBpfPins, hstart, scanBpfDir_after, List.nil_append, List.nil_append]
  simp only [Pins.after, List.map_take, List.length_map]

/-! ### The inventory -/

/-- The objects of the host, within the budget of every process. -/
def visible (h : Host) (names : List (Option String)) : List Obj :=
  (listedPids names).flatMap (pidObjects h)

theorem scanProcBpf_shows {h : Host} {names : List (Option String)} (hlisting : h.listing = .ok names) :
    Shows (scanProcBpf h) (visible h names) := by
  have hloop : Shows (procLoop h names {}) (visible h names) := procLoop_shows shows_empty
  rw [scanProcBpf, hlisting]
  exact hloop.note _

/-- A process with a program, and a pin. -/
def onePin : Host where
  isRoot := true
  listing := .ok [some "7", some "self"]
  comm _ := none
  fds pid := if pid = 7 then .ok [some "3"] else .error .vanished
  fdLink _ _ := some "anon_inode:bpf-prog"
  fdinfo _ _ := some [112, 114, 111, 103, 95, 105, 100, 58, 9, 53]
  bpffs dir := if dir = bpfRoot then .ok [("p", some .other)] else .error .vanished

/-- The object is in its list. -/
def Inventory.Lists (inv : Inventory) : Obj → Prop
  | .prog p => p ∈ inv.programs
  | .map m => m ∈ inv.maps
  | .link l => l ∈ inv.links

theorem lists_of_within {h : Host} {names : List (Option String)} (hlisting : h.listing = .ok names)
    (hwithin : Within (visible h names)) (o : Obj) :
    (gatherEbpfInventory h).1.Lists o ↔ o ∈ visible h names := by
  have hshows := scanProcBpf_shows hlisting
  obtain ⟨hprogs, hmaps, hlinks⟩ := hwithin
  cases o with
  | prog p =>
      change p ∈ (scanProcBpf h).programs ↔ _
      rw [hshows.programs, List.take_of_length_le hprogs, List.mem_filterMap]
      constructor
      · rintro ⟨o, ho, hp⟩
        cases o <;> cases hp
        exact ho
      · exact fun ho => ⟨_, ho, rfl⟩
  | map m =>
      change m ∈ (scanProcBpf h).maps ↔ _
      rw [hshows.maps, List.take_of_length_le hmaps, List.mem_filterMap]
      constructor
      · rintro ⟨o, ho, hm⟩
        cases o <;> cases hm
        exact ho
      · exact fun ho => ⟨_, ho, rfl⟩
  | link l =>
      change l ∈ (scanProcBpf h).links ↔ _
      rw [hshows.links, List.take_of_length_le hlinks, List.mem_filterMap]
      constructor
      · rintro ⟨o, ho, hl⟩
        cases o <;> cases hl
        exact ho
      · exact fun ho => ⟨_, ho, rfl⟩

theorem mem_visible_iff {h : Host} {names : List (Option String)}
    (hbudget : ∀ pid ∈ listedPids names, budgetNotes h pid = []) {o : Obj} :
    o ∈ visible h names ↔ ∃ pid ∈ listedPids names, ∃ entries, h.fds pid = .ok entries ∧
      ∃ name ∈ entries, h.object pid name = some o := by
  unfold visible
  rw [List.mem_flatMap]
  refine exists_congr fun pid => and_congr_right fun hpid => ?_
  have hpidBudget := hbudget pid hpid
  unfold pidObjects
  unfold budgetNotes at hpidBudget
  cases hfds : h.fds pid with
  | error e => simp
  | ok entries =>
      simp only [hfds, ite_eq_right_iff, reduceCtorEq, imp_false, not_lt] at hpidBudget
      dsimp only
      rw [List.take_of_length_le hpidBudget, fdObjects, List.mem_filterMap]
      constructor
      · exact fun hin => ⟨entries, rfl, hin⟩
      · rintro ⟨_, heq, hin⟩
        cases heq
        exact hin

/-- **An inventory without a note is complete**: it was possible to look at every process that is
there, at all of its descriptors, and at every directory of pins. -/
theorem complete_of_silent {h : Host}
    (hsilent : (gatherEbpfInventory h).2 = standingNotes (gatherEbpfInventory h).1.pins) :
    ∃ names, h.listing = .ok names ∧
      (∀ pid ∈ listedPids names, h.fds pid = .error .vanished ∨ ∃ entries, h.fds pid = .ok entries) ∧
      (∀ o, (gatherEbpfInventory h).1.Lists o ↔ ∃ pid ∈ listedPids names, ∃ entries,
        h.fds pid = .ok entries ∧ ∃ name ∈ entries, h.object pid name = some o) ∧
      ∀ path, pinAt path ∈ (gatherEbpfInventory h).1.pins ↔ Pinned h bpfRoot path := by
  have hnotes : (scanProcBpf h).notes ++ (scanBpfPins h).2 ++
      (if 0 < (scanProcBpf h).dropped then [droppedNote (scanProcBpf h).dropped] else []) = [] := by
    have hall : (scanProcBpf h).notes ++ (scanBpfPins h).2 ++
        (if 0 < (scanProcBpf h).dropped then [droppedNote (scanProcBpf h).dropped] else []) ++
        standingNotes (scanBpfPins h).1 = standingNotes (scanBpfPins h).1 := hsilent
    exact List.append_left_eq_self.mp hall
  rw [List.append_eq_nil_iff, List.append_eq_nil_iff] at hnotes
  obtain ⟨⟨hproc, hpins⟩, hdropped⟩ := hnotes
  have hdropped : (scanProcBpf h).dropped = 0 := by
    by_contra hne
    rw [if_pos (Nat.pos_of_ne_zero hne)] at hdropped
    cases hdropped
  cases hlisting : h.listing with
  | error e =>
      rw [scanProcBpf, hlisting] at hproc
      cases hproc
  | ok names =>
      have hwithin := (scanProcBpf_shows hlisting).quiet hdropped
      rw [scanProcBpf, hlisting] at hproc hdropped
      obtain ⟨hdenied, hloop⟩ := procLoop_silent {} hdropped
      dsimp only at hproc
      rw [List.append_eq_nil_iff, hloop, List.nil_append, hdenied, Nat.zero_add] at hproc
      obtain ⟨hbudget, hnone⟩ := hproc
      have hbudget := List.flatMap_eq_nil_iff.mp hbudget
      refine ⟨names, rfl, fun pid hpid => ?_, fun o => ?_, fun path => ?_⟩
      · cases hfds : h.fds pid with
        | ok entries => exact .inr ⟨entries, rfl⟩
        | error e =>
            refine .inl ?_
            by_contra hne
            have hmem : pid ∈ (listedPids names).filter (isDenied h) := by
              refine List.mem_filter.mpr ⟨hpid, ?_⟩
              rw [isDenied, hfds]
              simpa using fun he => hne (congrArg _ he)
            rw [if_pos (List.length_pos_of_mem hmem)] at hnone
            cases hnone
      · rw [lists_of_within hlisting hwithin, mem_visible_iff hbudget]
      · rw [scanBpfPins_eq, List.append_eq_nil_iff] at hpins
        obtain ⟨hwalk, hcount⟩ := hpins
        have hle : (walk h maxPinDepth bpfRoot).length ≤ maxBpfObjects := by
          by_contra hlong
          rw [if_pos (by omega)] at hcount
          cases hcount
        change pinAt path ∈ (scanBpfPins h).1 ↔ _
        rw [scanBpfPins_eq, List.take_of_length_le hle, List.mem_map]
        constructor
        · rintro ⟨path', hmem, heq⟩
          cases heq
          exact pinned_of_mem_walk hmem
        · exact fun hp => ⟨path, mem_walk_of_pinned hp hwalk, rfl⟩

theorem complete_of_silent_onePin :
    ∃ names, onePin.listing = .ok names ∧
      (∀ pid ∈ listedPids names,
        onePin.fds pid = .error .vanished ∨ ∃ entries, onePin.fds pid = .ok entries) ∧
      (∀ o, (gatherEbpfInventory onePin).1.Lists o ↔ ∃ pid ∈ listedPids names, ∃ entries,
        onePin.fds pid = .ok entries ∧ ∃ name ∈ entries, onePin.object pid name = some o) ∧
      ∀ path, pinAt path ∈ (gatherEbpfInventory onePin).1.pins ↔ Pinned onePin bpfRoot path :=
  complete_of_silent (by decide +kernel)

end Ebpf
end OwlzopsMapper
