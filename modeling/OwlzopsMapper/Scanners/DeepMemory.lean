import OwlzopsMapper.Scanners.MemoryMaps

/-! # Deep analysis of memory regions

`deep.rs`: the first bytes of a region are attributed to an origin by a funnel of tests, each of
which decides or passes the region on (`attribute`), and the findings of a process are enriched with
the result (`enrich`).  A deleted library that is still mapped is judged by its whole file
(`ghostAnalysis`).

The entropy is a sum of logarithms in `f32`; the model takes it as a parameter. -/

namespace OwlzopsMapper
namespace Deep

open Rust Maps

def deepReadLen : ℕ := 256
def maxDeepRegions : ℕ := 64

/-- What the analysis asks the machine. -/
structure Memory where
  /-- `process_vm_readv` at an address of a process; the error is its kind. -/
  readAt : UInt32 → ℕ → Except String (List UInt8)
  shannon : List UInt8 → Ieee

/-! ### The funnel -/

def detectPrologue (buf : List UInt8) : Option Prologue :=
  if [0xF3, 0x0F, 0x1E, 0xFA].isPrefixOf buf then some .endbr64
  else if [0x55, 0x48, 0x89, 0xE5].isPrefixOf buf then some .pushRbp
  else none

/-- `windows(n)`. -/
def windows (n : ℕ) (buf : List UInt8) : List (List UInt8) :=
  (List.range (buf.length + 1 - n)).map fun i => (buf.drop i).take n

def hasImageHeader (buf : List UInt8) : Bool :=
  [0x4D, 0x5A].isPrefixOf buf || [0x7F, 0x45, 0x4C, 0x46].isPrefixOf buf ||
    ((windows 4 buf).take 64).any fun w => w == [0x50, 0x45, 0, 0]

/-- A little-endian number. -/
def fromLe (bytes : List UInt8) : ℕ := bytes.foldr (fun b n => b.toNat + 256 * n) 0

/-- `as_chunks::<8>`, without the remainder. -/
def chunks8 : List UInt8 → List (List UInt8)
  | a :: b :: c :: d :: e :: f :: g :: h :: rest => [a, b, c, d, e, f, g, h] :: chunks8 rest
  | _ => []

/-- The pointers of a buffer that lead somewhere, with the labels of their targets. -/
def scanPointers (buf : List UInt8) (r : PointerResolver) : List (PointerKind × String) :=
  let candidates := ((chunks8 buf).map fromLe).filter fun v =>
    decide (0x10000 ≤ v) && decide (v < 0x800000000000)
  (candidates.map r.answer).filter fun p => p.1 != .unmapped

/-- Almost only zeros and no code at the start. -/
def attributeReservedBuffer (buf : List UInt8) : Option (Origin × UInt8) :=
  if buf.isEmpty then none
  else if buf.length * 95 ≤ buf.count 0 * 100 ∧ (detectPrologue buf).isNone then
    some (.reservedBuffer, 70)
  else none

def pointerSigs : List (String × Origin × UInt8) :=
  [("libffi", .ffiClosure, 70), ("libjvm", .hotSpot, 75), ("libpcre2", .pcre2Jit, 75),
    ("_gi", .gObjectCallback, 70), ("gobject", .gObjectCallback, 70)]

def attributeByPointer (ptrs : List (PointerKind × String)) : Option (Origin × UInt8) :=
  (pointerSigs.find? fun sig => ptrs.any fun p => contains p.2 sig.1).map Prod.snd

def attributeManagedJit (m : Memory) (buf : List UInt8) (regionLo : ℕ) (ctx : ProcMemContext)
    (ptrs : List (PointerKind × String)) : Option (Origin × UInt8) :=
  let inReservation := isInsideJitCluster regionLo ctx.clusters
  let selfRef := ptrs.any fun p => p.1 == .libText || p.1 == .jitCluster
  let native := (detectPrologue buf).isSome && (m.shannon buf).ltHalves 13
  let signals := [inReservation, selfRef, native].count true
  -- the difference is computed under the guard
  if 2 ≤ signals then some (.managedJit, UInt8.ofNat (70 + 15 * (signals - 2))) else none

/-- A stub of libffi near the start. -/
def attributeFfiTrampoline (buf : List UInt8) : Option (Origin × UInt8) :=
  if [[0x49, 0xBB], [0x49, 0xBA]].any fun s => ((windows 2 buf).take 8).contains s then
    some (.ffiClosure, 60)
  else none

/-- `attribute`: the first test that decides. -/
def attributeRegion (m : Memory) (buf : List UInt8) (regionLo : ℕ) (ctx : ProcMemContext)
    (ptrs : List (PointerKind × String)) : Origin × UInt8 :=
  if (m.shannon buf).geHalves 14 || hasImageHeader buf then (.unknownPayload, 65)
  else
    ((attributeReservedBuffer buf).or <| (attributeByPointer ptrs).or <|
      (attributeManagedJit m buf regionLo ctx ptrs).or <|
      attributeFfiTrampoline buf).getD (.inconclusive, 0)

def analyze (m : Memory) (buf : List UInt8) (regionLo : ℕ) (ctx : ProcMemContext) :
    DeepMemoryAnalysis :=
  let ptrs := scanPointers buf ctx.resolver
  let verdict := attributeRegion m buf regionLo ctx ptrs
  { origin := verdict.1
    confidence := verdict.2
    entropy := m.shannon buf
    prologue := detectPrologue buf
    resolvedPointers := ptrs.map fun p => ⟨p.1⟩
    imageHeader := hasImageHeader buf }

/-! ### Regions of a process -/

def isRwxCandidate (src : String) : Bool :=
  contains src "rwx" || contains src "exec-" || src == "maps-anon-rx"

inductive Note where
  | unreadable (pid : UInt32) (addr kind : String)
  | budget (pid : UInt32) (skipped : ℕ)
  | ghostUnreadable (pid : UInt32) (addr : String)
  | ghostBudget (pid : UInt32) (skipped : ℕ)
deriving DecidableEq, Repr

/-- The loop over the findings of a process: those that were not skipped take from the budget, also
where the memory cannot be read. -/
structure Enriched where
  findings : List LibraryInjectionFinding
  skipped : ℕ
  notes : List Note

/-- The start of a region, as its address says. -/
def regionStart (addr : String) : Option ℕ :=
  fromStrRadix16 (String.ofList (addr.toList.takeWhile (· != '-')))

def enrichLoop (m : Memory) (pid : UInt32) (ctx : ProcMemContext) :
    ℕ → List LibraryInjectionFinding → Enriched
  | _, [] => ⟨[], 0, []⟩
  | budget, f :: rest =>
      if isRwxCandidate f.source && f.deepForensics.isNone then
        match budget with
        | 0 =>
            let e := enrichLoop m pid ctx 0 rest
            ⟨f :: e.findings, e.skipped + 1, e.notes⟩
        | budget + 1 =>
            match f.regionAddr.bind fun addr => (regionStart addr).map fun lo => (addr, lo) with
            | none =>
                let e := enrichLoop m pid ctx (budget + 1) rest
                ⟨f :: e.findings, e.skipped, e.notes⟩
            | some (addr, lo) =>
                let e := enrichLoop m pid ctx budget rest
                match m.readAt pid lo with
                | .ok buf =>
                    ⟨{ f with deepForensics := some (analyze m (buf.take deepReadLen) lo ctx) } ::
                      e.findings, e.skipped, e.notes⟩
                | .error kind =>
                    ⟨f :: e.findings, e.skipped, .unreadable pid addr kind :: e.notes⟩
      else
        let e := enrichLoop m pid ctx budget rest
        ⟨f :: e.findings, e.skipped, e.notes⟩

/-- The findings of a process with the analysis of their regions. -/
def enrich (m : Memory) (findings : List LibraryInjectionFinding) (pid : UInt32)
    (ctx : ProcMemContext) : List LibraryInjectionFinding × List Note :=
  let e := enrichLoop m pid ctx maxDeepRegions findings
  (e.findings, e.notes ++ if 0 < e.skipped then [.budget pid e.skipped] else [])

/-! ### Deleted libraries -/

def ghostMaxBytes : ℕ := 32 * 1024 * 1024

inductive ElfKind where
  | dyn
  | exec
  | otherType (n : ℕ)
  | notElf
deriving DecidableEq, Repr

def classifyElfHead (head : List UInt8) : ElfKind :=
  if head.length < 18 ∨ !([0x7F, 0x45, 0x4C, 0x46].isPrefixOf head) then .notElf
  else
    let type := (head.drop 16).take 2
    match fromLe (if head[5]? = some 2 then type.reverse else type) with
    | 2 => .exec
    | 3 => .dyn
    | other => .otherType other

/-- A mapped file, as its reads and `fstat` show it. -/
structure GhostFile where
  content : List UInt8
  size : ℕ
  nlink : ℕ
  uid : UInt32
  mtime : ℤ

structure GhostScan where
  entropy : Ieee
  kind : ElfKind
  bytesRead : ℕ
  truncated : Bool

def scanGhostFile (shannon : List UInt8 → Ieee) (f : GhostFile) : GhostScan :=
  let read := f.content.take ghostMaxBytes
  { entropy := shannon read
    kind := classifyElfHead (read.take 18)
    bytesRead := read.length
    truncated := decide (read.length < f.size) }

/-- Sums saturate at 255 and are capped at 95. -/
def nudge (confidence : ℕ) (nudges : List Bool) : UInt8 :=
  UInt8.ofNat (min (confidence + 5 * nudges.count true) 95)

def ghostAnalysis (scan : GhostScan) (f : GhostFile) (euid : UInt32) (startEpoch : Option ℕ) :
    DeepMemoryAnalysis :=
  if scan.bytesRead = 0 then { origin := .ghostInconclusive, confidence := 0 }
  else
    let validImage := scan.kind == .dyn || scan.kind == .exec
    if scan.entropy.geHalves 14 || !validImage then
      let selfOwned := f.uid == euid && euid != 0
      let fresh := startEpoch.any fun s => decide ((s : ℤ) ≤ f.mtime)
      { origin := .ghostSuspectImage
        confidence := nudge 75 [selfOwned, fresh, f.nlink == 0]
        entropy := scan.entropy }
    else if !scan.truncated && scan.entropy.ltHalves 13 then
      { origin := .ghostCleanImage
        confidence := nudge 85 [decide (1 ≤ f.nlink)]
        entropy := scan.entropy }
    else { origin := .ghostInconclusive, confidence := 0, entropy := scan.entropy }

/-- What the ghost analysis asks the machine. -/
structure Ghosts where
  /-- `/proc/<pid>/map_files/<addr>`, where it can be read. -/
  mapFile : UInt32 → String → Option GhostFile
  euid : UInt32
  startEpoch : UInt32 → Option ℕ

def enrichGhostsLoop (m : Memory) (g : Ghosts) (pid : UInt32) :
    ℕ → List LibraryInjectionFinding → Enriched
  | _, [] => ⟨[], 0, []⟩
  | budget, f :: rest =>
      if f.source == "maps-so-unlink-on-load" && f.deepForensics.isNone then
        match budget with
        | 0 =>
            let e := enrichGhostsLoop m g pid 0 rest
            ⟨f :: e.findings, e.skipped + 1, e.notes⟩
        | budget + 1 =>
            match f.regionAddr with
            | none =>
                let e := enrichGhostsLoop m g pid (budget + 1) rest
                ⟨f :: e.findings, e.skipped, e.notes⟩
            | some addr =>
                let e := enrichGhostsLoop m g pid budget rest
                match g.mapFile pid addr with
                | some file =>
                    let d := ghostAnalysis (scanGhostFile m.shannon file) file g.euid
                      (g.startEpoch pid)
                    ⟨{ f with deepForensics := some d } :: e.findings, e.skipped, e.notes⟩
                | none => ⟨f :: e.findings, e.skipped, .ghostUnreadable pid addr :: e.notes⟩
      else
        let e := enrichGhostsLoop m g pid budget rest
        ⟨f :: e.findings, e.skipped, e.notes⟩

def enrichGhosts (m : Memory) (g : Ghosts) (findings : List LibraryInjectionFinding)
    (pid : UInt32) : List LibraryInjectionFinding × List Note :=
  let e := enrichGhostsLoop m g pid maxDeepRegions findings
  (e.findings, e.notes ++ if 0 < e.skipped then [.ghostBudget pid e.skipped] else [])

/-! ### What enrichment leaves -/

/-- The same finding, perhaps with an analysis. -/
structure SameRegion (f g : LibraryInjectionFinding) : Prop where
  eq : { g with deepForensics := f.deepForensics } = f

theorem SameRegion.refl (f : LibraryInjectionFinding) : SameRegion f f := ⟨rfl⟩

theorem SameRegion.with (f : LibraryInjectionFinding) (d : DeepMemoryAnalysis) :
    SameRegion f { f with deepForensics := some d } := ⟨rfl⟩

theorem SameRegion.trans {f g h : LibraryInjectionFinding} (hfg : SameRegion f g)
    (hgh : SameRegion g h) : SameRegion f h := by
  constructor
  rw [← hfg.eq, ← hgh.eq]

theorem enrichLoop_same (m : Memory) (pid : UInt32) (ctx : ProcMemContext) (budget : ℕ)
    (findings : List LibraryInjectionFinding) :
    List.Forall₂ SameRegion findings (enrichLoop m pid ctx budget findings).findings := by
  induction findings generalizing budget with
  | nil => exact .nil
  | cons f rest ih =>
      unfold enrichLoop
      split
      · split
        · exact .cons (.refl f) (ih 0)
        · rename_i budget
          split
          · exact .cons (.refl f) (ih (budget + 1))
          · dsimp only
            split
            · exact .cons (.with f _) (ih budget)
            · exact .cons (.refl f) (ih budget)
      · exact .cons (.refl f) (ih budget)

theorem enrichGhostsLoop_same (m : Memory) (g : Ghosts) (pid : UInt32) (budget : ℕ)
    (findings : List LibraryInjectionFinding) :
    List.Forall₂ SameRegion findings (enrichGhostsLoop m g pid budget findings).findings := by
  induction findings generalizing budget with
  | nil => exact .nil
  | cons f rest ih =>
      unfold enrichGhostsLoop
      split
      · split
        · exact .cons (.refl f) (ih 0)
        · rename_i budget
          split
          · exact .cons (.refl f) (ih (budget + 1))
          · dsimp only
            split
            · exact .cons (.with f _) (ih budget)
            · exact .cons (.refl f) (ih budget)
      · exact .cons (.refl f) (ih budget)

theorem enrich_same (m : Memory) (pid : UInt32) (ctx : ProcMemContext)
    (findings : List LibraryInjectionFinding) :
    List.Forall₂ SameRegion findings (enrich m findings pid ctx).1 :=
  enrichLoop_same m pid ctx maxDeepRegions findings

theorem enrichGhosts_same (m : Memory) (g : Ghosts) (pid : UInt32)
    (findings : List LibraryInjectionFinding) :
    List.Forall₂ SameRegion findings (enrichGhosts m g findings pid).1 :=
  enrichGhostsLoop_same m g pid maxDeepRegions findings

end Deep
end OwlzopsMapper
