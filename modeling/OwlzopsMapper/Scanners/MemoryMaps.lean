import OwlzopsMapper.Models
import OwlzopsMapper.Lib.Sorting
import OwlzopsMapper.Rust.Lines
import OwlzopsMapper.Rust.Panic
import Mathlib.Algebra.BigOperators.Group.List.Basic

/-! # Memory maps

The readers of `/proc/<pid>/maps` that `library_injection.rs` and `deep.rs` share: the size of a
region, the trampoline pool, the clusters of executable regions and the resolver of pointers.

Release builds check arithmetic, so a function that subtracts addresses returns `Except Panic`.

* The ends of a range are subtracted as they stand.  The readers finish on a text exactly if none of
  its executable regions ends before it starts (**`map_readers_finish_iff`**).
* On regions that are not empty and do not overlap the clusters partition the executable regions and
  the resolver is a linear search (**`clusters_and_resolver_exact`**).  One pass over the sorted
  regions carries the end of the last cluster (`merge_spec`), and an address can only be in
  the last interval that does not start after it (`resolve_eq`). -/

namespace Rust

/-- `str::splitn` for a set of characters, on the list of characters. -/
def splitnListP (p : Char → Bool) : ℕ → List Char → List (List Char)
  | 0, _ => []
  | 1, cs => [cs]
  | n + 2, cs =>
      if cs.any p then
        cs.takeWhile (fun c => !p c) ::
          splitnListP p (n + 1) ((cs.dropWhile fun c => !p c).drop 1)
      else [cs]

/-- `line.splitn(n, char::is_whitespace)`. -/
def splitnWhitespace (n : ℕ) (s : String) : List String :=
  (splitnListP isWhitespace n s.toList).map String.ofList

/-- `bytes.get(n) == Some(&a)` on the bytes of a text, for an ASCII character. -/
def byteAt : ℕ → List Char → Char → Bool
  | _, [], _ => false
  | 0, c :: _, a => c == a
  | n + 1, c :: cs, a => c.utf8Size ≤ n + 1 && byteAt (n + 1 - c.utf8Size) cs a

end Rust

namespace OwlzopsMapper
namespace Maps

open Rust Lib

/-! ### Lines -/

/-- The fields of a line, as `splitn(6, char::is_whitespace)` cuts them. -/
structure MapLine where
  addr : String
  perms : Option String
  dev : Option String
  inode : Option String
  path : Option String

def MapLine.parse (line : String) : MapLine :=
  let fields := splitnWhitespace 6 line
  { addr := fields[0]?.getD ""
    perms := fields[1]?
    dev := fields[3]?
    inode := fields[4]?
    path := fields[5]? }

def isExec (perms : String) : Bool := byteAt 2 perms.toList 'x'

def isWrite (perms : String) : Bool := byteAt 1 perms.toList 'w'

/-- The ends of an address range. -/
def parseRange (addr : String) : Option (ℕ × ℕ) := do
  let (lo, hi) ← splitOnce '-' addr
  return (← fromStrRadix16 lo, ← fromStrRadix16 hi)

/-- What both readers of regions take from a line. -/
structure MapRegion where
  lo : ℕ
  hi : ℕ
  exec : Bool
  file : Option String
deriving DecidableEq, Repr

def MapRegion.parse (line : String) : Option MapRegion := do
  let l := MapLine.parse line
  let perms ← l.perms
  let (lo, hi) ← parseRange l.addr
  return ⟨lo, hi, isExec perms, (l.path.map trim).filter fun p => startsWith p "/"⟩

/-- The regions of a text, line by line. -/
def regions (maps : String) : List MapRegion := (lines maps).filterMap MapRegion.parse

/-! ### Sizes -/

def trampMaxBytes : ℕ := 4 * 4096
def trampPoolMin : ℕ := 8
def pageSize : ℕ := 4096

def regionSize (addr : String) : Except Panic (Option ℕ) :=
  match parseRange addr with
  | none => .ok none
  | some (lo, hi) => (sub hi lo).map some

/-- The line is an executable region of a few pages. -/
def isSmallExec (line : String) : Except Panic Bool :=
  let l := MapLine.parse line
  match l.perms with
  | none => .ok false
  | some perms =>
      if isExec perms then
        (regionSize l.addr).map fun size => size.any fun s => decide (s ≤ trampMaxBytes)
      else .ok false

def isTrampolinePool (maps : String) : Except Panic Bool :=
  ((lines maps).mapM isSmallExec).map fun small => decide (trampPoolMin ≤ small.count true)

/-! ### Clusters -/

structure ExecCluster where
  lo : ℕ
  hi : ℕ
  pages : ℕ
  span : ℕ
deriving DecidableEq, Repr

def clusterGap : ℕ := 64 * 1024

/-- The order of pairs. -/
def compareRange (a b : ℕ × ℕ) : Ordering := (compare a.1 b.1).then (compare a.2 b.2)

/-- The loop over the sorted regions; `c` is the last cluster, the only one that changes. A text has
fewer than `2 ^ 63` lines, so `pages` does not overflow. -/
def mergeFrom (c : ExecCluster) : List (ℕ × ℕ) → Except Panic (List ExecCluster)
  | [] => .ok [c]
  | (lo, hi) :: rest =>
      -- `saturating_sub`
      if lo - c.hi ≤ clusterGap then do
        let span ← sub hi c.lo
        mergeFrom { c with hi := hi, pages := c.pages + 1, span := span } rest
      else do
        let span ← sub hi lo
        let out ← mergeFrom ⟨lo, hi, 1, span⟩ rest
        return c :: out

/-- The loop, before there is a cluster. -/
def merge : List (ℕ × ℕ) → Except Panic (List ExecCluster)
  | [] => .ok []
  | (lo, hi) :: rest => do
      let span ← sub hi lo
      mergeFrom ⟨lo, hi, 1, span⟩ rest

/-- The executable regions, in line order. -/
def execRanges (maps : String) : List (ℕ × ℕ) :=
  ((regions maps).filter MapRegion.exec).map fun r => (r.lo, r.hi)

def buildExecClusters (maps : String) : Except Panic (List ExecCluster) :=
  merge (sortBy compareRange (execRanges maps))

/-- The span or the number of pages is that of a code reservation. -/
def isRuntimeReservation (c : ExecCluster) : Bool :=
  decide (8 * 1024 * 1024 ≤ c.span) || decide (16 ≤ c.pages)

def isInsideJitCluster (regionLo : ℕ) (clusters : List ExecCluster) : Bool :=
  clusters.any fun c => isRuntimeReservation c && decide (c.lo ≤ regionLo) && decide (regionLo ≤ c.hi)

/-! ### Pointers -/

structure Interval where
  lo : ℕ
  hi : ℕ
  tag : PointerKind
  label : String
deriving DecidableEq, Repr

/-- What an address of the region points to. Anonymous executable memory is code of a runtime where
the clusters say so. -/
def Interval.ofRegion (clusters : List ExecCluster) (r : MapRegion) : Option Interval :=
  match r.exec, r.file with
  | true, some p => some ⟨r.lo, r.hi, .libText, lastPiece '/' p⟩
  | false, some p => some ⟨r.lo, r.hi, .libData, lastPiece '/' p⟩
  | true, none =>
      some ⟨r.lo, r.hi, if isInsideJitCluster r.lo clusters then .jitCluster else .unmapped, "anon-jit"⟩
  | false, none => none

/-- The intervals of a text, in line order. -/
def intervalsOf (maps : String) (clusters : List ExecCluster) : List Interval :=
  (regions maps).filterMap (Interval.ofRegion clusters)

structure PointerResolver where
  intervals : List Interval

/-- The intervals by their start. The source leaves the order of intervals that start at one
address open. -/
def PointerResolver.build (maps : String) (clusters : List ExecCluster) : PointerResolver :=
  ⟨sortBy (fun a b => compare a.lo b.lo) (intervalsOf maps clusters)⟩

/-- `slice::partition_point`. -/
def partitionPoint {α : Type} (p : α → Bool) (items : List α) : ℕ := (items.takeWhile p).length

def PointerResolver.resolve (r : PointerResolver) (addr : ℕ) : Except Panic (PointerKind × String) :=
  let i := partitionPoint (fun iv => decide (iv.lo ≤ addr)) r.intervals
  if 0 < i then do
    let iv ← index r.intervals (← sub i 1)
    if addr < iv.hi then return (iv.tag, iv.label)
    return (.unmapped, "unmapped")
  else .ok (.unmapped, "unmapped")

structure ProcMemContext where
  clusters : List ExecCluster
  resolver : PointerResolver

def ProcMemContext.build (maps : String) : Except Panic ProcMemContext := do
  let clusters ← buildExecClusters maps
  return ⟨clusters, PointerResolver.build maps clusters⟩

/-! ### Panics -/

theorem map_ok_iff {α β : Type} {x : Except Panic α} {f : α → β} :
    (∃ b, x.map f = .ok b) ↔ ∃ a, x = .ok a := by
  cases x with
  | ok a => exact ⟨fun _ => ⟨a, rfl⟩, fun _ => ⟨f a, rfl⟩⟩
  | error e =>
      constructor
      · rintro ⟨b, h⟩
        cases h
      · rintro ⟨a, h⟩
        cases h

theorem isOk_sub_iff {a b : ℕ} : (∃ n, sub a b = .ok n) ↔ b ≤ a := by
  constructor
  · rintro ⟨n, hn⟩
    by_contra h
    rw [sub_of_lt (Nat.not_le.mp h)] at hn
    cases hn
  · intro h
    exact ⟨_, sub_of_le h⟩

/-- No executable region of the text ends before it starts. -/
def Forward (maps : String) : Prop := ∀ r ∈ regions maps, r.exec = true → r.lo ≤ r.hi

instance (maps : String) : Decidable (Forward maps) :=
  inferInstanceAs (Decidable (∀ r ∈ regions maps, r.exec = true → r.lo ≤ r.hi))

/-- A line that makes its size be computed is a region of the text. -/
theorem parse_of_range {line perms : String} {lo hi : ℕ} (hperms : (MapLine.parse line).perms = some perms)
    (hrange : parseRange (MapLine.parse line).addr = some (lo, hi)) :
    ∃ r, MapRegion.parse line = some r ∧ r.lo = lo ∧ r.hi = hi ∧ r.exec = isExec perms := by
  refine ⟨⟨lo, hi, isExec perms,
    ((MapLine.parse line).path.map trim).filter fun p => startsWith p "/"⟩, ?_, rfl, rfl, rfl⟩
  simp only [MapRegion.parse, hperms, hrange]
  rfl

theorem parse_eq_some {line : String} {r : MapRegion} (h : MapRegion.parse line = some r) :
    ∃ perms, (MapLine.parse line).perms = some perms ∧
      parseRange (MapLine.parse line).addr = some (r.lo, r.hi) ∧ r.exec = isExec perms := by
  simp only [MapRegion.parse, Option.bind_eq_bind, Option.bind_eq_some_iff] at h
  obtain ⟨perms, hperms, ⟨lo, hi⟩, hrange, hr⟩ := h
  obtain rfl := Option.some.inj hr
  exact ⟨perms, hperms, hrange, rfl⟩

theorem regionSize_ok_iff {addr : String} : (∃ size, regionSize addr = .ok size) ↔
    ∀ lo hi, parseRange addr = some (lo, hi) → lo ≤ hi := by
  unfold regionSize
  cases hrange : parseRange addr with
  | none => simp
  | some range =>
      obtain ⟨lo, hi⟩ := range
      rw [map_ok_iff, isOk_sub_iff]
      constructor
      · intro h lo' hi' heq
        obtain ⟨rfl, rfl⟩ := Prod.mk.inj (Option.some.inj heq)
        exact h
      · intro h
        exact h lo hi rfl

/-- The size of the region of a line is computed where the line is executable. -/
theorem isSmallExec_ok_iff {line : String} : (∃ small, isSmallExec line = .ok small) ↔
    ∀ r, MapRegion.parse line = some r → r.exec = true → r.lo ≤ r.hi := by
  have hsize : ∀ perms, (MapLine.parse line).perms = some perms → isExec perms = true →
      ((∃ small, isSmallExec line = .ok small) ↔
        ∃ size, regionSize (MapLine.parse line).addr = .ok size) := by
    intro perms hperms hexec
    simp only [isSmallExec, hperms, hexec, if_true]
    exact map_ok_iff
  constructor
  · intro h r hr hexec
    obtain ⟨perms, hperms, hrange, hperm⟩ := parse_eq_some hr
    exact regionSize_ok_iff.mp ((hsize perms hperms (hperm ▸ hexec)).mp h) r.lo r.hi hrange
  · intro h
    cases hperms : (MapLine.parse line).perms with
    | none => exact ⟨false, by simp only [isSmallExec, hperms]⟩
    | some perms =>
        by_cases hexec : isExec perms = true
        · apply (hsize perms hperms hexec).mpr
          apply regionSize_ok_iff.mpr
          intro lo hi hrange
          obtain ⟨r, hr, rfl, rfl, hperm⟩ := parse_of_range hperms hrange
          exact h r hr (hperm.trans hexec)
        · exact ⟨false, by simp only [isSmallExec, hperms, hexec, if_false, Bool.false_eq_true]⟩

theorem mapM_ok_iff {α β : Type} {f : α → Except Panic β} {items : List α} :
    (∃ out, items.mapM f = .ok out) ↔ ∀ a ∈ items, ∃ b, f a = .ok b := by
  induction items with
  | nil => exact ⟨fun _ a ha => absurd ha List.not_mem_nil, fun _ => ⟨[], rfl⟩⟩
  | cons a items ih =>
      rw [List.mapM_cons, List.forall_mem_cons, ← ih]
      cases f a with
      | error e =>
          constructor
          · rintro ⟨out, h⟩
            cases h
          · rintro ⟨⟨b, h⟩, _⟩
            cases h
      | ok b =>
          constructor
          · intro h
            exact ⟨⟨b, rfl⟩, map_ok_iff.mp h⟩
          · rintro ⟨_, h⟩
            exact map_ok_iff.mpr h

theorem isTrampolinePool_ok_iff {maps : String} :
    (∃ pool, isTrampolinePool maps = .ok pool) ↔ Forward maps := by
  rw [isTrampolinePool, map_ok_iff, mapM_ok_iff]
  constructor
  · intro h r hr hexec
    obtain ⟨line, hline, hparse⟩ := List.mem_filterMap.mp hr
    exact isSmallExec_ok_iff.mp (h line hline) r hparse hexec
  · intro h line hline
    apply isSmallExec_ok_iff.mpr
    intro r hr hexec
    exact h r (List.mem_filterMap.mpr ⟨line, hline, hr⟩) hexec

/-! ### One pass over the sorted regions -/

instance : Std.TransCmp compareRange :=
  inferInstanceAs (Std.TransCmp (compareLex (compareOn Prod.fst) (compareOn Prod.snd)))

theorem start_le_of_compareRange {a b : ℕ × ℕ} (h : (compareRange a b).isLE = true) : a.1 ≤ b.1 := by
  by_contra hlt
  have hgt : compare a.1 b.1 = .gt := Nat.compare_eq_gt.mpr (Nat.not_le.mp hlt)
  rw [compareRange, hgt] at h
  cases h

theorem sorted_starts (maps : String) :
    (sortBy compareRange (execRanges maps)).Pairwise fun a b => a.1 ≤ b.1 :=
  (pairwise_sortBy compareRange _).imp start_le_of_compareRange

/-- The loop ends: the end of a region is not below the start of the cluster it is added to. -/
theorem mergeFrom_ok {c : ExecCluster} {rs : List (ℕ × ℕ)} (hstart : ∀ r ∈ rs, c.lo ≤ r.1)
    (hsorted : rs.Pairwise fun a b => a.1 ≤ b.1) (hforward : ∀ r ∈ rs, r.1 ≤ r.2) :
    ∃ out, mergeFrom c rs = .ok out := by
  induction rs generalizing c with
  | nil => exact ⟨[c], rfl⟩
  | cons r rs ih =>
      obtain ⟨lo, hi⟩ := r
      obtain ⟨hc, hstart⟩ := List.forall_mem_cons.mp hstart
      obtain ⟨hlater, hsorted⟩ := List.pairwise_cons.mp hsorted
      obtain ⟨hle, hforward⟩ := List.forall_mem_cons.mp hforward
      rw [mergeFrom]
      split
      · rw [sub_of_le (Nat.le_trans hc hle)]
        exact ih hstart hsorted hforward
      · rw [sub_of_le hle]
        exact map_ok_iff.mpr (ih hlater hsorted hforward)

theorem merge_ok {rs : List (ℕ × ℕ)} (hsorted : rs.Pairwise fun a b => a.1 ≤ b.1)
    (hforward : ∀ r ∈ rs, r.1 ≤ r.2) : ∃ out, merge rs = .ok out := by
  cases rs with
  | nil => exact ⟨[], rfl⟩
  | cons r rs =>
      obtain ⟨lo, hi⟩ := r
      obtain ⟨hlater, hsorted⟩ := List.pairwise_cons.mp hsorted
      obtain ⟨hle, hforward⟩ := List.forall_mem_cons.mp hforward
      rw [merge, sub_of_le hle]
      exact mergeFrom_ok hlater hsorted hforward

theorem mem_execRanges {maps : String} {range : ℕ × ℕ} : range ∈ execRanges maps ↔
    ∃ r ∈ regions maps, r.exec = true ∧ (r.lo, r.hi) = range := by
  simp only [execRanges, List.mem_map, List.mem_filter, and_assoc]

theorem buildExecClusters_ok {maps : String} (h : Forward maps) :
    ∃ out, buildExecClusters maps = .ok out := by
  refine merge_ok (sorted_starts maps) fun range hrange => ?_
  obtain ⟨r, hr, hexec, rfl⟩ := mem_execRanges.mp ((mem_sortBy compareRange).mp hrange)
  exact h r hr hexec

/-- The index is in the slice: the partition point is not after its end. -/
theorem resolve_ok (r : PointerResolver) (addr : ℕ) : ∃ answer, r.resolve addr = .ok answer := by
  unfold PointerResolver.resolve
  have hle : partitionPoint (fun iv => decide (iv.lo ≤ addr)) r.intervals ≤ r.intervals.length :=
    (List.takeWhile_prefix _).length_le
  generalize partitionPoint (fun iv => decide (iv.lo ≤ addr)) r.intervals = i at hle
  by_cases hi : 0 < i
  · obtain ⟨iv, hiv⟩ : ∃ iv, r.intervals[i - 1]? = some iv :=
      ⟨_, List.getElem?_eq_getElem (show i - 1 < r.intervals.length by omega)⟩
    have hindex : index r.intervals (i - 1) = .ok iv := by
      rw [index, hiv]
    dsimp only
    rw [if_pos hi, sub_of_le (show 1 ≤ i from hi)]
    show ∃ answer, (do
      let iv ← index r.intervals (i - 1)
      if addr < iv.hi then return (iv.tag, iv.label)
      return (.unmapped, "unmapped") : Except Panic (PointerKind × String)) = .ok answer
    rw [hindex]
    by_cases hlt : addr < iv.hi
    · exact ⟨(iv.tag, iv.label), if_pos hlt⟩
    · exact ⟨(.unmapped, "unmapped"), if_neg hlt⟩
  · exact ⟨_, if_neg hi⟩

/-- The answer, which there always is. -/
def PointerResolver.answer (r : PointerResolver) (addr : ℕ) : PointerKind × String :=
  match r.resolve addr with
  | .ok answer => answer
  | .error _ => (.unmapped, "unmapped")

theorem resolve_eq_answer (r : PointerResolver) (addr : ℕ) : r.resolve addr = .ok (r.answer addr) := by
  obtain ⟨answer, h⟩ := resolve_ok r addr
  rw [PointerResolver.answer, h]

/-- The readers of a maps text finish: the sizes of its executable regions, the trampoline pool,
the clusters, the resolver and its answer to any address. -/
structure Finishes (maps : String) : Prop where
  sizes : ∀ line ∈ lines maps, ∀ perms, (MapLine.parse line).perms = some perms →
    isExec perms = true → ∃ size, regionSize (MapLine.parse line).addr = .ok size
  pool : ∃ pool, isTrampolinePool maps = .ok pool
  clusters : ∃ out, buildExecClusters maps = .ok out
  context : ∃ ctx, ProcMemContext.build maps = .ok ctx ∧
    ∀ addr, ∃ answer, ctx.resolver.resolve addr = .ok answer

/-- **The readers of a maps text finish exactly if no executable region of it ends before it
starts.** -/
theorem map_readers_finish_iff (maps : String) : Finishes maps ↔ Forward maps := by
  constructor
  · intro h
    exact isTrampolinePool_ok_iff.mp h.pool
  · intro h
    have hclusters := buildExecClusters_ok h
    refine ⟨fun line hline perms hperms hexec => ?_, isTrampolinePool_ok_iff.mpr h, hclusters, ?_⟩
    · apply regionSize_ok_iff.mpr
      intro lo hi hrange
      obtain ⟨r, hr, rfl, rfl, hperm⟩ := parse_of_range hperms hrange
      exact h r (List.mem_filterMap.mpr ⟨line, hline, hr⟩) (hperm.trans hexec)
    · obtain ⟨ctx, hctx⟩ := map_ok_iff.mpr hclusters
      exact ⟨ctx, hctx, resolve_ok ctx.resolver⟩

/-- A range that is written backwards stops the scan. -/
theorem reversed_range_panics : ¬ Finishes "2000-1000 r-xp 00000000 00:00 0 \n" := by
  intro h
  have hforward := isTrampolinePool_ok_iff.mp h.pool
  revert hforward
  decide

/-! ### Disjoint regions -/

/-- No region of the text is empty and no two have an address in common. -/
structure DisjointRegions (maps : String) : Prop where
  nonempty : ∀ r ∈ regions maps, r.lo < r.hi
  apart : (regions maps).Pairwise fun r s => r.hi ≤ s.lo ∨ s.hi ≤ r.lo

theorem eq_or_of_pairwise {α : Type} {R : α → α → Prop} {l : List α} (h : l.Pairwise R) {a b : α}
    (ha : a ∈ l) (hb : b ∈ l) : a = b ∨ R a b ∨ R b a := by
  induction l with
  | nil => exact absurd ha List.not_mem_nil
  | cons c l ih =>
      obtain ⟨hc, hl⟩ := List.pairwise_cons.mp h
      rcases List.mem_cons.mp ha with rfl | hal
      · rcases List.mem_cons.mp hb with rfl | hbl
        · exact .inl rfl
        · exact .inr (.inl (hc b hbl))
      · rcases List.mem_cons.mp hb with rfl | hbl
        · exact .inr (.inr (hc a hal))
        · exact ih hl hal hbl

/-- The clusters of a list of ranges. -/
structure Clustered (ranges : List (ℕ × ℕ)) (out : List ExecCluster) : Prop where
  spans : ∀ c ∈ out, c.lo < c.hi ∧ c.span = c.hi - c.lo
  apart : out.Pairwise fun c d => c.hi + clusterGap < d.lo
  covered : ∀ r ∈ ranges, ∃ c ∈ out, c.lo ≤ r.1 ∧ r.2 ≤ c.hi
  pages : (out.map ExecCluster.pages).sum = ranges.length

/-- What the loop makes of the last cluster and the regions after it. -/
theorem mergeFrom_spec {c : ExecCluster} {rs : List (ℕ × ℕ)} (hc : c.lo < c.hi)
    (hspan : c.span = c.hi - c.lo) (hafter : ∀ r ∈ rs, c.hi ≤ r.1)
    (hascending : rs.Pairwise fun a b => a.2 ≤ b.1) (hnonempty : ∀ r ∈ rs, r.1 < r.2) :
    ∃ d out, mergeFrom c rs = .ok (d :: out) ∧ d.lo = c.lo ∧ c.hi ≤ d.hi ∧
      (∀ e ∈ d :: out, e.lo < e.hi ∧ e.span = e.hi - e.lo) ∧
      ((d :: out).Pairwise fun c d => c.hi + clusterGap < d.lo) ∧
      (∀ r ∈ rs, ∃ e ∈ d :: out, e.lo ≤ r.1 ∧ r.2 ≤ e.hi) ∧
      ((d :: out).map ExecCluster.pages).sum = c.pages + rs.length := by
  induction rs generalizing c with
  | nil =>
      refine ⟨c, [], rfl, rfl, Nat.le_refl _, ?_, List.pairwise_singleton _ _, ?_, ?_⟩
      · intro e he
        obtain rfl := List.mem_singleton.mp he
        exact ⟨hc, hspan⟩
      · exact fun r hr => absurd hr List.not_mem_nil
      · simp
  | cons r rs ih =>
      obtain ⟨lo, hi⟩ := r
      obtain ⟨hfirst, hafter⟩ := List.forall_mem_cons.mp hafter
      obtain ⟨hlater, hascending⟩ := List.pairwise_cons.mp hascending
      obtain ⟨hlt, hnonempty⟩ := List.forall_mem_cons.mp hnonempty
      dsimp only at hfirst hlater hlt
      rw [mergeFrom]
      split
      · -- the region extends the cluster
        rw [sub_of_le (by omega)]
        obtain ⟨d, out, hout, hlo, hhi, hspans, hapart, hcovered, hpages⟩ :=
          ih (c := { c with hi := hi, pages := c.pages + 1, span := hi - c.lo })
            (show c.lo < hi by omega) rfl hlater hascending hnonempty
        dsimp only at hlo hhi hpages
        refine ⟨d, out, hout, hlo, by omega, hspans, hapart, ?_, ?_⟩
        · refine List.forall_mem_cons.mpr ⟨⟨d, List.mem_cons_self, ?_, hhi⟩, hcovered⟩
          show d.lo ≤ lo
          omega
        · rw [hpages, List.length_cons]
          omega
      · -- a new cluster
        rename_i hfar
        rw [sub_of_le (Nat.le_of_lt hlt)]
        obtain ⟨d, out, hout, hlo, hhi, hspans, hapart, hcovered, hpages⟩ :=
          ih (c := ⟨lo, hi, 1, hi - lo⟩) hlt rfl hlater hascending hnonempty
        dsimp only at hlo hhi hpages
        refine ⟨c, d :: out, ?_, rfl, Nat.le_refl _, ?_, ?_, ?_, ?_⟩
        · show (mergeFrom ⟨lo, hi, 1, hi - lo⟩ rs).map (c :: ·) = _
          rw [hout]
          rfl
        · exact List.forall_mem_cons.mpr ⟨⟨hc, hspan⟩, hspans⟩
        · refine List.pairwise_cons.mpr ⟨fun e he => ?_, hapart⟩
          have hd := (hspans d List.mem_cons_self).1
          rcases List.mem_cons.mp he with rfl | he
          · omega
          · have := (List.pairwise_cons.mp hapart).1 e he
            omega
        · have hext : ∀ r : ℕ × ℕ, (∃ e ∈ d :: out, e.lo ≤ r.1 ∧ r.2 ≤ e.hi) →
              ∃ e ∈ c :: d :: out, e.lo ≤ r.1 ∧ r.2 ≤ e.hi := by
            rintro r ⟨e, he, hin⟩
            exact ⟨e, List.mem_cons_of_mem _ he, hin⟩
          refine List.forall_mem_cons.mpr ⟨hext _ ⟨d, List.mem_cons_self, ?_, hhi⟩,
            fun r hr => hext r (hcovered r hr)⟩
          exact Nat.le_of_eq hlo
        · rw [List.map_cons, List.sum_cons, hpages, List.length_cons]
          omega

theorem merge_spec {rs : List (ℕ × ℕ)} (hascending : rs.Pairwise fun a b => a.2 ≤ b.1)
    (hnonempty : ∀ r ∈ rs, r.1 < r.2) : ∃ out, merge rs = .ok out ∧ Clustered rs out := by
  cases rs with
  | nil =>
      exact ⟨[], rfl, fun c hc => absurd hc List.not_mem_nil, List.Pairwise.nil,
        fun r hr => absurd hr List.not_mem_nil, rfl⟩
  | cons r rs =>
      obtain ⟨lo, hi⟩ := r
      obtain ⟨hlater, hascending⟩ := List.pairwise_cons.mp hascending
      obtain ⟨hlt, hnonempty⟩ := List.forall_mem_cons.mp hnonempty
      obtain ⟨d, out, hout, hlo, hhi, hspans, hapart, hcovered, hpages⟩ :=
        mergeFrom_spec (c := ⟨lo, hi, 1, hi - lo⟩) hlt rfl hlater hascending hnonempty
      refine ⟨d :: out, ?_, hspans, hapart, ?_, ?_⟩
      · rw [merge, sub_of_le (Nat.le_of_lt hlt)]
        exact hout
      · exact List.forall_mem_cons.mpr ⟨⟨d, List.mem_cons_self, Nat.le_of_eq hlo, hhi⟩, hcovered⟩
      · rw [hpages, List.length_cons, Nat.add_comm]

/-- Sorted ranges that are not empty and do not overlap end before the next one starts. -/
theorem ascending_execRanges {maps : String} (h : DisjointRegions maps) :
    (sortBy compareRange (execRanges maps)).Pairwise fun a b => a.2 ≤ b.1 := by
  have hnonempty : ∀ range ∈ execRanges maps, range.1 < range.2 := by
    intro range hrange
    obtain ⟨r, hr, _, rfl⟩ := mem_execRanges.mp hrange
    exact h.nonempty r hr
  have hapart : (execRanges maps).Pairwise fun a b => a.2 ≤ b.1 ∨ b.2 ≤ a.1 :=
    List.Pairwise.map _ (fun _ _ h => h) (h.apart.filter MapRegion.exec)
  have hsorted := (sortBy_perm compareRange (execRanges maps)).symm.pairwise hapart
    Or.symm
  refine ((sorted_starts maps).and hsorted).imp_of_mem ?_
  rintro a b ha hb ⟨hle, h | h⟩
  · exact h
  · have := hnonempty b ((mem_sortBy compareRange).mp hb)
    omega

theorem buildExecClusters_spec {maps : String} (h : DisjointRegions maps) :
    ∃ out, buildExecClusters maps = .ok out ∧ Clustered (execRanges maps) out := by
  have hperm := sortBy_perm compareRange (execRanges maps)
  have hnonempty : ∀ range ∈ sortBy compareRange (execRanges maps), range.1 < range.2 := by
    intro range hrange
    obtain ⟨r, hr, _, rfl⟩ := mem_execRanges.mp ((mem_sortBy compareRange).mp hrange)
    exact h.nonempty r hr
  obtain ⟨out, hout, hspec⟩ := merge_spec (ascending_execRanges h) hnonempty
  exact ⟨out, hout, hspec.spans, hspec.apart, fun r hr => hspec.covered r (hperm.mem_iff.mpr hr),
    hspec.pages.trans hperm.length_eq⟩

/-- A range that is not empty is in one cluster only. -/
theorem Clustered.unique {ranges : List (ℕ × ℕ)} {out : List ExecCluster} (h : Clustered ranges out)
    {r : ℕ × ℕ} (hr : r ∈ ranges) (hlt : r.1 < r.2) :
    ∃! c, c ∈ out ∧ c.lo ≤ r.1 ∧ r.2 ≤ c.hi := by
  obtain ⟨c, hc, hin⟩ := h.covered r hr
  refine ⟨c, ⟨hc, hin⟩, ?_⟩
  rintro d ⟨hd, hdin⟩
  -- two clusters that are apart have no address in common
  rcases eq_or_of_pairwise h.apart hd hc with heq | hlt' | hlt'
  · exact heq
  · omega
  · omega

/-! ### The resolver -/

def Interval.contains (iv : Interval) (addr : ℕ) : Bool := decide (iv.lo ≤ addr) && decide (addr < iv.hi)

/-- The answer of a search that looks at every interval. -/
def linearSearch (intervals : List Interval) (addr : ℕ) : PointerKind × String :=
  match intervals.find? fun iv => iv.contains addr with
  | some iv => (iv.tag, iv.label)
  | none => (.unmapped, "unmapped")

/-- No interval is empty and no two have an address in common. -/
structure DisjointIntervals (intervals : List Interval) : Prop where
  nonempty : ∀ iv ∈ intervals, iv.lo < iv.hi
  apart : intervals.Pairwise fun a b => a.hi ≤ b.lo ∨ b.hi ≤ a.lo

theorem ends_of_ofRegion {clusters : List ExecCluster} {r : MapRegion} {iv : Interval}
    (h : Interval.ofRegion clusters r = some iv) : iv.lo = r.lo ∧ iv.hi = r.hi := by
  unfold Interval.ofRegion at h
  split at h
  · obtain rfl := Option.some.inj h
    exact ⟨rfl, rfl⟩
  · obtain rfl := Option.some.inj h
    exact ⟨rfl, rfl⟩
  · obtain rfl := Option.some.inj h
    exact ⟨rfl, rfl⟩
  · cases h

theorem disjoint_intervalsOf {maps : String} (h : DisjointRegions maps) (clusters : List ExecCluster) :
    DisjointIntervals (intervalsOf maps clusters) := by
  constructor
  · intro iv hiv
    obtain ⟨r, hr, hof⟩ := List.mem_filterMap.mp hiv
    obtain ⟨hlo, hhi⟩ := ends_of_ofRegion hof
    have := h.nonempty r hr
    omega
  · refine List.Pairwise.filterMap _ ?_ h.apart
    intro r s hrs a ha b hb
    obtain ⟨halo, hahi⟩ := ends_of_ofRegion ha
    obtain ⟨hblo, hbhi⟩ := ends_of_ofRegion hb
    omega

/-- An address is in one interval at most. -/
theorem DisjointIntervals.unique {intervals : List Interval} (h : DisjointIntervals intervals)
    {addr : ℕ} {a b : Interval} (ha : a ∈ intervals) (hb : b ∈ intervals)
    (hain : a.contains addr = true) (hbin : b.contains addr = true) : a = b := by
  simp only [Interval.contains, Bool.and_eq_true, decide_eq_true_eq] at hain hbin
  rcases eq_or_of_pairwise h.apart ha hb with heq | hlt | hlt
  · exact heq
  · omega
  · omega

theorem linearSearch_of_mem {intervals : List Interval} (h : DisjointIntervals intervals) {addr : ℕ}
    {iv : Interval} (hiv : iv ∈ intervals) (hin : iv.contains addr = true) :
    linearSearch intervals addr = (iv.tag, iv.label) := by
  unfold linearSearch
  cases hfind : intervals.find? fun iv => iv.contains addr with
  | none => exact absurd hin (List.find?_eq_none.mp hfind iv hiv)
  | some other =>
      have hother : other.contains addr = true :=
        List.find?_some (p := fun iv : Interval => iv.contains addr) hfind
      rw [h.unique (List.mem_of_find?_eq_some hfind) hiv hother hin]

theorem linearSearch_of_not_mem {intervals : List Interval} {addr : ℕ}
    (h : ∀ iv ∈ intervals, iv.contains addr = false) :
    linearSearch intervals addr = (.unmapped, "unmapped") := by
  unfold linearSearch
  rw [List.find?_eq_none.mpr fun iv hiv => by simp [h iv hiv]]

/-- An element of the prefix that the predicate cuts off. -/
theorem getElem?_partitionPoint {α : Type} {p : α → Bool} {items : List α}
    (h : 0 < partitionPoint p items) :
    ∃ before a after, items = before ++ a :: after ∧ items[partitionPoint p items - 1]? = some a ∧
      (∀ b ∈ before, p b = true) ∧ p a = true ∧ ∀ b, after.head? = some b → p b = false := by
  unfold partitionPoint at *
  have hne : items.takeWhile p ≠ [] := List.ne_nil_of_length_pos h
  have hsplit := List.takeWhile_append_dropWhile (p := p) (l := items)
  have hpass : ∀ b ∈ items.takeWhile p, p b = true := fun b hb => List.mem_takeWhile_imp hb
  have hstop : ∀ b, (items.dropWhile p).head? = some b → p b = false := by
    intro b hb
    have hnot := List.head?_dropWhile_not p items
    rw [hb] at hnot
    exact hnot
  generalize items.takeWhile p = front at *
  generalize items.dropWhile p = back at *
  subst hsplit
  obtain ⟨before, a, rfl⟩ := List.eq_nil_or_concat front |>.resolve_left hne
  refine ⟨before, a, back, by simp, by simp, fun b hb => ?_, ?_, hstop⟩
  · exact hpass b (by simp [hb])
  · exact hpass a (by simp)

/-- The resolver looks at the last interval that does not start after the address; the intervals
before it have ended, those after it have not begun. -/
theorem resolve_eq {intervals : List Interval} (h : DisjointIntervals intervals)
    (hsorted : intervals.Pairwise fun a b => a.lo ≤ b.lo) (addr : ℕ) :
    (PointerResolver.mk intervals).resolve addr = .ok (linearSearch intervals addr) := by
  unfold PointerResolver.resolve
  dsimp only
  by_cases hpos : 0 < partitionPoint (fun iv => decide (iv.lo ≤ addr)) intervals
  · obtain ⟨before, iv, after, hsplit, hget, _, hle, hstop⟩ := getElem?_partitionPoint hpos
    have hindex : index intervals (partitionPoint (fun iv => decide (iv.lo ≤ addr)) intervals - 1) =
        .ok iv := by
      rw [index, hget]
    rw [if_pos hpos, sub_of_le (show 1 ≤ _ from hpos)]
    show (do
      let iv ← index intervals (partitionPoint (fun iv => decide (iv.lo ≤ addr)) intervals - 1)
      if addr < iv.hi then return (iv.tag, iv.label)
      return (.unmapped, "unmapped") : Except Panic (PointerKind × String)) = _
    rw [hindex]
    have hle : iv.lo ≤ addr := of_decide_eq_true hle
    have hmem : iv ∈ intervals := by rw [hsplit]; simp
    by_cases hlt : addr < iv.hi
    · have hin : iv.contains addr = true := by simp [Interval.contains, hle, hlt]
      rw [linearSearch_of_mem h hmem hin]
      exact if_pos hlt
    · rw [linearSearch_of_not_mem]
      · exact if_neg hlt
      · intro other hother
        rw [hsplit] at hother hsorted
        have hapart := h.apart
        rw [hsplit] at hapart
        obtain ⟨_, htail, hfront⟩ := List.pairwise_append.mp hsorted
        obtain ⟨_, _, hfrontApart⟩ := List.pairwise_append.mp hapart
        simp only [Interval.contains, Bool.and_eq_false_iff, decide_eq_false_iff_not]
        rcases List.mem_append.mp hother with hbefore | hrest
        · -- it ends before the last candidate starts
          have hstart := hfront other hbefore iv List.mem_cons_self
          have hlast := h.nonempty iv hmem
          have := hfrontApart other hbefore iv List.mem_cons_self
          omega
        · rcases List.mem_cons.mp hrest with rfl | hafter
          · exact .inr hlt
          · -- it starts after the address
            left
            cases after with
            | nil => exact absurd hafter List.not_mem_nil
            | cons first rest =>
                have hfirst : ¬ first.lo ≤ addr := of_decide_eq_false (hstop first rfl)
                rcases List.mem_cons.mp hafter with rfl | hafter
                · exact hfirst
                · have hrestSorted := (List.pairwise_cons.mp htail).2
                  have := (List.pairwise_cons.mp hrestSorted).1 other hafter
                  omega
  · rw [if_neg hpos, linearSearch_of_not_mem]
    intro other hother
    simp only [Interval.contains, Bool.and_eq_false_iff, decide_eq_false_iff_not]
    left
    -- the first interval starts after the address already
    cases hcons : intervals with
    | nil => exact absurd (hcons ▸ hother) List.not_mem_nil
    | cons first rest =>
        rw [hcons] at hpos hother hsorted
        have hfirst : ¬ first.lo ≤ addr := by
          intro hle
          have htake : partitionPoint (fun iv => decide (iv.lo ≤ addr)) (first :: rest) =
              partitionPoint (fun iv => decide (iv.lo ≤ addr)) rest + 1 := by
            simp [partitionPoint, hle]
          omega
        rcases List.mem_cons.mp hother with rfl | hother
        · exact hfirst
        · have := (List.pairwise_cons.mp hsorted).1 other hother
          omega

theorem linearSearch_perm {xs ys : List Interval} (hperm : xs.Perm ys) (h : DisjointIntervals ys)
    (addr : ℕ) : linearSearch xs addr = linearSearch ys addr := by
  have hxs : DisjointIntervals xs :=
    ⟨fun iv hiv => h.nonempty iv (hperm.mem_iff.mp hiv), hperm.symm.pairwise h.apart Or.symm⟩
  by_cases hin : ∃ iv ∈ ys, iv.contains addr = true
  · obtain ⟨iv, hiv, hcontains⟩ := hin
    rw [linearSearch_of_mem h hiv hcontains,
      linearSearch_of_mem hxs (hperm.mem_iff.mpr hiv) hcontains]
  · have hnone : ∀ iv ∈ ys, iv.contains addr = false := fun iv hiv =>
      Bool.eq_false_iff.mpr fun hcontains => hin ⟨iv, hiv, hcontains⟩
    rw [linearSearch_of_not_mem hnone,
      linearSearch_of_not_mem fun iv hiv => hnone iv (hperm.mem_iff.mp hiv)]

instance : Std.TransCmp fun a b : Interval => compare a.lo b.lo :=
  inferInstanceAs (Std.TransCmp (compareOn Interval.lo))

theorem resolver_spec {maps : String} (h : DisjointRegions maps) (clusters : List ExecCluster)
    (addr : ℕ) : (PointerResolver.build maps clusters).resolve addr =
      .ok (linearSearch (intervalsOf maps clusters) addr) := by
  have hdisjoint := disjoint_intervalsOf h clusters
  have hperm := sortBy_perm (fun a b : Interval => compare a.lo b.lo) (intervalsOf maps clusters)
  have hsorted := (pairwise_sortBy (fun a b : Interval => compare a.lo b.lo)
    (intervalsOf maps clusters)).imp fun {a b} hab => Nat.isLE_compare.mp hab
  have hbuilt : DisjointIntervals (PointerResolver.build maps clusters).intervals :=
    ⟨fun iv hiv => hdisjoint.nonempty iv (hperm.mem_iff.mp hiv),
      hperm.symm.pairwise hdisjoint.apart Or.symm⟩
  rw [← linearSearch_perm hperm hdisjoint]
  exact resolve_eq hbuilt hsorted addr

/-- **Clusters and resolver are exact on disjoint regions.** The clusters are in the order of their
addresses and more than 64 KiB apart, each executable region is in exactly one of them, the
pages add up to the number of executable regions and a span is the distance of the ends; and the
resolver answers, for every address, what a search through all intervals answers, of which at most
one has the address. -/
theorem clusters_and_resolver_exact {maps : String} (h : DisjointRegions maps) :
    ∃ out, buildExecClusters maps = .ok out ∧
      (out.Pairwise fun c d => c.hi + clusterGap < d.lo) ∧
      (∀ r ∈ regions maps, r.exec = true → ∃! c, c ∈ out ∧ c.lo ≤ r.lo ∧ r.hi ≤ c.hi) ∧
      (out.map ExecCluster.pages).sum = (regions maps).countP MapRegion.exec ∧
      (∀ c ∈ out, c.lo < c.hi ∧ c.span = c.hi - c.lo) ∧
      ∀ addr, (PointerResolver.build maps out).resolve addr =
          .ok (linearSearch (intervalsOf maps out) addr) ∧
        ∀ a ∈ intervalsOf maps out, ∀ b ∈ intervalsOf maps out,
          a.contains addr = true → b.contains addr = true → a = b := by
  obtain ⟨out, hout, hspec⟩ := buildExecClusters_spec h
  refine ⟨out, hout, hspec.apart, fun r hr hexec => ?_, ?_, hspec.spans, fun addr => ⟨?_, ?_⟩⟩
  · exact hspec.unique (mem_execRanges.mpr ⟨r, hr, hexec, rfl⟩) (h.nonempty r hr)
  · rw [hspec.pages, execRanges, List.length_map, ← List.countP_eq_length_filter]
  · exact resolver_spec h out addr
  · exact fun a ha b hb => (disjoint_intervalsOf h out).unique ha hb

/-- The text of a program and a page of anonymous code above it. -/
def textAndJit : String := "7000-8000 rwxp 00000000 00:00 0 \n1000-3000 r-xp 00000000 08:01 7 /bin/a\n"

theorem clusters_of_textAndJit : DisjointRegions textAndJit ∧
    ∃ out, buildExecClusters textAndJit = .ok out ∧ (out.map ExecCluster.pages).sum = 2 := by
  have hread : regions textAndJit =
      [⟨0x7000, 0x8000, true, none⟩, ⟨0x1000, 0x3000, true, some "/bin/a"⟩] := by
    decide +kernel
  have hregions : DisjointRegions textAndJit := by
    constructor
    · rw [hread]
      decide
    · rw [hread]
      decide
  obtain ⟨out, hout, _, _, hpages, _⟩ := clusters_and_resolver_exact hregions
  rw [hread] at hpages
  exact ⟨hregions, out, hout, hpages⟩

end Maps
end OwlzopsMapper
