import OwlzopsMapper.Scanners.GhostPid

/-! # The pids that are probed

What the fallback probe of `ghost_pid.rs` looks up, for every value of `pid_max` and of the
allocator's cursor.  **The probed ranges are disjoint, lie inside the pid range and fill it, or the
gap is reported** (`sync_probe_covers`); a scan that has to guess the range says so
(`ProbeCovers.disclosed`). -/

namespace OwlzopsMapper
namespace GhostPid

/-! ### Ranges -/

theorem mem_pidRange {lo hi p : UInt32} : p ∈ pidRange lo hi ↔ lo ≤ p ∧ p ≤ hi := by
  have hhi := hi.toNat_lt
  rw [UInt32.le_iff_toNat_le, UInt32.le_iff_toNat_le]
  unfold pidRange
  rw [List.mem_map]
  constructor
  · rintro ⟨n, hn, rfl⟩
    rw [List.mem_range'_1] at hn
    rw [UInt32.toNat_ofNat', Nat.mod_eq_of_lt (by omega)]
    omega
  · rintro ⟨hlo, hle⟩
    refine ⟨p.toNat, ?_, UInt32.ofNat_toNat⟩
    rw [List.mem_range'_1]
    omega

theorem nodup_pidRange (lo hi : UInt32) : (pidRange lo hi).Nodup := by
  have hhi := hi.toNat_lt
  unfold pidRange
  refine List.Nodup.map_on (fun m hm n hn h => ?_) List.nodup_range'
  rw [List.mem_range'_1] at hm hn
  have := congrArg UInt32.toNat h
  rw [UInt32.toNat_ofNat', UInt32.toNat_ofNat', Nat.mod_eq_of_lt (by omega),
    Nat.mod_eq_of_lt (by omega)] at this
  exact this

/-! ### Bounds -/

variable {pidMaxRead nsLastPid : Option UInt32}

theorem le_of_if (a b : UInt32) : (if a ≤ b then a else b) ≤ b := by
  split
  · assumption
  · exact UInt32.le_refl b

/-- The upper bound is in the range, and a tail starts right behind it and ends where the range
does. -/
theorem pidScanBounds_spec {upper : UInt32} {tail : Option (UInt32 × UInt32)}
    {known : Option UInt32} (h : pidScanBounds pidMaxRead nsLastPid = (upper, tail, known)) :
    known = pidMaxRead ∧ upper ≤ pidMaxRead.getD pidMaxFallback ∧
      ∀ lo hi, tail = some (lo, hi) → upper < pidMaxRead.getD pidMaxFallback ∧ lo = upper + 1 ∧
        hi = pidMaxRead.getD pidMaxFallback := by
  unfold pidScanBounds at h
  simp only [Prod.mk.injEq] at h
  obtain ⟨rfl, rfl, rfl⟩ := h
  refine ⟨rfl, le_of_if _ _, fun lo hi htail => ?_⟩
  split at htail
  · rename_i hcond
    rw [Bool.and_eq_true, decide_eq_true_iff, decide_eq_true_iff] at hcond
    rw [Option.some.injEq, Prod.mk.injEq] at htail
    exact ⟨hcond.2, htail.1.symm, htail.2.symm⟩
  · cases htail

/-- The successor of a pid below the end of the range. -/
theorem toNat_succ {upper pidMax : UInt32} (h : upper < pidMax) :
    (upper + 1).toNat = upper.toNat + 1 := by
  have hlt : upper.toNat < pidMax.toNat := h
  have hmax := pidMax.toNat_lt
  rw [UInt32.toNat_add]
  exact Nat.mod_eq_of_lt (by have : (1 : UInt32).toNat = 1 := rfl; omega)

/-! ### Coverage -/

/-- The end of the pid range, or the guess for it. -/
def GhostHost.pidEnd (h : GhostHost) : UInt32 := h.pidMax.getD pidMaxFallback

def GhostHost.upper (h : GhostHost) : UInt32 := (pidScanBounds h.pidMax h.nsLastPid).1

def GhostHost.tail (h : GhostHost) : Option (UInt32 × UInt32) :=
  (pidScanBounds h.pidMax h.nsLastPid).2.1

/-- The gap is reported. -/
def GhostHost.gap (h : GhostHost) : Bool :=
  shouldReportScanGap h.upper h.tail (pidScanBounds h.pidMax h.nsLastPid).2.2

/-- What the fallback probe of a host looks up is accounted for. -/
structure ProbeCovers (h : GhostHost) : Prop where
  /-- The pids are those of the range from 1 and of the tail behind it. -/
  ranges : probedPids h false = pidRange 1 h.upper ++ match h.tail with
    | none => []
    | some (lo, hi) => pidRange lo hi
  disjoint : (probedPids h false).Nodup
  inside : ∀ p ∈ probedPids h false, 1 ≤ p ∧ p ≤ h.pidEnd
  all : h.gap = false → ∀ p, 1 ≤ p → p ≤ h.pidEnd → p ∈ probedPids h false
  /-- An unreadable `pid_max` counts as a gap, and a scan that runs records it. -/
  unknown : h.pidMax = none → h.gap = true
  disclosed : h.pidMax = none → ∀ deep, (h.hidepid && !deep) = false →
    ∃ note ∈ (detect h deep).2, ∀ v, scanGapNote h v = some note
  /-- The multiplication is one of `u64`. -/
  product : h.pidEnd.toNat * (wrapTailFraction - 1) < 2 ^ 64
  /-- The first pid of the tail, and the one the note names. -/
  successor : h.tail.isSome = true ∨ (h.pidMax.isSome = true ∧ h.gap = true) →
    (h.upper + 1).toNat = h.upper.toNat + 1

theorem probedPids_eq (h : GhostHost) :
    probedPids h false = pidRange 1 h.upper ++ match h.tail with
      | none => []
      | some (lo, hi) => pidRange lo hi := rfl

theorem upper_le (h : GhostHost) : h.upper ≤ h.pidEnd := (pidScanBounds_spec rfl).2.1

theorem tail_spec {h : GhostHost} {lo hi : UInt32} (htail : h.tail = some (lo, hi)) :
    h.upper < h.pidEnd ∧ lo = h.upper + 1 ∧ hi = h.pidEnd :=
  (pidScanBounds_spec rfl).2.2 lo hi htail

theorem gap_eq (h : GhostHost) : h.gap = match h.pidMax with
    | none => true
    | some pidMax => h.tail.isNone && decide (h.upper < pidMax) := rfl

theorem disjoint_probed (h : GhostHost) : (probedPids h false).Nodup := by
  rw [probedPids_eq]
  cases htail : h.tail with
  | none => simpa using nodup_pidRange 1 h.upper
  | some bounds =>
      obtain ⟨lo, hi⟩ := bounds
      obtain ⟨hlt, rfl, rfl⟩ := tail_spec htail
      refine List.nodup_append.mpr ⟨nodup_pidRange _ _, nodup_pidRange _ _, fun p hp q hq => ?_⟩
      rintro rfl
      have hle := (mem_pidRange.mp hp).2
      have hge := (mem_pidRange.mp hq).1
      rw [UInt32.le_iff_toNat_le] at hle hge
      rw [toNat_succ hlt] at hge
      omega

theorem mem_probed_iff (h : GhostHost) (p : UInt32) : p ∈ probedPids h false ↔
    1 ≤ p ∧ (p ≤ h.upper ∨ (h.tail.isSome = true ∧ h.upper < p ∧ p ≤ h.pidEnd)) := by
  rw [probedPids_eq, List.mem_append, mem_pidRange]
  cases htail : h.tail with
  | none => simp
  | some bounds =>
      obtain ⟨lo, hi⟩ := bounds
      obtain ⟨hlt, rfl, rfl⟩ := tail_spec htail
      have hsucc := toNat_succ hlt
      rw [mem_pidRange]
      have hone : (1 : UInt32).toNat = 1 := rfl
      simp only [UInt32.le_iff_toNat_le, UInt32.lt_iff_toNat_lt, hsucc, hone, Option.isSome_some,
        true_and]
      omega

theorem mem_probed_of_covered {h : GhostHost} (hgap : h.gap = false) {p : UInt32} (hone : 1 ≤ p)
    (hle : p ≤ h.pidEnd) : p ∈ probedPids h false := by
  rw [gap_eq] at hgap
  rw [mem_probed_iff]
  refine ⟨hone, ?_⟩
  cases hmax : h.pidMax with
  | none =>
      rw [hmax] at hgap
      cases hgap
  | some pidMax =>
      have hend : h.pidEnd = pidMax := by
        unfold GhostHost.pidEnd
        rw [hmax]
        rfl
      rw [hmax] at hgap
      rw [hend] at hle ⊢
      simp only [Bool.and_eq_false_iff, decide_eq_false_iff_not] at hgap
      rw [UInt32.le_iff_toNat_le] at hle
      simp only [UInt32.le_iff_toNat_le, UInt32.lt_iff_toNat_lt] at hgap ⊢
      cases htail : h.tail with
      | none =>
          rw [htail] at hgap
          simp at hgap ⊢
          omega
      | some bounds =>
          simp
          omega

/-! ### Disclosure -/

theorem scanGapNote_unknown {h : GhostHost} (hmax : h.pidMax = none) (v v' : CycleView) :
    scanGapNote h v = scanGapNote h v' := by
  unfold scanGapNote pidScanBounds
  rw [hmax]

theorem scanGapNote_isSome {h : GhostHost} (hmax : h.pidMax = none) (v : CycleView) :
    (scanGapNote h v).isSome = true := by
  unfold scanGapNote pidScanBounds
  rw [hmax]
  rfl

/-- A note of one cycle is kept by the cycles behind it. -/
theorem gapNote_runCycles (h : GhostHost) : ∀ (n c : ℕ) (s : ProbeState) (note : String),
    s.gapNote = some note → (runCycles h n c s).gapNote = some note
  | 0, _, _, _, hs => hs
  | n + 1, c, s, note, hs => by
      have hnext : (cycleStep h s (h.cycle c)).gapNote = some note := by
        simp [cycleStep, hs]
      rw [runCycles]
      split
      · exact hnext
      · exact gapNote_runCycles h n (c + 1) _ note hnext

theorem note_of_unknown {h : GhostHost} (hmax : h.pidMax = none) {deep : Bool}
    (hrun : (h.hidepid && !deep) = false) :
    ∃ note ∈ (detect h deep).2, ∀ v, scanGapNote h v = some note := by
  obtain ⟨note, hnote⟩ := Option.isSome_iff_exists.mp (scanGapNote_isSome hmax (h.cycle 0))
  have hfirst : (cycleStep h {} (h.cycle 0)).gapNote = some note := by
    simp [cycleStep, hnote]
  have hprobe : (runCycles h probeCycles 0 {}).gapNote = some note := by
    unfold probeCycles
    rw [runCycles]
    split
    · exact hfirst
    · exact gapNote_runCycles h _ _ _ _ hfirst
  refine ⟨note, ?_, fun v => (scanGapNote_unknown hmax v _).trans hnote⟩
  unfold detect
  rw [hrun]
  simp [probe, hprobe]

/-- **The fallback probe is accounted for** on every host, whatever can be read of its pid range. -/
theorem sync_probe_covers (h : GhostHost) : ProbeCovers h where
  ranges := probedPids_eq h
  disjoint := disjoint_probed h
  inside p hp := by
    obtain ⟨hone, hle⟩ := (mem_probed_iff h p).mp hp
    refine ⟨hone, ?_⟩
    rcases hle with hle | ⟨_, _, hle⟩
    · exact UInt32.le_trans hle (upper_le h)
    · exact hle
  all hgap p := mem_probed_of_covered hgap
  unknown hmax := by rw [gap_eq, hmax]
  disclosed hmax _ := note_of_unknown hmax
  product := by
    have hend := h.pidEnd.toNat_lt
    unfold wrapTailFraction
    omega
  successor hsome := by
    refine @toNat_succ _ h.pidEnd ?_
    rcases hsome with htail | ⟨hmax, hgap⟩
    · obtain ⟨⟨lo, hi⟩, hbounds⟩ := Option.isSome_iff_exists.mp htail
      exact (tail_spec hbounds).1
    · obtain ⟨pidMax, hpid⟩ := Option.isSome_iff_exists.mp hmax
      rw [gap_eq, hpid] at hgap
      simp only [Bool.and_eq_true, decide_eq_true_iff] at hgap
      unfold GhostHost.pidEnd
      rw [hpid]
      exact hgap.2

end GhostPid
end OwlzopsMapper
