import OwlzopsMapper.Compare.Report
import OwlzopsMapper.Scoring.Evaluate

/-! # Reading a hostile report

Release builds check arithmetic: an operation out of range panics.  The functions that read
reports of other machines perform few such operations on what they read: sums and differences,
shifts, indices and slices (`Operation`).  `ComparePerforms`, `EvaluatePerforms` and
`ScorePerforms` list them, each under the guards that stand before it in the source.

The guards of `evaluate` and `score` suffice for every report that fits in memory
(`evaluate_in_range`, `score_in_range`).  `compare_reports` has no guard on two fields
(**`readers_finish_iff`**): the package count of the older report and the bit numbers of the taint
flags of the newer one. -/

namespace OwlzopsMapper

open Rust

/-- An operation that panics out of its range. -/
inductive Operation where
  /-- A sum of unsigned integers of this width. -/
  | add (bits a b : ℕ)
  /-- A difference of unsigned integers. -/
  | sub (a b : ℕ)
  /-- A shift of an unsigned integer of this width. -/
  | shl (bits k : ℕ)
  /-- An element of a slice of this length. -/
  | index (length i : ℕ)
  /-- The first elements of a slice of this length. -/
  | sliceTo (length n : ℕ)
  /-- The text from a byte on. -/
  | sliceFrom (s : String) (n : ℕ)

/-- The byte position is between two characters of the text, or at an end. -/
def isCharBoundary (s : String) (n : ℕ) : Prop :=
  ∃ k, ((s.toList.take k).map Char.utf8Size).sum = n

def Operation.InRange : Operation → Prop
  | .add bits a b => a + b < 2 ^ bits
  | .sub a b => b ≤ a
  | .shl bits k => k < bits
  | .index length i => i < length
  | .sliceTo length n => n ≤ length
  | .sliceFrom s n => isCharBoundary s n

/-- The lists of a report that is in memory have fewer than `2 ^ 64` elements together. -/
structure AgentReport.InMemory (r : AgentReport) : Prop where
  lengths : r.security.ebpfInventory.programs.length + r.security.ebpfInventory.maps.length +
    r.security.ebpfInventory.links.length + r.security.ebpfInventory.pins.length +
    r.security.libraryInjections.length + r.security.capabilityAudit.length < 2 ^ 64

/-! ### What is performed -/

/-- The operations of `compare_reports`. -/
inductive ComparePerforms (before after : AgentReport) : Operation → Prop where
  | installedCount (h : before.packages.installedCount ≠ after.packages.installedCount) :
      ComparePerforms before after (.add 64 before.packages.installedCount.toNat 50)
  | taintBit (h : Compare.newlyTainted before after ≠ 0) {f : TaintFlag}
      (hf : f ∈ after.security.kernelTaint.flags) :
      ComparePerforms before after (.shl 64 f.bit.toNat)

/-- The operations of `evaluate` and the functions it calls. -/
inductive EvaluatePerforms (m : Machine) (r : AgentReport) : Operation → Prop where
  /-- `evidence_list` on a list it has to shorten. -/
  | evidenceSlice (items : List String) (limit : ℕ) (h : ¬ items.length ≤ limit) :
      EvaluatePerforms m r (.sliceTo items.length limit)
  | evidenceMore (items : List String) (limit : ℕ) (h : ¬ items.length ≤ limit) :
      EvaluatePerforms m r (.sub items.length limit)
  /-- How many leaks are not shown. -/
  | leaksMore (leaks : List SecretLeak) (h : 3 < leaks.length) :
      EvaluatePerforms m r (.sub leaks.length 3)
  /-- One more region of a process, on top of those before it in the bucket. -/
  | regionCount (b : MemBucket) (key : String) {pre post : List LibraryInjectionFinding}
      {f : LibraryInjectionFinding} (h : bucket m r b = pre ++ f :: post) :
      EvaluatePerforms m r (.add 64 (pre.filter fun g => g.processKey == key).length 1)
  /-- One more process with capabilities that listens, or listens on a wildcard address. -/
  | capCount (p : ProcCapFinding → Bool) {pre post : List ProcCapFinding} {f : ProcCapFinding}
      (h : (r.security.capabilityAudit.filter fun f => !f.criticalCaps.isEmpty) =
        pre ++ f :: post) : EvaluatePerforms m r (.add 64 (pre.filter p).length 1)
  | ebpfMaps : EvaluatePerforms m r (.add 64 r.security.ebpfInventory.programs.length
      r.security.ebpfInventory.maps.length)
  | ebpfLinks : EvaluatePerforms m r (.add 64 (r.security.ebpfInventory.programs.length +
      r.security.ebpfInventory.maps.length) r.security.ebpfInventory.links.length)
  | ebpfPins : EvaluatePerforms m r (.add 64 (r.security.ebpfInventory.programs.length +
      r.security.ebpfInventory.maps.length + r.security.ebpfInventory.links.length)
      r.security.ebpfInventory.pins.length)
  /-- `decode_mask` tries every bit. -/
  | maskBit {b : ℕ} (h : b ∈ List.range 64) : EvaluatePerforms m r (.shl 64 b)
  | escapeCap {c : ℕ × String} (h : c ∈ containerEscapeCaps) : EvaluatePerforms m r (.shl 64 c.1)
  /-- A declared capability that has a name. -/
  | declaredCap {entry : String} {b : ℕ} (h : capNameToBit entry = some b) :
      EvaluatePerforms m r (.shl 64 b)
  /-- The name after its prefix, when the first four bytes are text and spell the prefix. -/
  | bareCap {n : String} (h : eqIgnoreAsciiCase (String.ofList (n.toList.take 4)) "CAP_" = true) :
      EvaluatePerforms m r (.sliceFrom n 4)
  | worstUnit (h : r.security.systemdHardening ≠ []) :
      EvaluatePerforms m r (.index r.security.systemdHardening.length 0)

/-- The additions of `score`; its accumulators saturate. -/
inductive ScorePerforms (findings : List Finding) : Operation → Prop where
  | axes : ScorePerforms findings
      (.add 8 (score findings).security.toNat (score findings).reliability.toNat)
  | total : ScorePerforms findings (.add 8 ((score findings).security.toNat +
      (score findings).reliability.toNat) (score findings).hygiene.toNat)

/-! ### What is in range -/

theorem score_in_range (findings : List Finding) {op : Operation}
    (h : ScorePerforms findings op) : op.InRange := by
  obtain ⟨hs, hr, hh⟩ := score_axes_toNat findings
  cases h with
  | axes =>
      show _ < 2 ^ 8
      omega
  | total =>
      show _ < 2 ^ 8
      omega

/-- Only ASCII letters have these lower-case forms. -/
theorem utf8Size_of_toLower {c : Char} (h : c.toLower.toNat < 128) : c.utf8Size = 1 := by
  have hascii : c.toNat < 128 := by
    unfold Char.toLower at h
    split at h
    · rename_i hupper
      have hle := UInt32.le_iff_toNat_le.mp hupper.2
      have hz : 'Z'.val.toNat = 90 := rfl
      show c.val.toNat < 128
      omega
    · exact h
  have hmax : (127 : UInt32).toNat = 127 := rfl
  have hval : c.val.toNat < 128 := hascii
  apply Char.utf8Size_eq_one_iff.mpr
  apply UInt32.le_iff_toNat_le.mpr
  omega

/-- A text that starts with the prefix in any case can be cut after it. -/
theorem isCharBoundary_four {n : String}
    (h : eqIgnoreAsciiCase (String.ofList (n.toList.take 4)) "CAP_" = true) :
    isCharBoundary n 4 := by
  refine ⟨4, ?_⟩
  unfold eqIgnoreAsciiCase at h
  rw [beq_iff_eq, String.toList_ofList] at h
  have hsizes : ∀ c ∈ n.toList.take 4, c.utf8Size = 1 := by
    intro c hc
    have hlower : c.toLower ∈ "CAP_".toList.map Char.toLower := h ▸ List.mem_map_of_mem hc
    have hall : ("CAP_".toList.map Char.toLower).all (fun d => decide (d.toNat < 128)) = true := by
      decide
    exact utf8Size_of_toLower (of_decide_eq_true (List.all_eq_true.mp hall _ hlower))
  have hlength : (n.toList.take 4).length = 4 := by
    rw [← List.length_map (f := Char.toLower), h]
    rfl
  rw [List.map_congr_left hsizes, List.map_const', List.sum_replicate, hlength]
  rfl

theorem length_filter_lt {α : Type} (p : α → Bool) {l pre post : List α} {x : α}
    (h : l = pre ++ x :: post) : (pre.filter p).length + 1 ≤ l.length := by
  have hle := List.length_filter_le p pre
  rw [h, List.length_append, List.length_cons]
  omega

theorem evaluate_in_range (m : Machine) {r : AgentReport} (hr : r.InMemory) {op : Operation}
    (h : EvaluatePerforms m r op) : op.InRange := by
  have hlengths := hr.lengths
  cases h with
  | evidenceSlice items limit h =>
      show limit ≤ items.length
      omega
  | evidenceMore items limit h =>
      show limit ≤ items.length
      omega
  | leaksMore leaks h =>
      show 3 ≤ leaks.length
      omega
  | regionCount b key h =>
      have hlt := length_filter_lt (fun g => g.processKey == key) h
      have hle : (bucket m r b).length ≤ r.security.libraryInjections.length :=
        List.length_filter_le _ _
      show _ < 2 ^ 64
      omega
  | capCount p h =>
      have hlt := length_filter_lt p h
      have hle := List.length_filter_le (fun f => !f.criticalCaps.isEmpty) r.security.capabilityAudit
      show _ < 2 ^ 64
      omega
  | ebpfMaps =>
      show _ < 2 ^ 64
      omega
  | ebpfLinks =>
      show _ < 2 ^ 64
      omega
  | ebpfPins =>
      show _ < 2 ^ 64
      omega
  | maskBit h => exact List.mem_range.mp h
  | @escapeCap c h =>
      have hall : ∀ c ∈ containerEscapeCaps, c.1 < 64 := by decide
      exact hall c h
  | declaredCap h =>
      obtain ⟨hb, _⟩ := List.findIdx?_eq_some_iff_getElem.mp h
      have hnames : capNames.length = 41 := rfl
      show _ < 64
      omega
  | bareCap h => exact isCharBoundary_four h
  | worstUnit h => exact List.length_pos_of_ne_nil h

/-! ### Both readers -/

/-- `compare_reports` returns exactly when all its operations are in range. -/
theorem compare_ok_iff (escapes : Char → Bool) (before after : AgentReport) :
    (∃ d, compareReports escapes before after = .ok d) ↔
      ∀ op, ComparePerforms before after op → op.InRange := by
  have hok : (∃ d, compareReports escapes before after = .ok d) ↔
      compareOverflows before after = false := by
    constructor
    · rintro ⟨d, hd⟩
      exact (compareReports_ok_iff.mp hd).1
    · intro h
      exact ⟨_, compareReports_of_safe escapes h⟩
  rw [hok, compareOverflows, Bool.or_eq_false_iff]
  constructor
  · rintro ⟨hcount, htaint⟩ op hop
    cases hop with
    | installedCount h =>
        simp only [countOverflows, bne_iff_ne.mpr h, Bool.true_and, decide_eq_false_iff_not,
          Nat.not_le] at hcount
        exact hcount
    | taintBit h hf =>
        simp only [taintOverflows, bne_iff_ne.mpr h, Bool.true_and, List.any_eq_false] at htaint
        have hbit := htaint _ hf
        rw [decide_eq_true_iff, Nat.not_le] at hbit
        exact hbit
  · intro h
    constructor
    · rw [countOverflows, Bool.and_eq_false_imp]
      intro hne
      have hlt : _ < 2 ^ 64 := h _ (.installedCount (bne_iff_ne.mp hne))
      exact decide_eq_false (by omega)
    · rw [taintOverflows, Bool.and_eq_false_imp]
      intro hne
      rw [List.any_eq_false]
      intro f hf
      have hlt : _ < 64 := h _ (.taintBit (bne_iff_ne.mp hne) hf)
      rw [decide_eq_true_iff]
      omega

/-- **Which reports can be read without a panic**: for any two reports in memory, the comparison
returns and the evaluation and score of either perform no operation out of range, exactly when the
older package count leaves room for 50 more or equals the newer one, and no taint flag of the newer
report has a bit number beyond 63 or no bit is newly set. -/
theorem readers_finish_iff (escapes : Char → Bool) (m : Machine) (before after : AgentReport)
    (hbefore : before.InMemory) (hafter : after.InMemory) :
    ((∃ d, compareReports escapes before after = .ok d) ∧
      (∀ r ∈ [before, after], ∀ op, EvaluatePerforms m r op → op.InRange) ∧
      ∀ r ∈ [before, after], ∀ op, ScorePerforms (evaluate m r) op → op.InRange) ↔
    (before.packages.installedCount = after.packages.installedCount ∨
      before.packages.installedCount.toNat + 50 < 2 ^ 64) ∧
    (after.security.kernelTaint.raw &&& ~~~before.security.kernelTaint.raw = 0 ∨
      ∀ f ∈ after.security.kernelTaint.flags, f.bit.toNat < 64) := by
  have hevaluate : ∀ r ∈ [before, after], ∀ op, EvaluatePerforms m r op → op.InRange := by
    intro r hr op hop
    rcases List.mem_cons.mp hr with rfl | hr
    · exact evaluate_in_range m hbefore hop
    · obtain rfl := List.mem_singleton.mp hr
      exact evaluate_in_range m hafter hop
  have hscore : ∀ r ∈ [before, after], ∀ op, ScorePerforms (evaluate m r) op → op.InRange :=
    fun r _ op hop => score_in_range _ hop
  rw [compare_ok_iff]
  constructor
  · rintro ⟨hcompare, _, _⟩
    constructor
    · by_cases h : before.packages.installedCount = after.packages.installedCount
      · exact .inl h
      · exact .inr (hcompare _ (.installedCount h))
    · by_cases h : Compare.newlyTainted before after = 0
      · exact .inl h
      · exact .inr fun f hf => hcompare _ (.taintBit h hf)
  · rintro ⟨hcount, htaint⟩
    refine ⟨?_, hevaluate, hscore⟩
    intro op hop
    cases hop with
    | installedCount h => exact hcount.resolve_left h
    | taintBit h hf => exact htaint.resolve_left h _ hf

/-- A report with a new taint bit, under flags the sender made up. -/
def forgedTaint (bit : UInt8) : AgentReport :=
  { security := { kernelTaint := { raw := 4096, flags := [{ bit, code := 'O', name := "oot" }] } } }

/-- An honest bit number is read without a panic. -/
theorem readers_finish_honest :
    (forgedTaint 12).security.kernelTaint.flags ≠ [] ∧
    (∃ d, compareReports (fun _ => false) {} (forgedTaint 12) = .ok d) ∧
    ∀ op, ScorePerforms (evaluate Machine.blind (forgedTaint 12)) op → op.InRange :=
  have h := (readers_finish_iff (fun _ => false) Machine.blind {} (forgedTaint 12)
    ⟨by decide⟩ ⟨by decide⟩).mpr ⟨.inl rfl, .inr (by decide)⟩
  ⟨by decide, h.1, fun op => h.2.2 _ (.tail _ (.head _)) op⟩

/-- A bit number of 64 makes the comparison panic, as does a package count at the limit. -/
theorem hostile_report_panics :
    compareReports (fun _ => false) {} (forgedTaint 64) = .error .shl ∧
    compareReports (fun _ => false) { packages := { installedCount := 0xffffffffffffffff } } {} =
      .error .add := by
  have hshl : countOverflows {} (forgedTaint 64) = false ∧ taintOverflows {} (forgedTaint 64) = true := by
    decide
  have hadd : countOverflows { packages := { installedCount := 0xffffffffffffffff } } {} = true := by
    decide
  constructor
  · rw [compareReports, hshl.1, hshl.2]
    rfl
  · rw [compareReports, hadd]
    rfl

end OwlzopsMapper
