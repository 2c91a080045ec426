import OwlzopsMapper.Models
import OwlzopsMapper.Rust.Lines
import OwlzopsMapper.Lib.Sorting

/-! # Hidden kernel modules

The scanner of `kernel_modules.rs`: four reads, `/proc/modules`, sysfs, `/proc/kallsyms` and
`/proc/modules` again, reconciled into the names that sysfs or kallsyms show and no snapshot of
`/proc/modules` does (`mem_hidden_iff`).

`ScanRun` is the life of the legitimate modules around the four reads: modules are loaded and
unloaded between any two of them.  A module that is loaded after the first read and gone before
the last is in neither snapshot, and if sysfs or kallsyms was read meanwhile it is reported:
**no legitimate module is reported, and everything hidden is, exactly when no module comes and
goes like that** (`kernel_modules_exact_iff`). -/

namespace OwlzopsMapper
namespace KernelModules

open Rust

/-! ### Parsers -/

/-- Bracketed kallsyms tags that are not loadable modules. -/
def pseudoModules : List String :=
  ["bpf", "ftrace", "kernel", "vdso", "vsyscall", "vvar", "__builtin__ftrace"]

/-- `parse_proc_modules`: the first word of every line. -/
def parseProcModules (content : String) : List String :=
  (lines content).filterMap fun l => (splitAsciiWhitespace l).head?

/-- The name in the last brackets of a line. -/
def bracketedName (line : String) : Option String := do
  let after ← afterLast '[' line
  let (name, _) ← splitOnce ']' after
  if trim name = "" then none else some (trim name)

/-- The bracketed names of a kallsyms text. -/
def kallsymsTags (content : String) : List String := (lines content).filterMap bracketedName

/-- `parse_kallsyms_modules`. -/
def parseKallsymsModules (content : String) : List String :=
  (kallsymsTags content).filter fun name => !pseudoModules.contains name

/-! ### Reconciliation -/

/-- One name of one source. -/
def pushHidden (procModules : List String) (source : String) (out : List HiddenModule)
    (name : String) : List HiddenModule :=
  if procModules.contains name then out
  else if out.any fun h => h.name == name then
    out.map fun h =>
      if h.name = name ∧ source ∉ h.seenIn then { h with seenIn := h.seenIn ++ [source] } else h
  else out ++ [{ name := name, seenIn := [source] }]

/-- `reconcile`: the names of sysfs and kallsyms that `/proc/modules` lacks. -/
def reconcile (procModules sysfsLive kallsyms : List String) : List HiddenModule :=
  kallsyms.foldl (pushHidden procModules "kallsyms")
    (sysfsLive.foldl (pushHidden procModules "sysfs") [])

/-! ### The four reads -/

/-- What the scan reads: a text with its truncation flag, or nothing when the read failed. -/
structure KernelReads where
  /-- The first read of `/proc/modules`, or the kind of the error. -/
  procBefore : Except String (String × Bool)
  /-- The directories of `/sys/module` with their `initstate`. -/
  sysModule : Option (List (String × Option String))
  kallsyms : Option (String × Bool)
  /-- The second read of `/proc/modules`. -/
  procAfter : Option (String × Bool)

namespace KernelReads
variable (r : KernelReads)

/-- `scan_sysfs_live`. -/
def sysfsLive : List String :=
  match r.sysModule with
  | none => []
  | some entries => entries.filterMap fun (name, initstate) =>
      match initstate with
      | some state => if trim state = "live" then some name else none
      | none => none

def kallsymsModules : List String :=
  match r.kallsyms with
  | none => []
  | some (content, _) => parseKallsymsModules content

def kallsymsChecked : Bool :=
  match r.kallsyms with
  | none => false
  | some (content, _) => !(lines content).isEmpty

/-- The second snapshot; a failed read adds nothing. -/
def secondSnapshot : List String :=
  match r.procAfter with
  | none => []
  | some (content, _) => parseProcModules content

/-- Both snapshots of `/proc/modules`, when the first could be read. -/
def snapshots : Option (List String) :=
  match r.procBefore with
  | .error _ => none
  | .ok (content, _) => some (parseProcModules content ++ r.secondSnapshot)

end KernelReads

/-! ### The scan -/

/-- The inventory with the fields that only the report prints. -/
structure GatheredModules extends KernelModuleInventory where
  sysfsModules : List String := []
  kallsymsChecked : Bool := false

/-- The coverage notes of the first three reads. -/
def sourceNotes (r : KernelReads) : List String :=
  (match r.procBefore with
    | .ok (_, true) => ["kernel_modules: /proc/modules truncated — hidden-module check partial"]
    | _ => []) ++
  (match r.sysModule with
    | none => ["kernel_modules: /sys/module unreadable — sysfs cross-check skipped"]
    | some _ => []) ++
  match r.kallsyms with
  | none => ["kernel_modules: /proc/kallsyms unreadable — kallsyms cross-check skipped"]
  | some (_, truncated) =>
      (if truncated then ["kernel_modules: /proc/kallsyms truncated — symbols beyond cap not " ++
        "cross-checked (a hidden module could be missed)"] else []) ++
      if r.kallsymsChecked then [] else ["kernel_modules: /proc/kallsyms empty — kallsyms " ++
        "cross-check unavailable (kptr_restrict/CONFIG_KALLSYMS); relying on sysfs only"]

/-- The coverage notes of the second snapshot. -/
def secondNotes (r : KernelReads) : List String :=
  match r.procAfter with
  | some (_, true) =>
      ["kernel_modules: second /proc/modules snapshot truncated — race window partially closed"]
  | some (_, false) => []
  | none =>
      ["kernel_modules: second /proc/modules read failed — relying on first snapshot only"]

/-- `gather_kernel_modules`: the inventory and the coverage notes. -/
def gatherKernelModules (r : KernelReads) : GatheredModules × List String :=
  match r.procBefore with
  | .error kind =>
      ({}, ["kernel_modules: /proc/modules unreadable (" ++ kind ++
        ") — hidden-module check UNAVAILABLE"])
  | .ok (content, _) =>
      let procModules := Lib.sortedSet (parseProcModules content ++ r.secondSnapshot)
      let sysfsLive := Lib.sortedSet r.sysfsLive
      let kallsyms := Lib.sortedSet r.kallsymsModules
      let inventory (hidden : List HiddenModule) : GatheredModules :=
        { procModules := procModules, sysfsModules := sysfsLive, hiddenCandidates := hidden
          kallsymsChecked := r.kallsymsChecked }
      if procModules.isEmpty && (!sysfsLive.isEmpty || !kallsyms.isEmpty) then
        (inventory [], sourceNotes r ++ secondNotes r ++
          ["kernel_modules: /proc/modules empty despite live modules — suppressing hidden check"])
      else (inventory (reconcile procModules sysfsLive kallsyms), sourceNotes r ++ secondNotes r)

/-- The names reported as hidden. -/
def hiddenNames (r : KernelReads) : List String :=
  (gatherKernelModules r).1.hiddenCandidates.map HiddenModule.name

/-! ### What is reported -/

/-- A push adds its name, unless `/proc/modules` has it, and nothing else. -/
theorem mem_names_pushHidden {procModules : List String} {source name n : String}
    {out : List HiddenModule} : n ∈ (pushHidden procModules source out name).map HiddenModule.name ↔
      n ∈ out.map HiddenModule.name ∨ (n = name ∧ name ∉ procModules) := by
  unfold pushHidden
  by_cases hproc : procModules.contains name = true
  · rw [if_pos hproc]
    have : name ∈ procModules := by simpa using hproc
    tauto
  · rw [if_neg hproc]
    have hnot : name ∉ procModules := by simpa using hproc
    by_cases hany : (out.any fun h => h.name == name) = true
    · rw [if_pos hany, List.map_map]
      have hsame : (out.map (HiddenModule.name ∘ fun h =>
          if h.name = name ∧ source ∉ h.seenIn then { h with seenIn := h.seenIn ++ [source] }
          else h)) = out.map HiddenModule.name := by
        refine List.map_congr_left fun h _ => ?_
        rw [Function.comp_apply]
        split <;> rfl
      rw [hsame]
      have hmem : name ∈ out.map HiddenModule.name := by
        obtain ⟨h, hh, hname⟩ := List.any_eq_true.mp hany
        rw [← beq_iff_eq.mp hname]
        exact List.mem_map_of_mem hh
      constructor
      · exact Or.inl
      · rintro (h | ⟨rfl, _⟩)
        · exact h
        · exact hmem
    · rw [if_neg hany, List.map_append, List.mem_append]
      simp [hnot]

theorem mem_names_foldl {procModules : List String} {source n : String} :
    ∀ (names : List String) (out : List HiddenModule),
      n ∈ (names.foldl (pushHidden procModules source) out).map HiddenModule.name ↔
        n ∈ out.map HiddenModule.name ∨ (n ∈ names ∧ n ∉ procModules)
  | [], out => by simp
  | name :: names, out => by
      rw [List.foldl_cons, mem_names_foldl names, mem_names_pushHidden, List.mem_cons]
      constructor
      · rintro ((h | ⟨rfl, h⟩) | h)
        · exact Or.inl h
        · exact Or.inr ⟨Or.inl rfl, h⟩
        · exact Or.inr ⟨Or.inr h.1, h.2⟩
      · rintro (h | ⟨rfl | h, hp⟩)
        · exact Or.inl (Or.inl h)
        · exact Or.inl (Or.inr ⟨rfl, hp⟩)
        · exact Or.inr ⟨h, hp⟩

theorem mem_names_reconcile {procModules sysfsLive kallsyms : List String} {n : String} :
    n ∈ (reconcile procModules sysfsLive kallsyms).map HiddenModule.name ↔
      (n ∈ sysfsLive ∨ n ∈ kallsyms) ∧ n ∉ procModules := by
  rw [reconcile, mem_names_foldl, mem_names_foldl, List.map_nil]
  simp only [List.not_mem_nil, false_or]
  tauto

/-- **What is reported**: the names of sysfs and kallsyms that no snapshot has, unless every
snapshot is empty or the first could not be read. -/
theorem mem_hidden_iff {r : KernelReads} {n : String} : n ∈ hiddenNames r ↔
    ∃ shown, r.snapshots = some shown ∧ shown ≠ [] ∧
      (n ∈ r.sysfsLive ∨ n ∈ r.kallsymsModules) ∧ n ∉ shown := by
  unfold hiddenNames gatherKernelModules KernelReads.snapshots
  cases hb : r.procBefore with
  | error kind => simp
  | ok before =>
      obtain ⟨content, truncated⟩ := before
      simp only [Option.some.injEq, exists_eq_left']
      by_cases hempty : parseProcModules content ++ r.secondSnapshot = []
      · have hset : Lib.sortedSet (parseProcModules content ++ r.secondSnapshot) = [] := by
          rw [hempty]
          rfl
        simp only [hset, List.isEmpty_nil, Bool.true_and]
        split
        · simp [hempty]
        · rename_i hguard
          simp only [Bool.or_eq_true, Bool.not_eq_true', not_or, Bool.not_eq_false,
            List.isEmpty_iff] at hguard
          rw [hguard.1, hguard.2, mem_names_reconcile]
          simp [hempty]
      · have hset : (Lib.sortedSet (parseProcModules content ++ r.secondSnapshot)).isEmpty =
            false := by
          rw [List.isEmpty_eq_false_iff]
          intro hnil
          apply hempty
          rw [List.eq_nil_iff_forall_not_mem]
          intro a ha
          have : a ∈ Lib.sortedSet (parseProcModules content ++ r.secondSnapshot) :=
            Lib.mem_sortedSet.mpr ha
          rw [hnil] at this
          exact List.not_mem_nil this
        rw [if_neg (by rw [hset]; simp), mem_names_reconcile]
        simp only [Lib.mem_sortedSet]
        exact (and_iff_right hempty).symm

/-! ### Legitimate modules -/

inductive ModuleEvent where
  | load (name : String)
  | unload (name : String)

/-- The loaded modules after one event. -/
def applyEvent (loaded : List String) : ModuleEvent → List String
  | .load name => name :: loaded
  | .unload name => loaded.filter (· ≠ name)

def applyEvents (loaded : List String) (events : List ModuleEvent) : List String :=
  events.foldl applyEvent loaded

/-- The legitimate modules during a scan: what is loaded at the first read, and what happens
between each read and the next. -/
structure ScanRun where
  atFirst : List String
  beforeSysfs : List ModuleEvent
  beforeKallsyms : List ModuleEvent
  beforeLast : List ModuleEvent

namespace ScanRun
variable (run : ScanRun)

def atSysfs : List String := applyEvents run.atFirst run.beforeSysfs
def atKallsyms : List String := applyEvents run.atSysfs run.beforeKallsyms
def atLast : List String := applyEvents run.atKallsyms run.beforeLast

/-- Everything that happens between the first read and the last. -/
def events : List ModuleEvent := run.beforeSysfs ++ run.beforeKallsyms ++ run.beforeLast

end ScanRun

/-- Every read shows a legitimate module exactly while it is loaded. -/
structure Shows (r : KernelReads) (run : ScanRun) (legit : String → Prop) : Prop where
  first : ∀ content truncated, r.procBefore = .ok (content, truncated) →
    ∀ n, legit n → (n ∈ parseProcModules content ↔ n ∈ run.atFirst)
  sysfs : r.sysModule.isSome = true → ∀ n, legit n → (n ∈ r.sysfsLive ↔ n ∈ run.atSysfs)
  kallsyms : r.kallsyms.isSome = true →
    ∀ n, legit n → (n ∈ r.kallsymsModules ↔ n ∈ run.atKallsyms)
  last : r.procAfter.isSome = true → ∀ n, legit n → (n ∈ r.secondSnapshot ↔ n ∈ run.atLast)

/-- A module that comes and goes between the snapshots: loaded when sysfs or kallsyms is read,
and not when the first or the last snapshot is taken. -/
def Transient (r : KernelReads) (run : ScanRun) (n : String) : Prop :=
  ((r.sysModule.isSome = true ∧ n ∈ run.atSysfs) ∨
    (r.kallsyms.isSome = true ∧ n ∈ run.atKallsyms)) ∧
  n ∉ run.atFirst ∧ ¬ (r.procAfter.isSome = true ∧ n ∈ run.atLast)

/-- No legitimate module is reported, and every name that sysfs or kallsyms shows and no snapshot
does is reported, pseudo-modules apart, unless the snapshots are empty. -/
def Exact (r : KernelReads) (legit : String → Prop) : Prop :=
  (∀ n, legit n → n ∉ hiddenNames r) ∧
    ∀ shown, r.snapshots = some shown → shown ≠ [] → ∀ n, n ∉ shown → n ∉ pseudoModules →
      (n ∈ r.sysfsLive ∨ ∃ content truncated, r.kallsyms = some (content, truncated) ∧
        n ∈ kallsymsTags content) → n ∈ hiddenNames r

theorem sysfsLive_isSome {r : KernelReads} {n : String} (h : n ∈ r.sysfsLive) :
    r.sysModule.isSome = true := by
  unfold KernelReads.sysfsLive at h
  cases hs : r.sysModule with
  | none =>
      rw [hs] at h
      cases h
  | some entries => rfl

theorem kallsymsModules_isSome {r : KernelReads} {n : String} (h : n ∈ r.kallsymsModules) :
    r.kallsyms.isSome = true := by
  unfold KernelReads.kallsymsModules at h
  cases hs : r.kallsyms with
  | none =>
      rw [hs] at h
      cases h
  | some read => rfl

theorem secondSnapshot_isSome {r : KernelReads} {n : String} (h : n ∈ r.secondSnapshot) :
    r.procAfter.isSome = true := by
  unfold KernelReads.secondSnapshot at h
  cases hs : r.procAfter with
  | none =>
      rw [hs] at h
      cases h
  | some read => rfl

/-- Everything hidden is reported, whatever the legitimate modules do. -/
theorem hidden_reported {r : KernelReads} {shown : List String} {n : String}
    (hshown : r.snapshots = some shown) (hne : shown ≠ []) (hn : n ∉ shown)
    (hpseudo : n ∉ pseudoModules)
    (hseen : n ∈ r.sysfsLive ∨ ∃ content truncated, r.kallsyms = some (content, truncated) ∧
      n ∈ kallsymsTags content) : n ∈ hiddenNames r := by
  refine mem_hidden_iff.mpr ⟨shown, hshown, hne, ?_, hn⟩
  rcases hseen with hs | ⟨content, truncated, hk, htag⟩
  · exact Or.inl hs
  · right
    unfold KernelReads.kallsymsModules
    rw [hk]
    exact List.mem_filter.mpr ⟨htag, by simpa using hpseudo⟩

/-- A legitimate module is reported exactly when it is transient. -/
theorem legit_hidden_iff {r : KernelReads} {run : ScanRun} {legit : String → Prop}
    (hshow : Shows r run legit) {shown : List String} (hshown : r.snapshots = some shown)
    (hne : shown ≠ []) {n : String} (hn : legit n) : n ∈ hiddenNames r ↔ Transient r run n := by
  rw [mem_hidden_iff]
  have hsys : n ∈ r.sysfsLive ↔ r.sysModule.isSome = true ∧ n ∈ run.atSysfs :=
    ⟨fun h => ⟨sysfsLive_isSome h, (hshow.sysfs (sysfsLive_isSome h) n hn).mp h⟩,
      fun h => (hshow.sysfs h.1 n hn).mpr h.2⟩
  have hkall : n ∈ r.kallsymsModules ↔ r.kallsyms.isSome = true ∧ n ∈ run.atKallsyms :=
    ⟨fun h => ⟨kallsymsModules_isSome h, (hshow.kallsyms (kallsymsModules_isSome h) n hn).mp h⟩,
      fun h => (hshow.kallsyms h.1 n hn).mpr h.2⟩
  have hlast : n ∈ r.secondSnapshot ↔ r.procAfter.isSome = true ∧ n ∈ run.atLast :=
    ⟨fun h => ⟨secondSnapshot_isSome h, (hshow.last (secondSnapshot_isSome h) n hn).mp h⟩,
      fun h => (hshow.last h.1 n hn).mpr h.2⟩
  have hin : n ∈ shown ↔ n ∈ run.atFirst ∨ n ∈ r.secondSnapshot := by
    unfold KernelReads.snapshots at hshown
    cases hb : r.procBefore with
    | error kind =>
        rw [hb] at hshown
        cases hshown
    | ok before =>
        obtain ⟨content, truncated⟩ := before
        rw [hb] at hshown
        have := Option.some_inj.mp hshown
        rw [← this, List.mem_append, hshow.first content truncated hb n hn]
  unfold Transient
  rw [← hsys, ← hkall, ← hlast]
  constructor
  · rintro ⟨shown', hshown', _, hseen, hnot⟩
    rw [hshown, Option.some_inj] at hshown'
    rw [← hshown', hin] at hnot
    exact ⟨hseen, fun h => hnot (Or.inl h), fun h => hnot (Or.inr h)⟩
  · rintro ⟨hseen, hfirst, hlastn⟩
    refine ⟨shown, hshown, hne, hseen, fun h => ?_⟩
    rcases hin.mp h with h | h
    · exact hfirst h
    · exact hlastn h

/-! ### Runs without a transient module -/

/-- A module that is not loaded and never gets loaded stays so. -/
theorem not_mem_applyEvents {n : String} : ∀ (events : List ModuleEvent) {loaded : List String},
    n ∉ loaded → (∀ e ∈ events, e ≠ .load n) → n ∉ applyEvents loaded events
  | [], _, hn, _ => hn
  | e :: events, loaded, hn, he => by
      refine not_mem_applyEvents events ?_ fun e' h => he e' (List.mem_cons_of_mem _ h)
      cases e with
      | load m =>
          have hm : n ≠ m := fun h => he (.load m) List.mem_cons_self (by rw [h])
          exact List.not_mem_cons_of_ne_of_not_mem hm hn
      | unload m => exact fun h => hn (List.mem_of_mem_filter h)

/-- A module that is loaded and never gets unloaded stays loaded. -/
theorem mem_applyEvents {n : String} : ∀ (events : List ModuleEvent) {loaded : List String},
    n ∈ loaded → (∀ e ∈ events, e ≠ .unload n) → n ∈ applyEvents loaded events
  | [], _, hn, _ => hn
  | e :: events, loaded, hn, he => by
      refine mem_applyEvents events ?_ fun e' h => he e' (List.mem_cons_of_mem _ h)
      cases e with
      | load m => exact List.mem_cons_of_mem _ hn
      | unload m =>
          have hm : n ≠ m := fun h => he (.unload m) List.mem_cons_self (by rw [h])
          exact List.mem_filter.mpr ⟨hn, by simpa using hm⟩

/-- A transient module is loaded and unloaded between the snapshots, when both were taken. -/
theorem Transient.loads_and_unloads {r : KernelReads} {run : ScanRun} {n : String}
    (h : Transient r run n) (hafter : r.procAfter.isSome = true) :
    .load n ∈ run.events ∧ .unload n ∈ run.events := by
  obtain ⟨hseen, hfirst, hlast⟩ := h
  have hmem : ∀ e, e ∈ run.events ↔
      e ∈ run.beforeSysfs ∨ e ∈ run.beforeKallsyms ∨ e ∈ run.beforeLast := by
    simp [ScanRun.events]
  have hlast' : n ∉ run.atLast := fun h => hlast ⟨hafter, h⟩
  constructor
  · by_contra hno
    have hsys : n ∉ run.atSysfs := not_mem_applyEvents _ hfirst fun e he heq =>
      hno ((hmem _).mpr (Or.inl (heq ▸ he)))
    have hkall : n ∉ run.atKallsyms := not_mem_applyEvents _ hsys fun e he heq =>
      hno ((hmem _).mpr (Or.inr (Or.inl (heq ▸ he))))
    rcases hseen with h | h
    · exact hsys h.2
    · exact hkall h.2
  · by_contra hno
    have hkeep : n ∈ run.atKallsyms → n ∈ run.atLast := fun h =>
      mem_applyEvents _ h fun e he heq => hno ((hmem _).mpr (Or.inr (Or.inr (heq ▸ he))))
    rcases hseen with h | h
    · refine hlast' (hkeep (mem_applyEvents _ h.2 fun e he heq => ?_))
      exact hno ((hmem _).mpr (Or.inr (Or.inl (heq ▸ he))))
    · exact hlast' (hkeep h.2)

/-! ### The whole scan -/

/-- **The reconciliation is exact unless a module comes and goes between the snapshots**: for
every interleaving of loads and unloads with the four reads, no legitimate module is reported and
everything hidden is, if and only if no legitimate module is transient, or there is no non-empty
snapshot to compare with. -/
theorem kernel_modules_exact_iff (r : KernelReads) (run : ScanRun) (legit : String → Prop)
    (hshow : Shows r run legit) :
    Exact r legit ↔ (r.snapshots = none ∨ r.snapshots = some []) ∨
      ∀ n, legit n → ¬ Transient r run n := by
  constructor
  · rintro ⟨hsound, _⟩
    cases hs : r.snapshots with
    | none => exact Or.inl (Or.inl rfl)
    | some shown =>
        by_cases hne : shown = []
        · rw [hne]
          exact Or.inl (Or.inr rfl)
        · refine Or.inr fun n hn htrans => ?_
          exact hsound n hn ((legit_hidden_iff hshow hs hne hn).mpr htrans)
  · intro hcond
    refine ⟨fun n hn hmem => ?_, fun shown hshown hne n hnot hpseudo hseen =>
      hidden_reported hshown hne hnot hpseudo hseen⟩
    obtain ⟨shown, hshown, hne, hrest⟩ := mem_hidden_iff.mp hmem
    rcases hcond with (hnone | hempty) | hcond
    · rw [hnone] at hshown
      cases hshown
    · rw [hempty] at hshown
      exact hne (Option.some_inj.mp hshown).symm
    · exact hcond n hn ((legit_hidden_iff hshow hshown hne hn).mp hmem)

/-- The reads of a host on which `usb_storage` is loaded after the first snapshot; `after` is the
second snapshot. -/
def usbReads (after : String) : KernelReads where
  procBefore := .ok ("ext4 987136 3 - Live 0x0\n", false)
  sysModule := some [("ext4", some "live\n"), ("usb_storage", some "live\n")]
  kallsyms := some ("0 t a\t[ext4]\n0 t b\t[usb_storage]\n", false)
  procAfter := some (after, false)

/-- `usb_storage` is loaded before sysfs is read; `last` happens before the last read. -/
def usbRun (last : List ModuleEvent) : ScanRun := ⟨["ext4"], [.load "usb_storage"], [], last⟩

theorem usb_shows {after : String} {last : List ModuleEvent}
    (h : ∀ n, n ∈ parseProcModules after ↔ n ∈ (usbRun last).atLast) :
    Shows (usbReads after) (usbRun last) fun _ => True where
  first content truncated hb n _ := by
    have hparse : parseProcModules "ext4 987136 3 - Live 0x0\n" = ["ext4"] := by decide
    cases hb
    rw [hparse]
    rfl
  sysfs _ n _ := by
    have hlive : (usbReads after).sysfsLive = ["ext4", "usb_storage"] := rfl
    rw [hlive]
    exact List.Perm.mem_iff (List.Perm.swap _ _ _)
  kallsyms _ n _ := by
    have hkall : (usbReads after).kallsymsModules = ["ext4", "usb_storage"] := by
      change parseKallsymsModules "0 t a\t[ext4]\n0 t b\t[usb_storage]\n" = _
      decide
    rw [hkall]
    exact List.Perm.mem_iff (List.Perm.swap _ _ _)
  last _ n _ := h n

/-- A module that is loaded and unloaded while the scan runs is reported as hidden. -/
theorem transient_module_reported :
    let reads := usbReads "ext4 987136 3 - Live 0x0\n"
    Shows reads (usbRun [.unload "usb_storage"]) (fun _ => True) ∧
      "usb_storage" ∈ hiddenNames reads ∧ ¬ Exact reads fun _ => True := by
  intro reads
  have hparse : parseProcModules "ext4 987136 3 - Live 0x0\n" = ["ext4"] := by decide
  have hlast : (usbRun [.unload "usb_storage"]).atLast = ["ext4"] := by decide
  have hsnap : reads.snapshots = some ["ext4", "ext4"] := by decide
  have hmem : "usb_storage" ∈ hiddenNames reads :=
    mem_hidden_iff.mpr ⟨_, hsnap, by decide, Or.inl (by decide), by decide⟩
  refine ⟨usb_shows fun n => by rw [hparse, hlast], hmem, ?_⟩
  exact fun hexact => hexact.1 _ trivial hmem

/-- A module that is loaded during the scan and stays is no false report. -/
theorem loaded_module_exact :
    Exact (usbReads "usb_storage 81920 0 - Live 0x0\next4 987136 3 - Live 0x0\n") fun _ => True :=
  have hparse : parseProcModules "usb_storage 81920 0 - Live 0x0\next4 987136 3 - Live 0x0\n" =
      ["usb_storage", "ext4"] := by decide
  (kernel_modules_exact_iff _ (usbRun []) _ (usb_shows fun n => by rw [hparse]; rfl)).mpr <|
    Or.inr fun n _ htrans => by
      have hunload := (htrans.loads_and_unloads rfl).2
      simp [ScanRun.events, usbRun] at hunload

end KernelModules
end OwlzopsMapper
