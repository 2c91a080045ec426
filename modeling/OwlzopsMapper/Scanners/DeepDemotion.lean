import OwlzopsMapper.Scanners.LibraryScan
import OwlzopsMapper.Scoring.Memory

/-! # Demotion of memory findings by the deep analysis

Three functions decide together that the anonymous executable memory of a process is benign:
`scan_maps` reports its regions, `enrich` analyses the regions that are reported and `mem_bucket`
demotes a finding whose analysis is benign.

All active regions of a kind have one description, and a description is reported once.  So only the
first region of each kind is analysed (`anonymous_finding_iff`), and the demotion speaks for every
region exactly if there is no second one, or some first region is not benign
(**`demotion_sound_iff`**). -/

namespace OwlzopsMapper
namespace LibraryInjection

open Rust Maps

/-! ### Active anonymous regions -/

def rwxDescription : String := "anonymous executable (rwxp)"
def rxDescription : String := "anonymous executable (r-xp)"

/-- The line is an active region of anonymous executable memory of a kind, which is its
description. -/
structure ActiveRegion (t : Target) (s : Surroundings) (line kind addr : String) : Prop where
  active : ∃ l, Mapped.parse line = some l ∧ l.addr = addr ∧
    downgrade t s l (classifyRegion l.perms l.path) = none ∧
    (classifyRegion l.perms l.path = .anonRwx ∧ kind = rwxDescription ∨
      classifyRegion l.perms l.path = .anonRx ∧ kind = rxDescription)

/-- The finding is about anonymous executable memory. -/
def Anonymous (f : LibraryInjectionFinding) : Prop :=
  f.objectPath = rwxDescription ∨ f.objectPath = rxDescription

theorem endsWith_append (x suffix : String) : endsWith (x ++ suffix) suffix = true := by
  simp [endsWith]

section line
variable {t : Target} {s : Surroundings} {maps line kind addr : String} {ioc : Bool}

theorem regionOf_of_active (h : ActiveRegion t s line kind addr) :
    ∃ f, regionOf t s line = some f ∧ f.objectPath = kind ∧ f.regionAddr = some addr := by
  obtain ⟨l, hl, rfl, hdown, ⟨htier, rfl⟩ | ⟨htier, rfl⟩⟩ := h.active
  · rw [htier] at hdown
    refine ⟨t.finding rwxDescription "maps-anon-rwx" l.addr, ?_, rfl, rfl⟩
    rw [regionOf, hl, Option.bind_some, regionReport]
    simp only [htier, hdown, reduceCtorEq, if_false]
    rfl
  · rw [htier] at hdown
    refine ⟨t.finding rxDescription
      (if sizeOf l.addr = some pageSize then "maps-anon-rx-trampoline" else "maps-anon-rx") l.addr,
      ?_, rfl, rfl⟩
    rw [regionOf, hl, Option.bind_some, regionReport]
    simp only [htier, hdown, reduceCtorEq, if_false]
    rfl

/-- Other reports have other descriptions. -/
theorem active_of_regionOf {f : LibraryInjectionFinding} (h : regionOf t s line = some f)
    (hanon : Anonymous f) : ∃ addr, f.regionAddr = some addr ∧
      ActiveRegion t s line f.objectPath addr := by
  have hends : ∀ x suffix : String, x ++ suffix = rwxDescription ∨ x ++ suffix = rxDescription →
      endsWith rwxDescription suffix = true ∨ endsWith rxDescription suffix = true := by
    rintro x suffix (heq | heq)
    · exact .inl (heq ▸ endsWith_append x suffix)
    · exact .inr (heq ▸ endsWith_append x suffix)
  obtain ⟨l, hl, hreport⟩ := Option.bind_eq_some_iff.mp h
  unfold regionReport at hreport
  dsimp only at hreport
  split at hreport
  · cases hreport
  · split at hreport
    · -- the description ends with the reason
      rename_i src hsrc
      obtain rfl := Option.some.inj hreport
      have hnone : ∀ src ∈ regionSources,
          ¬ (endsWith rwxDescription src = true ∨ endsWith rxDescription src = true) := by
        decide
      exact absurd (hends _ src hanon) (hnone src (downgrade_cases hsrc))
    · rename_i hdown
      obtain ⟨report, hactive, rfl⟩ := Option.map_eq_some_iff.mp hreport
      refine ⟨l.addr, rfl, ⟨l, hl, rfl, hdown, ?_⟩⟩
      cases htier : classifyRegion l.perms l.path with
      | ignore => contradiction
      | anonRwx =>
          rw [htier] at hactive
          obtain rfl := Option.some.inj hactive
          exact .inl ⟨rfl, rfl⟩
      | anonRx =>
          rw [htier] at hactive
          obtain rfl := Option.some.inj hactive
          exact .inr ⟨rfl, rfl⟩
      | execHeap =>
          rw [htier] at hactive
          obtain rfl := Option.some.inj hactive
          have hheap : ¬ ("[heap] (heap spray IOC)" = rwxDescription ∨
              "[heap] (heap spray IOC)" = rxDescription) := by decide
          exact absurd hanon hheap
      | execStack =>
          rw [htier] at hactive
          obtain rfl := Option.some.inj hactive
          exact absurd (hends _ _ hanon) (by decide)
      | rwxFileBacked =>
          rw [htier] at hactive
          obtain rfl := Option.some.inj hactive
          exact absurd (hends _ _ hanon) (by decide)

theorem absolute_of_volatile {path : String} (h : isVolatileExecPath path = true) :
    startsWith path "/" = true := by
  have habsolute : ∀ dir, startsWith dir "/" = true → startsWith path dir = true →
      startsWith path "/" = true := by
    intro dir hdir hpath
    obtain ⟨rest, rfl⟩ := (startsWith_iff path dir).mp hpath
    obtain ⟨tail, rfl⟩ := (startsWith_iff dir "/").mp hdir
    exact (startsWith_iff _ _).mpr ⟨tail ++ rest, String.append_assoc ..⟩
  unfold isVolatileExecPath at h
  split at h
  · cases h
  · simp only [Bool.or_eq_true] at h
    rcases h with (((h | h) | h) | h) | h
    all_goals exact habsolute _ (by decide) h

/-- Memory of an anonymous tier has no file. -/
theorem not_absolute_of_anonymous {perms p : String}
    (h : classifyRegion perms (some p) = .anonRwx ∨ classifyRegion perms (some p) = .anonRx) :
    startsWith p "/" = false := by
  rw [Bool.eq_false_iff]
  intro habsolute
  have hanon : startsWith p "[anon:" = false := by
    rw [Bool.eq_false_iff]
    intro hnamed
    rcases startsWith_comparable habsolute hnamed with hpre | hpre
    · revert hpre
      decide
    · revert hpre
      decide
  unfold classifyRegion at h
  simp only [hanon, habsolute, Bool.false_eq_true, if_false, if_true] at h
  split at h
  · simp at h
  · split at h
    · simp at h
    · split at h
      · simp at h
      · split at h
        · simp at h
        · split at h <;> simp at h

/-- The path of a library as it stands in the text. -/
theorem absolute_of_stripDeleted {p : String} (h : startsWith (stripDeleted p).1 "/" = true) :
    startsWith p "/" = true := by
  unfold stripDeleted at h
  split at h
  · rename_i base hbase
    obtain ⟨rest, hrest⟩ := (startsWith_iff _ _).mp h
    rw [startsWith_iff]
    exact ⟨rest ++ " (deleted)", by
      rw [← String.append_assoc, ← hrest]
      exact eq_append_of_stripSuffix hbase⟩
  · exact h

theorem volatile_of_soReport {t : Target} {maps : String} {ioc : Bool} {l : Mapped}
    {f : LibraryInjectionFinding} (h : soReport t maps ioc l = some f) : ∃ p, l.path = some p ∧
      isVolatileExecPath (stripDeleted p).1 = true ∧ f.objectPath = (stripDeleted p).1 := by
  obtain ⟨p, hp, h⟩ := Option.bind_eq_some_iff.mp h
  dsimp only at h
  split at h
  · rename_i hso
    obtain rfl := Option.some.inj h
    exact ⟨p, (Option.filter_eq_some_iff.mp hp).1, (Bool.and_eq_true _ _ |>.mp hso).2, rfl⟩
  · cases h

/-- An active anonymous region is no library. -/
theorem soOf_of_active (h : ActiveRegion t s line kind addr) : soOf t maps ioc line = none := by
  obtain ⟨l, hl, _, _, htier⟩ := h.active
  rw [soOf, hl, Option.bind_some]
  cases hso : soReport t maps ioc l with
  | none => rfl
  | some f =>
      obtain ⟨p, hp, hvolatile, _⟩ := volatile_of_soReport hso
      have habsolute := absolute_of_stripDeleted (absolute_of_volatile hvolatile)
      have htiers : classifyRegion l.perms (some p) = .anonRwx ∨
          classifyRegion l.perms (some p) = .anonRx := by
        rw [← hp]
        exact htier.imp And.left And.left
      rw [not_absolute_of_anonymous htiers] at habsolute
      cases habsolute

/-- No library has the description of anonymous memory as its path. -/
theorem not_anonymous_of_soOf {f : LibraryInjectionFinding} (h : soOf t maps ioc line = some f) :
    ¬ Anonymous f := by
  obtain ⟨l, _, hso⟩ := Option.bind_eq_some_iff.mp h
  obtain ⟨p, _, hvolatile, hpath⟩ := volatile_of_soReport hso
  rw [← hpath] at hvolatile
  rintro (hanon | hanon)
  · rw [hanon] at hvolatile
    revert hvolatile
    decide
  · rw [hanon] at hvolatile
    revert hvolatile
    decide

end line

/-! ### The regions that are analysed -/

section scan
variable {t : Target} {s : Surroundings} {maps : String} {ioc : Bool}

/-- A description is taken by the active regions of its kind. -/
theorem taken_iff_active {kind : String} (hkind : kind = rwxDescription ∨ kind = rxDescription)
    {lines : List String} :
    Lib.FirstWins.Taken (soOf t maps ioc) (regionOf t s) LibraryInjectionFinding.objectPath lines
      kind ↔ ∃ line ∈ lines, ∃ addr, ActiveRegion t s line kind addr := by
  rw [Lib.FirstWins.taken_iff_secondary]
  · constructor
    · rintro ⟨line, hline, f, hf, rfl⟩
      obtain ⟨addr, _, hactive⟩ := active_of_regionOf hf hkind
      exact ⟨line, hline, addr, hactive⟩
    · rintro ⟨line, hline, addr, hactive⟩
      obtain ⟨f, hf, hname, _⟩ := regionOf_of_active hactive
      exact ⟨line, hline, f, hf, hname⟩
  · rintro line f hf rfl
    exact not_anonymous_of_soOf hf hkind
  · rintro line f hf rfl
    obtain ⟨addr, _, hactive⟩ := active_of_regionOf hf hkind
    exact soOf_of_active hactive

/-- The findings about anonymous memory are those of the first active region of each kind. -/
theorem anonymous_finding_iff {lines : List String} {addr : String} :
    (∃ f ∈ findingsOf t s maps ioc lines, Anonymous f ∧ f.regionAddr = some addr) ↔
      ∃ older line later kind, lines = older ++ line :: later ∧ ActiveRegion t s line kind addr ∧
        ∀ o ∈ older, ∀ other, ¬ ActiveRegion t s o kind other := by
  constructor
  · rintro ⟨f, hf, hanon, haddr⟩
    obtain ⟨older, line, later, hlines, hfresh, hreport⟩ := Lib.FirstWins.mem_collect_iff.mp hf
    rcases hreport with hso | ⟨hregion, _⟩
    · exact absurd hanon (not_anonymous_of_soOf hso)
    · obtain ⟨addr', haddr', hactive⟩ := active_of_regionOf hregion hanon
      obtain rfl := Option.some.inj (haddr'.symm.trans haddr)
      refine ⟨older, line, later, f.objectPath, hlines, hactive, fun o ho other hother => ?_⟩
      exact hfresh ((taken_iff_active hanon).mpr ⟨o, ho, other, hother⟩)
  · rintro ⟨older, line, later, kind, hlines, hactive, hfirst⟩
    obtain ⟨f, hf, rfl, haddr⟩ := regionOf_of_active hactive
    have hanon : Anonymous f := by
      obtain ⟨_, _, _, _, ⟨_, hkind⟩ | ⟨_, hkind⟩⟩ := hactive.active
      · exact .inl hkind
      · exact .inr hkind
    refine ⟨f, Lib.FirstWins.mem_collect_iff.mpr ⟨older, line, later, hlines, ?_, .inr ⟨hf, ?_⟩⟩,
      hanon, haddr⟩
    · intro htaken
      obtain ⟨o, ho, other, hother⟩ := (taken_iff_active hanon).mp htaken
      exact hfirst o ho other hother
    · intro g hg
      rw [soOf_of_active hactive] at hg
      cases hg

end scan

/-! ### Demotion -/

/-- The analysis of the finding demotes it. -/
def Demoted (m : Machine) (r : AgentReport) (f : LibraryInjectionFinding) : Prop :=
  ∃ analysis, f.deepForensics = some analysis ∧ deepBucket m r f analysis = some .advisory

/-- There are findings about anonymous memory, and each is demoted. -/
def AllDemoted (m : Machine) (r : AgentReport) (findings : List LibraryInjectionFinding) : Prop :=
  (∃ f ∈ findings, Anonymous f) ∧ ∀ f ∈ findings, Anonymous f → Demoted m r f

theorem exists_sameRegion {findings all : List LibraryInjectionFinding} {addr : String}
    (h : List.Forall₂ Deep.SameRegion findings all) :
    (∃ f ∈ all, Anonymous f ∧ f.regionAddr = some addr) ↔
      ∃ f ∈ findings, Anonymous f ∧ f.regionAddr = some addr := by
  induction h with
  | nil => exact Iff.rfl
  | @cons f g findings all hfg _ ih =>
      have hf : Anonymous g ∧ g.regionAddr = some addr ↔ Anonymous f ∧ f.regionAddr = some addr := by
        rw [← hfg.eq]
        rfl
      simp only [List.exists_mem_cons_iff, ih, hf]

theorem enriched_regions {d : DeepScan} {pid : UInt32} {content addr : String}
    {findings all : List LibraryInjectionFinding} {notes : List Deep.Note}
    (h : enriched d pid content findings = .ok (all, notes)) :
    (∃ f ∈ all, Anonymous f ∧ f.regionAddr = some addr) ↔
      ∃ f ∈ findings, Anonymous f ∧ f.regionAddr = some addr := by
  obtain ⟨ctx, _, h⟩ := bind_ok h
  obtain rfl := (Prod.mk.inj (Except.ok.inj h)).1
  exact (exists_sameRegion (Deep.enrichGhosts_same d.memory d.ghosts pid _)).trans
    (exists_sameRegion (Deep.enrich_same d.memory pid ctx findings))

section demotion
variable (t : Target) (isFile : IsFile) (cached : String → Option Verdict) (maps : String)
variable (before : List LibraryInjectionFinding) (d : DeepScan) (m : Machine) (r : AgentReport)

/-- A deep scan of the text: what its lines are judged by, the findings, and the findings after
the analysis. -/
structure DeepScanned (s : Surroundings) (out : Scanned) (all : List LibraryInjectionFinding) :
    Prop where
  judged : surroundings maps isFile cached = .ok s
  scanned : scanMaps t isFile cached maps before = .ok out
  analysed : ∃ notes, enriched d t.pid maps out.findings = .ok (all, notes)

/-- Where the deep analysis demotes the anonymous memory of a process, every active anonymous
region was analysed and found benign. -/
def DemotionSound : Prop :=
  ∀ s out all, DeepScanned t isFile cached maps before d s out all → AllDemoted m r all →
    ∀ line ∈ lines maps, ∀ kind addr, ActiveRegion t s line kind addr →
      ∃ f ∈ all, Anonymous f ∧ f.regionAddr = some addr ∧ Demoted m r f

/-- The region at an address is the first active region of its kind in the text, and the findings of
the lines before it leave room below the cap. -/
def FirstOfKind (s : Surroundings) (addr : String) : Prop :=
  ∃ older line later kind, lines maps = older ++ line :: later ∧
    before.length + (findingsOf t s maps (envIoc t.pid before) older).length < maxFindings ∧
    ActiveRegion t s line kind addr ∧ ∀ o ∈ older, ∀ other, ¬ ActiveRegion t s o kind other

/-- Where all that is reported is demoted, every active region is the first of its kind. -/
def NoSecondRegion : Prop :=
  ∀ s out all, DeepScanned t isFile cached maps before d s out all → AllDemoted m r all →
    ∀ line ∈ lines maps, ∀ kind addr, ActiveRegion t s line kind addr →
      FirstOfKind t maps before s addr

variable {t isFile cached maps before d} in
/-- The anonymous regions that were reported are the first of their kind. -/
theorem reported_iff_firstOfKind {s : Surroundings} {out : Scanned}
    {all : List LibraryInjectionFinding} (h : DeepScanned t isFile cached maps before d s out all)
    {addr : String} : (∃ f ∈ all, Anonymous f ∧ f.regionAddr = some addr) ↔
      FirstOfKind t maps before s addr := by
  obtain ⟨notes, hall⟩ := h.analysed
  obtain ⟨out', examined, hout, hlines, hfound⟩ := scanMaps_eq (t := t) h.judged
  obtain rfl := Except.ok.inj (h.scanned.symm.trans hout)
  rw [enriched_regions hall, hfound, anonymous_finding_iff]
  constructor
  · rintro ⟨older, line, more, kind, rfl, hactive, hfirst⟩
    rw [List.append_assoc, List.cons_append] at hlines
    have hroom := (scanMaps_examines_iff h.judged h.scanned
      (by rw [hlines, List.append_assoc]; rfl) hlines).mp ⟨more, rfl⟩
    exact ⟨older, line, _, kind, hlines, hroom, hactive, hfirst⟩
  · rintro ⟨older, line, later, kind, hsplit, hroom, hactive, hfirst⟩
    obtain ⟨more, rfl⟩ := (scanMaps_examines_iff h.judged h.scanned hlines hsplit).mpr hroom
    exact ⟨older, line, more, kind, rfl, hactive, hfirst⟩

/-- **The demotion is sound exactly if no region that could differ is left out:** either a reported
region is not demoted, or every active anonymous region is the first of its kind, below the cap. -/
theorem demotion_sound_iff : DemotionSound t isFile cached maps before d m r ↔
    NoSecondRegion t isFile cached maps before d m r := by
  constructor
  · intro h s out all hscan hdemoted line hline kind addr hactive
    obtain ⟨f, hf, hanon, haddr, _⟩ := h s out all hscan hdemoted line hline kind addr hactive
    exact (reported_iff_firstOfKind hscan).mp ⟨f, hf, hanon, haddr⟩
  · intro h s out all hscan hdemoted line hline kind addr hactive
    obtain ⟨f, hf, hanon, haddr⟩ :=
      (reported_iff_firstOfKind hscan).mpr (h s out all hscan hdemoted line hline kind addr hactive)
    exact ⟨f, hf, hanon, haddr, hdemoted.2 f hf hanon⟩

end demotion

/-- The first of the two regions is an empty buffer, the second starts with an ELF header. -/
def stagedScan : DeepScan where
  memory := {
    readAt := fun _ lo =>
      if lo = 0x1000 then .ok [0, 0, 0, 0, 0, 0, 0, 0] else .ok [0x7F, 0x45, 0x4C, 0x46]
    shannon := fun _ => Ieee.zero }
  ghosts := { mapFile := fun _ _ => none, euid := 0, startEpoch := fun _ => none }
  moment := { stat := fun _ => none, now := none }

/-- The analysis says that the region is an empty buffer. -/
def emptyBuffer (a : DeepMemoryAnalysis) : Bool :=
  decide (a.origin = .reservedBuffer) && decide (deepDemoteMin ≤ a.confidence) &&
    !isTrumpingMalice a

theorem demoted_of_emptyBuffer {m : Machine} {r : AgentReport} {f : LibraryInjectionFinding}
    (h : f.deepForensics.map emptyBuffer = some true) : Demoted m r f := by
  obtain ⟨a, ha, hempty⟩ := Option.map_eq_some_iff.mp h
  simp only [emptyBuffer, Bool.and_eq_true, decide_eq_true_eq, Bool.not_eq_true'] at hempty
  obtain ⟨⟨horigin, hconfidence⟩, hmalice⟩ := hempty
  refine ⟨a, ha, ?_⟩
  simp only [deepBucket, hmalice, horigin, hconfidence, Bool.false_eq_true, if_false, if_true]

/-- Only the first of the two regions is reported, and analysed. -/
theorem deepScan_twoRwx :
    (scanMaps plainTarget (fun _ => false) (fun _ => none) twoRwx [] >>= fun out =>
      enriched stagedScan plainTarget.pid twoRwx out.findings).map (fun p => p.1.map fun f =>
        (f.objectPath, f.regionAddr, f.deepForensics.map emptyBuffer)) =
      .ok [(rwxDescription, some "1000-2000", some true)] := by decide +kernel

/-- The second region is active, whatever is known of the process. -/
theorem active_twoRwx (s : Surroundings) :
    ActiveRegion plainTarget s "3000-4000 rwxp 0 0:0 0 " rwxDescription "3000-4000" := by
  have hparse : (Mapped.parse "3000-4000 rwxp 0 0:0 0 ").map (fun l => (l.addr, l.perms, l.path)) =
      some ("3000-4000", "rwxp", none) := by decide +kernel
  obtain ⟨l, hl, hfields⟩ := Option.map_eq_some_iff.mp hparse
  obtain ⟨haddr, hfields⟩ := Prod.mk.inj hfields
  obtain ⟨hperms, hpath⟩ := Prod.mk.inj hfields
  have htier : classifyRegion l.perms l.path = .anonRwx := by
    rw [hperms, hpath]
    decide +kernel
  exact ⟨l, hl, haddr, downgrade_eq_none rfl rfl rfl rfl, .inl ⟨htier, rfl⟩⟩

/-- **The second region is an ELF image, and the process is demoted by the first.** -/
theorem demoted_with_hidden_image :
    ¬ DemotionSound plainTarget (fun _ => false) (fun _ => none) twoRwx [] stagedScan
      Machine.blind {} := by
  intro h
  have heval := deepScan_twoRwx
  obtain ⟨⟨all, notes⟩, hrun⟩ := map_ok_iff.mp ⟨_, heval⟩
  rw [hrun] at heval
  obtain ⟨out, hout, hanalysed⟩ := bind_ok hrun
  obtain ⟨s, hs⟩ : ∃ s, surroundings twoRwx (fun _ => false) (fun _ => none) = .ok s :=
    surroundings_ok_iff.mpr (by decide +kernel)
  obtain ⟨f, rest, rfl, hf, hrest⟩ := List.map_eq_cons_iff.mp (Except.ok.inj heval)
  obtain rfl := List.map_eq_nil_iff.mp hrest
  obtain ⟨hanon, hf⟩ := Prod.mk.inj hf
  obtain ⟨haddr, hanalysis⟩ := Prod.mk.inj hf
  have hscan : DeepScanned plainTarget (fun _ => false) (fun _ => none) twoRwx [] stagedScan s out
      [f] := ⟨hs, hout, notes, hanalysed⟩
  have hdemoted : Demoted Machine.blind {} f := demoted_of_emptyBuffer hanalysis
  obtain ⟨g, hg, _, hother, _⟩ := h s out [f] hscan
    ⟨⟨f, List.mem_singleton_self f, .inl hanon⟩, fun g hg _ => List.mem_singleton.mp hg ▸ hdemoted⟩
    "3000-4000 rwxp 0 0:0 0 " (by decide +kernel) rwxDescription "3000-4000" (active_twoRwx s)
  rw [List.mem_singleton.mp hg, haddr] at hother
  revert hother
  decide

end LibraryInjection
end OwlzopsMapper
