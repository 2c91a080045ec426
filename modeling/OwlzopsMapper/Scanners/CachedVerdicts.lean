import OwlzopsMapper.Scanners.LibraryScan

/-! # Verdicts across scans

`detect_from_proc_counted` records the verdict of a region under the object path of its finding, and
`scan_maps` looks verdicts up by the path of the executable.

The cache after a scan is the fold of `record` over the verdicts of its findings (`cache_run`).  So
the next scan finds a verdict exactly for the executables whose path is the object path of a judged
finding (`next_scan_hits_iff`), and a malicious verdict stays exactly until a benign one is recorded
under the same path (`malicious_stays_iff`): **`cache_works_iff`**. -/

namespace OwlzopsMapper
namespace LibraryInjection

open Rust Maps

variable {fs : ProcFs} {cfg : ScanConfig} {d : DeepScan}

/-! ### The cache after a scan -/

theorem judged_append (older later : List LibraryInjectionFinding) :
    judged (older ++ later) = judged older ++ judged later := List.filterMap_append

/-- Without an analysis there is no verdict. -/
theorem judged_of_unanalysed {findings : List LibraryInjectionFinding}
    (h : ∀ f ∈ findings, f.deepForensics = none) : judged findings = [] := by
  unfold judged
  rw [List.filterMap_eq_nil_iff]
  intro f hf
  rw [h f hf]
  rfl

theorem judged_environFindings (pid : UInt32) (comm environ : String) :
    judged (environFindings pid comm environ) = [] := by
  apply judged_of_unanalysed
  intro f hf
  obtain ⟨⟨key, value⟩, _, hf⟩ := List.mem_flatMap.mp hf
  dsimp only at hf
  split at hf
  · exact absurd hf List.not_mem_nil
  · obtain ⟨path, _, rfl⟩ := List.mem_map.mp hf
    rfl

theorem unanalysed_of_soOf {t : Target} {maps line : String} {ioc : Bool}
    {f : LibraryInjectionFinding} (h : soOf t maps ioc line = some f) : f.deepForensics = none := by
  obtain ⟨l, _, h⟩ := Option.bind_eq_some_iff.mp h
  obtain ⟨p, _, h⟩ := Option.bind_eq_some_iff.mp h
  dsimp only at h
  split at h
  · obtain rfl := Option.some.inj h
    rfl
  · cases h

theorem unanalysed_of_regionOf {t : Target} {s : Surroundings} {line : String}
    {f : LibraryInjectionFinding} (h : regionOf t s line = some f) : f.deepForensics = none := by
  obtain ⟨l, _, h⟩ := Option.bind_eq_some_iff.mp h
  unfold regionReport at h
  dsimp only at h
  split at h
  · cases h
  · split at h
    · obtain rfl := Option.some.inj h
      rfl
    · obtain ⟨report, _, rfl⟩ := Option.map_eq_some_iff.mp h
      rfl

theorem judged_scanText {st : State} {pid : UInt32} {comm content : String} {out : Scanned}
    (h : scanText fs d st pid comm content = .ok out) : judged out.findings = [] := by
  obtain ⟨trust, _, h⟩ := bind_ok h
  obtain ⟨s, hs, _⟩ := bind_ok h
  obtain ⟨out', examined, hout, _, hfound⟩ := scanMaps_eq hs
  obtain rfl := Except.ok.inj (h.symm.trans hout)
  apply judged_of_unanalysed
  intro f hf
  rw [hfound] at hf
  obtain ⟨_, line, _, _, _, hreport⟩ := Lib.FirstWins.mem_collect_iff.mp hf
  rcases hreport with hso | ⟨hregion, _⟩
  · exact unanalysed_of_soOf hso
  · exact unanalysed_of_regionOf hregion

/-- A visit adds findings and records their verdicts. -/
structure Adds (d : DeepScan) (st st' : State) : Prop where
  found : ∃ more, st'.findings = st.findings ++ more ∧
    st'.cache = VerdictCache.recordAll d.moment st.cache (judged more)

theorem Adds.unjudged {st st' : State} {more : List LibraryInjectionFinding}
    (hfound : st'.findings = st.findings ++ more) (hcache : st'.cache = st.cache)
    (hmore : judged more = []) : Adds d st st' :=
  ⟨more, hfound, by rw [hcache, hmore]; rfl⟩

theorem Adds.refl (st : State) : Adds d st st := .unjudged (List.append_nil _).symm rfl rfl

theorem Adds.trans {st next st' : State} (h : Adds d st next) (h' : Adds d next st') :
    Adds d st st' := by
  obtain ⟨more, hfound, hcache⟩ := h.found
  obtain ⟨more', hfound', hcache'⟩ := h'.found
  refine ⟨more ++ more', ?_, ?_⟩
  · rw [hfound', hfound, List.append_assoc]
  · rw [hcache', hcache, judged_append, VerdictCache.recordAll_append]

theorem adds_readEnviron (st : State) (pid : UInt32) (comm : String) :
    Adds d st (st.readEnviron fs pid comm) := by
  unfold State.readEnviron
  cases fs.environ pid with
  | none => exact .refl st
  | some environ => exact .unjudged rfl rfl (judged_environFindings pid comm environ.1)

theorem adds_readMaps {st st' : State} {pid : UInt32} {comm content : String} {truncated : Bool}
    (h : st.readMaps fs cfg d pid comm content truncated = .ok st') : Adds d st st' := by
  obtain ⟨out, hout, h⟩ := bind_ok h
  split at h
  · obtain ⟨⟨all, notes⟩, hall, h⟩ := bind_ok h
    obtain rfl := Except.ok.inj h
    exact ⟨all, rfl, rfl⟩
  · obtain rfl := Except.ok.inj h
    exact .unjudged rfl rfl (judged_scanText hout)

theorem adds_visit {st st' : State} {pid : UInt32} (h : State.visit fs cfg d st pid = .ok st') :
    Adds d st st' := by
  unfold State.visit at h
  cases hcomm : fs.comm pid with
  | none =>
      rw [hcomm] at h
      obtain rfl := Except.ok.inj h
      exact .refl st
  | some comm =>
      rw [hcomm] at h
      have henviron : Adds d st (st.readEnviron fs pid comm) := adds_readEnviron st pid comm
      dsimp only at h
      split at h
      · obtain rfl := Except.ok.inj h
        exact henviron.trans (.unjudged (List.append_nil _).symm rfl rfl)
      · split at h
        · exact henviron.trans (adds_readMaps h)
        · obtain rfl := Except.ok.inj h
          exact henviron
        · obtain rfl := Except.ok.inj h
          split
          · exact henviron.trans (.unjudged (List.append_nil _).symm rfl rfl)
          · exact henviron

theorem adds_run {pids : List UInt32} {st st' : State}
    (h : pids.foldlM (State.visit fs cfg d) st = .ok st') : Adds d st st' := by
  induction pids generalizing st with
  | nil =>
      obtain rfl := Except.ok.inj h
      exact .refl st
  | cons pid pids ih =>
      obtain ⟨next, hnext, hrest⟩ := run_cons h
      exact (adds_visit hnext).trans (ih hrest)

/-- **The cache of a scan is the fold of `record` over the verdicts of its findings.** -/
theorem cache_run {cache : VerdictCache.Cache} {st : State}
    (h : detectFromProcCounted fs cfg d cache = .ok st) :
    st.cache = VerdictCache.recordAll d.moment cache (judged st.findings) := by
  unfold detectFromProcCounted at h
  split at h
  · obtain rfl := Except.ok.inj h
    rfl
  · obtain ⟨more, hfound, hcache⟩ := (adds_run h).found
    rw [hcache, hfound]
    rfl

/-! ### The next scan -/

/-- The file at the path is the same at both moments, and the second is within the time to live of
the first. -/
structure SameWithinTtl (first next : VerdictCache.Moment) (exe : String) : Prop where
  same : ∃ m, first.stat exe = some m ∧ next.stat exe = some m
  fresh : ∃ n n', first.now = some n ∧ next.now = some n' ∧ n ≤ n' ∧
    n' ≤ n + VerdictCache.ttlSecs

/-- A region of a process that runs the executable has a confident verdict. -/
def HasVerdict (fs : ProcFs) (findings : List LibraryInjectionFinding) (exe : String) : Prop :=
  ∃ f ∈ findings, fs.exe f.pid = some exe ∧ (f.deepForensics.bind verdictOfRegion).isSome = true

section scans
variable (fs : ProcFs) (cfg : ScanConfig) (d : DeepScan) (store : VerdictCache.Store)
variable (file : Option (List (String × VerdictCache.Entry)))

/-- A scan with the cache that it loads. -/
def Scan (st : State) : Prop :=
  detectFromProcCounted fs cfg d (VerdictCache.load store file) = .ok st

/-- The next scan finds a verdict of every executable with a region that this scan judged. -/
def NextScanHits : Prop :=
  ∀ st, Scan fs cfg d store file st → ∀ exe, HasVerdict fs st.findings exe →
    ∀ next, SameWithinTtl d.moment next exe →
      ((VerdictCache.load store (st.cache.persist store file)).lookup next exe).isSome = true

/-- Whatever has been recorded up to some point of the scan, a path with a malicious verdict has
this verdict in the cache. -/
def MaliciousStays : Prop :=
  ∀ st, Scan fs cfg d store file st → ∀ recorded later, judged st.findings = recorded ++ later →
    ∀ exe, (exe, .malicious) ∈ recorded → (d.moment.stat exe).isSome = true →
      d.moment.now.isSome = true →
        ((VerdictCache.recordAll d.moment (VerdictCache.load store file) recorded).entries.lookup
          exe).map VerdictCache.Entry.verdict = some .malicious

/-- The cache holds an entry of the executable that this very moment could have made. -/
def HeldSince (cache : VerdictCache.Cache) (exe : String) : Prop :=
  ∃ e m n, cache.entries.lookup exe = some e ∧ d.moment.stat exe = some m ∧
    d.moment.now = some n ∧ e.inode = m.ino ∧ e.mtime = m.mtime ∧ e.size = m.len ∧
    e.version = VerdictCache.cacheVersion ∧ e.scannedAt = n

/-- What is written can be read again. -/
def Readable (st : State) : Prop :=
  st.cache.dirty = true → store.writable = true →
    store.textLength st.cache.entries ≤ VerdictCache.maxCacheBytes

/-- For every executable with a judged region, some judged finding has the executable as its object
path and the cache can be written, or an entry of this moment is there already. -/
def KeyedByExecutable : Prop :=
  ∀ st, Scan fs cfg d store file st → ∀ exe, HasVerdict fs st.findings exe →
    (d.moment.stat exe).isSome = true → d.moment.now.isSome = true →
      Readable store st ∧
        (store.writable = true ∧ (∃ verdict, (exe, verdict) ∈ judged st.findings) ∨
          HeldSince d (VerdictCache.load store file) exe)

/-- No benign verdict follows a malicious one under the path of a file. -/
def NoBenignAfterMalicious : Prop :=
  ∀ st, Scan fs cfg d store file st → ∀ older between later exe,
    judged st.findings = older ++ (exe, .malicious) :: between ++ (exe, .benign) :: later →
      (d.moment.stat exe).isSome = true → d.moment.now.isSome = true → False

/-- A path is found at every moment within the time to live exactly if its entry is of now. -/
theorem hits_iff_heldSince (cache : VerdictCache.Cache) {exe : String} {m : VerdictCache.Metadata}
    {n : ℕ} (hstat : d.moment.stat exe = some m) (hnow : d.moment.now = some n) :
    (∀ next, SameWithinTtl d.moment next exe → (cache.lookup next exe).isSome = true) ↔
      HeldSince d cache exe := by
  constructor
  · intro h
    have hhit : ∀ n', n ≤ n' → n' ≤ n + VerdictCache.ttlSecs → ∃ e,
        cache.entries.lookup exe = some e ∧
          VerdictCache.isValid ⟨d.moment.stat, some n'⟩ exe e = true := by
      intro n' hle httl
      have hlookup := h ⟨d.moment.stat, some n'⟩ ⟨⟨m, hstat, hstat⟩, n, n', hnow, rfl, hle, httl⟩
      unfold VerdictCache.Cache.lookup at hlookup
      cases hentry : cache.entries.lookup exe with
      | none => rw [hentry] at hlookup; cases hlookup
      | some e =>
          rw [hentry] at hlookup
          refine ⟨e, rfl, ?_⟩
          by_contra hinvalid
          simp [hinvalid] at hlookup
    -- valid at the first moment and at the end of the time to live
    obtain ⟨e, he, hfirst⟩ := hhit n (Nat.le_refl n) (Nat.le_add_right _ _)
    obtain ⟨e', he', hlast⟩ := hhit (n + VerdictCache.ttlSecs) (Nat.le_add_right _ _) (Nat.le_refl _)
    obtain rfl := Option.some.inj (he.symm.trans he')
    simp only [VerdictCache.isValid, VerdictCache.isStale, hstat, Bool.and_eq_true,
      Bool.not_eq_true', Bool.or_eq_false_iff, bne_eq_false_iff_eq, beq_iff_eq] at hfirst hlast
    obtain ⟨⟨hversion, hage⟩, ⟨hino, hmtime⟩, hlen⟩ := hfirst
    obtain ⟨⟨_, hage'⟩, _⟩ := hlast
    have hnotafter : ¬ n < e.scannedAt := by
      intro hlt
      rw [if_pos hlt] at hage
      cases hage
    rw [if_neg (by omega), decide_eq_false_iff_not] at hage'
    exact ⟨e, m, n, he, hstat, hnow, hino.symm, hmtime.symm, hlen.symm, hversion, by omega⟩
  · rintro ⟨e, m', n', he, hstat', hnow', hino, hmtime, hlen, hversion, hscanned⟩ next ⟨hsame, hfresh⟩
    obtain rfl := Option.some.inj (hstat.symm.trans hstat')
    obtain rfl := Option.some.inj (hnow.symm.trans hnow')
    obtain ⟨m', hm', hnext⟩ := hsame
    obtain rfl := Option.some.inj (hstat.symm.trans hm')
    obtain ⟨n', later, hn', hlater, hle, httl⟩ := hfresh
    obtain rfl := Option.some.inj (hnow.symm.trans hn')
    have hvalid : VerdictCache.isValid next exe e = true := by
      simp only [VerdictCache.isValid, VerdictCache.isStale, hnext, hlater, hversion, hscanned, hino,
        hmtime, hlen, bne_self_eq_false, Bool.false_or, if_neg (Nat.not_lt.mpr hle), BEq.rfl,
        Bool.and_true, Bool.not_eq_true', decide_eq_false_iff_not]
      omega
    rw [VerdictCache.Cache.lookup, he]
    dsimp only
    rw [if_pos hvalid]
    rfl

/-- What the next scan holds of an executable. -/
theorem heldSince_next_iff {st : State} (hscan : Scan fs cfg d store file st) {exe : String}
    {m : VerdictCache.Metadata} {n : ℕ} (hstat : d.moment.stat exe = some m)
    (hnow : d.moment.now = some n) :
    HeldSince d (VerdictCache.load store (st.cache.persist store file)) exe ↔
      Readable store st ∧
        (store.writable = true ∧ (∃ verdict, (exe, verdict) ∈ judged st.findings) ∨
          HeldSince d (VerdictCache.load store file) exe) := by
  have hcache := cache_run hscan
  have hrecordable : ∀ verdict, VerdictCache.recordable d.moment exe verdict =
      some (VerdictCache.entryOf m n verdict) := by
    intro verdict
    rw [VerdictCache.recordable, hstat, hnow]
  have hclean : (VerdictCache.load store file).dirty = false := by
    unfold VerdictCache.load
    split
    · rfl
    · split <;> rfl
  have hdirty : (∃ verdict, (exe, verdict) ∈ judged st.findings) → st.cache.dirty = true := by
    rintro ⟨verdict, hmem⟩
    rw [hcache, VerdictCache.dirty_recordAll, hclean, Bool.false_or, List.any_eq_true]
    exact ⟨(exe, verdict), hmem, by rw [hrecordable]; rfl⟩
  rw [VerdictCache.entries_load_persist]
  split
  · rename_i hwritten
    obtain ⟨hmodified, hwritable⟩ := Bool.and_eq_true _ _ |>.mp hwritten
    split
    · rename_i hlength
      have hreadable : Readable store st := fun _ _ => hlength
      have hentry : st.cache.entries.lookup exe =
          (((judged st.findings).reverse.lookup exe).map (VerdictCache.entryOf m n)).or
            ((VerdictCache.load store file).entries.lookup exe) := by
        rw [hcache, VerdictCache.entries_recordAll]
        congr 1
        cases (judged st.findings).reverse.lookup exe with
        | none => rfl
        | some verdict => exact hrecordable verdict
      cases hlast : (judged st.findings).reverse.lookup exe with
      | none =>
          rw [hlast, Option.map_none, Option.none_or] at hentry
          have hnone : ¬ ∃ verdict, (exe, verdict) ∈ judged st.findings := by
            rintro ⟨verdict, hmem⟩
            have hne := List.lookup_eq_none_iff.mp hlast _ (List.mem_reverse.mpr hmem)
            simp at hne
          simp only [hnone, and_false, false_or, hreadable, true_and]
          unfold HeldSince
          rw [hentry]
      | some verdict =>
          rw [hlast, Option.map_some, Option.some_or] at hentry
          obtain ⟨_, _, hreverse, _⟩ := List.lookup_eq_some_iff.mp hlast
          have hmem : (exe, verdict) ∈ judged st.findings := by
            rw [← List.mem_reverse, hreverse]
            exact List.mem_append_right _ List.mem_cons_self
          exact iff_of_true ⟨_, m, n, hentry, hstat, hnow, rfl, rfl, rfl, rfl, rfl⟩
            ⟨hreadable, .inl ⟨hwritable, verdict, hmem⟩⟩
    · rename_i hlength
      constructor
      · rintro ⟨e, _, _, he, _⟩
        cases he
      · rintro ⟨hreadable, _⟩
        exact absurd (hreadable hmodified hwritable) hlength
  · rename_i hkept
    constructor
    · intro hheld
      refine ⟨fun hmodified hwritable => ?_, .inr hheld⟩
      exact absurd (Bool.and_eq_true _ _ |>.mpr ⟨hmodified, hwritable⟩) hkept
    · rintro ⟨_, ⟨hwritable, hjudged⟩ | hheld⟩
      · exact absurd (Bool.and_eq_true _ _ |>.mpr ⟨hdirty hjudged, hwritable⟩) hkept
      · exact hheld

/-- **The next scan finds a verdict exactly for what was recorded under the executable's path.** -/
theorem next_scan_hits_iff :
    NextScanHits fs cfg d store file ↔ KeyedByExecutable fs cfg d store file := by
  constructor
  · intro h st hscan exe hverdict hstat hnow
    obtain ⟨m, hstat⟩ := Option.isSome_iff_exists.mp hstat
    obtain ⟨n, hnow⟩ := Option.isSome_iff_exists.mp hnow
    exact (heldSince_next_iff fs cfg d store file hscan hstat hnow).mp
      ((hits_iff_heldSince d _ hstat hnow).mp (h st hscan exe hverdict))
  · intro h st hscan exe hverdict next hnext
    obtain ⟨m, hstat, _⟩ := hnext.same
    obtain ⟨n, _, hnow, _⟩ := hnext.fresh
    have hkeyed := h st hscan exe hverdict (hstat ▸ rfl) (hnow ▸ rfl)
    exact (hits_iff_heldSince d _ hstat hnow).mpr
      ((heldSince_next_iff fs cfg d store file hscan hstat hnow).mpr hkeyed) next hnext

/-- **A malicious verdict stays exactly until a benign one is recorded under the same path.** -/
theorem malicious_stays_iff :
    MaliciousStays fs cfg d store file ↔ NoBenignAfterMalicious fs cfg d store file := by
  have hentry : ∀ {exe : String} {recorded : List (String × Verdict)},
      (d.moment.stat exe).isSome = true → d.moment.now.isSome = true →
        ∀ verdict, recorded.reverse.lookup exe = some verdict →
          ((VerdictCache.recordAll d.moment (VerdictCache.load store file) recorded).entries.lookup
            exe).map VerdictCache.Entry.verdict = some verdict := by
    intro exe recorded hstat hnow verdict hlast
    obtain ⟨m, hstat⟩ := Option.isSome_iff_exists.mp hstat
    obtain ⟨n, hnow⟩ := Option.isSome_iff_exists.mp hnow
    rw [VerdictCache.entries_recordAll, hlast, Option.bind_some, VerdictCache.recordable, hstat, hnow]
    rfl
  constructor
  · intro h st hscan older between later exe hjudged hstat hnow
    have hstays := h st hscan (older ++ (exe, .malicious) :: between ++ [(exe, .benign)]) later
      (by rw [hjudged]; simp) exe (by simp) hstat hnow
    rw [hentry hstat hnow .benign (by simp)] at hstays
    cases hstays
  · intro h st hscan recorded later hjudged exe hmem hstat hnow
    cases hlast : recorded.reverse.lookup exe with
    | none =>
        have hne := List.lookup_eq_none_iff.mp hlast _ (List.mem_reverse.mpr hmem)
        simp at hne
    | some verdict =>
        rw [hentry hstat hnow verdict hlast]
        cases verdict with
        | malicious => rfl
        | benign =>
            -- the malicious verdict comes before the last one
            obtain ⟨after, before, hreverse, hother⟩ := List.lookup_eq_some_iff.mp hlast
            have hrecorded : recorded = before.reverse ++ (exe, .benign) :: after.reverse := by
              rw [← List.reverse_reverse recorded, hreverse]
              simp
            rw [hrecorded] at hmem
            rcases List.mem_append.mp hmem with hbefore | hlater
            · obtain ⟨older, between, hsplit⟩ := List.append_of_mem hbefore
              refine (h st hscan older between (after.reverse ++ later) exe ?_ hstat hnow).elim
              rw [hjudged, hrecorded, hsplit]
              simp
            · rcases List.mem_cons.mp hlater with heq | hafter
              · cases heq
              · have hne := hother _ (List.mem_reverse.mp hafter)
                simp at hne

/-- The cache works across scans, and no order of regions whitewashes an executable. -/
def CacheWorks : Prop := NextScanHits fs cfg d store file ∧ MaliciousStays fs cfg d store file

theorem cache_works_iff : CacheWorks fs cfg d store file ↔
    KeyedByExecutable fs cfg d store file ∧ NoBenignAfterMalicious fs cfg d store file :=
  and_congr (next_scan_hits_iff fs cfg d store file) (malicious_stays_iff fs cfg d store file)

end scans

/-! ### An executable that is never found -/

/-- A process with an ELF image in anonymous memory. -/
def payloadProcFs : ProcFs where
  entries := some ["42"]
  comm _ := some "x"
  environ _ := none
  maps _ := .read "1000-2000 rwxp 0 0:0 0 \n" false
  exe _ := some "/opt/x"
  isFile _ := false
  exeProvenance _ _ := .loneDropped

/-- The executable is a file, the description of its memory is none. -/
def payloadScan : DeepScan where
  memory := { readAt := fun _ _ => .ok [0x7F, 0x45, 0x4C, 0x46], shannon := fun _ => Ieee.zero }
  ghosts := { mapFile := fun _ _ => none, euid := 0, startEpoch := fun _ => none }
  moment := { stat := fun path => if path = "/opt/x" then some ⟨7, 0, 100⟩ else none, now := some 1000 }

theorem detect_payload :
    (detectFromProcCounted payloadProcFs ⟨true, none⟩ payloadScan {}).map (fun st =>
      (st.findings.map fun f => (payloadProcFs.exe f.pid, f.deepForensics.bind verdictOfRegion),
        st.cache.entries.isEmpty, st.cache.dirty)) =
      .ok ([(some "/opt/x", some .malicious)], true, false) := by decide +kernel

/-- **The verdict on the process is recorded, and the next scan does not find it.** -/
theorem payload_not_found :
    ¬ CacheWorks payloadProcFs ⟨true, none⟩ payloadScan ⟨true, fun _ => 0⟩ none := by
  rintro ⟨hhits, _⟩
  have heval := detect_payload
  obtain ⟨st, hst⟩ := map_ok_iff.mp ⟨_, heval⟩
  rw [hst] at heval
  obtain ⟨hfound, hstate⟩ := Prod.mk.inj (Except.ok.inj heval)
  obtain ⟨_, hclean⟩ := Prod.mk.inj hstate
  obtain ⟨f, rest, hfindings, hf, _⟩ := List.map_eq_cons_iff.mp hfound
  obtain ⟨hexe, hverdict⟩ := Prod.mk.inj hf
  have hjudged : HasVerdict payloadProcFs st.findings "/opt/x" :=
    ⟨f, hfindings ▸ List.mem_cons_self, hexe, hverdict ▸ rfl⟩
  have hnext : SameWithinTtl payloadScan.moment payloadScan.moment "/opt/x" :=
    ⟨⟨⟨7, 0, 100⟩, rfl, rfl⟩, 1000, 1000, rfl, rfl, Nat.le_refl _, Nat.le_add_right _ _⟩
  have hlookup := hhits st hst "/opt/x" hjudged payloadScan.moment hnext
  rw [VerdictCache.entries_load_persist, hclean, Bool.false_and, if_neg Bool.false_ne_true]
    at hlookup
  revert hlookup
  decide

end LibraryInjection
end OwlzopsMapper
