import OwlzopsMapper.Scoring.Reproducible

/-! # What an evaluation takes from the machine it runs on

Scoring asks the evaluating machine for the provenance of executables: for listeners on loopback
and for inconclusive memory regions.  `provenanceByPath` says when the path of an executable
decides its provenance on every machine; otherwise a machine without the process finds it dropped
and some machine vouches for it (`exeProvenance_blind`, `voucher_vouches`).

**A report is evaluated alike on any two machines exactly when it leaves no such question open**
(`evaluation_by_report_iff`): no loopback listener and no inconclusive region whose executable the
machine is asked about, no list of processes in hash order, no generator that only one build
reports. -/

namespace OwlzopsMapper

open Rust

/-! ### Provenance -/

/-- The owner of the running file decides. -/
def isSystemManaged (exe : String) : Bool :=
  systemBin.any (fun p => startsWith exe p) || startsWith exe "/nix/store/"

/-- Some directory above the executable may be found to be an install tree. -/
def mayBePopulated (exe : String) : Bool :=
  !((Path.ancestors maxUpwardDepth exe).takeWhile fun dir => !isContainerDir dir).isEmpty

/-- The mount namespace of the process does not matter. -/
def namespaceFree (exe : String) (pid : UInt32) : Bool := pid == 1 || !isStandardInstallPath exe

/-- The provenance of the executable follows from its path. -/
def provenanceByPath (exe : String) (pid : UInt32) : Bool :=
  (endsWith exe " (deleted)" || startsWith exe "/memfd:") ||
    (!isSystemManaged exe &&
      if isVolatileExecPath exe then namespaceFree exe pid
      else runtimeManagerRoots.any (fun r => contains exe r) ||
        (!mayBePopulated exe && namespaceFree exe pid))

/-- Provenances that clear an executable. -/
def ExeProvenance.vouches (p : ExeProvenance) : Bool :=
  p == .installedApp || p == .nestedUserInstall

theorem not_foreign_init (m : Machine) : m.inForeignMntNs 1 = false := by
  unfold Machine.inForeignMntNs
  cases m.mntNs 1 <;> simp

theorem populatedTreeWithin_eq_false {exe : String} (h : mayBePopulated exe = false)
    (m : Machine) : m.populatedTreeWithin exe = false := by
  unfold mayBePopulated at h
  rw [Bool.not_eq_false', List.isEmpty_iff] at h
  unfold Machine.populatedTreeWithin
  rw [h]
  rfl

theorem isStandardInstallPath_of_runtime {exe : String}
    (h : runtimeManagerRoots.any (fun r => contains exe r) = true) :
    isStandardInstallPath exe = true := by
  simp [isStandardInstallPath, h]

/-- In a foreign namespace a path outside the standard install paths is dropped. -/
theorem foreign_of_namespaceFree {exe : String} {pid : UInt32} (h : namespaceFree exe pid = true)
    {m : Machine} (hm : m.inForeignMntNs pid = true) : isStandardInstallPath exe = false := by
  simp only [namespaceFree, Bool.or_eq_true, beq_iff_eq, Bool.not_eq_true'] at h
  rcases h with rfl | h
  · rw [not_foreign_init] at hm
    cases hm
  · exact h

theorem blind_not_foreign (pid : UInt32) : Machine.blind.inForeignMntNs pid = false := rfl

/-- The provenance on a machine that knows nothing of the process and its files. -/
theorem exeProvenance_blind_eq (exe : String) (pid : UInt32) :
    Machine.blind.exeProvenance exe pid =
      if endsWith exe " (deleted)" || startsWith exe "/memfd:" then .deleted
      else if isSystemManaged exe then .loneDropped
      else if isVolatileExecPath exe then .loneDropped
      else if runtimeManagerRoots.any (fun r => contains exe r) then .nestedUserInstall
      else .loneDropped := by
  have hpop : Machine.blind.populatedTreeWithin exe = false := by
    simp [Machine.populatedTreeWithin, Machine.blind]
  have huid : (Machine.blind.exeUid pid == some 0) = false := rfl
  unfold Machine.exeProvenance isSystemManaged
  simp only [blind_not_foreign, hpop, huid, Bool.false_eq_true, if_false, Bool.not_false, if_true]
  split
  · rfl
  · by_cases hs : systemBin.any (fun p => startsWith exe p) = true
    · simp [hs]
    · by_cases hn : startsWith exe "/nix/store/" = true <;> simp [hs, hn]

/-- **A path that decides leaves nothing to the machine.** -/
theorem exeProvenance_of_byPath {exe : String} {pid : UInt32}
    (h : provenanceByPath exe pid = true) (m : Machine) :
    m.exeProvenance exe pid = Machine.blind.exeProvenance exe pid := by
  rw [exeProvenance_blind_eq]
  unfold provenanceByPath at h
  unfold Machine.exeProvenance
  by_cases hdel : (endsWith exe " (deleted)" || startsWith exe "/memfd:") = true
  · rw [if_pos hdel, if_pos hdel]
  · rw [if_neg hdel, if_neg hdel]
    rw [Bool.not_eq_true] at hdel
    rw [hdel, Bool.false_or, Bool.and_eq_true, Bool.not_eq_true'] at h
    obtain ⟨hsys, h⟩ := h
    have hsys' := hsys
    rw [isSystemManaged, Bool.or_eq_false_iff] at hsys'
    rw [if_neg (by rw [hsys]; decide : ¬ isSystemManaged exe = true)]
    by_cases hvol : isVolatileExecPath exe = true
    · rw [if_pos hvol] at h
      rw [if_pos hvol]
      by_cases hf : m.inForeignMntNs pid = true
      · simp [hf, foreign_of_namespaceFree h hf]
      · simp [hf, hsys'.1, hsys'.2, hvol]
    · rw [if_neg hvol] at h
      rw [if_neg hvol]
      by_cases hrt : runtimeManagerRoots.any (fun r => contains exe r) = true
      · rw [if_pos hrt]
        by_cases hf : m.inForeignMntNs pid = true
        · simp [hf, isStandardInstallPath_of_runtime hrt]
        · simp [hf, hsys'.1, hsys'.2, hvol, hrt]
      · rw [if_neg hrt]
        rw [Bool.not_eq_true] at hrt
        rw [hrt, Bool.false_or, Bool.and_eq_true, Bool.not_eq_true'] at h
        by_cases hf : m.inForeignMntNs pid = true
        · simp [hf, foreign_of_namespaceFree h.2 hf]
        · simp [hf, hsys'.1, hsys'.2, hvol, hrt, populatedTreeWithin_eq_false h.1]

/-- Otherwise a machine without the process finds the executable dropped. -/
theorem exeProvenance_blind {exe : String} {pid : UInt32} (h : provenanceByPath exe pid = false) :
    Machine.blind.exeProvenance exe pid = .loneDropped := by
  rw [exeProvenance_blind_eq]
  rw [provenanceByPath, Bool.or_eq_false_iff] at h
  obtain ⟨hdel, h⟩ := h
  rw [if_neg (by rw [hdel]; decide)]
  by_cases hsys : isSystemManaged exe = true
  · rw [if_pos hsys]
  · rw [if_neg hsys]
    by_cases hvol : isVolatileExecPath exe = true
    · rw [if_pos hvol]
    · rw [if_neg hvol]
      rw [Bool.not_eq_true] at hsys hvol
      simp only [hsys, hvol, Bool.not_false, Bool.true_and, Bool.false_eq_true, if_false,
        Bool.or_eq_false_iff] at h
      rw [if_neg (by rw [h.1]; decide)]

/-- The executable can be cleared in a container only. -/
def clearedInContainer (exe : String) : Bool :=
  !isSystemManaged exe && (isVolatileExecPath exe || !mayBePopulated exe)

/-- A machine on which every running file belongs to root and every directory is populated, and
processes run in a container when that is what clears the executable. -/
def Machine.voucher (exe : String) : Machine where
  mntNs pid :=
    if clearedInContainer exe then some (if pid = 1 then "mnt:[1]" else "mnt:[2]") else none
  exeUid _ := some 0
  readDir _ := some installTreeMinFiles
  hashOrder := .insertion
  localScan := true

theorem voucher_foreign (exe : String) {pid : UInt32} (h : pid ≠ 1) :
    (Machine.voucher exe).inForeignMntNs pid = clearedInContainer exe := by
  unfold Machine.inForeignMntNs Machine.voucher
  cases clearedInContainer exe <;> simp [h]

theorem voucher_populated {exe : String} (h : mayBePopulated exe = true) :
    (Machine.voucher exe).populatedTreeWithin exe = true := by
  unfold mayBePopulated at h
  unfold Machine.populatedTreeWithin
  cases hdirs : (Path.ancestors maxUpwardDepth exe).takeWhile fun dir => !isContainerDir dir with
  | nil =>
      rw [hdirs] at h
      cases h
  | cons dir dirs => simp [Machine.voucher, installTreeMinFiles]

/-- In a container the voucher clears every standard install path. -/
theorem voucher_container {exe : String} {pid : UInt32} (hpid : namespaceFree exe pid = false)
    (hc : clearedInContainer exe = true) :
    (Machine.voucher exe).inForeignMntNs pid = true ∧ isStandardInstallPath exe = true := by
  simp only [namespaceFree, Bool.or_eq_false_iff, beq_eq_false_iff_ne, Bool.not_eq_false'] at hpid
  exact ⟨(voucher_foreign exe hpid.1).trans hc, hpid.2⟩

theorem voucher_not_foreign {exe : String} (pid : UInt32) (hc : clearedInContainer exe = false) :
    (Machine.voucher exe).inForeignMntNs pid = false := by
  by_cases hpid : pid = 1
  · rw [hpid]
    exact not_foreign_init _
  · rw [voucher_foreign exe hpid, hc]

/-- … and some machine vouches for it. -/
theorem voucher_vouches {exe : String} {pid : UInt32} (h : provenanceByPath exe pid = false) :
    ((Machine.voucher exe).exeProvenance exe pid).vouches = true := by
  rw [provenanceByPath, Bool.or_eq_false_iff] at h
  obtain ⟨hdel, h⟩ := h
  have huid : ((Machine.voucher exe).exeUid pid == some 0) = true := rfl
  unfold Machine.exeProvenance
  simp only [huid, if_true]
  rw [if_neg (by rw [hdel]; decide)]
  by_cases hsys : isSystemManaged exe = true
  · have hc : clearedInContainer exe = false := by simp [clearedInContainer, hsys]
    rw [voucher_not_foreign pid hc, if_neg Bool.false_ne_true]
    rw [isSystemManaged, Bool.or_eq_true] at hsys
    rcases hsys with hsys | hsys
    · rw [if_pos hsys]
      rfl
    · simp only [hsys, if_true]
      split <;> rfl
  · rw [Bool.not_eq_true] at hsys
    rw [hsys, Bool.not_false, Bool.true_and] at h
    have hsys' := hsys
    rw [isSystemManaged, Bool.or_eq_false_iff] at hsys'
    by_cases hvol : isVolatileExecPath exe = true
    · rw [if_pos hvol] at h
      obtain ⟨hf, hstd⟩ := voucher_container h (by simp [clearedInContainer, hsys, hvol])
      rw [if_pos hf, if_pos hstd]
      rfl
    · rw [if_neg hvol, Bool.or_eq_false_iff] at h
      by_cases hpop : mayBePopulated exe = true
      · have hc : clearedInContainer exe = false := by simp [clearedInContainer, hvol, hpop]
        rw [voucher_not_foreign pid hc, if_neg Bool.false_ne_true, hsys'.1, hsys'.2,
          if_neg Bool.false_ne_true, if_neg Bool.false_ne_true, if_neg hvol, h.1,
          if_neg Bool.false_ne_true, voucher_populated hpop]
        rfl
      · have hns : namespaceFree exe pid = false := by simpa [hpop] using h.2
        obtain ⟨hf, hstd⟩ := voucher_container hns (by simp [clearedInContainer, hsys, hpop])
        rw [if_pos hf, if_pos hstd]
        rfl

/-! ### Listeners -/

/-- The tier of a listener is the machine's decision. -/
def PortInfo.machineTier (p : PortInfo) : Bool :=
  isLoopbackBind p.bindAddress &&
    match p.exePath, p.pid with
    | some exe, some pid => isEphemeralExecPath exe && !provenanceByPath exe pid
    | _, _ => false

theorem classifyListener_of_settled {p : PortInfo} (h : p.machineTier = false) (m : Machine) :
    classifyListener m p = classifyListener .blind p := by
  unfold PortInfo.machineTier at h
  unfold classifyListener
  cases hexe : p.exePath with
  | none => rfl
  | some exe =>
      simp only
      by_cases heph : (!isEphemeralExecPath exe) = true
      · rw [if_pos heph, if_pos heph]
      · rw [if_neg heph, if_neg heph]
        rw [Bool.not_eq_true, Bool.not_eq_false'] at heph
        cases hpid : p.pid with
        | none => rfl
        | some pid =>
            simp only [hexe, hpid, heph, Bool.true_and, Bool.and_eq_false_iff,
              Bool.not_eq_false'] at h
            rcases h with hloop | hpath
            · simp only [hloop]
            · simp only [exeProvenance_of_byPath hpath m]

/-- An open listener is suspicious to a machine without the process and to no voucher. -/
theorem classifyListener_of_open {p : PortInfo} (h : p.machineTier = true) :
    ∃ exe, (classifyListener (Machine.voucher exe) p).suspicious.length = 0 ∧
      (classifyListener .blind p).suspicious.length = 1 := by
  unfold PortInfo.machineTier at h
  rw [Bool.and_eq_true] at h
  obtain ⟨hloop, h⟩ := h
  cases hexe : p.exePath with
  | none =>
      rw [hexe] at h
      cases h
  | some exe =>
      cases hpid : p.pid with
      | none =>
          rw [hexe, hpid] at h
          cases h
      | some pid =>
          simp only [hexe, hpid, Bool.and_eq_true, Bool.not_eq_true'] at h
          obtain ⟨heph, hpath⟩ := h
          have hvouch := voucher_vouches hpath
          simp only [ExeProvenance.vouches, Bool.or_eq_true, beq_iff_eq] at hvouch
          refine ⟨exe, ?_, ?_⟩
          · unfold classifyListener
            simp only [hexe, hpid, heph, hloop, Bool.not_true, Bool.false_eq_true, if_false]
            rcases hvouch with hv | hv <;> simp [hv]
          · unfold classifyListener
            simp only [hexe, hpid, heph, hloop, Bool.not_true, Bool.false_eq_true, if_false,
              exeProvenance_blind hpath]
            rfl

/-- No machine finds more suspicious listeners than one without the processes. -/
theorem suspicious_le_blind (m : Machine) (p : PortInfo) :
    (classifyListener m p).suspicious.length ≤ (classifyListener .blind p).suspicious.length := by
  by_cases h : p.machineTier = true
  · obtain ⟨_, _, hblind⟩ := classifyListener_of_open h
    rw [hblind]
    unfold classifyListener
    cases p.exePath with
    | none => exact Nat.zero_le _
    | some exe =>
        simp only
        split
        · exact Nat.zero_le _
        · split <;> simp
  · rw [classifyListener_of_settled (Bool.not_eq_true _ ▸ h) m]

theorem length_suspicious_lt {m : Machine} : ∀ {ports : List PortInfo} {p : PortInfo}, p ∈ ports →
    (classifyListener m p).suspicious.length < (classifyListener .blind p).suspicious.length →
    (classifyListeners m ports).suspicious.length <
      (classifyListeners .blind ports).suspicious.length
  | q :: ports, p, hp, hlt => by
      have hle : ∀ ports : List PortInfo, (classifyListeners m ports).suspicious.length ≤
          (classifyListeners .blind ports).suspicious.length := by
        intro ports
        induction ports with
        | nil => exact le_rfl
        | cons q ports ih =>
            have := suspicious_le_blind m q
            simp only [classifyListeners, List.flatMap_cons, List.length_append] at ih ⊢
            omega
      have hq := suspicious_le_blind m q
      have hrest := hle ports
      rcases List.mem_cons.mp hp with rfl | hp
      · simp only [classifyListeners, List.flatMap_cons, List.length_append] at hrest ⊢
        omega
      · have := length_suspicious_lt hp hlt
        simp only [classifyListeners, List.flatMap_cons, List.length_append] at this ⊢
        omega

/-! ### Memory regions -/

/-- The source of the finding says that the executable is reputable. -/
def LibraryInjectionFinding.tagged (f : LibraryInjectionFinding) : Bool :=
  contains f.source "cached-clean" || contains f.source "provisional" ||
    contains f.source "allowlist"

/-- The bucket without a deep verdict. -/
def shallowRegion (f : LibraryInjectionFinding) : MemBucket :=
  if shallowBucket f = .anomaly ∧ isTrampolinePage f then .trustedUnverified else shallowBucket f

/-- The region is inconclusive, and the reputation of the executable is the machine's decision. -/
def LibraryInjectionFinding.machineReputation (r : AgentReport) (f : LibraryInjectionFinding) :
    Bool :=
  match f.exePath, f.deepForensics with
  | some exe, some d =>
      !provenanceByPath exe f.pid && !f.tagged && !isTrumpingMalice d &&
        decide (d.origin = .inconclusive) && processBehaviorClean f.pid r
  | _, _ => false

/-- The bucket of a region is the machine's decision. -/
def LibraryInjectionFinding.machineBucket (r : AgentReport) (f : LibraryInjectionFinding) : Bool :=
  f.machineReputation r && shallowRegion f != .trustedUnverified

/-- A region whose reputation is open: trusted on a machine that vouches, shallow on others. -/
theorem regionBucket_of_machineReputation {r : AgentReport} {f : LibraryInjectionFinding}
    (h : f.machineReputation r = true) (m : Machine) :
    regionBucket m r f = if reputableExe m f then .trustedUnverified else shallowRegion f := by
  unfold LibraryInjectionFinding.machineReputation at h
  cases hexe : f.exePath with
  | none =>
      rw [hexe] at h
      cases h
  | some exe =>
      cases hd : f.deepForensics with
      | none =>
          rw [hexe, hd] at h
          cases h
      | some d =>
          simp only [hexe, hd, Bool.and_eq_true, Bool.not_eq_true', decide_eq_true_eq] at h
          obtain ⟨⟨⟨_, hmal⟩, horigin⟩, hclean⟩ := h
          have hdeep : deepBucket m r f d =
              if reputableExe m f then some .trustedUnverified else none := by
            unfold deepBucket
            rw [if_neg (by rw [hmal]; decide), horigin]
            simp [hclean, hexe]
          unfold regionBucket memBucket shallowRegion
          rw [hd, Option.bind_some, hdeep]
          by_cases hrep : reputableExe m f = true <;> simp [hrep]

/-- On a path that decides, or with a tag, the reputation is the same on every machine. -/
theorem reputableExe_of_settled {f : LibraryInjectionFinding}
    (h : f.tagged = true ∨ ∀ exe, f.exePath = some exe → provenanceByPath exe f.pid = true)
    (m : Machine) : reputableExe m f = reputableExe .blind f := by
  unfold reputableExe
  rcases h with h | h
  · unfold LibraryInjectionFinding.tagged at h
    rw [h]
    rfl
  · cases hexe : f.exePath with
    | none => rfl
    | some exe =>
        simp only
        rw [exeProvenance_of_byPath (h exe hexe) m]

theorem regionBucket_of_reputable {m : Machine} {r : AgentReport} {f : LibraryInjectionFinding}
    (h : reputableExe m f = reputableExe .blind f) : regionBucket m r f = regionBucket .blind r f := by
  have hdeep : ∀ d, deepBucket m r f d = deepBucket .blind r f d := by
    intro d
    unfold deepBucket
    rw [h]
  unfold regionBucket memBucket
  cases f.deepForensics with
  | none => rfl
  | some d => simp only [Option.bind_some, hdeep]

/-- Only an inconclusive region asks the machine. -/
theorem deepBucket_blind {m : Machine} {r : AgentReport} {f : LibraryInjectionFinding}
    {d : DeepMemoryAnalysis}
    (h : (!isTrumpingMalice d && decide (d.origin = .inconclusive) &&
      processBehaviorClean f.pid r) = false) : deepBucket m r f d = deepBucket .blind r f d := by
  unfold deepBucket
  by_cases hmal : isTrumpingMalice d = true
  · rw [if_pos hmal, if_pos hmal]
  · rw [if_neg hmal, if_neg hmal]
    rw [Bool.not_eq_true] at hmal
    rw [hmal, Bool.not_false, Bool.true_and] at h
    cases horigin : d.origin with
    | inconclusive =>
        rw [horigin] at h
        have hclean : processBehaviorClean f.pid r = false := by simpa using h
        simp [hclean]
    | _ => rfl

/-- **A region whose bucket is not open is in the same bucket on every machine.** -/
theorem regionBucket_of_settled {r : AgentReport} {f : LibraryInjectionFinding}
    (h : f.machineBucket r = false) (m : Machine) :
    regionBucket m r f = regionBucket .blind r f := by
  by_cases hrep : f.machineReputation r = true
  · rw [LibraryInjectionFinding.machineBucket, hrep, Bool.true_and, bne_eq_false_iff_eq] at h
    rw [regionBucket_of_machineReputation hrep, regionBucket_of_machineReputation hrep, h, ite_self,
      ite_self]
  · rw [Bool.not_eq_true] at hrep
    unfold LibraryInjectionFinding.machineReputation at hrep
    cases hexe : f.exePath with
    | none =>
        refine regionBucket_of_reputable (reputableExe_of_settled (Or.inr fun exe he => ?_) m)
        rw [hexe] at he
        cases he
    | some exe =>
        cases hd : f.deepForensics with
        | none =>
            unfold regionBucket memBucket
            rw [hd]
            rfl
        | some d =>
            simp only [hexe, hd] at hrep
            by_cases hpath : provenanceByPath exe f.pid = true
            · refine regionBucket_of_reputable (reputableExe_of_settled (Or.inr fun e he => ?_) m)
              rw [hexe, Option.some_inj] at he
              rw [← he]
              exact hpath
            · by_cases htag : f.tagged = true
              · exact regionBucket_of_reputable (reputableExe_of_settled (Or.inl htag) m)
              · rw [Bool.not_eq_true] at hpath htag
                rw [hpath, htag] at hrep
                unfold regionBucket memBucket
                rw [hd, Option.bind_some, Option.bind_some, deepBucket_blind (m := m) hrep]

/-- An open region is trusted where a machine vouches for its executable, and only there. -/
theorem regionBucket_of_open {r : AgentReport} {f : LibraryInjectionFinding}
    (h : f.machineBucket r = true) : regionBucket .blind r f ≠ .trustedUnverified ∧
      ∃ exe, regionBucket (Machine.voucher exe) r f = .trustedUnverified := by
  rw [LibraryInjectionFinding.machineBucket, Bool.and_eq_true] at h
  obtain ⟨hrep, hshallow⟩ := h
  rw [regionBucket_of_machineReputation hrep]
  have hopen := hrep
  unfold LibraryInjectionFinding.machineReputation at hopen
  cases hexe : f.exePath with
  | none =>
      rw [hexe] at hopen
      cases hopen
  | some exe =>
      cases hd : f.deepForensics with
      | none =>
          rw [hexe, hd] at hopen
          cases hopen
      | some d =>
          simp only [hexe, hd, Bool.and_eq_true, Bool.not_eq_true'] at hopen
          obtain ⟨⟨⟨⟨hpath, htag⟩, _⟩, _⟩, _⟩ := hopen
          unfold LibraryInjectionFinding.tagged at htag
          constructor
          · have hblind : reputableExe .blind f = false := by
              unfold reputableExe
              rw [htag, hexe]
              simp [exeProvenance_blind hpath]
            rw [hblind]
            simpa using hshallow
          · refine ⟨exe, ?_⟩
            have hvouch : reputableExe (Machine.voucher exe) f = true := by
              have hv := voucher_vouches hpath
              unfold ExeProvenance.vouches at hv
              unfold reputableExe
              rw [htag, hexe]
              exact hv
            rw [regionBucket_of_machineReputation hrep, hvouch]
            rfl

/-- What a machine without the processes trusts, every machine trusts. -/
theorem trusted_of_blind {r : AgentReport} {f : LibraryInjectionFinding}
    (h : regionBucket .blind r f = .trustedUnverified) (m : Machine) :
    regionBucket m r f = .trustedUnverified := by
  by_cases hopen : f.machineBucket r = true
  · exact absurd h (regionBucket_of_open hopen).1
  · rw [regionBucket_of_settled (Bool.not_eq_true _ ▸ hopen) m, h]

theorem length_trusted_lt {m : Machine} {r : AgentReport} {f : LibraryInjectionFinding}
    (hf : f ∈ r.security.libraryInjections) (hblind : regionBucket .blind r f ≠ .trustedUnverified)
    (hm : regionBucket m r f = .trustedUnverified) :
    (bucket .blind r .trustedUnverified).length < (bucket m r .trustedUnverified).length := by
  have hsub : bucket .blind r .trustedUnverified =
      (bucket m r .trustedUnverified).filter
        fun f => regionBucket .blind r f == .trustedUnverified := by
    unfold bucket
    rw [List.filter_filter]
    refine List.filter_congr fun g _ => ?_
    by_cases hg : regionBucket .blind r g = .trustedUnverified
    · simp [hg, trusted_of_blind hg m]
    · simp [hg]
  rw [hsub, List.length_filter_lt_length_iff_exists]
  exact ⟨f, List.mem_filter.mpr ⟨hf, by simp [hm]⟩, by simpa using hblind⟩

/-! ### Counts in an evidence -/

/-- The number an evidence starts with. -/
theorem count_inj {n k : ℕ} {x y : String}
    (h : toString n ++ (" " ++ x) = toString k ++ (" " ++ y)) : n = k := by
  have digits : ∀ (n : ℕ) (x : String),
      (toString n ++ (" " ++ x)).toList.takeWhile Char.isDigit = Nat.toDigits 10 n := by
    intro n x
    have hn : (toString n).toList = Nat.toDigits 10 n := Nat.toList_repr
    rw [String.toList_append, String.toList_append, hn, List.takeWhile_append_of_pos]
    · change Nat.toDigits 10 n ++ (' ' :: x.toList).takeWhile Char.isDigit = _
      rw [List.takeWhile_cons_of_neg (by decide), List.append_nil]
    · exact fun c hc => Nat.isDigit_of_mem_toDigits (by decide) (by decide) hc
  have hdigits : Nat.toDigits 10 n = Nat.toDigits 10 k := by
    rw [← digits n x, ← digits k y, h]
  have := congrArg (fun l => Nat.ofDigitChars 10 l 0) hdigits
  simpa using this

/-- Drafts whose evidence starts with a count, pushed when it is not zero, tell the count. -/
theorem pushIf_count_inj {α : Type} {xs ys : List α} {d e : Draft} {x y : String}
    (h : pushIf (!xs.isEmpty) d = pushIf (!ys.isEmpty) e)
    (hd : d.evidence = toString xs.length ++ (" " ++ x))
    (he : e.evidence = toString ys.length ++ (" " ++ y)) : xs.length = ys.length := by
  cases xs with
  | nil =>
      cases ys with
      | nil => rfl
      | cons b ys => simp [pushIf] at h
  | cons a xs =>
      cases ys with
      | nil => simp [pushIf] at h
      | cons b ys =>
          simp only [pushIf, List.isEmpty_cons, Bool.not_false, if_true, List.cons.injEq,
            and_true] at h
          rw [h, he] at hd
          exact (count_inj hd).symm

/-! ### The whole evaluation -/

/-- Nothing in the report is left to the machine, except in the findings of failed scanners. -/
structure ByReport (r : AgentReport) : Prop where
  listeners : r.failed .network = true ∨ ∀ p ∈ r.network.listeningPorts, p.machineTier = false
  regions : r.failed .security = true ∨
    ∀ f ∈ r.security.libraryInjections, f.machineBucket r = false
  order : r.failed .security = true ∨ OrderFree .blind r
  generators : r.failed .persistence = true ∨
    ∀ v ∈ [GeneratorVerdict.ioc, .unpackaged, .unverifiable], generatorsWith r.security v = []

theorem classifyListeners_of_settled {ports : List PortInfo}
    (h : ∀ p ∈ ports, p.machineTier = false) (m : Machine) :
    classifyListeners m ports = classifyListeners .blind ports := by
  unfold classifyListeners
  congr 1
  all_goals
    refine List.flatMap_congr fun p hp => ?_
    rw [classifyListener_of_settled (h p hp) m]

theorem bucket_of_settled {r : AgentReport}
    (h : ∀ f ∈ r.security.libraryInjections, f.machineBucket r = false) (m : Machine)
    (b : MemBucket) : bucket m r b = bucket .blind r b := by
  unfold bucket
  refine List.filter_congr fun f hf => ?_
  rw [regionBucket_of_settled (h f hf) m]

theorem sec052_of_no_generators {r : AgentReport}
    (h : ∀ v ∈ [GeneratorVerdict.ioc, .unpackaged, .unverifiable], generatorsWith r.security v = [])
    (m : Machine) : sec052.drafts m r = [] := by
  have h₁ := h .ioc (by simp)
  have h₂ := h .unpackaged (by simp)
  have h₃ := h .unverifiable (by simp)
  simp [sec052, h₁, h₂, h₃, pushIf]

/-- When the buckets are the same, a rule on injected code depends on the order at most. -/
theorem memory_drafts_eq {r : AgentReport} {m : Machine}
    (h : ∀ b, bucket m r b = bucket .blind r b) {rule : Rule} (hrule : rule ∈ sec027 :: memoryRules) :
    rule.drafts m r = rule.drafts (Machine.blind.reorder m.hashOrder) r := by
  have hb : ∀ b, bucket (Machine.blind.reorder m.hashOrder) r b = bucket .blind r b := fun _ => rfl
  have hp : ∀ fs, byProcess (Machine.blind.reorder m.hashOrder) fs = byProcess m fs := fun _ => rfl
  simp only [memoryRules, List.mem_cons, List.not_mem_nil, or_false] at hrule
  rcases hrule with rfl | rfl | rfl | rfl | rfl | rfl
  · simp only [sec027, h, hb, hp]
  · simp only [sec023, h, hb]
  · simp only [sec028, h, hb]
  · simp only [sec026, h, hb, hp]
  · simp only [sec029, h, hb, hp]
  · simp only [sec033, h, hb]

/-- Such a report is evaluated on every machine as on one that knows nothing. -/
theorem drafts_of_byReport {r : AgentReport} (h : ByReport r) (m : Machine) {rule : Rule}
    (hrule : rule ∈ ruleTable) (hlive : r.failed rule.source = false) :
    rule.drafts m r = rule.drafts .blind r := by
  have hmem : rule ∈ sec027 :: memoryRules → rule.source = .security →
      rule.drafts m r = rule.drafts .blind r := by
    intro hr hs
    have hfail : r.failed .security = false := hs ▸ hlive
    have hregions := h.regions.resolve_left (by rw [hfail]; decide)
    rw [memory_drafts_eq (bucket_of_settled hregions m) hr]
    exact drafts_of_orderFree h.order hrule hlive m.hashOrder .insertion
  have hports : rule.source = .network →
      classifyListeners m r.network.listeningPorts =
        classifyListeners .blind r.network.listeningPorts := by
    intro hs
    have hfail : r.failed .network = false := hs ▸ hlive
    exact classifyListeners_of_settled (h.listeners.resolve_left (by rw [hfail]; decide)) m
  rcases steady_or_varying rule hrule with hsteady | ⟨ids, hvar⟩
  · exact hsteady _ _ r
  · simp only [varyingRules, List.mem_cons, Prod.mk.injEq, List.not_mem_nil, or_false] at hvar
    rcases hvar with ⟨rfl, _⟩ | ⟨rfl, _⟩ | ⟨rfl, _⟩ | ⟨rfl, _⟩ | ⟨rfl, _⟩ | ⟨rfl, _⟩ | ⟨rfl, _⟩ |
      ⟨rfl, _⟩ | ⟨rfl, _⟩ | ⟨rfl, _⟩
    · simp only [sec013, hports rfl]
    · simp only [sec030, hports rfl]
    · simp only [sec031, hports rfl]
    · exact hmem (by simp [memoryRules]) rfl
    · exact hmem (by simp [memoryRules]) rfl
    · exact hmem (by simp [memoryRules]) rfl
    · exact hmem (by simp [memoryRules]) rfl
    · exact hmem (by simp [memoryRules]) rfl
    · have hfail : r.failed .persistence = false := hlive
      have hgen := h.generators.resolve_left (by rw [hfail]; decide)
      rw [sec052_of_no_generators hgen, sec052_of_no_generators hgen]
    · exact hmem (by simp [memoryRules]) rfl

/-- An evidence that starts with a count, a text and a list. -/
theorem count_evidence {n : ℕ} (before x : String) :
    toString n ++ (" " ++ before) ++ x = toString n ++ (" " ++ (before ++ x)) := by
  simp only [String.append_assoc]

theorem listeners_of_alike {r : AgentReport} (h : ∀ m m', evaluate m r = evaluate m' r)
    (hlive : r.failed .network = false) : ∀ p ∈ r.network.listeningPorts, p.machineTier = false := by
  intro p hp
  by_contra hopen
  obtain ⟨exe, hnone, hone⟩ := classifyListener_of_open (Bool.not_eq_false _ ▸ hopen)
  have hlt := length_suspicious_lt hp (by rw [hnone, hone]; decide : _ < _)
  have hdrafts : sec013.drafts (Machine.voucher exe) r = sec013.drafts .blind r :=
    drafts_eq_of_evaluate_eq (varying_at 0 rfl)
      (by simp only [ruleTable, processRules, List.mem_append, List.mem_cons]; tauto) hlive (h _ _)
  have hcount := pushIf_count_inj hdrafts
    (count_evidence "suspicious listener(s): " _) (count_evidence "suspicious listener(s): " _)
  omega

/-- The text after the count in the evidence of SEC-029. -/
def provisionalHeading : String :=
  "region(s) in allowlisted or low-risk patterns (e.g. single-page r-x trampolines): "

theorem regions_of_alike {r : AgentReport} (h : ∀ m m', evaluate m r = evaluate m' r)
    (hlive : r.failed .security = false) :
    ∀ f ∈ r.security.libraryInjections, f.machineBucket r = false := by
  intro f hf
  by_contra hopen
  obtain ⟨hblind, exe, hvouch⟩ := regionBucket_of_open (Bool.not_eq_false _ ▸ hopen)
  have hlt := length_trusted_lt hf hblind hvouch
  have hdrafts : sec029.drafts (Machine.voucher exe) r = sec029.drafts .blind r :=
    drafts_eq_of_evaluate_eq (varying_at 6 rfl)
      (mem_ruleTable_memory (by simp [memoryRules])) hlive (h _ _)
  have hcount := pushIf_count_inj hdrafts
    (count_evidence provisionalHeading _) (count_evidence provisionalHeading _)
  omega

theorem generators_of_alike {r : AgentReport} (h : ∀ m m', evaluate m r = evaluate m' r)
    (hlive : r.failed .persistence = false) :
    ∀ v ∈ [GeneratorVerdict.ioc, .unpackaged, .unverifiable], generatorsWith r.security v = [] := by
  have hdrafts : sec052.drafts .blind r = sec052.drafts { Machine.blind with localScan := false } r :=
    drafts_eq_of_evaluate_eq (varying_at 8 rfl)
      (by simp only [ruleTable, persistenceRules, List.mem_append, List.mem_cons]; tauto) hlive (h _ _)
  have hnil : sec052.drafts .blind r = [] := hdrafts.trans rfl
  have hblind : Machine.blind.localScan = true := rfl
  simp only [sec052, hblind, Bool.true_and, List.append_eq_nil_iff] at hnil
  obtain ⟨⟨hioc, hunpackaged⟩, hunverifiable⟩ := hnil
  have hempty : ∀ {l : List String} {d : Draft}, pushIf (!l.isEmpty) d = [] → l = [] := by
    intro l d hl
    cases l with
    | nil => rfl
    | cons a l => simp [pushIf] at hl
  intro v hv
  simp only [List.mem_cons, List.not_mem_nil, or_false] at hv
  rcases hv with rfl | rfl | rfl
  · exact hempty hioc
  · exact hempty hunpackaged
  · exact hempty hunverifiable

/-- **The verdict depends only on the report exactly when the report leaves nothing to the
machine**: any two machines find the same, score the same and reach the same verdict if and only
if no loopback listener and no inconclusive region has an executable whose provenance the path
does not settle, the lists of processes do not show their hash order, and no generator is
reported; what a failed scanner would have found does not count. -/
theorem evaluation_by_report_iff (r : AgentReport) :
    (∀ m m' : Machine, evaluate m r = evaluate m' r ∧
      score (evaluate m r) = score (evaluate m' r) ∧
      securityVerdictFromFindings (evaluate m r) = securityVerdictFromFindings (evaluate m' r)) ↔
      ByReport r := by
  constructor
  · intro h
    have hall : ∀ m m', evaluate m r = evaluate m' r := fun m m' => (h m m').1
    have split : ∀ (s : Scanner) {P : Prop}, (r.failed s = false → P) → r.failed s = true ∨ P := by
      intro s P hP
      cases hs : r.failed s with
      | true => exact Or.inl rfl
      | false => exact Or.inr (hP hs)
    exact ⟨split _ (listeners_of_alike hall), split _ (regions_of_alike hall),
      split _ (orderFree_of_reproducible fun o o' => hall _ _), split _ (generators_of_alike hall)⟩
  · intro h m m'
    have hblind : ∀ m, evaluate m r = evaluate .blind r := fun m =>
      evaluate_congr fun rule hrule hlive => drafts_of_byReport h m hrule hlive
    rw [hblind m, hblind m']
    exact ⟨rfl, rfl, rfl⟩

/-- A report with one loopback listener that runs from a user's install tree. -/
def loopbackTool : AgentReport :=
  { network :=
    { listeningPorts :=
      [{ protocol := "tcp", port := "3000", bindAddress := "127.0.0.1", pid := some 5
         exePath := some "/home/u/.local/share/tool/bin/tool" }] } }

/-- A machine on which directories are populated, as on the audited host. -/
def auditedHost : Machine := { Machine.blind with readDir := fun _ => some 20 }

/-- The same report scores worse on a machine that does not have the tool. -/
theorem remote_score_differs :
    evaluate auditedHost loopbackTool ≠ evaluate .blind loopbackTool ∧
      (score (evaluate auditedHost loopbackTool)).total ≠
        (score (evaluate .blind loopbackTool)).total := by
  have htotal : (score (evaluate auditedHost loopbackTool)).total ≠
      (score (evaluate .blind loopbackTool)).total := by decide +kernel
  exact ⟨fun h => htotal (by rw [h]), htotal⟩

end OwlzopsMapper
