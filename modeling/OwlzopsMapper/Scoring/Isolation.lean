import OwlzopsMapper.Scoring.Evaluate

/-! # What a failed scanner can still influence

`AgentReport.graft s r c` is the report `r` with the section that scanner `s` populates taken from
`c`, as the runner assembles it.  When `r` names `s` as failed, all findings of `s` are withheld,
but rules of other scanners may read its section: the sysctl rule reads the container runtime and
the native services, three groups of process rules read the listening ports, and preload entries
and generators are judged by the package database.  `ViewsAgree` lists exactly these readings.

* `Rule.RespectsViews`: a rule of another scanner has the same impact when the readings agree;
  every rule of the table does (`ruleTable_respects`).
* **`failed_scanner_isolated_iff`**: two contents of a failed scanner's section give the same score
  and verdict in every report exactly when they agree on these readings. -/

namespace OwlzopsMapper

/-! ### Sections -/

/-- The report `r` with the section of scanner `s` taken from `c`. -/
def AgentReport.graft (s : Scanner) (r c : AgentReport) : AgentReport :=
  match s with
  | .host => { r with host := c.host }
  | .network => { r with network := c.network }
  | .storage => { r with storage := c.storage }
  | .packages => { r with packages := c.packages }
  | .databases => { r with databases := c.databases }
  | .docker => { r with topology := c.topology }
  | .mountNamespace => { r with security := { r.security with
      mountNamespaceAnomalies := c.security.mountNamespaceAnomalies } }
  | .persistence => { r with security := { r.security with
      preloadInjections := c.security.preloadInjections
      corePattern := c.security.corePattern
      modulesDisabled := c.security.modulesDisabled
      lockdown := c.security.lockdown
      execStartInjections := c.security.execStartInjections
      ldSoConfInjections := c.security.ldSoConfInjections
      generators := c.security.generators
      oneWaySwitches := c.security.oneWaySwitches
      pamInjections := c.security.pamInjections } }
  | .security => { r with security := { c.security with
      preloadInjections := r.security.preloadInjections
      corePattern := r.security.corePattern
      modulesDisabled := r.security.modulesDisabled
      lockdown := r.security.lockdown
      execStartInjections := r.security.execStartInjections
      ldSoConfInjections := r.security.ldSoConfInjections
      generators := r.security.generators
      oneWaySwitches := r.security.oneWaySwitches
      pamInjections := r.security.pamInjections
      mountNamespaceAnomalies := r.security.mountNamespaceAnomalies
      firewallBypassFindings := r.security.firewallBypassFindings } }
  | .orchestrator => r

@[simp] theorem failedScanners_graft (s : Scanner) (r c : AgentReport) :
    (r.graft s c).failedScanners = r.failedScanners := by
  cases s <;> rfl

@[simp] theorem failed_graft (s t : Scanner) (r c : AgentReport) :
    (r.graft s c).failed t = r.failed t := by
  unfold AgentReport.failed
  rw [failedScanners_graft]

/-! ### Readings across sections -/

/-- A kubelet runs natively. -/
def HostInfo.runsKubelet (h : HostInfo) : Bool := h.nativeServices.any (· == "kubelet")

/-- Some port of the process is an implant's: wildcard address, ephemeral executable. -/
def implantOn (ports : List PortInfo) (pid : UInt32) : Bool :=
  ports.any fun p => p.implant.map Prod.fst == some pid

/-- What the rules of other scanners read of the section of `s` in `r` is the same in `c` and
`c'`. -/
def ViewsAgree (s : Scanner) (r c c' : AgentReport) : Prop :=
  match s with
  | .host => c.host.runsKubelet = c'.host.runsKubelet
  | .docker => c.topology.runtimeActive = c'.topology.runtimeActive
  | .security => (c.security.provenanceSource = .unavailable ↔
      c'.security.provenanceSource = .unavailable)
  | .network =>
      (∀ f ∈ r.security.capabilityAudit, f.criticalCaps ≠ [] →
        implantOn c.network.listeningPorts f.pid = implantOn c'.network.listeningPorts f.pid ∧
        exposedOn c.network.listeningPorts f.pid = exposedOn c'.network.listeningPorts f.pid) ∧
      ∀ f ∈ r.security.libraryInjections,
        reachableOn c.network.listeningPorts f.pid = reachableOn c'.network.listeningPorts f.pid
  | _ => True

/-- A rule of another scanner than `s` sees no more of the section of `s` than these readings. -/
def Rule.RespectsViews (rule : Rule) : Prop :=
  ∀ (s : Scanner) (m : Machine) (r c c' : AgentReport), rule.source ≠ s → ViewsAgree s r c c' →
    rule.impacts m (r.graft s c) = rule.impacts m (r.graft s c')

/-- A rule that reads its own section only. -/
theorem Rule.respects_of_local {rule : Rule} (h : ∀ (s : Scanner) (m : Machine)
    (r c : AgentReport), rule.source ≠ s → rule.impacts m (r.graft s c) = rule.impacts m r) :
    rule.RespectsViews := by
  intro s m r c c' hs _
  rw [h s m r c hs, h s m r c' hs]

/-! ### The rules that read across -/

theorem sec007_respects : sec007.RespectsViews := by
  intro s m r c c' hs hv
  have key : forwardingExpected (r.graft s c) = forwardingExpected (r.graft s c') := by
    cases s with
    | host => exact congrArg (r.topology.runtimeActive || ·) hv
    | docker => exact congrArg (· || r.host.runsKubelet) hv
    | _ => rfl
  cases s with
  | security => exact absurd rfl hs
  | host | network | storage | persistence | packages | databases | docker | mountNamespace
  | orchestrator =>
      simp only [Rule.impacts, sec007, key]
      rfl

theorem isSome_implantEvidence (audit : List ProcCapFinding) (p : PortInfo) :
    (implantEvidence audit p).isSome = true ↔
      ∃ f ∈ audit, f.criticalCaps ≠ [] ∧ p.implant.map Prod.fst = some f.pid := by
  unfold implantEvidence criticalCap
  cases p.implant with
  | none => simp
  | some i =>
      simp only [Option.isSome_map, List.find?_isSome, Bool.and_eq_true, beq_iff_eq,
        Bool.not_eq_true', List.isEmpty_eq_false_iff, Option.map_some, Option.some.injEq]
      constructor
      · rintro ⟨f, hf, hpid, hcaps⟩
        exact ⟨f, hf, hcaps, hpid.symm⟩
      · rintro ⟨f, hf, hcaps, hpid⟩
        exact ⟨f, hf, hpid.symm, hcaps⟩

/-- The process the rule SEC-015 is about: audited, with a critical capability, and an
implant. -/
def hasImplant (audit : List ProcCapFinding) (ports : List PortInfo) : Bool :=
  audit.any fun f => !f.criticalCaps.isEmpty && implantOn ports f.pid

theorem implantEvidence_isEmpty (audit : List ProcCapFinding) (ports : List PortInfo) :
    (!(ports.filterMap (implantEvidence audit)).isEmpty) = hasImplant audit ports := by
  rw [Bool.eq_iff_iff]
  simp only [Bool.not_eq_true', List.isEmpty_eq_false_iff, ne_eq, List.filterMap_eq_nil_iff,
    not_forall, ← Option.isSome_iff_ne_none, isSome_implantEvidence, hasImplant, implantOn,
    List.any_eq_true, Bool.and_eq_true, beq_iff_eq]
  constructor
  · rintro ⟨p, hp, f, hf, hcaps, himp⟩
    exact ⟨f, hf, hcaps, p, hp, himp⟩
  · rintro ⟨f, hf, hcaps, p, hp, himp⟩
    exact ⟨p, hp, f, hf, hcaps, himp⟩

/-- **SEC-015 in terms of the audited processes.** -/
theorem sec015_impacts (m : Machine) (r : AgentReport) : sec015.impacts m r =
    if hasImplant r.security.capabilityAudit r.network.listeningPorts then
      [⟨"SEC-015", .security, 60, true⟩] else [] := by
  simp only [Rule.impacts, sec015, implantEvidence_isEmpty]
  unfold pushIf
  split <;> rfl

theorem cap001_impacts (m : Machine) (r : AgentReport) : cap001.impacts m r =
    let holders := r.security.capabilityAudit.filter fun f => !f.criticalCaps.isEmpty
    if holders.isEmpty then [] else
      [⟨"CAP-001", .security, if holders.any fun f => exposedOn r.network.listeningPorts f.pid
        then 20 else 8, true⟩] := by
  have hpos : ∀ l : List ProcCapFinding,
      0 < (l.filter fun f => exposedOn r.network.listeningPorts f.pid).length ↔
        (l.any fun f => exposedOn r.network.listeningPorts f.pid) = true := by
    intro l
    rw [List.length_pos_iff, ne_eq, List.filter_eq_nil_iff, List.any_eq_true]
    simp
  simp only [Rule.impacts, cap001, hpos]
  unfold pushIf
  cases (r.security.capabilityAudit.filter fun f => !f.criticalCaps.isEmpty).isEmpty <;> rfl

section network
variable {r c c' : AgentReport} (hv : ViewsAgree .network r c c')
include hv

theorem sec015_network (m : Machine) :
    sec015.impacts m (r.graft .network c) = sec015.impacts m (r.graft .network c') := by
  have key : hasImplant r.security.capabilityAudit c.network.listeningPorts =
      hasImplant r.security.capabilityAudit c'.network.listeningPorts := by
    unfold hasImplant
    rw [Bool.eq_iff_iff, List.any_eq_true, List.any_eq_true]
    refine exists_congr fun f => and_congr_right fun hf => ?_
    by_cases hcaps : f.criticalCaps = []
    · simp [hcaps]
    · rw [(hv.1 f hf hcaps).1]
  rw [sec015_impacts, sec015_impacts]
  exact congrArg (fun b : Bool => if b then [(⟨"SEC-015", .security, 60, true⟩ : Impact)] else [])
    key

theorem cap001_network (m : Machine) :
    cap001.impacts m (r.graft .network c) = cap001.impacts m (r.graft .network c') := by
  have key : ((r.security.capabilityAudit.filter fun f => !f.criticalCaps.isEmpty).any
        fun f => exposedOn c.network.listeningPorts f.pid) =
      (r.security.capabilityAudit.filter fun f => !f.criticalCaps.isEmpty).any
        fun f => exposedOn c'.network.listeningPorts f.pid := by
    rw [Bool.eq_iff_iff, List.any_eq_true, List.any_eq_true]
    refine exists_congr fun f => and_congr_right fun hf => ?_
    obtain ⟨hmem, hcaps⟩ := List.mem_filter.mp hf
    rw [(hv.1 f hmem (by simpa using hcaps)).2]
  rw [cap001_impacts, cap001_impacts]
  exact congrArg (fun b : Bool =>
    if (r.security.capabilityAudit.filter fun f => !f.criticalCaps.isEmpty).isEmpty then []
    else [(⟨"CAP-001", .security, if b then 20 else 8, true⟩ : Impact)]) key

theorem bucket_network (m : Machine) (b : MemBucket) :
    bucket m (r.graft .network c) b = bucket m (r.graft .network c') b := by
  unfold bucket
  refine List.filter_congr fun f hf => ?_
  have hclean : processBehaviorClean f.pid (r.graft .network c) =
      processBehaviorClean f.pid (r.graft .network c') := by
    simp only [processBehaviorClean, AgentReport.graft, hv.2 f hf]
  have hdeep : deepBucket m (r.graft .network c) f = deepBucket m (r.graft .network c') f := by
    funext d
    simp only [deepBucket, hclean]
  have hbucket : memBucket m (r.graft .network c) f = memBucket m (r.graft .network c') f := by
    unfold memBucket
    rw [hdeep]
  simp only [regionBucket, hbucket]

end network

/-- A rule on injected code whose findings are a function of the buckets. -/
theorem Rule.respects_of_bucket {rule : Rule} (hsource : rule.source = .security)
    (h : ∀ m r r', bucket m r = bucket m r' → rule.impacts m r = rule.impacts m r') :
    rule.RespectsViews := by
  intro s m r c c' hs hv
  apply h
  cases s with
  | security => exact absurd hsource hs
  | network => exact funext (bucket_network hv m)
  | host | storage | persistence | packages | databases | docker | mountNamespace
  | orchestrator => rfl

theorem memoryRules_respect : ∀ rule ∈ sec027 :: memoryRules, rule.RespectsViews := by
  simp only [memoryRules, List.forall_mem_cons]
  refine ⟨?_, ?_, ?_, ?_, ?_, ?_, fun _ h => absurd h List.not_mem_nil⟩
  · exact Rule.respects_of_bucket rfl fun m r r' h => by simp only [Rule.impacts, sec027, h]
  · exact Rule.respects_of_bucket rfl fun m r r' h => by simp only [Rule.impacts, sec023, h]
  · exact Rule.respects_of_bucket rfl fun m r r' h => by simp only [Rule.impacts, sec028, h]
  · exact Rule.respects_of_bucket rfl fun m r r' h => by simp only [Rule.impacts, sec026, h]
  · exact Rule.respects_of_bucket rfl fun m r r' h => by simp only [Rule.impacts, sec029, h]
  · exact Rule.respects_of_bucket rfl fun m r r' h => by simp only [Rule.impacts, sec033, h]

theorem sec015_respects : sec015.RespectsViews := by
  intro s m r c c' hs hv
  cases s with
  | security => exact absurd rfl hs
  | network => exact sec015_network hv m
  | host | storage | persistence | packages | databases | docker | mountNamespace
  | orchestrator => rfl

theorem cap001_respects : cap001.RespectsViews := by
  intro s m r c c' hs hv
  cases s with
  | security => exact absurd rfl hs
  | network => exact cap001_network hv m
  | host | storage | persistence | packages | databases | docker | mountNamespace
  | orchestrator => rfl

/-- The tier of a preload entry depends on the package database being unavailable only. -/
theorem PreloadFinding.tier_congr {p p' : ProvenanceSource}
    (h : p = .unavailable ↔ p' = .unavailable) (f : PreloadFinding) : f.tier p = f.tier p' := by
  simp only [PreloadFinding.tier, h]

theorem GeneratorFinding.verdict_congr {p p' : ProvenanceSource}
    (h : p = .unavailable ↔ p' = .unavailable) (g : GeneratorFinding) :
    g.verdict p = g.verdict p' := by
  simp only [GeneratorFinding.verdict, classifyGenerator, h]

theorem sec042_respects : sec042.RespectsViews := by
  intro s m r c c' hs hv
  cases s with
  | persistence => exact absurd rfl hs
  | security =>
      have key : preloadTier (r.graft .security c).security =
          preloadTier (r.graft .security c').security := by
        funext t
        refine List.filter_congr fun f _ => ?_
        exact congrArg (· == t) (PreloadFinding.tier_congr hv f)
      simp only [Rule.impacts, sec042, key]
  | host | storage | network | packages | databases | docker | mountNamespace
  | orchestrator => rfl

theorem sec052_respects : sec052.RespectsViews := by
  intro s m r c c' hs hv
  cases s with
  | persistence => exact absurd rfl hs
  | security =>
      have key : generatorsWith (r.graft .security c).security =
          generatorsWith (r.graft .security c').security := by
        funext v
        refine congrArg (List.map _) (List.filter_congr fun g _ => ?_)
        exact congrArg (· == v) (GeneratorFinding.verdict_congr hv g)
      simp only [Rule.impacts, sec052, key]
  | host | storage | network | packages | databases | docker | mountNamespace
  | orchestrator => rfl

/-! ### The whole table -/

theorem accessRules_respect : ∀ rule ∈ accessRules, rule.RespectsViews := by
  simp only [accessRules, List.forall_mem_cons]
  refine ⟨?_, ?_, ?_, ?_, ?_, ?_, sec007_respects, ?_, ?_, ?_, ?_, ?_, ?_, ?_,
    fun _ h => absurd h List.not_mem_nil⟩
  all_goals
    refine Rule.respects_of_local fun s m r c hs => ?_
    cases s <;> first | rfl | exact absurd rfl hs

theorem processRules_respect : ∀ rule ∈ processRules ++ behaviourRules, rule.RespectsViews := by
  simp only [processRules, behaviourRules, List.cons_append, List.nil_append,
    List.forall_mem_cons]
  refine ⟨?_, ?_, ?_, sec015_respects, ?_, ?_, ?_, ?_, ?_, ?_, ?_, ?_, ?_, ?_, cap001_respects,
    ?_, fun _ h => absurd h List.not_mem_nil⟩
  all_goals
    refine Rule.respects_of_local fun s m r c hs => ?_
    cases s <;> first | rfl | exact absurd rfl hs

theorem kernelRules_respect : ∀ rule ∈ kernelRules, rule.RespectsViews := by
  simp only [kernelRules, List.forall_mem_cons]
  refine ⟨?_, ?_, ?_, ?_, ?_, ?_, ?_, ?_, fun _ h => absurd h List.not_mem_nil⟩
  all_goals
    refine Rule.respects_of_local fun s m r c hs => ?_
    cases s <;> first | rfl | exact absurd rfl hs

theorem persistenceRules_respect : ∀ rule ∈ persistenceRules, rule.RespectsViews := by
  simp only [persistenceRules, List.forall_mem_cons]
  refine ⟨sec042_respects, ?_, sec052_respects, ?_, ?_, ?_, fun _ h => absurd h List.not_mem_nil⟩
  all_goals
    refine Rule.respects_of_local fun s m r c hs => ?_
    cases s <;> first | rfl | exact absurd rfl hs

theorem containerRules_respect :
    ∀ rule ∈ containerRules ++ accountRules ++ stateRules, rule.RespectsViews := by
  simp only [containerRules, accountRules, stateRules, List.cons_append, List.nil_append,
    List.forall_mem_cons]
  refine ⟨?_, ?_, ?_, ?_, ?_, ?_, ?_, ?_, ?_, ?_, ?_, ?_, ?_, ?_, ?_, ?_, ?_, ?_, ?_, ?_, ?_, ?_,
    ?_, ?_, ?_, fun _ h => absurd h List.not_mem_nil⟩
  all_goals
    refine Rule.respects_of_local fun s m r c hs => ?_
    cases s <;> first | rfl | exact absurd rfl hs

/-- **Every rule respects the readings.** -/
theorem ruleTable_respects : ∀ rule ∈ ruleTable, rule.RespectsViews := by
  intro rule h
  simp only [ruleTable, List.mem_append, List.mem_singleton] at h
  rcases h with ((((((((h | h) | h) | h) | h) | h) | h) | h) | h) | h
  · exact accessRules_respect rule h
  · exact processRules_respect rule (List.mem_append_left _ h)
  · exact memoryRules_respect rule (List.mem_cons_of_mem _ h)
  · exact kernelRules_respect rule h
  · exact persistenceRules_respect rule h
  · exact memoryRules_respect rule (h ▸ List.mem_cons_self)
  · exact processRules_respect rule (List.mem_append_right _ h)
  · exact containerRules_respect rule (List.mem_append_left _ (List.mem_append_left _ h))
  · exact containerRules_respect rule (List.mem_append_left _ (List.mem_append_right _ h))
  · exact containerRules_respect rule (List.mem_append_right _ h)

/-! ### Score and verdict -/

/-- A failed scanner's section counts through the readings only. -/
theorem impacts_graft_eq {s : Scanner} {m : Machine} {r c c' : AgentReport}
    (hf : r.failed s = true) (hv : ViewsAgree s r c c') :
    (evaluate m (r.graft s c)).map Finding.impact =
      (evaluate m (r.graft s c')).map Finding.impact := by
  have hrules : ∀ d, liveRules (r.graft s d) = liveRules r := by
    intro d
    simp only [liveRules, failed_graft]
  rw [map_impact_evaluate, map_impact_evaluate, hrules, hrules, failedScanners_graft,
    failedScanners_graft]
  congr 1
  refine List.flatMap_congr fun rule hrule => ?_
  obtain ⟨hmem, hlive⟩ := List.mem_filter.mp hrule
  apply ruleTable_respects rule hmem s m r c c' _ hv
  rintro rfl
  simp [hf] at hlive

/-! ### Exactness

For every reading there is a report, a probe, whose score tells the two answers apart. -/

/-- Two contents of the section of `s` give other scanners the same readings in every report. -/
def SectionViewsAgree (s : Scanner) (c c' : AgentReport) : Prop :=
  match s with
  | .host => c.host.runsKubelet = c'.host.runsKubelet
  | .docker => c.topology.runtimeActive = c'.topology.runtimeActive
  | .security => (c.security.provenanceSource = .unavailable ↔
      c'.security.provenanceSource = .unavailable)
  | .network => ∀ pid : UInt32,
      implantOn c.network.listeningPorts pid = implantOn c'.network.listeningPorts pid ∧
      exposedOn c.network.listeningPorts pid = exposedOn c'.network.listeningPorts pid ∧
      reachableOn c.network.listeningPorts pid = reachableOn c'.network.listeningPorts pid
  | _ => True

theorem ViewsAgree.of_section {s : Scanner} {c c' : AgentReport} (h : SectionViewsAgree s c c')
    (r : AgentReport) : ViewsAgree s r c c' := by
  cases s with
  | network => exact ⟨fun f _ _ => ⟨(h f.pid).1, (h f.pid).2.1⟩, fun f _ => (h f.pid).2.2⟩
  | host | docker | security => exact h
  | storage | persistence | packages | databases | mountNamespace | orchestrator => trivial

theorem exposedOn_of_implantOn {ports : List PortInfo} {pid : UInt32}
    (h : implantOn ports pid = true) : exposedOn ports pid = true := by
  unfold implantOn at h
  unfold exposedOn
  rw [List.any_eq_true] at h ⊢
  obtain ⟨p, hp, himp⟩ := h
  refine ⟨p, hp, ?_⟩
  unfold PortInfo.implant at himp
  split at himp
  · simp at himp
  · rename_i hw
    split at himp
    · rename_i exe q hexe hpid
      split at himp
      · simp only [Option.map_some, beq_iff_eq, Option.some.injEq] at himp
        simp_all
      · simp at himp
    · simp at himp

theorem reachableOn_of_exposedOn {ports : List PortInfo} {pid : UInt32}
    (h : exposedOn ports pid = true) : reachableOn ports pid = true := by
  unfold exposedOn at h
  unfold reachableOn
  rw [List.any_eq_true] at h ⊢
  obtain ⟨p, hp, hb⟩ := h
  rw [Bool.and_eq_true] at hb
  exact ⟨p, hp, by rw [hb.1, not_isLoopbackBind_of_isWildcardBind hb.2]; rfl⟩

/-- A host scan failed on a machine that forwards packets. -/
def hostProbe : AgentReport :=
  { failedScanners := ["host"], security := { sysctlIssues := ["net.ipv4.ip_forward=1"] } }

/-- The container scan failed on a machine that forwards packets. -/
def dockerProbe : AgentReport :=
  { failedScanners := ["docker"], security := { sysctlIssues := ["net.ipv4.ip_forward=1"] } }

/-- The security scan failed on a machine with an unpackaged preload entry. -/
def securityProbe : AgentReport :=
  { failedScanners := ["security"],
    security := { preloadInjections := [{ path := "/opt/agent/hook.so" }] } }

/-- An inconclusive executable region in a process of a trusted runtime. -/
def probeRegion (pid : UInt32) : LibraryInjectionFinding :=
  { pid := pid, process := "node", source := "maps-anon-cached-clean",
    deepForensics := some { origin := .inconclusive } }

/-- The network scan failed on a machine with a capable process and an inconclusive region. -/
def networkProbe (pid : UInt32) : AgentReport :=
  { failedScanners := ["network"],
    security := { capabilityAudit := [{ pid := pid, criticalCaps := ["CAP_SYS_ADMIN"] }]
                  libraryInjections := [probeRegion pid] } }

theorem hostProbe_total (c : AgentReport) :
    (score (evaluate Machine.blind (hostProbe.graft .host c))).total =
      if c.host.runsKubelet then 30 else 35 := by
  cases h : c.host.runsKubelet with
  | true =>
      have hv : ViewsAgree .host hostProbe c { host := { nativeServices := ["kubelet"] } } := h
      rw [score_congr (impacts_graft_eq (by decide) hv)]
      decide
  | false =>
      have hv : ViewsAgree .host hostProbe c {} := h
      rw [score_congr (impacts_graft_eq (by decide) hv)]
      decide

theorem dockerProbe_total (c : AgentReport) :
    (score (evaluate Machine.blind (dockerProbe.graft .docker c))).total =
      if c.topology.runtimeActive then 60 else 65 := by
  cases h : c.topology.runtimeActive with
  | true =>
      have hv : ViewsAgree .docker dockerProbe c { topology := { runtimeActive := true } } := h
      rw [score_congr (impacts_graft_eq (by decide) hv)]
      decide
  | false =>
      have hv : ViewsAgree .docker dockerProbe c {} := h
      rw [score_congr (impacts_graft_eq (by decide) hv)]
      decide

theorem securityProbe_total (c : AgentReport) :
    (score (evaluate Machine.blind (securityProbe.graft .security c))).total =
      if c.security.provenanceSource = .unavailable then 80 else 90 := by
  split
  · rename_i h
    have hv : ViewsAgree .security securityProbe c {} := iff_of_true h rfl
    rw [score_congr (impacts_graft_eq (by decide) hv)]
    decide
  · rename_i h
    have hv : ViewsAgree .security securityProbe c
        { security := { provenanceSource := .dpkg } } := iff_of_false h (by decide)
    rw [score_congr (impacts_graft_eq (by decide) hv)]
    decide

section probe
variable (pid : UInt32) (c : AgentReport)

/-- The probe's region is provisional for a quiet process and an anomaly for a reachable one. -/
theorem regionBucket_probe :
    regionBucket Machine.blind ((networkProbe pid).graft .network c) (probeRegion pid) =
      if reachableOn c.network.listeningPorts pid then .anomaly else .trustedUnverified := by
  have hclean : processBehaviorClean pid ((networkProbe pid).graft .network c) =
      !reachableOn c.network.listeningPorts pid := by
    have hsource : Rust.contains "maps-anon-cached-clean" "ptrace" = false := by decide
    simp [processBehaviorClean, AgentReport.graft, networkProbe, probeRegion, hsource]
  have hdeep : deepBucket Machine.blind ((networkProbe pid).graft .network c) (probeRegion pid)
      { origin := .inconclusive } =
      if processBehaviorClean pid ((networkProbe pid).graft .network c) then
        some .trustedUnverified else none := by
    have hrep : reputableExe Machine.blind (probeRegion pid) = true := by
      have hsource : Rust.contains "maps-anon-cached-clean" "cached-clean" = true := by decide
      simp [reputableExe, probeRegion, hsource]
    have hmal : isTrumpingMalice { origin := .inconclusive } = false := by decide
    have hpid : (probeRegion pid).pid = pid := rfl
    simp only [deepBucket, hmal, hrep, hpid, Bool.true_or, Bool.and_true, Bool.false_eq_true,
      if_false]
  have hmem : memBucket Machine.blind ((networkProbe pid).graft .network c) (probeRegion pid) =
      if reachableOn c.network.listeningPorts pid then .anomaly else .trustedUnverified := by
    have hshallow : shallowBucket (probeRegion pid) = .anomaly := by
      have h1 : Rust.startsWith "maps-anon-cached-clean" "LD_" = false := by decide
      have h2 : Rust.startsWith "maps-anon-cached-clean" "maps-rwx-jit" = false := by decide
      have h3 : Rust.startsWith "maps-anon-cached-clean" "maps-rx-jit" = false := by decide
      have h4 : Rust.endsWith "maps-anon-cached-clean" "-jit" = false := by decide
      simp [shallowBucket, provisionalSources, LibraryInjectionFinding.classify, advisorySources,
        probeRegion, h1, h2, h3, h4]
    have hbind : (probeRegion pid).deepForensics = some { origin := .inconclusive } := rfl
    rw [memBucket, hbind, Option.bind_some, hdeep, hclean, hshallow]
    cases reachableOn c.network.listeningPorts pid <;> rfl
  have hpage : isTrampolinePage (probeRegion pid) = false := by
    simp [isTrampolinePage, probeRegion]
  simp [regionBucket, hpage, hmem]

theorem bucket_probe (b : MemBucket) :
    bucket Machine.blind ((networkProbe pid).graft .network c) b =
      if (if reachableOn c.network.listeningPorts pid then MemBucket.anomaly
        else .trustedUnverified) = b then [probeRegion pid] else [] := by
  have hlist : ((networkProbe pid).graft .network c).security.libraryInjections =
      [probeRegion pid] := rfl
  simp only [bucket, hlist, List.filter_cons, List.filter_nil, regionBucket_probe, beq_iff_eq]

theorem failed_networkProbe (s : Scanner) :
    ((networkProbe pid).graft .network c).failed s = (s == .network) := by
  have hname : ∀ t : Scanner, (["network"].any fun name => Scanner.fromName name == some t) =
      (t == .network) := by
    intro t
    cases t <;> decide
  rw [failed_graft]
  unfold AgentReport.failed networkProbe
  exact hname s

/-- The rules that tell the probe's contents apart, between those that do not. -/
theorem liveRules_networkProbe : liveRules ((networkProbe pid).graft .network c) =
    [sec002, sec003, sec005, sec006, sec007, sec008, sec009, sec011, sec012, sec061, sec062,
      sec063] ++ [sec015] ++ [sec016, sec017, sec032, sec019, sec020, sec021, sec022] ++
    memoryRules ++ (kernelRules ++ persistenceRules) ++ [sec027] ++ [sec024, sec018, sec014] ++
    [cap001] ++ ([cap002, dock001, dock002, dock003, dock004, dock010] ++ accountRules ++
      stateRules) := by
  simp only [liveRules, failed_networkProbe]
  rfl

/-- The probe's impact: what the three readings decide, and what stays. -/
theorem networkProbe_impacts :
    (evaluate Machine.blind ((networkProbe pid).graft .network c)).map Finding.impact =
      (if implantOn c.network.listeningPorts pid then [⟨"SEC-015", .security, 60, true⟩]
        else []) ++
      (if reachableOn c.network.listeningPorts pid then [⟨"SEC-026", .security, 10, true⟩]
        else [⟨"SEC-029", .security, 0, false⟩]) ++
      [⟨"CAP-001", .security, if exposedOn c.network.listeningPorts pid then 20 else 8, true⟩,
        ⟨"REL-002", .reliability, 20, true⟩, ⟨"HYG-001", .hygiene, 10, true⟩,
        ⟨"COV-001", .hygiene, 0, true⟩] := by
  have h15 : sec015.impacts Machine.blind ((networkProbe pid).graft .network c) =
      if implantOn c.network.listeningPorts pid then [⟨"SEC-015", .security, 60, true⟩]
      else [] := by
    rw [sec015_impacts]
    simp [hasImplant, AgentReport.graft, networkProbe]
  have hcap : cap001.impacts Machine.blind ((networkProbe pid).graft .network c) =
      [⟨"CAP-001", .security, if exposedOn c.network.listeningPorts pid then 20 else 8,
        true⟩] := by
    rw [cap001_impacts]
    simp [AgentReport.graft, networkProbe]
  have hmem : (memoryRules.flatMap fun rule =>
      rule.impacts Machine.blind ((networkProbe pid).graft .network c)) =
      if reachableOn c.network.listeningPorts pid then [⟨"SEC-026", .security, 10, true⟩]
      else [⟨"SEC-029", .security, 0, false⟩] := by
    have hexec : Rust.contains "maps-anon-cached-clean" "exec" = false := by decide
    have hrwx : Rust.contains "maps-anon-cached-clean" "rwx" = false := by decide
    simp only [memoryRules, List.flatMap_cons, List.flatMap_nil, Rule.impacts, sec023, sec028,
      sec026, sec029, sec033, bucket_probe, map_impact_pushIf, Draft.impact]
    cases reachableOn c.network.listeningPorts pid <;> simp [probeRegion, hexec, hrwx]
  have hjit : sec027.impacts Machine.blind ((networkProbe pid).graft .network c) = [] := by
    simp only [Rule.impacts, sec027, bucket_probe, map_impact_pushIf]
    cases reachableOn c.network.listeningPorts pid <;> rfl
  rw [map_impact_evaluate, liveRules_networkProbe]
  simp only [List.flatMap_append, List.flatMap_cons, List.flatMap_nil, List.append_nil, h15, hcap,
    hmem, hjit, List.append_assoc]
  rfl

end probe

/-- The score of the network probe under its three readings. -/
def probeTotal (implant exposed reachable : Bool) : UInt8 :=
  if implant then 90 else (if exposed then 20 else 8) + (if reachable then 10 else 0) + 30

theorem networkProbe_total (pid : UInt32) (c : AgentReport) :
    (score (evaluate Machine.blind ((networkProbe pid).graft .network c))).total =
      probeTotal (implantOn c.network.listeningPorts pid) (exposedOn c.network.listeningPorts pid)
        (reachableOn c.network.listeningPorts pid) := by
  rw [score_total_eq, networkProbe_impacts]
  cases implantOn c.network.listeningPorts pid <;>
    cases exposedOn c.network.listeningPorts pid <;>
      cases reachableOn c.network.listeningPorts pid <;> decide

/-- The probe's score determines its readings, since an implant is exposed and an exposed process
reachable. -/
theorem probeTotal_inj : ∀ a b c a' b' c' : Bool, (a → b) → (b → c) → (a' → b') → (b' → c') →
    probeTotal a b c = probeTotal a' b' c' → a = a' ∧ b = b' ∧ c = c' := by
  decide

theorem iff_of_ite_eq {α : Type} {x y : α} (hxy : x ≠ y) {p q : Prop} [Decidable p] [Decidable q]
    (h : (if p then x else y) = if q then x else y) : p ↔ q := by
  by_cases hp : p <;> by_cases hq : q <;> simp_all

section exactness
variable {s : Scanner} {c c' : AgentReport}

/-- Same readings, same score and verdict. -/
theorem failed_scanner_isolated (h : SectionViewsAgree s c c') (m : Machine) (r : AgentReport)
    (hf : r.failed s = true) :
    (score (evaluate m (r.graft s c))).total = (score (evaluate m (r.graft s c'))).total ∧
    securityVerdictFromFindings (evaluate m (r.graft s c)) =
      securityVerdictFromFindings (evaluate m (r.graft s c')) :=
  have key := impacts_graft_eq hf (ViewsAgree.of_section h r)
  ⟨score_congr key, verdict_congr key⟩

/-- Same score in every report, same readings: the probes tell other readings apart. -/
theorem views_of_totals (h : ∀ r : AgentReport, r.failed s = true →
      (score (evaluate Machine.blind (r.graft s c))).total =
        (score (evaluate Machine.blind (r.graft s c'))).total) : SectionViewsAgree s c c' := by
  cases s with
  | host =>
      have key := h hostProbe (by decide)
      rw [hostProbe_total, hostProbe_total] at key
      exact Bool.eq_iff_iff.mpr (iff_of_ite_eq (by decide) key)
  | docker =>
      have key := h dockerProbe (by decide)
      rw [dockerProbe_total, dockerProbe_total] at key
      exact Bool.eq_iff_iff.mpr (iff_of_ite_eq (by decide) key)
  | security =>
      have key := h securityProbe (by decide)
      rw [securityProbe_total, securityProbe_total] at key
      exact iff_of_ite_eq (by decide) key
  | network =>
      intro pid
      have key := h (networkProbe pid) (by
        have hnet := failed_networkProbe pid (networkProbe pid) .network
        rwa [failed_graft] at hnet)
      rw [networkProbe_total, networkProbe_total] at key
      exact probeTotal_inj _ _ _ _ _ _ exposedOn_of_implantOn reachableOn_of_exposedOn
        exposedOn_of_implantOn reachableOn_of_exposedOn key
  | storage | persistence | packages | databases | mountNamespace | orchestrator => trivial

end exactness

/-- **When a failed scanner cannot influence the result**: two contents of its section give the
same score and the same verdict in every report that names it as failed, on every machine, exactly
when the readings that other scanners make of the section agree. -/
theorem failed_scanner_isolated_iff (s : Scanner) (c c' : AgentReport) :
    (∀ (m : Machine) (r : AgentReport), r.failed s = true →
      (score (evaluate m (r.graft s c))).total = (score (evaluate m (r.graft s c'))).total ∧
      securityVerdictFromFindings (evaluate m (r.graft s c)) =
        securityVerdictFromFindings (evaluate m (r.graft s c'))) ↔
    SectionViewsAgree s c c' := by
  constructor
  · intro h
    exact views_of_totals fun r hr => (h Machine.blind r hr).1
  · intro h m r hr
    exact failed_scanner_isolated h m r hr

/-- A report of a machine with a capable process on which the network scan failed. -/
def capableReport (ports : List PortInfo) : AgentReport :=
  { failedScanners := ["network"]
    network := { listeningPorts := ports }
    security := { capabilityAudit := [{ pid := 7, criticalCaps := ["CAP_SYS_ADMIN"] }] } }

/-- A failed network scan influences the result: with the ports it had collected the host is
compromised, without them it is not. -/
theorem failed_network_not_isolated :
    let ports : List PortInfo :=
      [{ bindAddress := "0.0.0.0", pid := some 7, exePath := some "/tmp/x" }]
    (capableReport []).failed .network = true ∧
    (capableReport []).graft .network (capableReport ports) = capableReport ports ∧
    (score (evaluate Machine.blind (capableReport []))).total ≠
      (score (evaluate Machine.blind (capableReport ports))).total ∧
    securityVerdictFromFindings (evaluate Machine.blind (capableReport [])) ≠
      securityVerdictFromFindings (evaluate Machine.blind (capableReport ports)) := by
  refine ⟨by decide, rfl, by decide, by decide⟩

end OwlzopsMapper
