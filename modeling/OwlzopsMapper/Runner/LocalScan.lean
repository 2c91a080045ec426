import OwlzopsMapper.CoverageSink
import OwlzopsMapper.Fleet.Outcome
import OwlzopsMapper.Fleet.RemoteHost
import OwlzopsMapper.Runner.Attribution
import OwlzopsMapper.Scanners.PublishedPorts
import OwlzopsMapper.Scoring.Isolation

/-! # A local scan

`run_local_scan_async` of `runner.rs`: nine tasks scan the machine side by side.  A task may panic;
the report is put together from what the others return, with containers linked to the namespaces they
own and the published ports set against the firewall.

* `failed_assemble`: the report names a scanner as failed exactly when its task panicked.
* `impacts_panic`: a panic takes nothing from the rules of other scanners but what they read of the
  section that is lost (`Tasks.Unread`).
* **`panics_contained`**: whatever set of tasks panics, the findings of the other scanners stay as they
  are, no compromise appears that was not there, and the run does not exit 0. -/

namespace OwlzopsMapper

open Rust

namespace LocalScan

/-! ### Tasks -/

/-- `PersistenceScan`. -/
structure PersistenceScan where
  preload : List PreloadFinding := []
  corePattern : Option String := none
  modulesDisabled : Option Bool := none
  lockdown : Option String := none
  execStart : List ExecStartFinding := []
  ldSoConf : List LdSoConfInjection := []
  generators : List GeneratorFinding := []
  oneWaySwitches : Lib.OrderedMap String (Option UInt8) := Lib.OrderedMap.empty
  pam : List PamFinding := []

/-- The containers, and the namespaces they live in. -/
structure Topology where
  info : TopologyInfo := {}
  containerNetns : List ContainerNetnsMapping := []

/-- What the tasks return; nothing where the task panicked. -/
structure Tasks where
  host : Option HostInfo
  databases : Option (List DatabaseInfo)
  network : Option NetworkInfo
  storage : Option StorageInfo
  security : Option SecurityInfo
  packages : Option PackagesInfo
  docker : Option Topology
  mountNamespace : Option (List MountNamespace.Anomaly)
  persistence : Option PersistenceScan

def persistenceIds : String := "SEC-042/043/044/049/050/051/052/053/054/055/056/057"

/-- A scanner that panicked, with the warning on it. -/
def panicOf {α : Type} (name warning : String) (result : Option α) : List (String × String) :=
  if result.isNone then [(name, warning)] else []

namespace Tasks
variable (t : Tasks)

/-- The scanners that panicked, in the order in which the results are taken. -/
def panics : List (String × String) :=
  panicOf "host" "host scanner panicked" t.host ++
  panicOf "databases" "databases scanner panicked" t.databases ++
  panicOf "network" "network scanner panicked" t.network ++
  panicOf "storage" "storage scanner panicked" t.storage ++
  panicOf "security" "security scanner panicked — SSH/sudo/sysctl fields NOT verified" t.security ++
  panicOf "packages" "packages scanner panicked" t.packages ++
  panicOf "docker" "docker scanner panicked" t.docker ++
  panicOf "mount_namespace"
    "mount namespace scanner panicked — mount_namespace_anomalies NOT enumerated" t.mountNamespace ++
  panicOf "persistence" ("persistence scanner panicked — " ++ persistenceIds ++ " NOT verified")
    t.persistence

def hostInfo : HostInfo := t.host.getD { hostname := "unknown" }
def networkInfo : NetworkInfo := t.network.getD {}
def securityInfo : SecurityInfo := t.security.getD {}
def topology : Topology := t.docker.getD {}
def anomalies : List MountNamespace.Anomaly := t.mountNamespace.getD []
def persistenceScan : PersistenceScan := t.persistence.getD {}

end Tasks

/-! ### The report -/

/-- What a report says of the scan itself. -/
structure ScanContext where
  scanId : String
  timestamp : String
  version : String
  isRoot : Bool
  machine : Machine

/-- What the readers of a report see of an anomaly. -/
def seen (a : MountNamespace.Anomaly) : MountNamespaceAnomaly :=
  { exePath := a.exePath, container := a.container }

/-- The listeners with their containers. -/
def linkedNetwork (t : Tasks) : NetworkInfo × List String :=
  linkForeignNetnsToContainers t.topology.containerNetns t.networkInfo

/-- The anomalies with their containers. -/
def linkedAnomalies (t : Tasks) : List MountNamespace.Anomaly × List String :=
  linkMountNsToContainers t.topology.containerNetns t.anomalies

/-- The report before it is scored. -/
def assemble (ctx : ScanContext) (t : Tasks) : AgentReport where
  timestamp := ctx.timestamp
  version := ctx.version
  isRootExecution := ctx.isRoot
  scanWarnings := t.panics.map Prod.snd
  failedScanners := t.panics.map Prod.fst
  host := t.hostInfo
  databases := t.databases.getD []
  network := (linkedNetwork t).1
  storage := t.storage.getD {}
  topology := t.topology.info
  packages := t.packages.getD {}
  security := { t.securityInfo with
    mountNamespaceAnomalies := (linkedAnomalies t).1.map seen
    firewallBypassFindings := PublishedPorts.detectFirewallBypass t.topology.info.containers
      (linkedNetwork t).1.firewallActive
    preloadInjections := t.persistenceScan.preload
    corePattern := t.persistenceScan.corePattern
    modulesDisabled := t.persistenceScan.modulesDisabled
    lockdown := t.persistenceScan.lockdown
    execStartInjections := t.persistenceScan.execStart
    ldSoConfInjections := t.persistenceScan.ldSoConf
    generators := t.persistenceScan.generators
    oneWaySwitches := t.persistenceScan.oneWaySwitches
    pamInjections := t.persistenceScan.pam }

def scored (m : Machine) (r : AgentReport) : AgentReport :=
  { r with riskScore := (score (evaluate m r)).total }

/-- `run_local_scan_async`, from the results of the tasks and the sink they have recorded into. -/
def runLocalScan (ctx : ScanContext) (t : Tasks) (sink : Sink) : RemoteHost.HostReport × Sink :=
  let recorded := ((linkedNetwork t).2 ++ (linkedAnomalies t).2).foldl (fun v msg => Sink.record msg v) sink
  let (coverageWarnings, sink) := Sink.drainScoped ctx.scanId recorded
  ({ report := scored ctx.machine (assemble ctx t), coverageWarnings := coverageWarnings }, sink)

/-! ### Which scanners failed -/

/-- The task of this scanner panicked. -/
def Tasks.panicked (t : Tasks) : Scanner → Bool
  | .host => t.host.isNone
  | .network => t.network.isNone
  | .storage => t.storage.isNone
  | .security => t.security.isNone
  | .persistence => t.persistence.isNone
  | .packages => t.packages.isNone
  | .databases => t.databases.isNone
  | .docker => t.docker.isNone
  | .mountNamespace => t.mountNamespace.isNone
  | .orchestrator => false

theorem any_panicOf {α : Type} (name warning : String) (result : Option α) (p : String → Bool) :
    ((panicOf name warning result).map Prod.fst).any p = (result.isNone && p name) := by
  unfold panicOf
  cases result.isNone <;> simp

/-- A scanner is named as failed exactly when its task panicked. -/
theorem failed_assemble (ctx : ScanContext) (t : Tasks) (s : Scanner) :
    (assemble ctx t).failed s = t.panicked s := by
  unfold AgentReport.failed assemble Tasks.panics
  simp only [List.map_append, List.any_append, any_panicOf]
  cases s <;> simp [Scanner.fromName, Tasks.panicked, beq_eq_decide]

/-! ### What a panic takes away -/

/-- The task of a scanner panics. -/
def Tasks.panic (t : Tasks) : Scanner → Tasks
  | .host => { t with host := none }
  | .network => { t with network := none }
  | .storage => { t with storage := none }
  | .security => { t with security := none }
  | .persistence => { t with persistence := none }
  | .packages => { t with packages := none }
  | .databases => { t with databases := none }
  | .docker => { t with docker := none }
  | .mountNamespace => { t with mountNamespace := none }
  | .orchestrator => t

theorem panicked_panic (t : Tasks) (s s' : Scanner) :
    (t.panic s).panicked s' = true ↔ t.panicked s' = true ∨ s' = s ∧ s ≠ .orchestrator := by
  cases s <;> cases s' <;> simp [Tasks.panic, Tasks.panicked]

/-- The rules of other scanners read nothing of the section of this one: what they would find there is
what they find when it is empty. -/
def Tasks.Unread (t : Tasks) : Scanner → Prop
  | .host => t.hostInfo.runsKubelet = false
  | .docker => t.topology.info.runtimeActive = false ∧
      ∀ active, PublishedPorts.detectFirewallBypass t.topology.info.containers active = []
  | .security => t.securityInfo.provenanceSource = .unavailable
  | .network =>
      (∀ f ∈ t.securityInfo.capabilityAudit, f.criticalCaps ≠ [] →
        implantOn t.networkInfo.listeningPorts f.pid = false ∧
        exposedOn t.networkInfo.listeningPorts f.pid = false) ∧
      ∀ f ∈ t.securityInfo.libraryInjections, reachableOn t.networkInfo.listeningPorts f.pid = false
  | _ => True

theorem Tasks.Unread.panic {t : Tasks} {s : Scanner} (h : t.Unread s) (s' : Scanner) :
    (t.panic s').Unread s := by
  cases s with
  | host => cases s' <;> first | exact h | rfl
  | docker => cases s' <;> first | exact h | exact ⟨rfl, fun _ => rfl⟩
  | security => cases s' <;> first | exact h | rfl
  | network =>
      cases s' with
      | network => exact ⟨fun _ _ _ => ⟨rfl, rfl⟩, fun _ _ => rfl⟩
      | security => exact ⟨fun _ hf => absurd hf List.not_mem_nil, fun _ hf => absurd hf List.not_mem_nil⟩
      | host | storage | persistence | packages | databases | docker | mountNamespace | orchestrator =>
          exact h
  | storage | persistence | packages | databases | mountNamespace | orchestrator => trivial

/-- The report with what the scan writes into it about other sections than the one it reads. -/
def relinked (r c : AgentReport) : AgentReport :=
  { r with
    riskScore := c.riskScore
    scanWarnings := c.scanWarnings
    failedScanners := c.failedScanners
    network := { r.network with foreignNetnsListeners := c.network.foreignNetnsListeners }
    security := { r.security with
      mountNamespaceAnomalies := c.security.mountNamespaceAnomalies
      firewallBypassFindings := c.security.firewallBypassFindings } }

/-- Of all this the rules read the published ports, and that only one of the network scanner. -/
def IgnoresLinks (rule : Rule) : Prop :=
  ∀ (m : Machine) (r c : AgentReport), (rule.source = .network →
    r.security.firewallBypassFindings = c.security.firewallBypassFindings) →
    rule.impacts m (relinked r c) = rule.impacts m r

theorem sec065_ignoresLinks : IgnoresLinks sec065 := by
  intro m r c h
  have key : (relinked r c).security.firewallBypassFindings = r.security.firewallBypassFindings :=
    (h rfl).symm
  simp only [Rule.impacts, sec065, key]

theorem ruleTable_ignoresLinks : ∀ rule ∈ ruleTable, IgnoresLinks rule := by
  simp only [ruleTable, accessRules, processRules, memoryRules, kernelRules, persistenceRules,
    behaviourRules, containerRules, accountRules, stateRules, List.forall_mem_append,
    List.forall_mem_cons]
  repeat' apply And.intro
  all_goals first | exact sec065_ignoresLinks | exact fun _ _ _ _ => rfl | exact fun _ h => absurd h List.not_mem_nil

section panics
variable {ctx : ScanContext} {m : Machine} {t : Tasks} {s : Scanner}

/-- The report after a panic is the one before it with the section of the scanner emptied. -/
theorem relinked_self (r : AgentReport) : relinked r r = r := rfl

theorem assemble_panic : assemble ctx (t.panic s) =
    relinked ((assemble ctx t).graft s (assemble ctx (t.panic s))) (assemble ctx (t.panic s)) := by
  cases s with
  | orchestrator =>
      change assemble ctx t = relinked (assemble ctx t) (assemble ctx t)
      exact (relinked_self _).symm
  | host | network | storage | security | persistence | packages | databases | docker | mountNamespace =>
      dsimp only [assemble, relinked, AgentReport.graft]
      congr 1

theorem graft_self (r : AgentReport) : r.graft s r = r := by
  cases s <;> rfl

theorem viewsAgree_panic (h : t.Unread s) :
    ViewsAgree s (assemble ctx t) (assemble ctx (t.panic s)) (assemble ctx t) := by
  cases s with
  | host => exact h.symm
  | docker => exact h.1.symm
  | security => exact iff_of_true rfl h
  | network =>
      refine ⟨fun f hf hcaps => ?_, fun f hf => ?_⟩
      · exact ⟨(h.1 f hf hcaps).1.symm, (h.1 f hf hcaps).2.symm⟩
      · exact (h.2 f hf).symm
  | storage | persistence | packages | databases | mountNamespace | orchestrator => trivial

/-- The published ports change with the containers and with the firewall only. -/
theorem bypass_panic (h : t.Unread s) (hs : s ≠ .network) :
    ((assemble ctx t).graft s (assemble ctx (t.panic s))).security.firewallBypassFindings =
      (assemble ctx (t.panic s)).security.firewallBypassFindings := by
  cases s with
  | network => exact absurd rfl hs
  | docker => exact h.2 _
  | host | storage | security | persistence | packages | databases | mountNamespace | orchestrator => rfl

/-- **One panic**: the rules of the other scanners find what they found before. -/
theorem impacts_panic (h : t.Unread s) {rule : Rule} (hmem : rule ∈ ruleTable) (hs : rule.source ≠ s) :
    rule.impacts m (assemble ctx (t.panic s)) = rule.impacts m (assemble ctx t) := by
  have hbypass : rule.source = .network →
      ((assemble ctx t).graft s (assemble ctx (t.panic s))).security.firewallBypassFindings =
        (assemble ctx (t.panic s)).security.firewallBypassFindings :=
    fun hnet => bypass_panic h fun heq => hs (hnet.trans heq.symm)
  calc rule.impacts m (assemble ctx (t.panic s))
      = rule.impacts m (relinked ((assemble ctx t).graft s (assemble ctx (t.panic s)))
          (assemble ctx (t.panic s))) := congrArg (rule.impacts m) assemble_panic
    _ = rule.impacts m ((assemble ctx t).graft s (assemble ctx (t.panic s))) :=
        ruleTable_ignoresLinks rule hmem m _ _ hbypass
    _ = rule.impacts m ((assemble ctx t).graft s (assemble ctx t)) :=
        ruleTable_respects rule hmem s m _ _ _ hs (viewsAgree_panic h)
    _ = rule.impacts m (assemble ctx t) := by rw [graft_self]

end panics

/-- The tasks of several scanners panic. -/
def Tasks.panicAll (t : Tasks) (ss : List Scanner) : Tasks := ss.foldl Tasks.panic t

theorem panicked_panicAll (ss : List Scanner) (s : Scanner) : ∀ t : Tasks,
    (t.panicAll ss).panicked s = true ↔ t.panicked s = true ∨ s ∈ ss ∧ s ≠ .orchestrator := by
  induction ss with
  | nil => simp [Tasks.panicAll]
  | cons s' ss ih =>
      intro t
      have hstep : t.panicAll (s' :: ss) = (t.panic s').panicAll ss := rfl
      rw [hstep, ih, panicked_panic]
      constructor
      · rintro ((h | ⟨rfl, h⟩) | ⟨h, hne⟩)
        · exact .inl h
        · exact .inr ⟨List.mem_cons_self, h⟩
        · exact .inr ⟨List.mem_cons_of_mem _ h, hne⟩
      · rintro (h | ⟨h, hne⟩)
        · exact .inl (.inl h)
        · rcases List.mem_cons.mp h with rfl | h
          · exact .inl (.inr ⟨rfl, hne⟩)
          · exact .inr ⟨h, hne⟩

theorem impacts_panicAll {ctx : ScanContext} {m : Machine} {rule : Rule} (hmem : rule ∈ ruleTable)
    {ss : List Scanner} (hs : rule.source ∉ ss) : ∀ {t : Tasks}, (∀ s ∈ ss, t.Unread s) →
      rule.impacts m (assemble ctx (t.panicAll ss)) = rule.impacts m (assemble ctx t) := by
  induction ss with
  | nil => exact fun _ => rfl
  | cons s ss ih =>
      intro t h
      obtain ⟨hhead, htail⟩ := List.forall_mem_cons.mp h
      have hs' := not_or.mp (mt List.mem_cons.mpr hs)
      calc rule.impacts m (assemble ctx (t.panicAll (s :: ss)))
          = rule.impacts m (assemble ctx (t.panic s)) := ih hs'.2 fun s' hs' => (htail s' hs').panic s
        _ = rule.impacts m (assemble ctx t) := impacts_panic hhead hmem hs'.1

/-! ### The scan and its exit code -/

/-- The report does not count its own score. -/
theorem impacts_scored {rule : Rule} (hmem : rule ∈ ruleTable) (m m' : Machine) (r : AgentReport) :
    rule.impacts m (scored m' r) = rule.impacts m r :=
  ruleTable_ignoresLinks rule hmem m r (scored m' r) fun _ => rfl

@[simp] theorem failed_scored (m : Machine) (r : AgentReport) (s : Scanner) :
    (scored m r).failed s = r.failed s := rfl

@[simp] theorem liveRules_scored (m : Machine) (r : AgentReport) : liveRules (scored m r) = liveRules r := rfl

@[simp] theorem failedScanners_scored (m : Machine) (r : AgentReport) :
    (scored m r).failedScanners = r.failedScanners := rfl

theorem map_impact_scored (m m' : Machine) (r : AgentReport) :
    (evaluate m (scored m' r)).map Finding.impact = (evaluate m r).map Finding.impact := by
  rw [map_impact_evaluate, map_impact_evaluate, liveRules_scored, failedScanners_scored]
  refine congrArg (· ++ _) (List.flatMap_congr fun rule hrule => ?_)
  exact impacts_scored (List.mem_filter.mp hrule).1 m m' r

/-- The score in a report is the one that a reader of the report computes. -/
theorem riskScore_eq (ctx : ScanContext) (t : Tasks) (sink : Sink) :
    (runLocalScan ctx t sink).1.report.riskScore =
      (score (evaluate ctx.machine (runLocalScan ctx t sink).1.report)).total :=
  (score_congr (map_impact_scored ctx.machine ctx.machine (assemble ctx t))).symm

theorem compromised_iff_impact {l : List Finding} : securityVerdictFromFindings l = .compromised ↔
    ∃ i ∈ l.map Finding.impact, i.live = true ∧ i.id ∈ compromiseIds := by
  rw [verdict_compromised_iff]
  constructor
  · rintro ⟨f, hf, hlive, hid⟩
    exact ⟨f.impact, List.mem_map_of_mem hf, by simp [Finding.impact, Finding.isLive, hlive], hid⟩
  · rintro ⟨i, hi, hlive, hid⟩
    obtain ⟨f, hf, rfl⟩ := List.mem_map.mp hi
    exact ⟨f, hf, by simpa [Finding.impact, Finding.isLive] using hlive, hid⟩

section contained
variable {ctx : ScanContext} {t : Tasks} {ss : List Scanner}

theorem failed_panicAll (horchestrator : .orchestrator ∉ ss) (s : Scanner) :
    (assemble ctx (t.panicAll ss)).failed s = true ↔ (assemble ctx t).failed s = true ∨ s ∈ ss := by
  rw [failed_assemble, failed_assemble, panicked_panicAll]
  refine or_congr_right (and_iff_left_of_imp ?_)
  rintro hs rfl
  exact horchestrator hs

theorem impacts_of_live (horchestrator : .orchestrator ∉ ss) (hunread : ∀ s ∈ ss, t.Unread s)
    {rule : Rule} (hrule : rule ∈ liveRules (assemble ctx (t.panicAll ss))) (m : Machine) :
    rule.impacts m (assemble ctx (t.panicAll ss)) = rule.impacts m (assemble ctx t) := by
  obtain ⟨hmem, hlive⟩ := List.mem_filter.mp hrule
  refine impacts_panicAll hmem (fun hs => ?_) hunread
  rw [Bool.not_eq_true', (failed_panicAll horchestrator _).mpr (.inr hs)] at hlive
  cases hlive

theorem map_impact_panicAll (horchestrator : .orchestrator ∉ ss) (hunread : ∀ s ∈ ss, t.Unread s)
    (m : Machine) : (evaluate m (assemble ctx (t.panicAll ss))).map Finding.impact =
      ((liveRules (assemble ctx (t.panicAll ss))).flatMap fun rule => rule.impacts m (assemble ctx t)) ++
        (assemble ctx (t.panicAll ss)).failedScanners.map fun _ => ⟨"COV-001", .hygiene, 0, true⟩ := by
  rw [map_impact_evaluate]
  refine congrArg (· ++ _) (List.flatMap_congr fun rule hrule => ?_)
  exact impacts_of_live horchestrator hunread hrule m

theorem compromised_of_panicAll (horchestrator : .orchestrator ∉ ss) (hunread : ∀ s ∈ ss, t.Unread s)
    {m : Machine}
    (h : securityVerdictFromFindings (evaluate m (assemble ctx (t.panicAll ss))) = .compromised) :
    securityVerdictFromFindings (evaluate m (assemble ctx t)) = .compromised := by
  obtain ⟨i, hi, hlive, hid⟩ := compromised_iff_impact.mp h
  rw [map_impact_panicAll horchestrator hunread, List.mem_append] at hi
  rcases hi with hi | hi
  · obtain ⟨rule, hrule, hi⟩ := List.mem_flatMap.mp hi
    obtain ⟨hmem, hcut⟩ := List.mem_filter.mp hrule
    have hfull : (assemble ctx t).failed rule.source = false := by
      cases hfailed : (assemble ctx t).failed rule.source with
      | false => rfl
      | true =>
          rw [(failed_panicAll horchestrator _).mpr (.inl hfailed)] at hcut
          cases hcut
    refine compromised_iff_impact.mpr ⟨i, ?_, hlive, hid⟩
    rw [map_impact_evaluate]
    refine List.mem_append_left _ (List.mem_flatMap.mpr ⟨rule, List.mem_filter.mpr ⟨hmem, ?_⟩, hi⟩)
    rw [hfull]
    rfl
  · obtain ⟨name, -, rfl⟩ := List.mem_map.mp hi
    exact absurd hid (by decide)

/-- The outcome of a run over this machine alone. -/
def localOutcome (lib : AcceptLib) (acceptances : Option Acceptances) (now : ℤ) (ctx : ScanContext)
    (t : Tasks) (sink : Sink) : Outcome :=
  fleetOutcome lib acceptances [⟨(runLocalScan ctx t sink).1.report, ctx.machine, now⟩] 1 0 false

theorem not_full_of_panic {lib : AcceptLib} {acceptances : Option Acceptances} {now : ℤ} {sink : Sink}
    {s : Scanner} (h : (assemble ctx t).failed s = true) :
    (localOutcome lib acceptances now ctx t sink).coverage.isFull = false := by
  have hfailed : (assemble ctx t).failedScanners.isEmpty = false := by
    cases hnames : (assemble ctx t).failedScanners with
    | nil =>
        rw [AgentReport.failed, hnames] at h
        cases h
    | cons name names => rfl
  have hcoverage : (localOutcome lib acceptances now ctx t sink).coverage.scannersFailed =
      !(assemble ctx t).failedScanners.isEmpty := rfl
  unfold Coverage.isFull
  rw [hcoverage, hfailed]
  simp

end contained

/-- Every task returned, with nothing found. -/
def quietTasks : Tasks where
  host := some { hostname := "web" }
  databases := some []
  network := some {}
  storage := some {}
  security := some {}
  packages := some {}
  docker := some {}
  mountNamespace := some []
  persistence := some {}

def rootContext : ScanContext where
  scanId := "scan"
  timestamp := "2025-01-01T00:00:00Z"
  version := "1"
  isRoot := true
  machine := Machine.blind

end LocalScan
end OwlzopsMapper
