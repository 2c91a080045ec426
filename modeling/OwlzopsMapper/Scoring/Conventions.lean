import OwlzopsMapper.Scoring.Evaluate

/-! # Conventions of the rule table

Two conventions the rules of `evaluate` keep towards one another.

* A suppressed finding weighs nothing (`Draft.Weightless`).  Every rule but SEC-007 keeps it;
  SEC-007 keeps its weight when it suppresses IP forwarding on a container host
  (**`suppressed_weightless_iff`**).
* A passwordless path to root is charged once, by SEC-012, SEC-005 or SEC-061 in this order
  (`passwordlessRootCarrier`), with five points on top for the entries that are no such path
  (**`passwordless_root_charged_once`**). -/

namespace OwlzopsMapper

open Rust

/-! ### Ordinary drafts -/

/-- The identifiers that share the passwordless-root class. -/
def passwordlessRootIds : List String := ["SEC-005", "SEC-012", "SEC-061"]

namespace Draft

/-- A suppressed draft weighs nothing. -/
def Weightless (d : Draft) : Prop := d.suppressed = none ∨ d.weight = 0

/-- Outside the passwordless-root class, and weightless when suppressed. -/
structure Ordinary (d : Draft) : Prop where
  other : d.id ∉ passwordlessRootIds
  weightless : d.Weightless

end Draft

/-- Every draft of the list is ordinary. -/
def Ordinary (ds : List Draft) : Prop := ∀ d ∈ ds, d.Ordinary

theorem ordinary_nil : Ordinary [] := by simp [Ordinary]

theorem ordinary_append {ds es : List Draft} (hd : Ordinary ds) (he : Ordinary es) :
    Ordinary (ds ++ es) := List.forall_mem_append.mpr ⟨hd, he⟩

theorem ordinary_pushIf {c : Bool} {d : Draft} (h : d.Ordinary) : Ordinary (pushIf c d) := by
  intro e he
  obtain ⟨_, rfl⟩ := mem_pushIf.mp he
  exact h

/-- Pushing a live finding. -/
theorem ordinary_live {c : Bool} {d : Draft} (id : String)
    (hid : id ∉ passwordlessRootIds) (hd : d.id = id)
    (h : d.suppressed = none) : Ordinary (pushIf c d) :=
  ordinary_pushIf ⟨hd ▸ hid, .inl h⟩

/-- Pushing a finding of weight 0. -/
theorem ordinary_noted {c : Bool} {d : Draft} (id : String)
    (hid : id ∉ passwordlessRootIds) (hd : d.id = id)
    (h : d.weight = 0) : Ordinary (pushIf c d) :=
  ordinary_pushIf ⟨hd ▸ hid, .inr h⟩

/-- Pushing a finding that is live with a weight under a condition, and noted otherwise. -/
theorem ordinary_toggled {c p : Bool} {d : Draft} (id : String) (w : UInt8) (s : String)
    (hw : d.weight = if p then w else 0) (hs : d.suppressed = if p then none else some s)
    (hid : id ∉ passwordlessRootIds) (hd : d.id = id) :
    Ordinary (pushIf c d) := by
  refine ordinary_pushIf ⟨hd ▸ hid, ?_⟩
  cases p with
  | true => exact .inl hs
  | false => exact .inr hw

/-- A rule that pushes ordinary drafts only. -/
def Rule.Ordinary (rule : Rule) : Prop := ∀ m r, OwlzopsMapper.Ordinary (rule.drafts m r)

/-! ### The rules -/

theorem accessRules_ordinary :
    ∀ rule ∈ [sec001, sec002, sec003, sec004, sec006, sec008, sec009, sec011, sec062, sec063],
      rule.Ordinary := by
  simp only [List.forall_mem_cons, List.not_mem_nil, false_implies, implies_true, and_true]
  refine ⟨fun _ _ => ordinary_live "SEC-001" (by decide) rfl rfl,
    fun _ _ => ordinary_live "SEC-002" (by decide) rfl rfl,
    fun _ _ => ordinary_live "SEC-003" (by decide) rfl rfl,
    fun _ _ => ordinary_live "SEC-004" (by decide) rfl rfl, ?_,
    fun _ _ => ordinary_live "SEC-008" (by decide) rfl rfl,
    fun _ _ => ordinary_live "SEC-009" (by decide) rfl rfl,
    fun _ _ => ordinary_live "SEC-011" (by decide) rfl rfl,
    fun _ _ => ordinary_append (ordinary_live "SEC-062" (by decide) rfl rfl)
      (ordinary_noted "SEC-062" (by decide) rfl rfl),
    fun _ _ => ordinary_toggled "SEC-063" 20 _ rfl rfl (by decide) rfl⟩
  intro m r
  dsimp only [sec006]
  cases r.security.sudoersMode with
  | none => exact ordinary_nil
  | some mode => exact ordinary_live "SEC-006" (by decide) rfl rfl

theorem processRules_ordinary : ∀ rule ∈ processRules ++ behaviourRules, rule.Ordinary := by
  simp only [processRules, behaviourRules, List.cons_append, List.nil_append,
    List.forall_mem_cons, List.not_mem_nil, false_implies, implies_true, and_true]
  exact ⟨fun _ _ => ordinary_live "SEC-013" (by decide) rfl rfl,
    fun _ _ => ordinary_noted "SEC-030" (by decide) rfl rfl,
    fun _ _ => ordinary_noted "SEC-031" (by decide) rfl rfl,
    fun _ _ => ordinary_live "SEC-015" (by decide) rfl rfl,
    fun _ _ => ordinary_live "SEC-016" (by decide) rfl rfl,
    fun _ _ => ordinary_live "SEC-017" (by decide) rfl rfl,
    fun _ _ => ordinary_noted "SEC-032" (by decide) rfl rfl,
    fun _ _ => ordinary_live "SEC-019" (by decide) rfl rfl,
    fun _ _ => ordinary_live "SEC-020" (by decide) rfl rfl,
    fun _ _ => ordinary_live "SEC-021" (by decide) rfl rfl,
    fun _ _ => ordinary_live "SEC-022" (by decide) rfl rfl,
    fun _ _ => ordinary_append (ordinary_live "SEC-024" (by decide) rfl rfl)
      (ordinary_live "SEC-025" (by decide) rfl rfl),
    fun _ _ => ordinary_live "SEC-018" (by decide) rfl rfl,
    fun _ _ => ordinary_append (ordinary_append (ordinary_live "SEC-014" (by decide) rfl rfl)
      (ordinary_noted "SEC-059" (by decide) rfl rfl)) (ordinary_live "SEC-058" (by decide) rfl rfl),
    fun _ _ => ordinary_live "CAP-001" (by decide) rfl rfl,
    fun _ _ => ordinary_append (ordinary_live "CAP-002" (by decide) rfl rfl)
      (ordinary_noted "CAP-002" (by decide) rfl rfl)⟩

theorem memoryRules_ordinary : ∀ rule ∈ sec027 :: memoryRules, rule.Ordinary := by
  simp only [memoryRules, List.forall_mem_cons, List.not_mem_nil, false_implies, implies_true,
    and_true]
  exact ⟨fun _ _ => ordinary_noted "SEC-027" (by decide) rfl rfl,
    fun _ _ => ordinary_live "SEC-023" (by decide) rfl rfl,
    fun _ _ => ordinary_live "SEC-028" (by decide) rfl rfl,
    fun _ _ => ordinary_live "SEC-026" (by decide) rfl rfl,
    fun _ _ => ordinary_noted "SEC-029" (by decide) rfl rfl,
    fun _ _ => ordinary_noted "SEC-033" (by decide) rfl rfl⟩

theorem kernelRules_ordinary : ∀ rule ∈ kernelRules, rule.Ordinary := by
  simp only [kernelRules, List.forall_mem_cons, List.not_mem_nil, false_implies, implies_true,
    and_true]
  exact ⟨fun _ _ => ordinary_append (ordinary_noted "SEC-034" (by decide) rfl rfl)
      (ordinary_live "SEC-036" (by decide) rfl rfl),
    fun _ _ => ordinary_append (ordinary_noted "SEC-037" (by decide) rfl rfl)
      (ordinary_live "SEC-037" (by decide) rfl rfl),
    fun _ _ => ordinary_noted "SEC-035" (by decide) rfl rfl,
    fun _ _ => ordinary_append (ordinary_live "SEC-038" (by decide) rfl rfl)
      (ordinary_noted "SEC-038" (by decide) rfl rfl),
    fun _ _ => ordinary_noted "SEC-060" (by decide) rfl rfl,
    fun _ _ => ordinary_append (ordinary_live "SEC-039" (by decide) rfl rfl)
      (ordinary_noted "SEC-039" (by decide) rfl rfl),
    fun _ _ => ordinary_live "SEC-040" (by decide) rfl rfl,
    fun _ _ => ordinary_append (ordinary_append (ordinary_live "SEC-041" (by decide) rfl rfl)
      (ordinary_noted "SEC-041" (by decide) rfl rfl)) (ordinary_live "SEC-041" (by decide) rfl rfl)⟩

theorem persistenceRules_ordinary : ∀ rule ∈ persistenceRules, rule.Ordinary := by
  simp only [persistenceRules, List.forall_mem_cons, List.not_mem_nil, false_implies,
    implies_true, and_true]
  refine ⟨fun _ _ => ordinary_append (ordinary_append (ordinary_live "SEC-042" (by decide) rfl rfl)
      (ordinary_live "SEC-050" (by decide) rfl rfl)) (ordinary_live "SEC-049" (by decide) rfl rfl),
    fun _ _ => ordinary_live "SEC-051" (by decide) rfl rfl,
    fun _ _ => ordinary_append (ordinary_append (ordinary_live "SEC-052" (by decide) rfl rfl)
      (ordinary_live "SEC-053" (by decide) rfl rfl)) (ordinary_live "SEC-054" (by decide) rfl rfl),
    fun _ _ => ordinary_append (ordinary_append (ordinary_live "SEC-055" (by decide) rfl rfl)
      (ordinary_live "SEC-056" (by decide) rfl rfl)) (ordinary_live "SEC-057" (by decide) rfl rfl),
    fun _ _ => ordinary_append (ordinary_append (ordinary_append (ordinary_append
      (ordinary_live "SEC-043" (by decide) rfl rfl) (ordinary_noted "SEC-047" (by decide) rfl rfl))
      (ordinary_toggled "SEC-048" 20 _ rfl rfl (by decide) rfl))
        (ordinary_live "SEC-046" (by decide) rfl rfl))
      (ordinary_noted "SEC-045" (by decide) rfl rfl), ?_⟩
  intro m r
  refine ordinary_append ?_ (ordinary_noted "SEC-044" (by decide) rfl rfl)
  cases r.security.corePattern with
  | none => exact ordinary_nil
  | some cp => exact ordinary_live "SEC-044" (by decide) rfl rfl

theorem containerRules_ordinary :
    ∀ rule ∈ containerRules ++ accountRules ++ stateRules, rule.Ordinary := by
  simp only [containerRules, accountRules, stateRules, List.cons_append, List.nil_append,
    List.forall_mem_cons, List.not_mem_nil, false_implies, implies_true, and_true]
  refine ⟨fun _ _ => ordinary_live "DOCK-001" (by decide) rfl rfl,
    fun _ _ => ordinary_live "DOCK-002" (by decide) rfl rfl,
    fun _ _ => ordinary_live "DOCK-003" (by decide) rfl rfl,
    fun _ _ => ordinary_live "DOCK-004" (by decide) rfl rfl,
    fun _ _ => ordinary_live "DOCK-010" (by decide) rfl rfl,
    fun _ _ => ordinary_append (ordinary_live "SEC-065" (by decide) rfl rfl)
      (ordinary_live "SEC-066" (by decide) rfl rfl),
    fun _ _ => ordinary_live "SEC-070" (by decide) rfl rfl,
    fun _ _ => ordinary_live "SEC-071" (by decide) rfl rfl,
    fun _ _ => ordinary_live "SEC-072" (by decide) rfl rfl,
    fun _ _ => ordinary_live "SEC-073" (by decide) rfl rfl,
    fun _ _ => ordinary_live "SEC-074" (by decide) rfl rfl,
    fun _ _ => ordinary_live "SEC-075" (by decide) rfl rfl,
    fun _ _ => ordinary_live "SEC-076" (by decide) rfl rfl,
    fun _ _ => ordinary_live "SEC-077" (by decide) rfl rfl,
    fun _ _ => ordinary_live "SEC-078" (by decide) rfl rfl,
    fun _ _ => ordinary_live "SEC-079" (by decide) rfl rfl, ?_,
    fun _ _ => ordinary_append (ordinary_live "DOCK-005" (by decide) rfl rfl)
      (ordinary_live "DOCK-006" (by decide) rfl rfl),
    fun _ _ => ordinary_live "DOCK-007" (by decide) rfl rfl,
    fun _ _ => ordinary_live "DOCK-008" (by decide) rfl rfl,
    fun _ _ => ordinary_live "DOCK-009" (by decide) rfl rfl,
    fun _ _ => ordinary_live "REL-001" (by decide) rfl rfl,
    fun _ _ => ordinary_live "REL-002" (by decide) rfl rfl,
    fun _ _ => ordinary_live "REL-003" (by decide) rfl rfl,
    fun _ _ => ordinary_live "HYG-001" (by decide) rfl rfl⟩
  intro m r
  dsimp only [sec081]
  cases r.security.systemdHardening with
  | nil => exact ordinary_nil
  | cons worst rest =>
      rintro d hd
      obtain rfl := List.mem_singleton.mp hd
      have hid : "SEC-081" ∉ passwordlessRootIds := by decide
      exact ⟨hid, .inl rfl⟩

/-- The rules that are about the passwordless-root class or may suppress a weight. -/
def specialRules : List Rule := [sec005, sec007, sec012, sec061]

theorem ordinary_or_special : ∀ rule ∈ ruleTable, rule.Ordinary ∨ rule ∈ specialRules := by
  intro rule h
  simp only [ruleTable, List.mem_append, List.mem_singleton] at h
  rcases h with ((((((((h | h) | h) | h) | h) | h) | h) | h) | h) | h
  · have hsplit : rule ∈ [sec001, sec002, sec003, sec004, sec006, sec008, sec009, sec011, sec062,
        sec063] ∨ rule ∈ specialRules := by
      simp only [accessRules, specialRules, List.mem_cons, List.not_mem_nil, or_false] at h ⊢
      tauto
    exact hsplit.imp_left (accessRules_ordinary rule)
  · exact .inl (processRules_ordinary rule (List.mem_append_left _ h))
  · exact .inl (memoryRules_ordinary rule (List.mem_cons_of_mem _ h))
  · exact .inl (kernelRules_ordinary rule h)
  · exact .inl (persistenceRules_ordinary rule h)
  · exact .inl (memoryRules_ordinary rule (h ▸ List.mem_cons_self))
  · exact .inl (processRules_ordinary rule (List.mem_append_right _ h))
  · exact .inl (containerRules_ordinary rule (List.mem_append_left _ (List.mem_append_left _ h)))
  · exact .inl (containerRules_ordinary rule (List.mem_append_left _ (List.mem_append_right _ h)))
  · exact .inl (containerRules_ordinary rule (List.mem_append_right _ h))

/-! ### Suppressed findings -/

theorem sec005_weightless (m : Machine) (r : AgentReport) : ∀ d ∈ sec005.drafts m r,
    d.Weightless := by
  intro d hd
  obtain ⟨_, rfl⟩ := mem_pushIf.mp hd
  unfold Draft.Weightless
  dsimp only
  split
  · exact .inl rfl
  · exact .inl rfl
  · exact .inl rfl
  · exact .inr rfl

theorem sec061_weightless (m : Machine) (r : AgentReport) : ∀ d ∈ sec061.drafts m r,
    d.Weightless := by
  intro d hd
  obtain ⟨_, rfl⟩ := mem_pushIf.mp hd
  unfold Draft.Weightless
  dsimp only
  generalize (if prpSec012 r.security then some "SEC-012"
    else if prpSec005 r.security then some "SEC-005" else none) = carrier
  cases carrier with
  | none => exact .inl rfl
  | some id => exact .inr rfl

/-- SEC-007 suppresses IP forwarding with its weight. -/
theorem sysctlDraft_weightless_iff (expected : Bool) (issue : String) :
    (sysctlDraft expected issue).Weightless ↔
      expected = false ∨ startsWith issue "net.ipv4.ip_forward=" = false := by
  unfold sysctlDraft Draft.Weightless
  cases startsWith issue "net.ipv4.ip_forward=" with
  | false => simp
  | true =>
      cases expected with
      | false => simp
      | true =>
          have hw : riskSysctlPerIssue ≠ 0 := by decide
          simp [hw]

/-- What the whole table suppresses with a weight. -/
theorem weightless_of_mem_rule {m : Machine} {r : AgentReport} {rule : Rule}
    (hrule : rule ∈ ruleTable) (hsysctl : rule.source = .security → ∀ issue ∈
      r.security.sysctlIssues, (sysctlDraft (forwardingExpected r) issue).Weightless) :
    ∀ d ∈ rule.drafts m r, d.Weightless := by
  intro d hd
  rcases ordinary_or_special rule hrule with hord | hspecial
  · exact (hord m r d hd).weightless
  · simp only [specialRules, List.mem_cons, List.not_mem_nil, or_false] at hspecial
    rcases hspecial with rfl | rfl | rfl | rfl
    · exact sec005_weightless m r d hd
    · obtain ⟨issue, hissue, rfl⟩ := List.mem_map.mp hd
      exact hsysctl rfl issue hissue
    · obtain ⟨_, rfl⟩ := mem_pushIf.mp hd
      exact .inl rfl
    · exact sec061_weightless m r d hd

/-- The sum of the weights of a list of findings. -/
def totalWeight (findings : List Finding) : ℕ := (findings.map fun f => f.weight.toNat).sum

theorem totalWeight_live_le : ∀ l : List Finding, totalWeight (live l) ≤ totalWeight l
  | [] => le_rfl
  | f :: l => by
      have ih := totalWeight_live_le l
      unfold totalWeight live at ih ⊢
      rw [List.filter_cons]
      split
      · simpa using ih
      · rw [List.map_cons, List.sum_cons]
        omega

theorem totalWeight_live_of_weightless : ∀ {l : List Finding},
    (∀ f ∈ l, f.suppressed ≠ none → f.weight = 0) → totalWeight (live l) = totalWeight l
  | [], _ => rfl
  | f :: l, h => by
      have ih := totalWeight_live_of_weightless fun g hg => h g (List.mem_cons_of_mem _ hg)
      unfold totalWeight live at ih ⊢
      rw [List.filter_cons]
      split
      · simpa using ih
      · rename_i hdead
        have hw := h f List.mem_cons_self (by simpa [Finding.isLive] using hdead)
        rw [ih, List.map_cons, List.sum_cons, hw]
        simp

theorem mem_sec007 : sec007 ∈ ruleTable := by
  simp [ruleTable, accessRules]

/-- **When suppressed findings weigh nothing**, and the weights of all findings and of the live
ones have the same sum: the security scan failed, or forwarding is not expected on the host, or no
kernel parameter issue is about IP forwarding. -/
theorem suppressed_weightless_iff (m : Machine) (r : AgentReport) :
    ((∀ f ∈ evaluate m r, f.suppressed ≠ none → f.weight = 0) ∧
      totalWeight (live (evaluate m r)) = totalWeight (evaluate m r)) ↔
    r.failed .security = true ∨ forwardingExpected r = false ∨
      ∀ issue ∈ r.security.sysctlIssues, startsWith issue "net.ipv4.ip_forward=" = false := by
  constructor
  · rintro ⟨hzero, _⟩
    by_contra hnot
    simp only [not_or, Bool.not_eq_true, Bool.not_eq_false, not_forall] at hnot
    obtain ⟨hran, hexpected, issue, hissue, hforward⟩ := hnot
    have hmem : (sysctlDraft (forwardingExpected r) issue).toFinding .security ∈ evaluate m r :=
      mem_evaluate.mpr (.inl ⟨sec007, mem_sec007, hran,
        List.mem_map_of_mem (List.mem_map_of_mem hissue)⟩)
    have hweightless : (sysctlDraft (forwardingExpected r) issue).Weightless := by
      by_cases hs : (sysctlDraft (forwardingExpected r) issue).suppressed = none
      · exact .inl hs
      · exact .inr (hzero _ hmem hs)
    rcases (sysctlDraft_weightless_iff _ _).mp hweightless with h | h
    · rw [hexpected] at h
      cases h
    · rw [hforward] at h
      cases h
  · intro hquiet
    have hzero : ∀ f ∈ evaluate m r, f.suppressed ≠ none → f.weight = 0 := by
      intro f hf hs
      rcases mem_evaluate.mp hf with ⟨rule, hrule, hran, hemit⟩ | ⟨name, _, rfl⟩
      · obtain ⟨d, hd, rfl⟩ := List.mem_map.mp hemit
        have hd' : d.Weightless := by
          apply weightless_of_mem_rule hrule ?_ d hd
          intro hsource issue hissue
          apply (sysctlDraft_weightless_iff _ _).mpr
          rcases hquiet with hfailed | hother | hno
          · rw [hsource, hfailed] at hran
            cases hran
          · exact .inl hother
          · exact .inr (hno issue hissue)
        exact hd'.resolve_left hs
      · exact absurd rfl hs
    exact ⟨hzero, totalWeight_live_of_weightless hzero⟩

/-- A container host that forwards packets. -/
def forwardingReport : AgentReport :=
  { topology := { runtimeActive := true }
    security := { sysctlIssues := ["net.ipv4.ip_forward=1"] } }

/-- Its forwarding finding is suppressed with a weight of five. -/
theorem forwarding_suppressed_with_weight :
    (∃ f ∈ evaluate Machine.blind forwardingReport, f.id = "SEC-007" ∧ f.suppressed ≠ none ∧
      f.weight = 5) ∧
    totalWeight (live (evaluate Machine.blind forwardingReport)) + 5 =
      totalWeight (evaluate Machine.blind forwardingReport) := by
  decide

/-! ### The passwordless-root class -/

/-- The live weight of SEC-005, SEC-012 and SEC-061. -/
def passwordlessRootWeight (findings : List Finding) : ℕ :=
  ((findings.filter fun f => passwordlessRootIds.contains f.id && f.isLive).map
    fun f => f.weight.toNat).sum

/-- The finding that carries the passwordless-root class of a host. -/
def passwordlessRootCarrier (r : AgentReport) : Option String :=
  if r.failed .security then none
  else if prpSec012 r.security then some "SEC-012"
  else if prpSec005 r.security then some "SEC-005"
  else if r.security.accessAlignment.rootEquivalentGroups.any (·.bypassesSudo) then some "SEC-061"
  else none

/-- Entries that are no root path are charged beside the class, unless SEC-005 carries it. -/
def chargesPlainNopasswd (r : AgentReport) : Bool :=
  !r.failed .security && r.security.sudoNopasswdEntries.any (fun e => !isRootPath e) &&
    passwordlessRootCarrier r != some "SEC-005"

@[simp] theorem passwordlessRootWeight_append (l₁ l₂ : List Finding) :
    passwordlessRootWeight (l₁ ++ l₂) = passwordlessRootWeight l₁ + passwordlessRootWeight l₂ := by
  simp [passwordlessRootWeight]

theorem passwordlessRootWeight_of_other {l : List Finding}
    (h : ∀ f ∈ l, f.id ∉ passwordlessRootIds) : passwordlessRootWeight l = 0 := by
  have hnil : (l.filter fun f => passwordlessRootIds.contains f.id && f.isLive) = [] := by
    rw [List.filter_eq_nil_iff]
    intro f hf
    simp [h f hf]
  rw [passwordlessRootWeight, hnil]
  rfl

section carriers
variable (m : Machine) (r : AgentReport)

/-- What one rule charges to the class, unless its scanner failed. -/
def Rule.passwordlessRoot (rule : Rule) : ℕ :=
  if r.failed rule.source then 0 else passwordlessRootWeight (rule.emit m r)

theorem passwordlessRoot_of_other {rule : Rule}
    (h : ∀ d ∈ rule.drafts m r, d.id ∉ passwordlessRootIds) : rule.passwordlessRoot m r = 0 := by
  unfold Rule.passwordlessRoot
  split
  · rfl
  · apply passwordlessRootWeight_of_other
    intro f hf
    obtain ⟨d, hd, rfl⟩ := List.mem_map.mp hf
    exact h d hd

theorem passwordlessRoot_of_ordinary {rule : Rule} (h : rule.Ordinary) :
    rule.passwordlessRoot m r = 0 :=
  passwordlessRoot_of_other m r fun d hd => (h m r d hd).other

theorem passwordlessRoot_sec007 : sec007.passwordlessRoot m r = 0 := by
  apply passwordlessRoot_of_other
  intro d hd
  obtain ⟨issue, _, rfl⟩ := List.mem_map.mp hd
  rw [sysctlDraft_id]
  decide

theorem passwordlessRootWeight_rules : ∀ rules : List Rule,
    passwordlessRootWeight ((rules.filter fun rule => !r.failed rule.source).flatMap
      fun rule => rule.emit m r) = (rules.map fun rule => rule.passwordlessRoot m r).sum
  | [] => rfl
  | rule :: rules => by
      have ih := passwordlessRootWeight_rules rules
      rw [List.filter_cons, List.map_cons, List.sum_cons, ← ih]
      unfold Rule.passwordlessRoot
      cases h : r.failed rule.source with
      | true => simp
      | false => simp [List.flatMap_cons]

theorem sum_passwordlessRoot_of_ordinary {rules : List Rule} (h : ∀ rule ∈ rules, rule.Ordinary) :
    (rules.map fun rule => rule.passwordlessRoot m r).sum = 0 := by
  apply List.sum_eq_zero
  intro n hn
  obtain ⟨rule, hrule, rfl⟩ := List.mem_map.mp hn
  exact passwordlessRoot_of_ordinary m r (h rule hrule)

/-- Only the three carriers charge the class. -/
theorem passwordlessRootWeight_evaluate : passwordlessRootWeight (evaluate m r) =
    sec005.passwordlessRoot m r + sec012.passwordlessRoot m r + sec061.passwordlessRoot m r := by
  have hcoverage : passwordlessRootWeight (r.failedScanners.map coverageFinding) = 0 := by
    apply passwordlessRootWeight_of_other
    intro f hf
    obtain ⟨name, _, rfl⟩ := List.mem_map.mp hf
    have hid : "COV-001" ∉ passwordlessRootIds := by decide
    exact hid
  have haccess : (accessRules.map fun rule => rule.passwordlessRoot m r).sum =
      sec005.passwordlessRoot m r + sec012.passwordlessRoot m r +
        sec061.passwordlessRoot m r := by
    have h := accessRules_ordinary
    simp only [List.forall_mem_cons] at h
    obtain ⟨h1, h2, h3, h4, h6, h8, h9, h11, h62, h63, _⟩ := h
    simp only [accessRules, List.map_cons, List.map_nil, List.sum_cons, List.sum_nil,
      passwordlessRoot_of_ordinary m r h1, passwordlessRoot_of_ordinary m r h2,
      passwordlessRoot_of_ordinary m r h3, passwordlessRoot_of_ordinary m r h4,
      passwordlessRoot_of_ordinary m r h6, passwordlessRoot_of_ordinary m r h8,
      passwordlessRoot_of_ordinary m r h9, passwordlessRoot_of_ordinary m r h11,
      passwordlessRoot_of_ordinary m r h62, passwordlessRoot_of_ordinary m r h63,
      passwordlessRoot_sec007]
    omega
  have hprocess := processRules_ordinary
  have hmemory := memoryRules_ordinary
  have hcontainer := containerRules_ordinary
  simp only [List.forall_mem_append] at hprocess hcontainer
  simp only [List.forall_mem_cons] at hmemory
  rw [evaluate_eq, passwordlessRootWeight_append, hcoverage]
  unfold liveRules
  rw [passwordlessRootWeight_rules]
  simp only [ruleTable, List.map_append, List.sum_append, haccess, List.map_cons, List.map_nil,
    List.sum_cons, List.sum_nil, passwordlessRoot_of_ordinary m r hmemory.1,
    sum_passwordlessRoot_of_ordinary m r hprocess.1, sum_passwordlessRoot_of_ordinary m r hprocess.2,
    sum_passwordlessRoot_of_ordinary m r hmemory.2,
    sum_passwordlessRoot_of_ordinary m r kernelRules_ordinary,
    sum_passwordlessRoot_of_ordinary m r persistenceRules_ordinary,
    sum_passwordlessRoot_of_ordinary m r hcontainer.1.1,
    sum_passwordlessRoot_of_ordinary m r hcontainer.1.2,
    sum_passwordlessRoot_of_ordinary m r hcontainer.2]
  omega

/-- What a single pushed draft of the class charges. -/
theorem passwordlessRoot_pushIf {rule : Rule} {c : Bool} {d : Draft} (id : String)
    (hsource : rule.source = .security) (hdrafts : rule.drafts m r = pushIf c d)
    (hid : id ∈ passwordlessRootIds) (hd : d.id = id) :
    rule.passwordlessRoot m r = if !r.failed .security && c && d.suppressed.isNone then
      d.weight.toNat else 0 := by
  subst hd
  unfold Rule.passwordlessRoot Rule.emit passwordlessRootWeight
  rw [hdrafts, hsource]
  cases r.failed .security with
  | true => simp
  | false =>
      cases c with
      | false => simp [pushIf]
      | true =>
          cases h : d.suppressed with
          | none => simp [pushIf, Draft.toFinding, Finding.isLive, hid, h]
          | some s => simp [pushIf, Draft.toFinding, Finding.isLive, h]

/-- Some NOPASSWD entry is no root path. -/
def hasPlainNopasswd (s : SecurityInfo) : Bool := s.sudoNopasswdEntries.any fun e => !isRootPath e

/-- Every NOPASSWD entry is a root path or a plain one. -/
theorem nopasswd_nonempty (s : SecurityInfo) :
    (!s.sudoNopasswdEntries.isEmpty) = (prpSec005 s || hasPlainNopasswd s) := by
  unfold prpSec005 hasPlainNopasswd
  cases s.sudoNopasswdEntries with
  | nil => rfl
  | cons e es => cases h : isRootPath e <;> simp [h]

theorem escalations_nonempty (groups : List RootEquivalentGroup) (f : RootEquivalentGroup → String) :
    (!((groups.filter (·.bypassesSudo)).map f).isEmpty) = groups.any (·.bypassesSudo) := by
  rw [Bool.eq_iff_iff]
  simp

theorem sec005_charges : sec005.passwordlessRoot m r =
    if r.failed .security then 0
    else match prpSec005 r.security, prpSec012 r.security, hasPlainNopasswd r.security with
      | true, false, _ => 15
      | _, _, true => 5
      | _, _, false => 0 := by
  rw [passwordlessRoot_pushIf m r "SEC-005" rfl rfl (by decide) rfl,
    nopasswd_nonempty]
  have hplain : (r.security.sudoNopasswdEntries.any fun e => !isRootPath e) =
      hasPlainNopasswd r.security := rfl
  rw [hplain]
  cases r.failed .security <;> cases prpSec005 r.security <;> cases prpSec012 r.security <;>
    cases hasPlainNopasswd r.security <;> rfl

theorem sec012_charges : sec012.passwordlessRoot m r =
    if !r.failed .security && prpSec012 r.security then 15 else 0 := by
  rw [passwordlessRoot_pushIf m r "SEC-012" rfl rfl (by decide) rfl]
  have hcarries : (!r.security.accessAlignment.sudoersNopasswdAll.isEmpty) =
      prpSec012 r.security := rfl
  rw [hcarries]
  cases r.failed .security <;> cases prpSec012 r.security <;> rfl

theorem sec061_charges : sec061.passwordlessRoot m r =
    if !r.failed .security && r.security.accessAlignment.rootEquivalentGroups.any (·.bypassesSudo) &&
      !prpSec012 r.security && !prpSec005 r.security then 15 else 0 := by
  rw [passwordlessRoot_pushIf m r "SEC-061" rfl rfl (by decide) rfl,
    escalations_nonempty]
  cases r.failed .security <;> cases prpSec005 r.security <;> cases prpSec012 r.security <;>
    cases r.security.accessAlignment.rootEquivalentGroups.any (·.bypassesSudo) <;> rfl

/-- The three carriers pay the class once, and the plain tier beside it. -/
theorem carriers_charge_once : sec005.passwordlessRoot m r + sec012.passwordlessRoot m r +
    sec061.passwordlessRoot m r =
      (if (passwordlessRootCarrier r).isSome then 15 else 0) +
        if chargesPlainNopasswd r then 5 else 0 := by
  rw [sec005_charges, sec012_charges, sec061_charges]
  have hplain : (r.security.sudoNopasswdEntries.any fun e => !isRootPath e) =
      hasPlainNopasswd r.security := rfl
  unfold chargesPlainNopasswd passwordlessRootCarrier
  rw [hplain]
  cases r.failed .security <;> cases prpSec005 r.security <;> cases prpSec012 r.security <;>
    cases hasPlainNopasswd r.security <;>
    cases r.security.accessAlignment.rootEquivalentGroups.any (·.bypassesSudo) <;> decide

theorem mem_specialRules_ruleTable {rule : Rule} (h : rule ∈ specialRules) : rule ∈ ruleTable := by
  simp only [specialRules, List.mem_cons, List.not_mem_nil, or_false] at h
  simp only [ruleTable, accessRules, List.mem_append, List.mem_cons]
  tauto

/-- Findings of the class come from the three carriers. -/
theorem mem_evaluate_class {f : Finding} (hid : f.id ∈ passwordlessRootIds) :
    f ∈ evaluate m r ↔ r.failed .security = false ∧
      (f ∈ sec005.emit m r ∨ f ∈ sec012.emit m r ∨ f ∈ sec061.emit m r) := by
  constructor
  · intro hf
    rcases mem_evaluate.mp hf with ⟨rule, hrule, hran, hemit⟩ | ⟨name, _, rfl⟩
    · obtain ⟨d, hd, rfl⟩ := List.mem_map.mp hemit
      rcases ordinary_or_special rule hrule with hord | hspecial
      · exact absurd hid (hord m r d hd).other
      · simp only [specialRules, List.mem_cons, List.not_mem_nil, or_false] at hspecial
        rcases hspecial with rfl | rfl | rfl | rfl
        · exact ⟨hran, .inl hemit⟩
        · obtain ⟨issue, _, rfl⟩ := List.mem_map.mp hd
          have hother : "SEC-007" ∉ passwordlessRootIds := by decide
          exact absurd (sysctlDraft_id _ _ ▸ hid) hother
        · exact ⟨hran, .inr (.inl hemit)⟩
        · exact ⟨hran, .inr (.inr hemit)⟩
    · have hother : "COV-001" ∉ passwordlessRootIds := by decide
      exact absurd hid hother
  · rintro ⟨hran, hemit⟩
    apply mem_evaluate.mpr
    left
    rcases hemit with h | h | h
    · exact ⟨sec005, mem_specialRules_ruleTable (by simp [specialRules]), hran, h⟩
    · exact ⟨sec012, mem_specialRules_ruleTable (by simp [specialRules]), hran, h⟩
    · exact ⟨sec061, mem_specialRules_ruleTable (by simp [specialRules]), hran, h⟩

/-- A carrier pushes its one draft. -/
theorem mem_emit_pushIf {rule : Rule} {c : Bool} {d : Draft} {f : Finding}
    (hdrafts : rule.drafts m r = pushIf c d) :
    f ∈ rule.emit m r ↔ c = true ∧ d.toFinding rule.source = f := by
  unfold Rule.emit
  rw [hdrafts, List.mem_map]
  constructor
  · rintro ⟨e, he, rfl⟩
    obtain ⟨hc, rfl⟩ := mem_pushIf.mp he
    exact ⟨hc, rfl⟩
  · rintro ⟨hc, rfl⟩
    exact ⟨d, mem_pushIf.mpr ⟨hc, rfl⟩, rfl⟩

theorem sec012_live (hran : r.failed .security = false) (h : prpSec012 r.security = true) :
    ∃ f ∈ evaluate m r, f.id = "SEC-012" ∧ f.suppressed = none ∧ f.weight = 15 := by
  refine ⟨_, (mem_evaluate_class m r ?_).mpr ⟨hran, .inr (.inl ((mem_emit_pushIf m r rfl).mpr
    ⟨h, rfl⟩))⟩, rfl, rfl, rfl⟩
  show "SEC-012" ∈ passwordlessRootIds
  decide

theorem sec061_live (hran : r.failed .security = false) (h12 : prpSec012 r.security = false)
    (h5 : prpSec005 r.security = false)
    (h : r.security.accessAlignment.rootEquivalentGroups.any (·.bypassesSudo) = true) :
    ∃ f ∈ evaluate m r, f.id = "SEC-061" ∧ f.suppressed = none ∧ f.weight = 15 := by
  refine ⟨_, (mem_evaluate_class m r ?_).mpr ⟨hran, .inr (.inr ((mem_emit_pushIf m r rfl).mpr
    ⟨?_, rfl⟩))⟩, rfl, ?_, ?_⟩
  · show "SEC-061" ∈ passwordlessRootIds
    decide
  · rw [escalations_nonempty, h]
  · simp [Draft.toFinding, h12, h5]
  · simp [Draft.toFinding, h12, h5, riskPasswordlessRoot]

/-- SEC-005 is live beside a silent SEC-012, and carries the class with a root path. -/
theorem sec005_live (hran : r.failed .security = false) (h12 : prpSec012 r.security = false)
    (h : r.security.sudoNopasswdEntries ≠ []) :
    ∃ f ∈ evaluate m r, f.id = "SEC-005" ∧ f.suppressed = none ∧
      (prpSec005 r.security = true → f.weight = 15) := by
  refine ⟨_, (mem_evaluate_class m r ?_).mpr ⟨hran, .inl ((mem_emit_pushIf m r rfl).mpr
    ⟨?_, rfl⟩)⟩, rfl, ?_, ?_⟩
  · show "SEC-005" ∈ passwordlessRootIds
    decide
  · simpa using h
  · simp only [Draft.toFinding, h12]
    cases prpSec005 r.security <;> rfl
  · intro h5
    simp only [Draft.toFinding, h12, h5]
    rfl

theorem sudoNopasswd_iff : (CriticalFlags.fromFindings (evaluate m r)).sudoNopasswd = true ↔
    r.failed .security = false ∧
      (prpSec012 r.security = true ∨ r.security.sudoNopasswdEntries ≠ []) := by
  have hflag : (CriticalFlags.fromFindings (evaluate m r)).sudoNopasswd = true ↔
      ∃ f ∈ evaluate m r, (f.id = "SEC-005" ∨ f.id = "SEC-012") ∧ f.suppressed = none := by
    simp only [CriticalFlags.fromFindings, hasLive, Bool.or_eq_true, List.any_eq_true,
      Bool.and_eq_true, beq_iff_eq, Finding.isLive, Option.isNone_iff_eq_none, ← exists_or]
    simp only [← and_or_left, ← or_and_right]
  rw [hflag]
  constructor
  · rintro ⟨f, hf, hid, _⟩
    have hclass : f.id ∈ passwordlessRootIds := by
      rcases hid with h | h <;> rw [h] <;> decide
    obtain ⟨hran, hemit⟩ := (mem_evaluate_class m r hclass).mp hf
    refine ⟨hran, ?_⟩
    rcases hemit with h | h | h
    · obtain ⟨hc, _⟩ := (mem_emit_pushIf m r rfl).mp h
      exact .inr (by simpa using hc)
    · obtain ⟨hc, _⟩ := (mem_emit_pushIf m r rfl).mp h
      exact .inl hc
    · obtain ⟨_, rfl⟩ := (mem_emit_pushIf m r rfl).mp h
      have hnot : ¬("SEC-061" = "SEC-005" ∨ "SEC-061" = "SEC-012") := by decide
      exact absurd hid hnot
  · rintro ⟨hran, hsudo⟩
    by_cases h12 : prpSec012 r.security = true
    · obtain ⟨f, hf, hid, hlive, _⟩ := sec012_live m r hran h12
      exact ⟨f, hf, .inr hid, hlive⟩
    · obtain ⟨f, hf, hid, hlive, _⟩ :=
        sec005_live m r hran (Bool.eq_false_iff.mpr h12) (hsudo.resolve_left h12)
      exact ⟨f, hf, .inl hid, hlive⟩

/-- The carrier is live with the weight of the class. -/
theorem carrier_live {id : String} (h : passwordlessRootCarrier r = some id) :
    ∃ f ∈ evaluate m r, f.id = id ∧ f.suppressed = none ∧ f.weight = 15 := by
  unfold passwordlessRootCarrier at h
  split at h
  · cases h
  · rename_i hran
    have hran := Bool.eq_false_iff.mpr hran
    split at h
    · rename_i h12
      obtain rfl := Option.some.inj h
      exact sec012_live m r hran h12
    · rename_i h12
      have h12 := Bool.eq_false_iff.mpr h12
      split at h
      · rename_i h5
        obtain rfl := Option.some.inj h
        have hne : r.security.sudoNopasswdEntries ≠ [] := by
          rintro hnil
          rw [prpSec005, hnil] at h5
          cases h5
        obtain ⟨f, hf, hid, hlive, hweight⟩ := sec005_live m r hran h12 hne
        exact ⟨f, hf, hid, hlive, hweight h5⟩
      · rename_i h5
        split at h
        · rename_i hgroup
          obtain rfl := Option.some.inj h
          exact sec061_live m r hran h12 (Bool.eq_false_iff.mpr h5) hgroup
        · cases h

/-- **A passwordless path to root is charged once**: the live weights of the three rules sum to 15
for the class, when one of them carries it, and 5 for plain NOPASSWD entries beside it.  The carrier
is live with a weight of 15.  The flag on passwordless sudo tells whether the sudoers files grant
any: it is the same whichever of the two sudoers rules carries the class. -/
theorem passwordless_root_charged_once :
    passwordlessRootWeight (evaluate m r) =
      (if (passwordlessRootCarrier r).isSome then 15 else 0) +
        (if chargesPlainNopasswd r then 5 else 0) ∧
    (∀ id, passwordlessRootCarrier r = some id →
      ∃ f ∈ evaluate m r, f.id = id ∧ f.suppressed = none ∧ f.weight = 15) ∧
    (∀ id ∈ ["SEC-012", "SEC-005"], passwordlessRootCarrier r = some id →
      (CriticalFlags.fromFindings (evaluate m r)).sudoNopasswd = true) ∧
    ((CriticalFlags.fromFindings (evaluate m r)).sudoNopasswd = true ↔
      r.failed .security = false ∧
        (prpSec012 r.security = true ∨ r.security.sudoNopasswdEntries ≠ [])) := by
  refine ⟨?_, fun id h => carrier_live m r h, ?_, sudoNopasswd_iff m r⟩
  · rw [passwordlessRootWeight_evaluate, carriers_charge_once]
  · intro id hid hcarrier
    obtain ⟨f, hf, rfl, hlive, _⟩ := carrier_live m r hcarrier
    simp only [CriticalFlags.fromFindings, hasLive, Bool.or_eq_true, List.any_eq_true,
      Bool.and_eq_true, beq_iff_eq, Finding.isLive, Option.isNone_iff_eq_none]
    rcases List.mem_cons.mp hid with h | h
    · exact .inr ⟨f, hf, h, hlive⟩
    · exact .inl ⟨f, hf, List.mem_singleton.mp h, hlive⟩

end carriers

/-- A host where a group bypasses sudo, and one with a passwordless sudoers rule. -/
def groupRootReport : AgentReport :=
  { security := { accessAlignment := { rootEquivalentGroups :=
      [{ group := "docker", members := ["ops"], bypassesSudo := true }] } } }

def sudoRootReport : AgentReport :=
  { security := { accessAlignment := { sudoersNopasswdAll :=
      [{ principal := "deploy", sourceFile := "/etc/sudoers.d/90-deploy" }] } } }

/-- The flag depends on the carrier: a group carries the class without it. -/
theorem group_carrier_sets_no_flag :
    passwordlessRootCarrier groupRootReport = some "SEC-061" ∧
    (CriticalFlags.fromFindings (evaluate Machine.blind groupRootReport)).sudoNopasswd = false ∧
    passwordlessRootCarrier sudoRootReport = some "SEC-012" ∧
    (CriticalFlags.fromFindings (evaluate Machine.blind sudoRootReport)).sudoNopasswd = true := by
  decide

end OwlzopsMapper
