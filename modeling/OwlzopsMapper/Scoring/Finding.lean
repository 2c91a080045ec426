import OwlzopsMapper.Models
import OwlzopsMapper.Rust.Text
import Mathlib.Algebra.BigOperators.Group.List.Basic
import Mathlib.Algebra.Order.Ring.Nat

/-! # Findings, score and verdict

The `Finding` record of `scoring.rs`, the capped three-axis score over the live findings
(`score`) and the security verdict (`securityVerdictFromFindings`), which reads the live
findings' identifiers only.

Both are functions of the *impact* of the findings: identifier, category, weight and whether a
finding is live.  Titles, evidence and references never count (`score_congr`,
`verdict_congr`). -/

namespace OwlzopsMapper

inductive Category where
  | security
  | reliability
  | hygiene
deriving DecidableEq, Repr

inductive Scanner where
  | host
  | network
  | storage
  | security
  | persistence
  | packages
  | databases
  | docker
  | mountNamespace
  | orchestrator
deriving DecidableEq, Repr

/-- `Scanner::from_name`. -/
def Scanner.fromName (name : String) : Option Scanner :=
  if name = "host" then some host
  else if name = "network" then some network
  else if name = "storage" then some storage
  else if name = "security" then some security
  else if name = "persistence" then some persistence
  else if name = "packages" then some packages
  else if name = "databases" then some databases
  else if name = "docker" then some docker
  else if name = "mount_namespace" then some mountNamespace
  else none

structure Finding where
  id : String
  source : Scanner
  title : String
  category : Category := .security
  weight : UInt8
  evidence : String
  suppressed : Option String := none
  cisRef : Option String := none
deriving DecidableEq, Repr

/-- The finding counts for score and verdict. -/
def Finding.isLive (f : Finding) : Bool := f.suppressed.isNone

/-- Truncate a list of items for display. -/
def evidenceList (items : List String) (limit : ℕ) : String :=
  if items.length ≤ limit then Rust.join "; " items
  else Rust.join "; " (items.take limit) ++ "; +" ++ toString (items.length - limit) ++ " more"

/-! ### Score -/

/-- `u8::saturating_add`. -/
def saturatingAdd (a b : UInt8) : UInt8 := if a.toNat + b.toNat ≤ 255 then a + b else 255

theorem saturatingAdd_toNat (a b : UInt8) :
    (saturatingAdd a b).toNat = min 255 (a.toNat + b.toNat) := by
  unfold saturatingAdd
  split
  · rename_i h
    rw [UInt8.toNat_add, Nat.mod_eq_of_lt (by omega)]
    omega
  · rename_i h
    have : (255 : UInt8).toNat = 255 := rfl
    omega

/-- The three accumulators of `score`. -/
structure Axes where
  security : UInt8 := 0
  reliability : UInt8 := 0
  hygiene : UInt8 := 0

/-- One turn of the loop in `score`. -/
def Axes.add (a : Axes) (f : Finding) : Axes :=
  if f.suppressed.isSome then a
  else match f.category with
    | .security => { a with security := saturatingAdd a.security f.weight }
    | .reliability => { a with reliability := saturatingAdd a.reliability f.weight }
    | .hygiene => { a with hygiene := saturatingAdd a.hygiene f.weight }

structure ScoredReport where
  total : UInt8
  security : UInt8
  reliability : UInt8
  hygiene : UInt8
  findings : List Finding

def score (findings : List Finding) : ScoredReport :=
  let a := findings.foldl Axes.add {}
  { total := min (min a.security 60 + min a.reliability 30 + min a.hygiene 10) 100
    security := min a.security 60
    reliability := min a.reliability 30
    hygiene := min a.hygiene 10
    findings := findings }

/-- The exact sum of the live weights of one category. -/
def liveWeight (c : Category) (findings : List Finding) : ℕ :=
  ((findings.filter fun f => f.isLive && f.category == c).map fun f => f.weight.toNat).sum

@[simp] theorem liveWeight_nil (c : Category) : liveWeight c [] = 0 := rfl

theorem liveWeight_cons (c : Category) (f : Finding) (l : List Finding) :
    liveWeight c (f :: l) =
      (if f.isLive && f.category == c then f.weight.toNat else 0) + liveWeight c l := by
  unfold liveWeight
  rw [List.filter_cons]
  split <;> simp

theorem min_min_add (c a b d : ℕ) : min c (min c (a + b) + d) = min c (a + (b + d)) := by
  omega

/-- What the accumulators hold after the loop, in exact arithmetic: each saturates at 255. -/
theorem foldl_add_toNat : ∀ (l : List Finding) (a : Axes),
    (l.foldl Axes.add a).security.toNat = min 255 (a.security.toNat + liveWeight .security l) ∧
    (l.foldl Axes.add a).reliability.toNat =
      min 255 (a.reliability.toNat + liveWeight .reliability l) ∧
    (l.foldl Axes.add a).hygiene.toNat = min 255 (a.hygiene.toNat + liveWeight .hygiene l)
  | [], a => by
      have h1 := a.security.toNat_lt
      have h2 := a.reliability.toNat_lt
      have h3 := a.hygiene.toNat_lt
      simp only [List.foldl_nil, liveWeight_nil]
      omega
  | f :: l, a => by
      obtain ⟨ih1, ih2, ih3⟩ := foldl_add_toNat l (a.add f)
      rw [List.foldl_cons, ih1, ih2, ih3]
      simp only [liveWeight_cons]
      unfold Axes.add Finding.isLive
      cases f.suppressed with
      | some s => simp
      | none => cases f.category <;> simp [saturatingAdd_toNat, min_min_add]

theorem min_toNat (a b : UInt8) : (min a b).toNat = min a.toNat b.toNat := by
  rw [UInt8.min_def, Nat.min_def]
  simp only [UInt8.le_iff_toNat_le]
  split <;> rfl

theorem cap_min (w : ℕ) {c : ℕ} (hc : c ≤ 255) : min (min 255 (0 + w)) c = min c w := by
  omega

/-- The score on one axis is the capped live weight. -/
theorem score_axes_toNat (l : List Finding) :
    (score l).security.toNat = min 60 (liveWeight .security l) ∧
    (score l).reliability.toNat = min 30 (liveWeight .reliability l) ∧
    (score l).hygiene.toNat = min 10 (liveWeight .hygiene l) := by
  obtain ⟨h1, h2, h3⟩ := foldl_add_toNat l {}
  have e0 : (0 : UInt8).toNat = 0 := rfl
  have e10 : (10 : UInt8).toNat = 10 := rfl
  have e30 : (30 : UInt8).toNat = 30 := rfl
  have e60 : (60 : UInt8).toNat = 60 := rfl
  simp only [score, min_toNat, h1, h2, h3, e0, e10, e30, e60]
  rw [cap_min _ (by decide), cap_min _ (by decide), cap_min _ (by decide)]
  exact ⟨rfl, rfl, rfl⟩

/-- **The score in exact arithmetic**: the capped sums of the live weights, with no
intermediate overflow. -/
theorem score_total_toNat (l : List Finding) :
    (score l).total.toNat =
      min 60 (liveWeight .security l) + min 30 (liveWeight .reliability l) +
        min 10 (liveWeight .hygiene l) := by
  obtain ⟨hs, hr, hh⟩ := score_axes_toNat l
  have htotal : (score l).total =
      min ((score l).security + (score l).reliability + (score l).hygiene) 100 := rfl
  have e100 : (100 : UInt8).toNat = 100 := rfl
  rw [htotal, min_toNat, UInt8.toNat_add, UInt8.toNat_add, e100, hs, hr, hh]
  omega

theorem liveWeight_append (c : Category) (l₁ l₂ : List Finding) :
    liveWeight c (l₁ ++ l₂) = liveWeight c l₁ + liveWeight c l₂ := by
  simp [liveWeight]

theorem liveWeight_perm (c : Category) {l l' : List Finding} (h : l.Perm l') :
    liveWeight c l = liveWeight c l' :=
  ((h.filter _).map _).sum_eq

theorem liveWeight_le_insert (c : Category) (f : Finding) (l₁ l₂ : List Finding) :
    liveWeight c (l₁ ++ l₂) ≤ liveWeight c (l₁ ++ f :: l₂) := by
  rw [liveWeight_append, liveWeight_append, liveWeight_cons]
  omega

/-- **The score of every report**: the capped sums of the live weights in exact arithmetic, at most
100.  Every accumulator holds its exact sum, or its limit above every cap; neither addition of the
capped axes overflows; the order of the findings does not matter; and one more live finding never
lowers the score. -/
theorem score_exact (l : List Finding) :
    (score l).total.toNat =
      min 60 (liveWeight .security l) + min 30 (liveWeight .reliability l) +
        min 10 (liveWeight .hygiene l) ∧
    (score l).total ≤ 100 ∧
    (∀ n, ((l.take n).foldl Axes.add {}).security.toNat =
        min 255 (liveWeight .security (l.take n)) ∧
      ((l.take n).foldl Axes.add {}).reliability.toNat =
        min 255 (liveWeight .reliability (l.take n)) ∧
      ((l.take n).foldl Axes.add {}).hygiene.toNat =
        min 255 (liveWeight .hygiene (l.take n))) ∧
    (score l).security.toNat + (score l).reliability.toNat < 2 ^ 8 ∧
    (score l).security.toNat + (score l).reliability.toNat + (score l).hygiene.toNat < 2 ^ 8 ∧
    (∀ l', l.Perm l' → (score l').total = (score l).total) ∧
    ∀ l₁ l₂ f, l = l₁ ++ l₂ → f.isLive = true →
      (score l).total ≤ (score (l₁ ++ f :: l₂)).total := by
  obtain ⟨hs, hr, hh⟩ := score_axes_toNat l
  have hcap : (100 : UInt8).toNat = 100 := rfl
  refine ⟨score_total_toNat l, ?_, ?_, by omega, by omega, ?_, ?_⟩
  · rw [UInt8.le_iff_toNat_le, score_total_toNat]
    omega
  · intro n
    have hfold := foldl_add_toNat (l.take n) {}
    have e0 : ({} : Axes).security.toNat = 0 := rfl
    rw [e0] at hfold
    simpa only [Nat.zero_add] using hfold
  · intro l' hperm
    apply UInt8.toNat_inj.mp
    rw [score_total_toNat, score_total_toNat]
    simp only [liveWeight_perm _ hperm]
  · rintro l₁ l₂ f rfl _
    rw [UInt8.le_iff_toNat_le, score_total_toNat, score_total_toNat]
    have h1 := liveWeight_le_insert .security f l₁ l₂
    have h2 := liveWeight_le_insert .reliability f l₁ l₂
    have h3 := liveWeight_le_insert .hygiene f l₁ l₂
    omega

/-! ### Verdict -/

inductive SecurityVerdict where
  | clean
  | critical
  | compromised
deriving DecidableEq, Repr

/-- The identifiers whose live presence forces `Compromised`. -/
def compromiseIds : List String :=
  ["SEC-015", "SEC-016", "SEC-017", "SEC-019", "SEC-020", "SEC-021", "SEC-022", "SEC-023",
    "SEC-024", "SEC-028", "SEC-040", "DOCK-010", "SEC-042", "SEC-043", "SEC-052", "SEC-055"]

def sysctlCriticalThreshold : ℕ := 3

structure CriticalFlags where
  firewallDisabled : Bool
  sshRootLogin : Bool
  securityUpdates : Bool
  criticalSsl : Bool
  failedServices : Bool
  noBackups : Bool
  sudoNopasswd : Bool
  ntpNotSynced : Bool
  sysctlIssuesCount : ℕ
  compromisedHost : Bool

/-- A live finding with this identifier exists. -/
def hasLive (findings : List Finding) (id : String) : Bool :=
  findings.any fun f => f.id == id && f.isLive

/-- The debug assertion of `CriticalFlags::from_findings`. -/
def compromiseWeightsOk (findings : List Finding) : Bool :=
  findings.all fun f => !(compromiseIds.contains f.id && f.isLive) || decide (55 ≤ f.weight)

namespace CriticalFlags

def fromFindings (findings : List Finding) : CriticalFlags where
  firewallDisabled := hasLive findings "SEC-001"
  sshRootLogin := hasLive findings "SEC-002"
  securityUpdates := hasLive findings "SEC-003"
  criticalSsl := hasLive findings "SEC-004"
  failedServices := hasLive findings "REL-001"
  noBackups := hasLive findings "REL-002"
  sudoNopasswd := hasLive findings "SEC-005" || hasLive findings "SEC-012"
  ntpNotSynced := hasLive findings "HYG-001"
  sysctlIssuesCount := (findings.filter fun f => f.id == "SEC-007" && f.isLive).length
  compromisedHost := compromiseIds.any fun id => hasLive findings id

def hasCritical (c : CriticalFlags) : Bool :=
  c.firewallDisabled || c.sshRootLogin || c.securityUpdates || c.criticalSsl ||
    c.failedServices || c.noBackups || c.sudoNopasswd || c.ntpNotSynced ||
    decide (sysctlCriticalThreshold ≤ c.sysctlIssuesCount)

end CriticalFlags

/-- `live`: the findings that count. -/
def live (findings : List Finding) : List Finding := findings.filter Finding.isLive

def securityVerdictFromFindings (findings : List Finding) : SecurityVerdict :=
  let flags := CriticalFlags.fromFindings (live findings)
  if flags.compromisedHost then .compromised
  else if flags.hasCritical then .critical
  else .clean

@[simp] theorem hasLive_live (l : List Finding) (id : String) :
    hasLive (live l) id = hasLive l id := by
  rw [Bool.eq_iff_iff]
  simp only [hasLive, live, List.any_filter, List.any_eq_true, Bool.and_eq_true]
  constructor
  · rintro ⟨f, hf, _, h⟩
    exact ⟨f, hf, h⟩
  · rintro ⟨f, hf, h⟩
    exact ⟨f, hf, h.2, h⟩

/-- **When a host is called compromised**: a live finding carries a compromise identifier. -/
theorem verdict_compromised_iff (l : List Finding) :
    securityVerdictFromFindings l = .compromised ↔
      ∃ f ∈ l, f.suppressed = none ∧ f.id ∈ compromiseIds := by
  have key : (CriticalFlags.fromFindings (live l)).compromisedHost = true ↔
      ∃ f ∈ l, f.suppressed = none ∧ f.id ∈ compromiseIds := by
    simp only [CriticalFlags.fromFindings, hasLive_live]
    simp only [hasLive, List.any_eq_true, Bool.and_eq_true, beq_iff_eq, Finding.isLive,
      Option.isNone_iff_eq_none]
    constructor
    · rintro ⟨id, hid, f, hf, rfl, hlive⟩
      exact ⟨f, hf, hlive, hid⟩
    · rintro ⟨f, hf, hlive, hid⟩
      exact ⟨f.id, hid, f, hf, rfl, hlive⟩
  rw [← key]
  unfold securityVerdictFromFindings
  by_cases h : (CriticalFlags.fromFindings (live l)).compromisedHost = true
  · simp [h]
  · rw [if_neg h]
    split <;> simp [h]

/-! ### Impact -/

/-- What score and verdict read of a finding. -/
structure Impact where
  id : String
  category : Category
  weight : UInt8
  live : Bool
deriving DecidableEq, Repr

def Finding.impact (f : Finding) : Impact := ⟨f.id, f.category, f.weight, f.isLive⟩

/-- `Axes.add`, from the impact alone. -/
def Axes.addImpact (a : Axes) (i : Impact) : Axes :=
  if i.live then
    match i.category with
    | .security => { a with security := saturatingAdd a.security i.weight }
    | .reliability => { a with reliability := saturatingAdd a.reliability i.weight }
    | .hygiene => { a with hygiene := saturatingAdd a.hygiene i.weight }
  else a

theorem Axes.add_eq_addImpact (a : Axes) (f : Finding) : a.add f = a.addImpact f.impact := by
  unfold Axes.add Axes.addImpact Finding.impact Finding.isLive
  cases h : f.suppressed with
  | none => simp
  | some s => simp

section congr
variable {l l' : List Finding}

theorem foldl_add_eq (l : List Finding) (a : Axes) :
    l.foldl Axes.add a = (l.map Finding.impact).foldl Axes.addImpact a := by
  have e : Axes.add = fun a f => Axes.addImpact a f.impact := by
    funext a f
    exact Axes.add_eq_addImpact a f
  rw [e, List.foldl_map]

/-- The total of a list of impacts. -/
def totalOf (is : List Impact) : UInt8 :=
  let a := is.foldl Axes.addImpact {}
  min (min a.security 60 + min a.reliability 30 + min a.hygiene 10) 100

theorem score_total_eq (l : List Finding) : (score l).total = totalOf (l.map Finding.impact) := by
  simp only [score, totalOf, foldl_add_eq]

theorem score_congr (h : l.map Finding.impact = l'.map Finding.impact) :
    (score l).total = (score l').total := by
  rw [score_total_eq, score_total_eq, h]

theorem hasLive_congr (h : l.map Finding.impact = l'.map Finding.impact) (id : String) :
    hasLive l id = hasLive l' id := by
  have e : ∀ l : List Finding, hasLive l id =
      (l.map Finding.impact).any fun i => i.id == id && i.live := by
    intro l
    simp only [hasLive, List.any_map]
    rfl
  rw [e, e, h]

theorem verdict_congr (h : l.map Finding.impact = l'.map Finding.impact) :
    securityVerdictFromFindings l = securityVerdictFromFindings l' := by
  have e : ∀ l : List Finding, ((live l).filter fun f => f.id == "SEC-007" && f.isLive).length =
      ((l.map Finding.impact).filter fun i => (i.id == "SEC-007" && i.live) && i.live).length := by
    intro l
    simp only [live, List.filter_filter, List.filter_map, List.length_map]
    rfl
  have flags : CriticalFlags.fromFindings (live l) = CriticalFlags.fromFindings (live l') := by
    simp only [CriticalFlags.fromFindings, hasLive_live, hasLive_congr h, e, h]
  simp only [securityVerdictFromFindings, flags]

end congr

end OwlzopsMapper
