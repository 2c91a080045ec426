import OwlzopsMapper.Compare.Block
import OwlzopsMapper.Utils

/-! # Network

The blocks of `compare_reports` on the section of the network scanner.  Certificates are matched by
the first certificate of a domain, so a report in which two certificates of one domain disagree is
not silent against itself.  A listener that stopped is `Changed` and not an improvement. -/

namespace OwlzopsMapper
namespace Compare

open Rust Lib

def firewallActive : Block :=
  .ofBool "network.firewall_active" false (fun r => r.network.firewallActive) fun h =>
    h.network.firewallActive

/-! ### Certificates -/

def certField (domain suffix : String) : String :=
  "network.ssl_certificates." ++ (domain ++ suffix)

theorem startsWith_certField (domain suffix : String) :
    startsWith (certField domain suffix) "network.ssl_certificates." = true :=
  startsWith_append _ _

def certEntries : Option SslCertInfo → Option SslCertInfo → List Change
  | some was, some now =>
      compareBool (certField now.domain ".is_critical") true was.isCritical now.isCritical ++
        compareBool (certField now.domain ".is_warning") true was.isWarning now.isWarning
  | none, some now => [appeared (certField now.domain ".added") now.domain .degraded]
  | some was, none => [vanished (certField was.domain ".removed") was.domain .changed]
  | none, none => []

/-- A flag of a certificate turned: for the worse when it is set now. -/
def CertTurned (s : Severity) (was now : SslCertInfo) : Prop :=
  (was.isCritical ≠ now.isCritical ∧ worseIf now.isCritical = s) ∨
    was.isWarning ≠ now.isWarning ∧ worseIf now.isWarning = s

def certShows (s : Severity) : Option SslCertInfo → Option SslCertInfo → Prop
  | some was, some now => CertTurned s was now
  | none, some _ => s = .degraded
  | some _, none => s = .changed
  | none, none => False

def certMatch : Block.Match SslCertInfo "network.ssl_certificates." where
  entries := certEntries
  shows := certShows
  agree was now := was.isCritical = now.isCritical ∧ was.isWarning = now.isWarning
  named was now := by
    cases was <;> cases now <;>
      simp [certEntries, appeared, vanished, compareBool, became, startsWith_certField, or_imp,
        forall_and]
  shows_iff s was now := by
    cases was <;> cases now
    case some.some was now =>
      simp only [certEntries, certShows, CertTurned, compareBool, exists_severity_append,
        exists_severity_changeIf, became, beq_true]
    all_goals simp [certEntries, certShows, appeared, vanished, eq_comm]
  agree_iff was now := by
    simp [certEntries, compareBool]

def sslCertificates : Block :=
  .ofMatch "network.ssl_certificates." (fun r => r.network.sslCertificates) SslCertInfo.domain
    certMatch Eq (fun _ _ h => by rw [h])
    (fun w w' n n' hw hn => by
      have hw' : w = w' := by cases hw <;> simp_all
      have hn' : n = n' := by cases hn <;> simp_all
      rw [hw', hn'])
    (fun h => Rearranged.of_perm (fun _ => rfl) h.network.sslCertificates)
    (fun h => h.sslCertificates)

/-! ### Listening ports -/

abbrev PortKey := String × String × String

def portText (k : PortKey) : String := k.1 ++ ":" ++ k.2.1 ++ ":" ++ k.2.2

def portField (k : PortKey) (suffix : String) : String :=
  "network.listening_ports." ++ (k.1 ++ "." ++ k.2.1 ++ "." ++ k.2.2 ++ suffix)

theorem startsWith_portField (k : PortKey) (suffix : String) :
    startsWith (portField k suffix) "network.listening_ports." = true := startsWith_append _ _

/-- The ports by protocol, address and number. -/
def portIndex (r : AgentReport) : List (PortKey × PortInfo) :=
  r.network.listeningPorts.map fun p => (p.key, p)

theorem portIndex_perm {r r' : AgentReport} (h : r.Reordered r') :
    (portIndex r).Perm (portIndex r') := h.network.listeningPorts.map _

theorem nodup_portIndex {r : AgentReport} (h : r.KeysDistinct) :
    ((portIndex r).map Prod.fst).Nodup := by
  unfold portIndex
  rw [List.map_map]
  exact h.listeningPorts

/-- Ports that appeared and ports that are gone. -/
def listeningPorts : Block :=
  .ofMap "network.listening_ports" portIndex
    { entries := fun k was now => match was, now with
        | none, some _ => [appeared "network.listening_ports" (portText k) .degraded]
        | some _, none => [vanished "network.listening_ports" (portText k) .changed]
        | _, _ => []
      shows := fun s was now => (was = none ∧ now.isSome ∧ s = .degraded) ∨
        (was.isSome ∧ now = none ∧ s = .changed)
      named := by
        intro k was now
        cases was <;> cases now <;> simp [appeared, vanished, startsWith_self]
      shows_iff := by
        intro s k was now
        cases was <;> cases now <;> simp [appeared, vanished, eq_comm]
      absent := fun _ => rfl
      self := fun _ _ => rfl }
    portIndex_perm nodup_portIndex

/-- The process of a port that is still there. -/
def portProcess : Block :=
  .ofMap "network.listening_ports." portIndex
    { entries := fun k was now => match was, now with
        | some b, some a =>
            changeIf (b.process ≠ a.process)
              (became (portField k ".process") b.process a.process .degraded)
        | _, _ => []
      shows := fun s was now => ∃ b a, was = some b ∧ now = some a ∧ b.process ≠ a.process ∧
        s = .degraded
      named := by
        intro k was now
        cases was <;> cases now <;> simp [became, startsWith_portField]
      shows_iff := by
        intro s k was now
        cases was <;> cases now <;> simp [became, eq_comm]
      absent := fun _ => rfl
      self := fun _ _ => by simp }
    portIndex_perm nodup_portIndex

/-- The executable of a port that is still there. -/
def portExePath : Block :=
  .ofMap "network.listening_ports." portIndex
    { entries := fun k was now => match was, now with
        | some b, some a => compareObserved (portField k ".exe_path") "unknown (not observed)" id
            (fun _ _ => .degraded) b.exePath a.exePath
        | _, _ => []
      shows := fun s was now => ∃ b a, was = some b ∧ now = some a ∧
        ObservedShows (fun _ _ => .degraded) s b.exePath a.exePath
      named := by
        intro k was now
        cases was <;> cases now
        case some.some b a =>
          intro c hc
          rw [compareObserved_field c hc]
          exact startsWith_portField _ _
        all_goals simp
      shows_iff := by
        intro s k was now
        cases was <;> cases now
        case some.some b a => simpa using compareObserved_shows
        all_goals simp
      absent := fun _ => rfl
      self := fun _ _ => compareObserved_eq_nil.mpr rfl }
    portIndex_perm nodup_portIndex

/-! ### Exposure -/

/-- The addresses a protocol and port are bound to. -/
def binds (ports : List PortInfo) (k : String × String) : List String :=
  (ports.filter fun p => (p.protocol, p.port) == k).map PortInfo.bindAddress

/-- Bound to loopback and to no wildcard before, to a wildcard now. -/
def Exposes (before after : List PortInfo) (k : String × String) : Prop :=
  (binds before k).any isLoopbackBind = true ∧ (binds before k).any isWildcardBind = false ∧
    (binds after k).any isWildcardBind = true

instance (before after : List PortInfo) (k : String × String) :
    Decidable (Exposes before after k) := by
  unfold Exposes
  infer_instance

def exposureEntry (k : String × String) : Change :=
  became ("network.listening_ports." ++ (k.1 ++ "." ++ k.2 ++ ".exposure")) "local only"
    "exposed on wildcard bind" .degraded

theorem any_binds_perm {l l' : List PortInfo} (h : l.Perm l') (k : String × String)
    (p : String → Bool) : (binds l k).any p = (binds l' k).any p := by
  have hperm : (binds l k).Perm (binds l' k) := (h.filter _).map _
  rw [Bool.eq_iff_iff, List.any_eq_true, List.any_eq_true]
  simp only [hperm.mem_iff]

theorem exposes_perm {b b' a a' : List PortInfo} (hb : b.Perm b') (ha : a.Perm a')
    (k : String × String) : Exposes b a k ↔ Exposes b' a' k := by
  unfold Exposes
  rw [any_binds_perm hb, any_binds_perm hb, any_binds_perm ha]

theorem not_exposes_self (l : List PortInfo) (k : String × String) : ¬ Exposes l l k := by
  rintro ⟨_, hnone, hsome⟩
  rw [hnone] at hsome
  cases hsome

/-- The same protocol and port moved from loopback to a wildcard address. -/
def exposure : Block where
  stem := "network.listening_ports."
  changes b a :=
    ((b.network.listeningPorts.map fun p => (p.protocol, p.port)).dedup.filter fun k =>
      Exposes b.network.listeningPorts a.network.listeningPorts k).map exposureEntry
  shows s b a := s = .degraded ∧
    ∃ k, Exposes b.network.listeningPorts a.network.listeningPorts k
  coherent _ := True
  named := by
    intro b a c hc
    obtain ⟨k, _, rfl⟩ := List.mem_map.mp hc
    exact startsWith_append _ _
  shows_iff := by
    intro s b a
    constructor
    · rintro ⟨c, hc, rfl⟩
      obtain ⟨k, hk, rfl⟩ := List.mem_map.mp hc
      exact ⟨rfl, k, by simpa using (List.mem_filter.mp hk).2⟩
    · rintro ⟨rfl, k, hk⟩
      refine ⟨exposureEntry k, List.mem_map.mpr ⟨k, ?_, rfl⟩, rfl⟩
      rw [List.mem_filter, List.mem_dedup, List.mem_map]
      obtain ⟨x, hx, _⟩ := List.any_eq_true.mp hk.1
      obtain ⟨p, hp, _⟩ := List.mem_map.mp hx
      obtain ⟨hmem, hkey⟩ := List.mem_filter.mp hp
      exact ⟨⟨p, hmem, by simpa using hkey⟩, by simpa using hk⟩
  silent_iff := by
    intro r
    simp [not_exposes_self]
  reordered := by
    intro b b' a a' h
    have hb := h.older.network.listeningPorts
    have ha := h.newer.network.listeningPorts
    have hsame : (fun k => decide (Exposes b.network.listeningPorts a.network.listeningPorts k)) =
        fun k => decide (Exposes b'.network.listeningPorts a'.network.listeningPorts k) := by
      funext k
      rw [decide_eq_decide]
      exact exposes_perm hb ha k
    simp only [hsame]
    exact (((hb.map _).dedup).filter _).map _

/-! ### Other namespaces -/

def foreignNetnsText (k : String × String × String × String) : String :=
  k.1 ++ " " ++ k.2.1 ++ " " ++ k.2.2.1 ++ ":" ++ k.2.2.2

def foreignNetnsListeners : Block :=
  .ofSet "network.foreign_netns_listeners"
    (fun r => r.network.foreignNetnsListeners.map foreignNetnsKey)
    ⟨"network.foreign_netns_listeners", foreignNetnsText, .degraded⟩
    ⟨"network.foreign_netns_listeners", foreignNetnsText, .changed⟩ fun h =>
      h.network.foreignNetnsListeners.map _

end Compare
end OwlzopsMapper
