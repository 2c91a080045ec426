import OwlzopsMapper.Compare.Report

/-! # Comparing fleets

`compareMulti` is `compare_multi`: the reports of each side by host name, the last one winning, and one
entry for every host name of either side, in order.  `compareExit` is the exit decision of
`compare --fail-on-drift`.

A host of both sides is compared; a host of one side only gets a single entry of its own, which is
`Degraded` for a host that is gone.  **`drift_exit_iff`** says when the exit code nevertheless
depends on compared hosts alone, and **`fleet_diff_iff`** when a comparison returns its entries. -/

namespace OwlzopsMapper

open Lib

inductive HostDiffStatus where
  | compared
  | added
  | removed
deriving DecidableEq, Repr

structure MultiHostDiff where
  hostname : String
  status : HostDiffStatus
  diff : DiffReport
deriving DecidableEq

/-- The pairs from which a host map is collected. -/
def byHostname (reports : List AgentReport) : List (String × AgentReport) :=
  reports.map fun r => (r.host.hostname, r)

/-- The report of a host, the last one of its name. -/
def reportOf (reports : List AgentReport) (hostname : String) : Option AgentReport :=
  entry (byHostname reports) hostname

/-- All host names, in order and each once. -/
def hostnames (before after : List AgentReport) : List String :=
  sortedSet (before.map (fun r => r.host.hostname) ++ after.map fun r => r.host.hostname)

section
variable (escapes : Char → Bool)

/-- The entry of one host name. -/
def hostDiff (hostname : String) :
    Option AgentReport → Option AgentReport → Except Overflow (List MultiHostDiff)
  | some b, some a =>
      match compareReports escapes b a with
      | .error e => .error e
      | .ok diff => .ok [{ hostname := hostname, status := .compared, diff := diff }]
  | some b, none => .ok [{
      hostname := hostname
      status := .removed
      diff := { before := some (SnapshotMeta.fromReport b), after := none
                changes := [vanished "host.removed" hostname .degraded] } }]
  | none, some a => .ok [{
      hostname := hostname
      status := .added
      diff := { before := none, after := some (SnapshotMeta.fromReport a)
                changes := [appeared "host.added"
                  (hostname ++ " (risk " ++ toString a.riskScore ++ ")") .changed] } }]
  | none, none => .ok []

/-- The loop of `compare_multi` over the host names; the first overflow ends it. -/
def compareHosts (before after : List AgentReport) :
    List String → Except Overflow (List MultiHostDiff)
  | [] => .ok []
  | h :: hs =>
      match hostDiff escapes h (reportOf before h) (reportOf after h) with
      | .error e => .error e
      | .ok d =>
          match compareHosts before after hs with
          | .error e => .error e
          | .ok ds => .ok (d ++ ds)

def compareMulti (before after : List AgentReport) : Except Overflow (List MultiHostDiff) :=
  compareHosts escapes before after (hostnames before after)

/-- The exit code of `compare` on two fleets; 1 is the drift code. -/
def compareExit (failOnDrift : Bool) (before after : List AgentReport) : Except Overflow ℤ :=
  match compareMulti escapes before after with
  | .error e => .error e
  | .ok diffs =>
      .ok (if failOnDrift && diffs.any fun d => d.diff.changes.any fun c => c.severity == .degraded
        then 1 else 0)

end

/-! ### One host -/

section hosts
variable {escapes : Char → Bool} {before after : List AgentReport}

theorem reportOf_eq_none_iff {reports : List AgentReport} {h : String} :
    reportOf reports h = none ↔ h ∉ reports.map fun r => r.host.hostname := by
  unfold reportOf byHostname
  rw [entry_eq_none_iff, List.map_map]
  rfl

/-- Some report of the host on each side, and what is compared of them is worse. -/
def HostWorse (escapes : Char → Bool) (b a : Option AgentReport) : Prop :=
  ∃ rb ra, b = some rb ∧ a = some ra ∧ Shows escapes .degraded rb ra

/-- The comparison of a host of both sides panics. -/
def HostPanics (b a : Option AgentReport) : Prop :=
  ∃ rb ra, b = some rb ∧ a = some ra ∧ compareOverflows rb ra = true

theorem hostDiff_error_iff {h : String} {b a : Option AgentReport} :
    (∃ e, hostDiff escapes h b a = .error e) ↔ HostPanics b a := by
  unfold HostPanics
  cases b <;> cases a
  case some.some rb ra =>
    cases hsafe : compareOverflows rb ra with
    | false =>
        have hok := compareReports_of_safe escapes hsafe
        simp [hostDiff, hok, hsafe]
    | true =>
        have herror : ∃ e, compareReports escapes rb ra = .error e := by
          cases hcompare : compareReports escapes rb ra with
          | error e => exact ⟨e, rfl⟩
          | ok d =>
              rw [(compareReports_ok_iff.mp hcompare).1] at hsafe
              cases hsafe
        obtain ⟨e, he⟩ := herror
        simp [hostDiff, he, hsafe]
  all_goals simp [hostDiff]

/-- The entry of a host of both sides. -/
theorem hostDiff_both {h : String} {rb ra : AgentReport} {ds : List MultiHostDiff}
    (hds : hostDiff escapes h (some rb) (some ra) = .ok ds) :
    ∃ diff, compareReports escapes rb ra = .ok diff ∧
      ds = [{ hostname := h, status := .compared, diff := diff }] := by
  simp only [hostDiff] at hds
  cases hcompare : compareReports escapes rb ra with
  | error e =>
      simp only [hcompare, reduceCtorEq] at hds
  | ok diff =>
      simp only [hcompare] at hds
      exact ⟨diff, rfl, (Except.ok.inj hds).symm⟩

/-- A degraded entry of a compared host. -/
def ComparedDegraded (d : MultiHostDiff) : Prop :=
  d.status = .compared ∧ ∃ c ∈ d.diff.changes, c.severity = .degraded

/-- A degraded entry of any host. -/
def AnyDegraded (d : MultiHostDiff) : Prop := ∃ c ∈ d.diff.changes, c.severity = .degraded

theorem hostDiff_compared_iff {h : String} {b a : Option AgentReport} {ds : List MultiHostDiff}
    (hds : hostDiff escapes h b a = .ok ds) :
    (∃ d ∈ ds, ComparedDegraded d) ↔ HostWorse escapes b a := by
  unfold HostWorse ComparedDegraded
  cases b <;> cases a
  case some.some rb ra =>
    obtain ⟨diff, hcompare, rfl⟩ := hostDiff_both hds
    obtain ⟨hsafe, hdiff⟩ := compareReports_ok_iff.mp hcompare
    have hshows := @exists_collected_iff escapes .degraded rb ra
    rw [hdiff]
    simpa using hshows
  all_goals
    obtain rfl := Except.ok.inj hds
    simp

theorem hostDiff_degraded_iff {h : String} {b a : Option AgentReport} {ds : List MultiHostDiff}
    (hds : hostDiff escapes h b a = .ok ds) :
    (∃ d ∈ ds, AnyDegraded d) ↔ HostWorse escapes b a ∨ b.isSome ∧ a = none := by
  cases b <;> cases a
  case some.some rb ra =>
    have hsame : ∀ d ∈ ds, AnyDegraded d ↔ ComparedDegraded d := by
      intro d hd
      obtain ⟨diff, _, rfl⟩ := hostDiff_both hds
      obtain rfl := List.mem_singleton.mp hd
      simp [AnyDegraded, ComparedDegraded]
    rw [← hostDiff_compared_iff hds]
    simp only [reduceCtorEq, and_false, or_false]
    exact exists_congr fun d => and_congr_right (hsame d)
  all_goals
    obtain rfl := Except.ok.inj hds
    simp [AnyDegraded, HostWorse, vanished, appeared]

/-! ### All hosts -/

theorem compareHosts_error_iff {hs : List String} :
    (∃ e, compareHosts escapes before after hs = .error e) ↔
      ∃ h ∈ hs, HostPanics (reportOf before h) (reportOf after h) := by
  induction hs with
  | nil => simp [compareHosts]
  | cons h hs ih =>
      rw [List.exists_mem_cons_iff, ← ih, ← @hostDiff_error_iff escapes h,
        compareHosts]
      cases hostDiff escapes h (reportOf before h) (reportOf after h) with
      | error e => simp
      | ok d => cases compareHosts escapes before after hs <;> simp

/-- What holds of some entry of the loop holds of some entry of some host. -/
theorem exists_compareHosts_iff {p : MultiHostDiff → Prop} {q : String → Prop} {hs : List String}
    (hq : ∀ h ∈ hs, ∀ ds, hostDiff escapes h (reportOf before h) (reportOf after h) = .ok ds →
      ((∃ d ∈ ds, p d) ↔ q h)) {ds : List MultiHostDiff}
    (hds : compareHosts escapes before after hs = .ok ds) : (∃ d ∈ ds, p d) ↔ ∃ h ∈ hs, q h := by
  induction hs generalizing ds with
  | nil =>
      obtain rfl := Except.ok.inj hds
      simp
  | cons h hs ih =>
      rw [compareHosts] at hds
      cases hhead : hostDiff escapes h (reportOf before h) (reportOf after h) with
      | error e =>
          rw [hhead] at hds
          cases hds
      | ok d =>
          rw [hhead] at hds
          cases hrest : compareHosts escapes before after hs with
          | error e =>
              rw [hrest] at hds
              cases hds
          | ok rest =>
              rw [hrest] at hds
              obtain rfl := Except.ok.inj hds
              have hd := hq h List.mem_cons_self d hhead
              have hr := ih (fun x hx => hq x (List.mem_cons_of_mem _ hx)) hrest
              rw [List.exists_mem_cons_iff, ← hd, ← hr]
              simp only [List.mem_append, or_and_right, exists_or]

theorem mem_hostnames {h : String} : h ∈ hostnames before after ↔
    (reportOf before h).isSome ∨ (reportOf after h).isSome := by
  have hiff : ∀ reports : List AgentReport,
      (reportOf reports h).isSome = true ↔ h ∈ reports.map fun r => r.host.hostname := by
    intro reports
    rw [← Option.ne_none_iff_isSome, ne_eq, reportOf_eq_none_iff, not_not]
  rw [hiff, hiff, hostnames, mem_sortedSet, List.mem_append]

/-- Some host of both sides got worse. -/
def FleetWorse (escapes : Char → Bool) (before after : List AgentReport) : Prop :=
  ∃ h, HostWorse escapes (reportOf before h) (reportOf after h)

/-- The comparison of some host of both sides panics. -/
def FleetPanics (before after : List AgentReport) : Prop :=
  ∃ h, HostPanics (reportOf before h) (reportOf after h)

/-- Every host of the baseline is still there. -/
def NoneRemoved (before after : List AgentReport) : Prop :=
  ∀ h, (reportOf before h).isSome → (reportOf after h).isSome

theorem compareMulti_error_iff :
    (∃ e, compareMulti escapes before after = .error e) ↔ FleetPanics before after := by
  unfold compareMulti FleetPanics
  rw [compareHosts_error_iff]
  constructor
  · rintro ⟨h, _, hp⟩
    exact ⟨h, hp⟩
  · rintro ⟨h, rb, ra, hb, ha, hover⟩
    exact ⟨h, mem_hostnames.mpr (.inl (by simp [hb])), rb, ra, hb, ha, hover⟩

theorem compareMulti_compared_iff {ds : List MultiHostDiff}
    (hds : compareMulti escapes before after = .ok ds) :
    (∃ d ∈ ds, ComparedDegraded d) ↔ FleetWorse escapes before after := by
  unfold FleetWorse
  rw [exists_compareHosts_iff (fun h _ ds hds => hostDiff_compared_iff hds) hds]
  constructor
  · rintro ⟨h, _, hw⟩
    exact ⟨h, hw⟩
  · rintro ⟨h, rb, ra, hb, ha, hshows⟩
    exact ⟨h, mem_hostnames.mpr (.inl (by simp [hb])), rb, ra, hb, ha, hshows⟩

theorem compareMulti_degraded_iff {ds : List MultiHostDiff}
    (hds : compareMulti escapes before after = .ok ds) :
    (∃ d ∈ ds, AnyDegraded d) ↔ FleetWorse escapes before after ∨ ¬ NoneRemoved before after := by
  rw [← compareMulti_compared_iff hds,
    exists_compareHosts_iff (fun h _ ds hds => hostDiff_degraded_iff hds) hds,
    exists_compareHosts_iff (fun h _ ds hds => hostDiff_compared_iff hds) hds]
  unfold NoneRemoved
  constructor
  · rintro ⟨h, hh, hw | ⟨hb, ha⟩⟩
    · exact .inl ⟨h, hh, hw⟩
    · refine .inr fun hall => ?_
      have hsome := hall h hb
      rw [ha] at hsome
      cases hsome
  · rintro (⟨h, hh, hw⟩ | hremoved)
    · exact ⟨h, hh, .inl hw⟩
    · push Not at hremoved
      obtain ⟨h, hb, ha⟩ := hremoved
      have hnone : reportOf after h = none := by
        cases hafter : reportOf after h with
        | none => rfl
        | some r =>
            rw [hafter] at ha
            exact absurd rfl ha
      exact ⟨h, mem_hostnames.mpr (.inl hb), .inr ⟨hb, hnone⟩⟩

end hosts

/-- The exit code is the drift code exactly when some compared host has a degraded entry. -/
def ExitsOnComparedDrift (escapes : Char → Bool) (before after : List AgentReport) : Prop :=
  compareExit escapes true before after = .ok 1 ↔
    ∃ diffs, compareMulti escapes before after = .ok diffs ∧
      ∃ d ∈ diffs, d.status = .compared ∧ ∃ c ∈ d.diff.changes, c.severity = .degraded

theorem compareExit_eq_one_iff {escapes : Char → Bool} {before after : List AgentReport} :
    compareExit escapes true before after = .ok 1 ↔
      ∃ diffs, compareMulti escapes before after = .ok diffs ∧ ∃ d ∈ diffs, AnyDegraded d := by
  unfold compareExit AnyDegraded
  cases compareMulti escapes before after with
  | error e => simp
  | ok diffs =>
      have hany : (diffs.any fun d => d.diff.changes.any fun c => c.severity == .degraded) = true ↔
          ∃ d ∈ diffs, ∃ c ∈ d.diff.changes, c.severity = .degraded := by
        simp only [List.any_eq_true, beq_iff_eq]
      simp only [Except.ok.injEq, exists_eq_left', ← hany, Bool.true_and]
      cases diffs.any fun d => d.diff.changes.any fun c => c.severity == .degraded <;> decide

/-- **When only compared hosts cause the drift code**: exactly when the comparison of some host
panics, some host of both sides got worse, or no host of the baseline is missing. -/
theorem drift_exit_iff (escapes : Char → Bool) (before after : List AgentReport) :
    ExitsOnComparedDrift escapes before after ↔
      FleetPanics before after ∨ FleetWorse escapes before after ∨ NoneRemoved before after := by
  unfold ExitsOnComparedDrift
  rw [compareExit_eq_one_iff]
  cases hmulti : compareMulti escapes before after with
  | error e =>
      have hpanics := compareMulti_error_iff.mp ⟨e, hmulti⟩
      simp [hpanics]
  | ok diffs =>
      have hsafe : ¬ FleetPanics before after := by
        intro hpanics
        obtain ⟨e, he⟩ := (@compareMulti_error_iff escapes _ _).mpr hpanics
        rw [hmulti] at he
        cases he
      have hcompared := compareMulti_compared_iff hmulti
      have hany := compareMulti_degraded_iff hmulti
      unfold ComparedDegraded at hcompared
      simp only [Except.ok.injEq, exists_eq_left', hcompared, hany, hsafe, false_or]
      tauto

/-- A decommissioned host alone makes the gate fail. -/
theorem removed_host_fails_gate :
    let web : AgentReport := { host := { hostname := "web" } }
    compareExit (fun _ => false) true [web] [] = .ok 1 ∧
      ¬ ExitsOnComparedDrift (fun _ => false) [web] [] := by
  intro web
  refine ⟨by decide, ?_⟩
  have hno : ¬ FleetWorse (fun _ => false) [web] [] := by
    rintro ⟨h, rb, ra, _, ha, _⟩
    cases ha
  have hsafe : ¬ FleetPanics [web] [] := by
    rintro ⟨h, rb, ra, _, ha, _⟩
    cases ha
  have hremoved : ¬ NoneRemoved [web] [] := fun hall => nomatch hall "web" (by decide)
  unfold ExitsOnComparedDrift
  intro hiff
  obtain ⟨diffs, hmulti, hd⟩ := hiff.mp (by decide)
  exact hno ((compareMulti_compared_iff hmulti).mp hd)

/-! ### What is returned -/

/-- The last report of a host name. -/
def IsLastOf (reports : List AgentReport) (hostname : String) (r : AgentReport) : Prop :=
  ∃ earlier later, reports = earlier ++ r :: later ∧ r.host.hostname = hostname ∧
    ∀ x ∈ later, x.host.hostname ≠ hostname

/-- A list of reports has the host name. -/
def HasHost (reports : List AgentReport) (hostname : String) : Prop :=
  ∃ r ∈ reports, r.host.hostname = hostname

/-- One entry of a fleet comparison: the status that the two sides give the host, and for a compared
host the comparison of the last report of each side. -/
structure HostEntry (escapes : Char → Bool) (before after : List AgentReport)
    (d : MultiHostDiff) : Prop where
  compared : d.status = .compared ↔ HasHost before d.hostname ∧ HasHost after d.hostname
  added : d.status = .added ↔ ¬ HasHost before d.hostname ∧ HasHost after d.hostname
  removed : d.status = .removed ↔ HasHost before d.hostname ∧ ¬ HasHost after d.hostname
  diff : d.status = .compared → ∃ b a, IsLastOf before d.hostname b ∧
    IsLastOf after d.hostname a ∧ compareReports escapes b a = .ok d.diff

/-- The entries of a fleet comparison: every host name of the two sides once, in order. -/
structure FleetDiff (escapes : Char → Bool) (before after : List AgentReport)
    (ds : List MultiHostDiff) : Prop where
  increasing : (ds.map MultiHostDiff.hostname).Pairwise (· < ·)
  hosts : ∀ h, h ∈ ds.map MultiHostDiff.hostname ↔ HasHost before h ∨ HasHost after h
  entries : ∀ d ∈ ds, HostEntry escapes before after d

section returned
variable {escapes : Char → Bool} {before after reports : List AgentReport} {h : String}

theorem reportOf_eq_some_iff {r : AgentReport} :
    reportOf reports h = some r ↔ IsLastOf reports h r := by
  unfold reportOf byHostname IsLastOf
  have hlast := entry_map (fun r : AgentReport => r.host.hostname) (fun r => r) h reports
  rw [hlast, Option.map_id', List.find?_eq_some_iff_append]
  constructor
  · rintro ⟨hname, later, earlier, hsplit, hlater⟩
    refine ⟨earlier.reverse, later.reverse, ?_, by simpa using hname, ?_⟩
    · rw [← List.reverse_reverse reports, hsplit]
      simp
    · intro x hx
      simpa using hlater x (List.mem_reverse.mp hx)
  · rintro ⟨earlier, later, rfl, hname, hlater⟩
    refine ⟨by simpa using hname, later.reverse, earlier.reverse, by simp, ?_⟩
    intro x hx
    simpa using hlater x (List.mem_reverse.mp hx)

theorem hasHost_iff : HasHost reports h ↔ ∃ r, reportOf reports h = some r := by
  rw [← Option.ne_none_iff_exists', ne_eq, reportOf_eq_none_iff, not_not, List.mem_map]
  rfl

theorem not_hasHost_iff : ¬ HasHost reports h ↔ reportOf reports h = none := by
  rw [hasHost_iff, ← Option.ne_none_iff_exists', not_not]

/-- A host of some side gets one entry, its own. -/
theorem hostDiff_entry {ds : List MultiHostDiff} (hsome : HasHost before h ∨ HasHost after h)
    (hds : hostDiff escapes h (reportOf before h) (reportOf after h) = .ok ds) :
    ∃ d, ds = [d] ∧ d.hostname = h ∧ HostEntry escapes before after d := by
  cases hb : reportOf before h with
  | some rb =>
      have hbefore : HasHost before h := hasHost_iff.mpr ⟨rb, hb⟩
      cases ha : reportOf after h with
      | some ra =>
          have hafter : HasHost after h := hasHost_iff.mpr ⟨ra, ha⟩
          rw [hb, ha] at hds
          obtain ⟨diff, hcompare, rfl⟩ := hostDiff_both hds
          refine ⟨_, rfl, rfl, ?_, ?_, ?_, fun _ => ⟨rb, ra, ?_, ?_, hcompare⟩⟩
          · simp [hbefore, hafter]
          · simp [hbefore]
          · simp [hafter]
          · exact reportOf_eq_some_iff.mp hb
          · exact reportOf_eq_some_iff.mp ha
      | none =>
          have hafter : ¬ HasHost after h := not_hasHost_iff.mpr ha
          rw [hb, ha] at hds
          obtain rfl := Except.ok.inj hds
          exact ⟨_, rfl, rfl, by simp [hafter], by simp [hafter], by simp [hbefore, hafter],
            fun hstatus => nomatch hstatus⟩
  | none =>
      have hbefore : ¬ HasHost before h := not_hasHost_iff.mpr hb
      obtain ⟨ra, ha⟩ := hasHost_iff.mp (hsome.resolve_left hbefore)
      have hafter : HasHost after h := hasHost_iff.mpr ⟨ra, ha⟩
      rw [hb, ha] at hds
      obtain rfl := Except.ok.inj hds
      exact ⟨_, rfl, rfl, by simp [hbefore], by simp [hbefore, hafter], by simp [hbefore],
        fun hstatus => nomatch hstatus⟩

/-- The loop gives one entry for every host name, in the order of the names. -/
theorem compareHosts_entries {hs : List String} (hsome : ∀ h ∈ hs, HasHost before h ∨ HasHost after h)
    {ds : List MultiHostDiff} (hds : compareHosts escapes before after hs = .ok ds) :
    ds.map MultiHostDiff.hostname = hs ∧ ∀ d ∈ ds, HostEntry escapes before after d := by
  induction hs generalizing ds with
  | nil =>
      obtain rfl := Except.ok.inj hds
      exact ⟨rfl, fun d hd => nomatch hd⟩
  | cons h hs ih =>
      rw [compareHosts] at hds
      cases hhead : hostDiff escapes h (reportOf before h) (reportOf after h) with
      | error e =>
          rw [hhead] at hds
          cases hds
      | ok first =>
          rw [hhead] at hds
          cases hrest : compareHosts escapes before after hs with
          | error e =>
              rw [hrest] at hds
              cases hds
          | ok rest =>
              rw [hrest] at hds
              obtain rfl := Except.ok.inj hds
              obtain ⟨d, rfl, hname, hentry⟩ := hostDiff_entry (hsome h List.mem_cons_self) hhead
              obtain ⟨hnames, hentries⟩ := ih (fun x hx => hsome x (List.mem_cons_of_mem _ hx)) hrest
              refine ⟨by rw [List.singleton_append, List.map_cons, hname, hnames], ?_⟩
              intro x hx
              cases hx with
              | head => exact hentry
              | tail _ hx => exact hentries x hx

theorem hostnames_pairwise : (hostnames before after).Pairwise (· < ·) :=
  (pairwise_sortedSet _).imp fun h => compare_lt_iff_lt.mp h

theorem mem_hostnames_iff : h ∈ hostnames before after ↔ HasHost before h ∨ HasHost after h := by
  rw [mem_hostnames, hasHost_iff, hasHost_iff, Option.isSome_iff_exists, Option.isSome_iff_exists]

theorem fleetDiff_of_ok {ds : List MultiHostDiff}
    (hds : compareMulti escapes before after = .ok ds) : FleetDiff escapes before after ds := by
  obtain ⟨hnames, hentries⟩ := compareHosts_entries (fun h hh => mem_hostnames_iff.mp hh) hds
  refine ⟨?_, ?_, hentries⟩
  · rw [hnames]
    exact hostnames_pairwise
  · intro h
    rw [hnames]
    exact mem_hostnames_iff

end returned

/-- **What a fleet comparison returns**: one entry for every host name, in order, with the right
status and the right pair of reports, exactly when the comparison of no host panics. -/
theorem fleet_diff_iff (escapes : Char → Bool) (before after : List AgentReport) :
    (∃ ds, compareMulti escapes before after = .ok ds ∧ FleetDiff escapes before after ds) ↔
      ¬ FleetPanics before after := by
  rw [← @compareMulti_error_iff escapes]
  constructor
  · rintro ⟨ds, hds, _⟩ ⟨e, he⟩
    rw [hds] at he
    cases he
  · intro hsafe
    cases hmulti : compareMulti escapes before after with
    | error e => exact absurd ⟨e, hmulti⟩ hsafe
    | ok ds => exact ⟨ds, rfl, fleetDiff_of_ok hmulti⟩

/-- A forged package count of one host leaves the fleet without a comparison. -/
theorem forged_count_loses_fleet :
    let web : AgentReport := { host := { hostname := "web" } }
    let forged : AgentReport := { web with packages := { installedCount := 18446744073709551615 } }
    ¬ ∃ ds, compareMulti (fun _ => false) [forged] [web] = .ok ds ∧
      FleetDiff (fun _ => false) [forged] [web] ds := by
  intro web forged
  rintro ⟨ds, hds, _⟩
  have herror : compareMulti (fun _ => false) [forged] [web] = .error .add := by decide
  rw [herror] at hds
  cases hds

end OwlzopsMapper
