import OwlzopsMapper.Scoring.Finding
import Mathlib.Order.Basic

/-! # Accepted risks

The policy overlay of `acceptance.rs`: `load` reads a JSON list of rules and refuses the file at
the first rule that is malformed or names a compromise identifier, and `apply` marks the live
findings a rule matches as suppressed, until the rule expires.

The third-party parts are parameters (`AcceptLib`): the JSON parser, the parser of expiry dates
and the Unicode table behind `{:?}`.  Points in time are integers.

A finding `apply` has touched was live, was matched by a rule, and differs in its marker only
(`Marked`, `apply_marked`); since `load` refuses compromise identifiers, an accepted policy leaves
every finding that could call a host compromised as it was, and the score can only fall
(`apply_of_load`). -/

namespace OwlzopsMapper

open Rust

structure AcceptRule where
  findingId : String := ""
  host : String := "*"
  justification : String := ""
  expires : String := ""
  ticket : Option String := none

structure Acceptances where
  rules : List AcceptRule := []

/-- The third-party functions behind the loader. -/
structure AcceptLib where
  /-- `serde_json::from_str` at the type of rule lists. -/
  fromStr : String → Except String (List AcceptRule)
  /-- `parse_expiry`, on RFC 3339 and `YYYY-MM-DD`. -/
  parseExpiry : String → Option ℤ
  /-- The characters `char::escape_debug` escapes. -/
  escapes : Char → Bool

def acceptedMarker : String := "ACCEPTED:"

/-- Refused besides the compromise identifiers. -/
def extraNeverAcceptable : List String := ["SEC-041", "COV-001"]

def isNeverAcceptable (id : String) : Bool :=
  compromiseIds.contains id || extraNeverAcceptable.contains id

def capAcceptFile : ℕ := 1024 * 1024
def minJustification : ℕ := 10

/-! ### Globs -/

/-- The inner function of `glob_match`, on bytes: a star takes any number of bytes, a question
mark exactly one. -/
def globGo : List UInt8 → List UInt8 → Bool
  | [], s => s.isEmpty
  | c :: p, s =>
      if c = '*'.toUInt8 then s.tails.any fun rest => globGo p rest
      else match s with
        | [] => false
        | d :: s => (c == '?'.toUInt8 || c == d) && globGo p s

def globMatch (pattern s : String) : Bool := globGo pattern.toUTF8.data.toList s.toUTF8.data.toList

/-- The source's two ways to go on after a star: the rest of the pattern here, or the star again
one byte later. -/
theorem globGo_star (p s : List UInt8) : globGo ('*'.toUInt8 :: p) s =
    (globGo p s || match s with | [] => false | _ :: t => globGo ('*'.toUInt8 :: p) t) := by
  cases s with
  | nil => simp [globGo]
  | cons d t => simp [globGo]

/-! ### Loading -/

/-- What is wrong with a rule, if anything. -/
def ruleError (lib : AcceptLib) (r : AcceptRule) : Option String :=
  if r.findingId = "" then some "finding_id is required"
  else if isNeverAcceptable r.findingId then
    some (r.findingId ++ " is a compromise indicator and cannot be accepted")
  else if (trim r.justification).utf8ByteSize < minJustification then
    some ("justification must be at least " ++ toString minJustification ++ " characters")
  else if (lib.parseExpiry r.expires).isNone then
    some ("expires " ++ debugStr lib.escapes r.expires ++ " is not YYYY-MM-DD or RFC 3339")
  else none

/-- The first rule with an error, as `load` reports it. -/
def firstError (lib : AcceptLib) (path : String) (rules : List AcceptRule) : Option String :=
  rules.zipIdx.findSome? fun r => (ruleError lib r.1).map fun msg =>
    path ++ " rule #" ++ toString (r.2 + 1) ++ ": " ++ msg

/-- `Acceptances::load`, from what reading the capped file gave: its text and whether it was cut
off. -/
def load (lib : AcceptLib) (path : String) (file : Except String (String × Bool)) :
    Except String Acceptances :=
  match file with
  | .error e => .error ("cannot read " ++ path ++ ": " ++ e)
  | .ok (text, truncated) =>
      if truncated then
        .error (path ++ " exceeds " ++ toString capAcceptFile ++ " bytes — refused")
      else match lib.fromStr text with
        | .error e => .error (path ++ ": invalid JSON: " ++ e)
        | .ok rules =>
            match firstError lib path rules with
            | some msg => .error msg
            | none => .ok { rules := rules }

theorem ruleError_of_load {lib : AcceptLib} {path : String}
    {file : Except String (String × Bool)} {acc : Acceptances} (h : load lib path file = .ok acc) :
    ∀ r ∈ acc.rules, ruleError lib r = none := by
  unfold load at h
  split at h
  · cases h
  · split at h
    · cases h
    · split at h
      · cases h
      · rename_i rules _
        split at h
        · cases h
        · rename_i herr
          obtain rfl := Except.ok.inj h
          intro r hr
          obtain ⟨i, hi, rfl⟩ := List.mem_iff_getElem.mp hr
          have hmem : (rules[i], i) ∈ rules.zipIdx := by
            rw [List.mk_mem_zipIdx_iff_getElem?, List.getElem?_eq_getElem hi]
          have hnone := List.findSome?_eq_none_iff.mp herr _ hmem
          simpa using hnone

/-- **A loaded policy names no compromise identifier.** -/
theorem not_compromise_of_load {lib : AcceptLib} {path : String}
    {file : Except String (String × Bool)} {acc : Acceptances} (h : load lib path file = .ok acc)
    {r : AcceptRule} (hr : r ∈ acc.rules) : r.findingId ∉ compromiseIds := by
  have hok := ruleError_of_load h r hr
  unfold ruleError at hok
  split at hok
  · cases hok
  · split at hok
    · cases hok
    · rename_i hnever
      intro hid
      apply hnever
      simp [isNeverAcceptable, hid]

/-! ### Applying -/

/-- The rule that decides about a finding: the first one with its identifier and a matching
host. -/
def Acceptances.ruleFor (acc : Acceptances) (hostname id : String) : Option AcceptRule :=
  acc.rules.find? fun r => r.findingId == id && globMatch r.host hostname

/-- The marker a rule leaves. -/
def AcceptRule.marker (r : AcceptRule) : String :=
  acceptedMarker ++ " " ++ trim r.justification ++ " (until " ++ r.expires ++
    (match r.ticket with | some t => ", " ++ t | none => "") ++ ")"

/-- One turn of the loop in `apply`: the finding and the note it leaves. -/
def applyOne (lib : AcceptLib) (acc : Acceptances) (hostname : String) (now : ℤ) (f : Finding) :
    Finding × Option String :=
  if f.suppressed.isSome then (f, none)
  else match acc.ruleFor hostname f.id with
    | none => (f, none)
    | some rule =>
        if (lib.parseExpiry rule.expires).getD now < now then
          (f, some ("acceptance for " ++ f.id ++ " on " ++ hostname ++ " expired on " ++
            rule.expires ++ " — finding is live again"))
        else ({ f with suppressed := some rule.marker }, none)

/-- `Acceptances::apply`: the findings afterwards, and the notes on expired rules. -/
def apply (lib : AcceptLib) (acc : Acceptances) (hostname : String) (now : ℤ)
    (findings : List Finding) : List Finding × List String :=
  ((findings.map fun f => (applyOne lib acc hostname now f).1),
    findings.filterMap fun f => (applyOne lib acc hostname now f).2)

/-- `g` is `f`, or `f` was live, a rule matches it, and `g` differs in the rule's marker. -/
def Marked (acc : Acceptances) (hostname : String) (f g : Finding) : Prop :=
  g = f ∨ f.suppressed = none ∧ ∃ rule ∈ acc.rules, rule.findingId = f.id ∧
    globMatch rule.host hostname = true ∧ g = { f with suppressed := some rule.marker }

section apply
variable {lib : AcceptLib} {acc : Acceptances} {hostname : String} {now : ℤ}

theorem applyOne_marked (f : Finding) : Marked acc hostname f (applyOne lib acc hostname now f).1 := by
  unfold applyOne
  split
  · exact .inl rfl
  · rename_i hlive
    split
    · exact .inl rfl
    · rename_i rule hrule
      split
      · exact .inl rfl
      · have hmem := List.mem_of_find?_eq_some hrule
        have hmatch := List.find?_some hrule
        rw [Bool.and_eq_true, beq_iff_eq] at hmatch
        refine .inr ⟨by simpa using hlive, rule, hmem, hmatch.1, hmatch.2, rfl⟩

theorem apply_marked (findings : List Finding) :
    List.Forall₂ (Marked acc hostname) findings (apply lib acc hostname now findings).1 := by
  unfold apply
  rw [List.forall₂_map_right_iff, List.forall₂_same]
  exact fun f _ => applyOne_marked f

theorem Marked.of_suppressed {f g : Finding} (h : Marked acc hostname f g)
    (hs : f.suppressed ≠ none) : g = f := by
  rcases h with h | ⟨hnone, _⟩
  · exact h
  · exact absurd hnone hs

/-- Marking a finding keeps its identity and category, and can only take its weight out. -/
theorem Marked.weight_le {f g : Finding} (h : Marked acc hostname f g) (c : Category) :
    (if g.isLive && g.category == c then g.weight.toNat else 0) ≤
      if f.isLive && f.category == c then f.weight.toNat else 0 := by
  rcases h with rfl | ⟨_, rule, _, _, _, rfl⟩
  · exact le_rfl
  · simp [Finding.isLive]

theorem liveWeight_le_of_marked {l l' : List Finding}
    (h : List.Forall₂ (Marked acc hostname) l l') (c : Category) :
    liveWeight c l' ≤ liveWeight c l := by
  induction h with
  | nil => exact le_rfl
  | cons hf _ ih =>
      rw [liveWeight_cons, liveWeight_cons]
      exact Nat.add_le_add (hf.weight_le c) ih

/-- Marking lowers the score or leaves it. -/
theorem score_le_of_marked {l l' : List Finding} (h : List.Forall₂ (Marked acc hostname) l l') :
    (score l').total ≤ (score l).total := by
  rw [UInt8.le_iff_toNat_le, score_total_toNat, score_total_toNat]
  have hs := liveWeight_le_of_marked h .security
  have hr := liveWeight_le_of_marked h .reliability
  have hh := liveWeight_le_of_marked h .hygiene
  exact Nat.add_le_add (Nat.add_le_add (min_le_min_left 60 hs) (min_le_min_left 30 hr))
    (min_le_min_left 10 hh)

/-- A live compromise finding is untouched by a policy without compromise identifiers. -/
theorem exists_live_iff_of_marked (hacc : ∀ r ∈ acc.rules, r.findingId ∉ compromiseIds)
    {l l' : List Finding} (h : List.Forall₂ (Marked acc hostname) l l') :
    (∃ g ∈ l', g.suppressed = none ∧ g.id ∈ compromiseIds) ↔
      ∃ f ∈ l, f.suppressed = none ∧ f.id ∈ compromiseIds := by
  induction h with
  | nil => simp
  | @cons f g l l' hfg _ ih =>
      have hhead : (g.suppressed = none ∧ g.id ∈ compromiseIds) ↔
          (f.suppressed = none ∧ f.id ∈ compromiseIds) := by
        rcases hfg with rfl | ⟨_, rule, hmem, hid, _, rfl⟩
        · exact Iff.rfl
        · have hordinary : f.id ∉ compromiseIds := hid ▸ hacc rule hmem
          simp [hordinary]
      simp only [List.exists_mem_cons_iff, hhead, ih]

end apply

/-- **What an accepted policy can do**: for every policy the loader accepts, whatever the host and
the time, the verdict is `Compromised` afterwards exactly when it was before, the score does not
rise, and every finding is as it was, except that live findings a rule matches carry the rule's
marker. -/
theorem apply_of_load (lib : AcceptLib) (path : String) (file : Except String (String × Bool))
    (acc : Acceptances) (hload : load lib path file = .ok acc) (hostname : String) (now : ℤ)
    (findings : List Finding) :
    (securityVerdictFromFindings (apply lib acc hostname now findings).1 = .compromised ↔
      securityVerdictFromFindings findings = .compromised) ∧
    (score (apply lib acc hostname now findings).1).total ≤ (score findings).total ∧
    List.Forall₂ (fun f g => Marked acc hostname f g ∧ (f.suppressed ≠ none → g = f)) findings
      (apply lib acc hostname now findings).1 := by
  have hmarked : List.Forall₂ (Marked acc hostname) findings
      (apply lib acc hostname now findings).1 := apply_marked findings
  refine ⟨?_, score_le_of_marked hmarked, ?_⟩
  · rw [verdict_compromised_iff, verdict_compromised_iff]
    exact exists_live_iff_of_marked (fun r hr => not_compromise_of_load hload hr) hmarked
  · exact hmarked.imp fun f g h => ⟨h, h.of_suppressed⟩

/-- A policy file with one rule. -/
def firewallPolicyText : String :=
  "[\x7b\"finding_id\":\"SEC-001\",\"justification\":\"cloud SG is the firewall\"," ++
    "\"expires\":\"2099-01-01\"\x7d]"

def firewallPolicy : Acceptances :=
  { rules := [{ findingId := "SEC-001", justification := "cloud SG is the firewall"
                expires := "2099-01-01" }] }

/-- The third-party functions on the text and the date of `firewallPolicyText`. -/
def firewallPolicyLib : AcceptLib where
  fromStr text := if text = firewallPolicyText then .ok firewallPolicy.rules else .error "EOF"
  parseExpiry s := if s = "2099-01-01" then some 4070995199 else none
  escapes _ := false

/-- A live firewall finding. -/
def firewallFinding : Finding :=
  { id := "SEC-001", source := .network, title := "Firewall inactive", weight := 30
    evidence := "No active firewall (ufw/firewalld/nftables/iptables)" }

theorem apply_of_load_firewall :
    let findings := [firewallFinding]
    let after := (apply firewallPolicyLib firewallPolicy "web-01" 1700000000 findings).1
    after ≠ findings ∧
    (securityVerdictFromFindings after = .compromised ↔
      securityVerdictFromFindings findings = .compromised) ∧
    (score after).total ≤ (score findings).total :=
  have h := apply_of_load firewallPolicyLib "accept.json" (.ok (firewallPolicyText, false))
    firewallPolicy rfl "web-01" 1700000000 [firewallFinding]
  ⟨by decide, h.1, h.2.1⟩

/-! ### Expired rules -/

/-- The rule is about this finding on this host. -/
def AcceptRule.covers (r : AcceptRule) (hostname id : String) : Bool :=
  r.findingId == id && globMatch r.host hostname

/-- The rule has run out. -/
def AcceptRule.expired (lib : AcceptLib) (now : ℤ) (r : AcceptRule) : Bool :=
  decide ((lib.parseExpiry r.expires).getD now < now)

section expired
variable (lib : AcceptLib) (acc : Acceptances) (hostname : String) (now : ℤ)

/-- A live finding is suppressed exactly by an unexpired deciding rule. -/
theorem applyOne_suppressed_iff {f : Finding} (hlive : f.suppressed = none) :
    (applyOne lib acc hostname now f).1.suppressed ≠ none ↔
      ∃ rule, acc.ruleFor hostname f.id = some rule ∧ rule.expired lib now = false := by
  unfold applyOne
  rw [hlive]
  cases hrule : acc.ruleFor hostname f.id with
  | none => simp [hlive]
  | some rule =>
      by_cases hexp : (lib.parseExpiry rule.expires).getD now < now
      · simp [AcceptRule.expired, hexp, hlive]
      · have hvalid : rule.expired lib now = false := decide_eq_false hexp
        simp [hexp, hvalid]

/-- The deciding rule is one that covers the finding. -/
theorem covers_of_ruleFor {id : String} {rule : AcceptRule}
    (h : acc.ruleFor hostname id = some rule) : rule ∈ acc.rules ∧ rule.covers hostname id = true := by
  have hfind : acc.rules.find? (fun r => r.covers hostname id) = some rule := h
  have hcovers := List.find?_some hfind
  exact ⟨List.mem_of_find?_eq_some hfind, hcovers⟩

/-- Some rule decides as soon as some rule covers the finding. -/
theorem exists_ruleFor {id : String} {rule : AcceptRule} (hmem : rule ∈ acc.rules)
    (hcovers : rule.covers hostname id = true) : ∃ first, acc.ruleFor hostname id = some first := by
  cases h : acc.ruleFor hostname id with
  | some first => exact ⟨first, rfl⟩
  | none => exact absurd hcovers (List.find?_eq_none.mp h rule hmem)

/-- No live finding meets a rule that ran out before one that has not. -/
def ExpiredNeverFirst (findings : List Finding) : Prop :=
  ∀ f ∈ findings, f.suppressed = none → ∀ first, acc.ruleFor hostname f.id = some first →
    first.expired lib now = true →
      ∀ rule ∈ acc.rules, rule.covers hostname f.id = true → rule.expired lib now = true

/-- One finding of the list. -/
theorem suppressed_by_valid_iff {f : Finding} (hlive : f.suppressed = none) :
    ((applyOne lib acc hostname now f).1.suppressed ≠ none ↔
      ∃ rule ∈ acc.rules, rule.covers hostname f.id = true ∧ rule.expired lib now = false) ↔
    ∀ first, acc.ruleFor hostname f.id = some first → first.expired lib now = true →
      ∀ rule ∈ acc.rules, rule.covers hostname f.id = true → rule.expired lib now = true := by
  rw [applyOne_suppressed_iff lib acc hostname now hlive]
  constructor
  · intro h first hfirst hexp rule hmem hcovers
    by_contra hvalid
    obtain ⟨first', hfirst', hvalid'⟩ :=
      h.mpr ⟨rule, hmem, hcovers, Bool.eq_false_iff.mpr hvalid⟩
    obtain rfl : first = first' := Option.some.inj (hfirst.symm.trans hfirst')
    rw [hexp] at hvalid'
    cases hvalid'
  · intro h
    constructor
    · rintro ⟨first, hfirst, hvalid⟩
      obtain ⟨hmem, hcovers⟩ := covers_of_ruleFor acc hostname hfirst
      exact ⟨first, hmem, hcovers, hvalid⟩
    · rintro ⟨rule, hmem, hcovers, hvalid⟩
      obtain ⟨first, hfirst⟩ := exists_ruleFor acc hostname hmem hcovers
      refine ⟨first, hfirst, ?_⟩
      by_contra hexp
      have hruled := h first hfirst (Bool.not_eq_false _ ▸ hexp) rule hmem hcovers
      rw [hvalid] at hruled
      cases hruled

/-- **When expired rules are ignored**: a live finding is suppressed exactly when some rule covers
it and has not run out, for every finding of the list, exactly when no rule that ran out stands
before a valid one. -/
theorem apply_ignores_expired_iff (findings : List Finding) :
    List.Forall₂ (fun f g => f.suppressed = none → (g.suppressed ≠ none ↔
        ∃ rule ∈ acc.rules, rule.covers hostname f.id = true ∧ rule.expired lib now = false))
      findings (apply lib acc hostname now findings).1 ↔
    ExpiredNeverFirst lib acc hostname now findings := by
  unfold apply ExpiredNeverFirst
  rw [List.forall₂_map_right_iff, List.forall₂_same]
  constructor
  · intro h f hf hlive
    exact (suppressed_by_valid_iff lib acc hostname now hlive).mp (h f hf hlive)
  · intro h f hf hlive
    exact (suppressed_by_valid_iff lib acc hostname now hlive).mpr (h f hf hlive)

end expired

/-- A policy renewed by appending: the old rule ran out, the new one has not. -/
def renewedPolicy : Acceptances :=
  { rules := [{ findingId := "SEC-001", justification := "old decision", expires := "2000-01-01" },
      { findingId := "SEC-001", justification := "cloud SG is the firewall"
        expires := "2099-01-01" }] }

/-- The dates of `renewedPolicy`. -/
def renewedPolicyLib : AcceptLib where
  fromStr _ := .ok renewedPolicy.rules
  parseExpiry s := if s = "2099-01-01" then some 4070995199
    else if s = "2000-01-01" then some 946771199 else none
  escapes _ := false

/-- The rule that ran out blocks its renewal. -/
theorem renewal_blocked :
    (load renewedPolicyLib "accept.json" (.ok ("", false))).isOk = true ∧
    (∃ rule ∈ renewedPolicy.rules, rule.covers "web-1" firewallFinding.id = true ∧
      rule.expired renewedPolicyLib 1700000000 = false) ∧
    (apply renewedPolicyLib renewedPolicy "web-1" 1700000000 [firewallFinding]).1 =
      [firewallFinding] := by
  refine ⟨by decide, ⟨_, .tail _ (.head _), by decide, by decide⟩, by decide⟩

end OwlzopsMapper
