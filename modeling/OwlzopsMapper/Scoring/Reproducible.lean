import OwlzopsMapper.Scoring.Evaluate
import OwlzopsMapper.Lib.Interchange

/-! # Reproducibility of an evaluation

Most rules push the same findings whatever machine evaluates the report (`Rule.Steady`); the
exceptions are the listener tiers, the rules on injected code and the generators
(`steady_or_varying`).  Two equal evaluations therefore agree on each of the exceptions
(`drafts_eq_of_evaluate_eq`).

Three of them, SEC-026, SEC-029 and SEC-027, count regions by process in a hash map and print
the entries in the order the map is walked.  **The evaluation does not depend on that order
exactly when in each of the three lists the entries of any two processes read the same in either
order** (`hash_order_irrelevant_iff`), for instance when a list is about one process. -/

namespace OwlzopsMapper

open Rust

/-! ### Rules that do not look at the machine -/

namespace Rule

/-- The rule pushes the same on every machine. -/
def Steady (rule : Rule) : Prop := ∀ m m' r, rule.drafts m r = rule.drafts m' r

/-- Everything the rule pushes has one of these identifiers. -/
def Pushes (rule : Rule) (ids : List String) : Prop := ∀ m r, ∀ d ∈ rule.drafts m r, d.id ∈ ids

/-- A rule that pushes one draft under a fixed identifier. -/
theorem pushes_of_pushIf {rule : Rule} {c : Machine → AgentReport → Bool}
    {d : Machine → AgentReport → Draft} (id : String)
    (h : ∀ m r, rule.drafts m r = pushIf (c m r) (d m r)) (hid : ∀ m r, (d m r).id = id) :
    rule.Pushes [id] := by
  intro m r e he
  rw [h] at he
  obtain ⟨_, rfl⟩ := mem_pushIf.mp he
  rw [hid]
  exact List.mem_singleton_self id

/-- The finding is under one of the identifiers. -/
def under (ids : List String) (f : Finding) : Bool := ids.contains f.id

theorem filter_emit_of_pushes {rule : Rule} {ids ids' : List String} (h : rule.Pushes ids)
    (hdisj : ids.Disjoint ids') (m : Machine) (r : AgentReport) :
    (rule.emit m r).filter (under ids') = [] := by
  rw [List.filter_eq_nil_iff]
  intro f hf hfid
  obtain ⟨d, hd, rfl⟩ := List.mem_map.mp hf
  exact hdisj (h m r d hd) (List.contains_iff_mem.mp hfid)

theorem filter_emit_self {rule : Rule} {ids : List String} (h : rule.Pushes ids) (m : Machine)
    (r : AgentReport) : (rule.emit m r).filter (under ids) = rule.emit m r := by
  rw [List.filter_eq_self]
  intro f hf
  obtain ⟨d, hd, rfl⟩ := List.mem_map.mp hf
  exact List.contains_iff_mem.mpr (h m r d hd)

end Rule

/-- The rules that look at the machine, with the identifiers they push. -/
def varyingRules : List (Rule × List String) :=
  [(sec013, ["SEC-013"]), (sec030, ["SEC-030"]), (sec031, ["SEC-031"]), (sec023, ["SEC-023"]),
    (sec028, ["SEC-028"]), (sec026, ["SEC-026"]), (sec029, ["SEC-029"]), (sec033, ["SEC-033"]),
    (sec052, ["SEC-052", "SEC-053", "SEC-054"]), (sec027, ["SEC-027"])]

theorem pushes_sec052 : sec052.Pushes ["SEC-052", "SEC-053", "SEC-054"] := by
  intro m r d hd
  simp only [sec052, List.mem_append, mem_pushIf] at hd
  rcases hd with (⟨_, rfl⟩ | ⟨_, rfl⟩) | ⟨_, rfl⟩ <;> simp

theorem pushes_of_mem_varyingRules {p : Rule × List String} (hp : p ∈ varyingRules) :
    p.1.Pushes p.2 := by
  simp only [varyingRules, List.mem_cons, List.not_mem_nil, or_false] at hp
  rcases hp with rfl | rfl | rfl | rfl | rfl | rfl | rfl | rfl | rfl | rfl
  case inr.inr.inr.inr.inr.inr.inr.inr.inl => exact pushes_sec052
  all_goals exact Rule.pushes_of_pushIf _ (fun _ _ => rfl) fun _ _ => rfl

/-- The rule pushes the same on every machine, or is one of `varyingRules`. -/
def Rule.Known (rule : Rule) : Prop := rule.Steady ∨ ∃ ids, (rule, ids) ∈ varyingRules

theorem Rule.Steady.known {rule : Rule} (h : rule.Steady) : rule.Known := Or.inl h

/-- The rule at some position of the list. -/
theorem varying_at {rule : Rule} {ids : List String} (i : ℕ)
    (h : varyingRules[i]? = some (rule, ids)) : (rule, ids) ∈ varyingRules :=
  List.mem_of_getElem? h

theorem Rule.known_at {rule : Rule} {ids : List String} (i : ℕ)
    (h : varyingRules[i]? = some (rule, ids)) : rule.Known := Or.inr ⟨ids, varying_at i h⟩

theorem accessRules_known : ∀ rule ∈ accessRules, rule.Known := by
  simp only [accessRules, List.forall_mem_cons]
  refine ⟨?_, ?_, ?_, ?_, ?_, ?_, ?_, ?_, ?_, ?_, ?_, ?_, ?_, ?_, fun _ h => absurd h List.not_mem_nil⟩
  all_goals exact Rule.Steady.known fun _ _ _ => rfl

theorem processRules_known : ∀ rule ∈ processRules ++ behaviourRules, rule.Known := by
  simp only [processRules, behaviourRules, List.cons_append, List.nil_append, List.forall_mem_cons]
  refine ⟨Rule.known_at 0 rfl, Rule.known_at 1 rfl, Rule.known_at 2 rfl, ?_, ?_, ?_, ?_, ?_, ?_, ?_,
    ?_, ?_, ?_, ?_, ?_, ?_, fun _ h => absurd h List.not_mem_nil⟩
  all_goals exact Rule.Steady.known fun _ _ _ => rfl

theorem memoryRules_known : ∀ rule ∈ sec027 :: memoryRules, rule.Known := by
  simp only [memoryRules, List.forall_mem_cons]
  exact ⟨Rule.known_at 9 rfl, Rule.known_at 3 rfl, Rule.known_at 4 rfl, Rule.known_at 5 rfl,
    Rule.known_at 6 rfl, Rule.known_at 7 rfl, fun _ h => absurd h List.not_mem_nil⟩

theorem kernelRules_known : ∀ rule ∈ kernelRules, rule.Known := by
  simp only [kernelRules, List.forall_mem_cons]
  refine ⟨?_, ?_, ?_, ?_, ?_, ?_, ?_, ?_, fun _ h => absurd h List.not_mem_nil⟩
  all_goals exact Rule.Steady.known fun _ _ _ => rfl

theorem persistenceRules_known : ∀ rule ∈ persistenceRules, rule.Known := by
  simp only [persistenceRules, List.forall_mem_cons]
  refine ⟨?_, ?_, Rule.known_at 8 rfl, ?_, ?_, ?_, fun _ h => absurd h List.not_mem_nil⟩
  all_goals exact Rule.Steady.known fun _ _ _ => rfl

theorem containerRules_known :
    ∀ rule ∈ containerRules ++ accountRules ++ stateRules, rule.Known := by
  simp only [containerRules, accountRules, stateRules, List.cons_append, List.nil_append,
    List.forall_mem_cons]
  refine ⟨?_, ?_, ?_, ?_, ?_, ?_, ?_, ?_, ?_, ?_, ?_, ?_, ?_, ?_, ?_, ?_, ?_, ?_, ?_, ?_, ?_, ?_,
    ?_, ?_, ?_, fun _ h => absurd h List.not_mem_nil⟩
  all_goals exact Rule.Steady.known fun _ _ _ => rfl

/-- A rule of the table looks at the machine only if it is one of `varyingRules`. -/
theorem steady_or_varying : ∀ rule ∈ ruleTable, rule.Known := by
  intro rule h
  simp only [ruleTable, List.mem_append, List.mem_singleton] at h
  rcases h with ((((((((h | h) | h) | h) | h) | h) | h) | h) | h) | h
  · exact accessRules_known rule h
  · exact processRules_known rule (List.mem_append_left _ h)
  · exact memoryRules_known rule (List.mem_cons_of_mem _ h)
  · exact kernelRules_known rule h
  · exact persistenceRules_known rule h
  · exact memoryRules_known rule (h ▸ List.mem_cons_self)
  · exact processRules_known rule (List.mem_append_right _ h)
  · exact containerRules_known rule (List.mem_append_left _ (List.mem_append_left _ h))
  · exact containerRules_known rule (List.mem_append_left _ (List.mem_append_right _ h))
  · exact containerRules_known rule (List.mem_append_right _ h)

/-! ### Equal evaluations -/

theorem toFinding_injective (source : Scanner) : Function.Injective (Draft.toFinding source) := by
  intro d e h
  cases d
  cases e
  simp only [Draft.toFinding, Finding.mk.injEq] at h
  obtain ⟨rfl, _, rfl, rfl, rfl, rfl, rfl, rfl⟩ := h
  rfl

/-- Evaluations agree when the rules of the scanners that did not fail push the same. -/
theorem evaluate_congr {m m' : Machine} {r : AgentReport}
    (h : ∀ rule ∈ ruleTable, r.failed rule.source = false → rule.drafts m r = rule.drafts m' r) :
    evaluate m r = evaluate m' r := by
  rw [evaluate_eq, evaluate_eq]
  congr 1
  refine List.flatMap_congr fun rule hrule => ?_
  obtain ⟨hmem, hlive⟩ := List.mem_filter.mp hrule
  unfold Rule.emit
  rw [h rule hmem (by simpa using hlive)]

/-- The identifiers of two varying rules are apart. -/
theorem varyingRules_pairwise :
    varyingRules.Pairwise fun p q => p.2.Disjoint q.2 := by
  simp [varyingRules]

theorem disjoint_or_eq {p q : Rule × List String} (hp : p ∈ varyingRules) (hq : q ∈ varyingRules) :
    p.2.Disjoint q.2 ∨ p = q := by
  have : Std.Symm fun p q : Rule × List String => p.2.Disjoint q.2 := ⟨fun _ _ h => h.symm⟩
  by_cases h : p = q
  · exact Or.inr h
  · exact Or.inl (varyingRules_pairwise.forall hp hq h)

/-- In equal evaluations every varying rule pushes the same. -/
theorem drafts_eq_of_evaluate_eq {m m' : Machine} {r : AgentReport} {rule : Rule}
    {ids : List String} (hrule : (rule, ids) ∈ varyingRules) (hmem : rule ∈ ruleTable)
    (hlive : r.failed rule.source = false) (h : evaluate m r = evaluate m' r) :
    rule.drafts m r = rule.drafts m' r := by
  rw [evaluate_eq, evaluate_eq] at h
  have hfilter := congrArg (List.filter (Rule.under ids)) (List.append_cancel_right h)
  rw [List.filter_flatMap, List.filter_flatMap] at hfilter
  have hblock := Lib.eq_of_flatMap_eq (t := rule) (liveRules r) ?_
    (List.mem_filter.mpr ⟨hmem, by simpa using hlive⟩) hfilter
  · rw [Rule.filter_emit_self (pushes_of_mem_varyingRules hrule),
      Rule.filter_emit_self (pushes_of_mem_varyingRules hrule)] at hblock
    exact List.map_injective_iff.mpr (toFinding_injective rule.source) hblock
  · intro other hother
    rcases steady_or_varying other (List.mem_of_mem_filter hother) with hsteady | ⟨ids', hvar⟩
    · left
      unfold Rule.emit
      rw [hsteady m m' r]
    · rcases disjoint_or_eq hvar hrule with hdisj | heq
      · left
        rw [Rule.filter_emit_of_pushes (pushes_of_mem_varyingRules hvar) hdisj,
          Rule.filter_emit_of_pushes (pushes_of_mem_varyingRules hvar) hdisj]
      · exact Or.inr (congrArg Prod.fst heq)

/-! ### The order of the hash maps -/

/-- The machine with another iteration order of its hash maps. -/
def Machine.reorder (m : Machine) (o : Lib.VisitOrder String) : Machine := { m with hashOrder := o }

/-- The processes of a list of regions. -/
def processKeys (fs : List LibraryInjectionFinding) : List String := (fs.map (·.processKey)).dedup

/-- The regions of one process. -/
def regionsOf (fs : List LibraryInjectionFinding) (k : String) : List LibraryInjectionFinding :=
  fs.filter fun f => f.processKey == k

/-- The entry of a process in the evidence of SEC-026. -/
def anomalyEntry (p : String × List LibraryInjectionFinding) : String :=
  p.1 ++ " (first @ " ++ (p.2.findSome? (·.regionAddr)).getD "?" ++ "): " ++
    toString p.2.length ++ " anomalous region(s)"

/-- The entry of a process in the evidence of SEC-029. -/
def provisionalEntry (p : String × List LibraryInjectionFinding) : String :=
  p.1 ++ ": " ++ toString p.2.length ++ " region(s)"

/-- The entry of a process in the evidence of SEC-027. -/
def advisoryEntry (p : String × List LibraryInjectionFinding) : String :=
  p.1 ++ ": " ++ toString p.2.length ++ " JIT regions"

/-- The entries of any two processes read the same in either order. -/
def EntriesCommute (entry : String × List LibraryInjectionFinding → String)
    (fs : List LibraryInjectionFinding) : Prop :=
  (processKeys fs).Pairwise fun k l =>
    Lib.Interchangeable "; " (entry (k, regionsOf fs k)) (entry (l, regionsOf fs l))

instance (entry : String × List LibraryInjectionFinding → String)
    (fs : List LibraryInjectionFinding) : Decidable (EntriesCommute entry fs) :=
  inferInstanceAs (Decidable (List.Pairwise _ _))

/-- The entries of one process commute. -/
theorem entriesCommute_of_subsingleton (entry : String × List LibraryInjectionFinding → String)
    {fs : List LibraryInjectionFinding} (h : (processKeys fs).length ≤ 1) :
    EntriesCommute entry fs := by
  unfold EntriesCommute
  match hk : processKeys fs, h with
  | [], _ => exact List.Pairwise.nil
  | [k], _ => exact List.pairwise_singleton _ k

theorem map_byProcess_reorder (m : Machine) (o : Lib.VisitOrder String)
    (fs : List LibraryInjectionFinding)
    (entry : String × List LibraryInjectionFinding → String) :
    (byProcess (m.reorder o) fs).map entry =
      (o.visit (processKeys fs)).map fun k => entry (k, regionsOf fs k) := by
  change (o.walk ((processKeys fs).map fun k => (k, regionsOf fs k))).map entry = _
  rw [Lib.VisitOrder.walk_map, List.map_map]
  rfl

/-- A rule that prints the entries of a hash map depends on their order exactly when some two
entries do not commute. -/
theorem pushIf_entries_iff {d : String → Draft} (hd : Function.Injective d) (before : String)
    (m : Machine) (fs : List LibraryInjectionFinding)
    (entry : String × List LibraryInjectionFinding → String) :
    (∀ o o', pushIf (!fs.isEmpty) (d (before ++ join "; " ((byProcess (m.reorder o) fs).map entry))) =
      pushIf (!fs.isEmpty) (d (before ++ join "; " ((byProcess (m.reorder o') fs).map entry)))) ↔
      EntriesCommute entry fs := by
  by_cases hfs : fs = []
  · subst hfs
    exact ⟨fun _ => List.Pairwise.nil, fun _ _ _ => rfl⟩
  · have hne : (!fs.isEmpty) = true := by simpa using hfs
    unfold EntriesCommute
    rw [hne, ← Lib.join_order_irrelevant_iff]
    simp only [pushIf, if_true, List.cons.injEq, and_true, map_byProcess_reorder, hd.eq_iff,
      String.append_right_inj, join]
    constructor
    · intro h keys' hperm
      have heq := h (.ofPerm hperm) .insertion
      rw [Lib.VisitOrder.visit_ofPerm] at heq
      exact heq
    · intro h o o'
      exact (h _ (o.perm _)).trans (h _ (o'.perm _)).symm

theorem sec026_order_iff (m : Machine) (r : AgentReport) :
    (∀ o o', sec026.drafts (m.reorder o) r = sec026.drafts (m.reorder o') r) ↔
      EntriesCommute anomalyEntry (bucket m r .anomaly) := by
  let d (evidence : String) : Draft :=
    { id := "SEC-026"
      title := "Suspicious executable memory mapping (anon/rwx/stack/heap)"
      weight := if (bucket m r .anomaly).any fun l => contains l.source "exec" ||
          contains l.source "rwx" then 20 else 10
      evidence := evidence }
  have hd : Function.Injective d := fun _ _ h => congrArg Draft.evidence h
  exact pushIf_entries_iff hd (toString (bucket m r .anomaly).length ++
    " process(es) with anomalous memory mappings: ") m (bucket m r .anomaly) anomalyEntry

theorem sec029_order_iff (m : Machine) (r : AgentReport) :
    (∀ o o', sec029.drafts (m.reorder o) r = sec029.drafts (m.reorder o') r) ↔
      EntriesCommute provisionalEntry (bucket m r .trustedUnverified) := by
  let d (evidence : String) : Draft :=
    { id := "SEC-029", title := "Provisional memory regions (trampolines, unverified, etc.)"
      weight := 0
      evidence := evidence
      suppressed := some ("These regions match known benign patterns (trampoline pages, " ++
        "unverified JIT). Trust is PROVISIONAL; a new region between snapshots is surfaced " ++
        "as drift.") }
  have hd : Function.Injective d := fun _ _ h => congrArg Draft.evidence h
  exact pushIf_entries_iff hd (toString (bucket m r .trustedUnverified).length ++
    " region(s) in allowlisted or low-risk patterns (e.g. single-page r-x trampolines): ") m
    (bucket m r .trustedUnverified) provisionalEntry

theorem sec027_order_iff (m : Machine) (r : AgentReport) :
    (∀ o o', sec027.drafts (m.reorder o) r = sec027.drafts (m.reorder o') r) ↔
      EntriesCommute advisoryEntry (bucket m r .advisory) := by
  let d (evidence : String) : Draft :=
    { id := "SEC-027", title := "Writable JIT code cache — hardening opportunity"
      weight := 0
      evidence := evidence
      suppressed := some ("JIT topology verified; structural pattern matches expected " ++
        "runtime behavior.") }
  have hd : Function.Injective d := fun _ _ h => congrArg Draft.evidence h
  exact pushIf_entries_iff hd (toString (bucket m r .advisory).length ++
    " process(es) using writable JIT arenas: ") m (bucket m r .advisory) advisoryEntry

/-- The rules that print a hash map are the only ones its order changes. -/
theorem drafts_reorder {rule : Rule} (hrule : rule ∈ ruleTable) (h026 : rule ≠ sec026)
    (h029 : rule ≠ sec029) (h027 : rule ≠ sec027) (m : Machine) (o o' : Lib.VisitOrder String)
    (r : AgentReport) : rule.drafts (m.reorder o) r = rule.drafts (m.reorder o') r := by
  rcases steady_or_varying rule hrule with hsteady | ⟨ids, hvar⟩
  · exact hsteady _ _ r
  · simp only [varyingRules, List.mem_cons, Prod.mk.injEq, List.not_mem_nil, or_false] at hvar
    rcases hvar with ⟨rfl, _⟩ | ⟨rfl, _⟩ | ⟨rfl, _⟩ | ⟨rfl, _⟩ | ⟨rfl, _⟩ | ⟨rfl, _⟩ | ⟨rfl, _⟩ |
      ⟨rfl, _⟩ | ⟨rfl, _⟩ | ⟨rfl, _⟩
    all_goals first | rfl | contradiction

/-- The order of the hash maps shows in no list of processes of the report. -/
def OrderFree (m : Machine) (r : AgentReport) : Prop :=
  EntriesCommute anomalyEntry (bucket m r .anomaly) ∧
    EntriesCommute provisionalEntry (bucket m r .trustedUnverified) ∧
    EntriesCommute advisoryEntry (bucket m r .advisory)

theorem mem_ruleTable_memory {rule : Rule} (h : rule ∈ memoryRules) : rule ∈ ruleTable := by
  simp only [ruleTable, List.mem_append]
  tauto

theorem sec027_mem_ruleTable : sec027 ∈ ruleTable := by
  simp [ruleTable]

/-- What a reproducible evaluation says about the process lists. -/
theorem orderFree_of_reproducible {m : Machine} {r : AgentReport}
    (h : ∀ o o', evaluate (m.reorder o) r = evaluate (m.reorder o') r)
    (hlive : r.failed .security = false) : OrderFree m r := by
  refine ⟨(sec026_order_iff m r).mp fun o o' => ?_, (sec029_order_iff m r).mp fun o o' => ?_,
    (sec027_order_iff m r).mp fun o o' => ?_⟩
  · exact drafts_eq_of_evaluate_eq (varying_at 5 rfl)
      (mem_ruleTable_memory (by simp [memoryRules])) hlive (h o o')
  · exact drafts_eq_of_evaluate_eq (varying_at 6 rfl)
      (mem_ruleTable_memory (by simp [memoryRules])) hlive (h o o')
  · exact drafts_eq_of_evaluate_eq (varying_at 9 rfl) sec027_mem_ruleTable hlive (h o o')

/-- With commuting entries no rule depends on the order. -/
theorem drafts_of_orderFree {m : Machine} {r : AgentReport}
    (hfree : r.failed .security = true ∨ OrderFree m r) {rule : Rule} (hrule : rule ∈ ruleTable)
    (hlive : r.failed rule.source = false) (o o' : Lib.VisitOrder String) :
    rule.drafts (m.reorder o) r = rule.drafts (m.reorder o') r := by
  have hsec : rule.source = .security → OrderFree m r := by
    intro hs
    rcases hfree with hfail | hfree
    · rw [hs, hfail] at hlive
      cases hlive
    · exact hfree
  by_cases h026 : rule = sec026
  · subst h026
    exact (sec026_order_iff m r).mpr (hsec rfl).1 o o'
  · by_cases h029 : rule = sec029
    · subst h029
      exact (sec029_order_iff m r).mpr (hsec rfl).2.1 o o'
    · by_cases h027 : rule = sec027
      · subst h027
        exact (sec027_order_iff m r).mpr (hsec rfl).2.2 o o'
      · exact drafts_reorder hrule h026 h029 h027 m o o' r

/-- **An evaluation is reproducible exactly when its process lists are**: for every report, two
iteration orders of the hash maps never change the findings if and only if the security scanner
failed (and its findings are withheld) or the entries of any two processes of SEC-026, SEC-029
and SEC-027 read the same in either order. -/
theorem hash_order_irrelevant_iff (m : Machine) (r : AgentReport) :
    (∀ o o' : Lib.VisitOrder String, evaluate (m.reorder o) r = evaluate (m.reorder o') r) ↔
      r.failed .security = true ∨ OrderFree m r := by
  constructor
  · intro h
    by_cases hfail : r.failed .security = true
    · exact Or.inl hfail
    · exact Or.inr (orderFree_of_reproducible h (Bool.not_eq_true _ ▸ hfail))
  · intro hfree o o'
    exact evaluate_congr fun rule hrule hlive => drafts_of_orderFree hfree hrule hlive o o'

/-- The reverse of the insertion order. -/
def reversedOrder : Lib.VisitOrder String := ⟨List.reverse, List.reverse_perm⟩

/-- Two processes with one anomalous region each. -/
def twoAnomalies : AgentReport :=
  { security :=
    { libraryInjections :=
      [{ process := "nginx", pid := 10, source := "maps-anon-rx" },
        { process := "sshd", pid := 20, source := "maps-anon-rx" }] } }

/-- Two runs over one report print the processes in different orders. -/
theorem hash_order_changes_evidence :
    evaluate (Machine.blind.reorder .insertion) twoAnomalies ≠
      evaluate (Machine.blind.reorder reversedOrder) twoAnomalies := by
  intro h
  have hdrafts : sec026.drafts _ twoAnomalies = sec026.drafts _ twoAnomalies :=
    drafts_eq_of_evaluate_eq (varying_at 5 rfl) (mem_ruleTable_memory (by simp [memoryRules]))
      (by decide) h
  exact absurd (congrArg (List.map Draft.evidence) hdrafts) (by decide)

end OwlzopsMapper
