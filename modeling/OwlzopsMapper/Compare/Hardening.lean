import OwlzopsMapper.Compare.Coverage

/-! # Hardening drift

What `compare_reports` says about the systemd units below the hardening baseline, read as sets: the
list of findings gives each unit the set of directives that it misses, the last finding of a unit
deciding.  **`hardening_drift`**: a comparison has one entry for every unit whose set differs,
appeared or vanished, and no other entry in this section. -/

namespace OwlzopsMapper

open Rust Lib

/-- The directives a unit misses, from the last finding about it. -/
def missingDirectives (findings : List HardeningFinding) (unit : String) : Option (List String) :=
  (findings.reverse.find? fun h => h.unit = unit).map HardeningFinding.missing

/-- A unit is listed on one side only, or misses different directives. -/
def MissingDiffers : Option (List String) → Option (List String) → Prop
  | some was, some now => ¬ ∀ d, d ∈ was ↔ d ∈ now
  | some _, none => True
  | none, some _ => True
  | none, none => False

/-- A text about a unit. -/
def AboutUnit (unit : String) (text : Option String) : Prop :=
  ∃ t, text = some t ∧ startsWith t (unit ++ " ") = true

/-- The entry of a unit, from the directives that it missed and misses: a new unit is worse, a
vanished one is `Changed`, a newly missing directive is worse and a pure loss is better. -/
def HardeningEntry (unit : String) (c : Change) : Option (List String) → Option (List String) → Prop
  | none, some _ => c.severity = .degraded ∧ c.before = none ∧ AboutUnit unit c.after
  | some _, none => c.severity = .changed ∧ AboutUnit unit c.before ∧ c.after = none
  | some was, some now => (c.severity = .degraded ↔ ∃ d ∈ now, d ∉ was) ∧
      (c.severity = .improved ↔ ∀ d ∈ now, d ∈ was) ∧
      AboutUnit unit c.before ∧ AboutUnit unit c.after
  | none, none => False

/-- The field of the section. -/
def hardeningField : String := "security.systemd_hardening"

/-- One entry for every unit that differs, and no other entry of the section. -/
def HardeningDrift (before after : List HardeningFinding) (changes : List Change) : Prop :=
  ∃ units entries, units.Nodup ∧
    (∀ u, u ∈ units ↔ MissingDiffers (missingDirectives before u) (missingDirectives after u)) ∧
    entries.Perm (changes.filter fun c => c.field = hardeningField) ∧
    List.Forall₂
      (fun u c => HardeningEntry u c (missingDirectives before u) (missingDirectives after u))
      units entries

/-- A report with these hardening findings. -/
def AgentReport.withHardening (r : AgentReport) (findings : List HardeningFinding) : AgentReport :=
  { r with security := { r.security with systemdHardening := findings } }

/-! ### The entries of one unit -/

/-- What the block reports for a unit. -/
def unitChanges (unit : String) : Option (List String) → Option (List String) → List Change
  | none, some a => [appeared hardeningField
      (unit ++ " below baseline — missing " ++ Compare.missingText a) .degraded]
  | some b, some a => changeIf (b ≠ a) (became hardeningField
      (unit ++ " — missing " ++ Compare.missingText b)
      (unit ++ " — missing " ++ Compare.missingText a)
      (worseIf (decide (∃ d ∈ a, d ∉ b))))
  | some b, none => [vanished hardeningField
      (unit ++ " was below baseline — missing " ++ Compare.missingText b) .changed]
  | none, none => []

theorem aboutUnit (unit rest set : String) :
    AboutUnit unit (some (unit ++ (" " ++ rest) ++ set)) := by
  refine ⟨_, rfl, (startsWith_iff _ _).mpr ⟨rest ++ set, ?_⟩⟩
  simp only [String.append_assoc]

theorem worseIf_degraded {p : Prop} [Decidable p] : worseIf (decide p) = .degraded ↔ p := by
  by_cases h : p <;> simp [worseIf, h]

theorem worseIf_improved {p : Prop} [Decidable p] : worseIf (decide p) = .improved ↔ ¬ p := by
  by_cases h : p <;> simp [worseIf, h]

theorem unitChanges_field {unit : String} {was now : Option (List String)} {c : Change}
    (h : c ∈ unitChanges unit was now) : c.field = hardeningField := by
  cases was with
  | none =>
      cases now with
      | none => cases h
      | some now => exact List.mem_singleton.mp h ▸ rfl
  | some was =>
      cases now with
      | none => exact List.mem_singleton.mp h ▸ rfl
      | some now => exact (mem_changeIf.mp h).2 ▸ rfl

theorem unitChanges_of_same {unit : String} {was now : Option (List String)}
    (h : ¬ MissingDiffers was now) :
    unitChanges unit (was.map sortedSet) (now.map sortedSet) = [] := by
  cases was with
  | none =>
      cases now with
      | none => rfl
      | some now => exact absurd trivial h
  | some was =>
      cases now with
      | none => exact absurd trivial h
      | some now =>
          have hsame : sortedSet was = sortedSet now := sortedSet_eq_iff.mpr (not_not.mp h)
          simp [unitChanges, hsame]

theorem unitChanges_of_differs {unit : String} {was now : Option (List String)}
    (h : MissingDiffers was now) :
    ∃ c, unitChanges unit (was.map sortedSet) (now.map sortedSet) = [c] ∧
      HardeningEntry unit c was now := by
  cases was with
  | none =>
      cases now with
      | none => cases h
      | some now => exact ⟨_, rfl, rfl, rfl, aboutUnit unit "below baseline — missing " _⟩
  | some was =>
      cases now with
      | none => exact ⟨_, rfl, rfl, aboutUnit unit "was below baseline — missing " _, rfl⟩
      | some now =>
          have hne : sortedSet was ≠ sortedSet now := fun hsame => h (sortedSet_eq_iff.mp hsame)
          refine ⟨_, if_pos hne, ?_, ?_, aboutUnit unit "— missing " _,
            aboutUnit unit "— missing " _⟩
          · show worseIf _ = _ ↔ _
            rw [worseIf_degraded]
            simp only [mem_sortedSet]
          · show worseIf _ = _ ↔ _
            rw [worseIf_improved]
            simp only [mem_sortedSet, not_exists, not_and, not_not]

/-! ### The entries of the section -/

section reports
variable {escapes : Char → Bool} {before after : AgentReport}

theorem entry_hardening (findings : List HardeningFinding) (unit : String) :
    entry (findings.map fun h => (h.unit, sortedSet h.missing)) unit =
      (missingDirectives findings unit).map sortedSet := by
  rw [entry_map HardeningFinding.unit (fun h => sortedSet h.missing), missingDirectives,
    Option.map_map]
  rfl

/-- The block walks the units of both sides. -/
theorem systemdHardening_changes : ∃ units : List String, units.Nodup ∧
    (∀ u, u ∈ units ↔ missingDirectives before.security.systemdHardening u ≠ none ∨
      missingDirectives after.security.systemdHardening u ≠ none) ∧
    Compare.systemdHardening.changes before after = units.flatMap fun u =>
      unitChanges u ((missingDirectives before.security.systemdHardening u).map sortedSet)
        ((missingDirectives after.security.systemdHardening u).map sortedSet) := by
  let index : AgentReport → List (String × List String) := fun r =>
    r.security.systemdHardening.map fun h => (h.unit, sortedSet h.missing)
  have hentry : ∀ r u, entry (index r) u =
      (missingDirectives r.security.systemdHardening u).map sortedSet :=
    fun r u => entry_hardening _ u
  refine ⟨bothKeys (index before) (index after), nodup_bothKeys _ _, ?_, ?_⟩
  · intro u
    rw [mem_bothKeys, hentry, hentry, ne_eq, Option.map_eq_none_iff, ne_eq,
      Option.map_eq_none_iff]
  · have hwalk := mapDiff_eq_flatMap unitChanges (index before) (index after)
    simp only [hentry] at hwalk
    exact hwalk

theorem startsWith_ofList (l p : List Char) :
    startsWith (String.ofList l) (String.ofList p) = p.isPrefixOf l := by
  rw [startsWith, String.toList_ofList, String.toList_ofList]

/-- The blocks before and after the one of this section. -/
def otherBlocks (escapes : Char → Bool) : List Block :=
  (blockTable escapes).take 51 ++ (blockTable escapes).drop 52

theorem otherStems_not_prefix : ((blockStems.take 51 ++ blockStems.drop 52).all fun stem =>
    !startsWith hardeningField stem) = true := by
  simp only [blockStems, hardeningField, List.take_succ_cons, List.take_zero, List.drop_succ_cons,
    List.drop_zero, List.cons_append, List.nil_append, List.all_cons, List.all_nil]
  repeat rw [startsWith_ofList]
  rfl

/-- No other block reports in this section. -/
theorem otherBlocks_silent {block : Block} (h : block ∈ otherBlocks escapes) :
    (block.changes before after).filter (fun c => c.field = hardeningField) = [] := by
  have hstem : block.stem ∈ blockStems.take 51 ++ blockStems.drop 52 := by
    rw [← map_stem_blockTable escapes, ← List.map_take, ← List.map_drop, ← List.map_append]
    exact List.mem_map_of_mem h
  have hnot := List.all_eq_true.mp otherStems_not_prefix _ hstem
  rw [List.filter_eq_nil_iff]
  intro c hc hfield
  have hstarts := block.named c hc
  rw [of_decide_eq_true hfield] at hstarts
  rw [hstarts] at hnot
  cases hnot

theorem blockTable_split (escapes : Char → Bool) : blockTable escapes =
    (blockTable escapes).take 51 ++ Compare.systemdHardening :: (blockTable escapes).drop 52 := rfl

theorem filter_collectChanges :
    (collectChanges escapes before after).filter (fun c => c.field = hardeningField) =
      Compare.systemdHardening.changes before after := by
  have hothers : ∀ blocks : List Block, (∀ block ∈ blocks, block ∈ otherBlocks escapes) →
      (blocks.flatMap fun block => block.changes before after).filter
        (fun c => c.field = hardeningField) = [] := by
    intro blocks hblocks
    rw [List.filter_flatMap, List.flatMap_eq_nil_iff]
    exact fun block hblock => otherBlocks_silent (hblocks block hblock)
  have hown : (Compare.systemdHardening.changes before after).filter
      (fun c => c.field = hardeningField) = Compare.systemdHardening.changes before after := by
    rw [List.filter_eq_self]
    intro c hc
    obtain ⟨units, _, _, hunits⟩ := @systemdHardening_changes before after
    rw [hunits] at hc
    obtain ⟨u, _, hu⟩ := List.mem_flatMap.mp hc
    exact decide_eq_true (unitChanges_field hu)
  rw [collectChanges, blockTable_split, List.flatMap_append, List.flatMap_cons, List.filter_append,
    List.filter_append, hothers _ fun block hblock => List.mem_append_left _ hblock,
    hothers _ fun block hblock => List.mem_append_right _ hblock, hown, List.nil_append,
    List.append_nil]

open Classical in
/-- One list of entries for a list of units, those that differ. -/
theorem forall₂_unitChanges (was now : String → Option (List String)) (units : List String) :
    List.Forall₂ (fun u c => HardeningEntry u c (was u) (now u))
      (units.filter fun u => MissingDiffers (was u) (now u))
      (units.flatMap fun u => unitChanges u ((was u).map sortedSet) ((now u).map sortedSet)) := by
  induction units with
  | nil => exact .nil
  | cons u units ih =>
      rw [List.flatMap_cons, List.filter_cons]
      by_cases h : MissingDiffers (was u) (now u)
      · obtain ⟨c, hc, hentry⟩ := @unitChanges_of_differs u _ _ h
        rw [hc, if_pos (decide_eq_true h)]
        exact .cons hentry ih
      · rw [unitChanges_of_same h, if_neg (by simpa using h)]
        exact ih

theorem hardeningDrift_of_ok {d : DiffReport} (hd : compareReports escapes before after = .ok d) :
    HardeningDrift before.security.systemdHardening after.security.systemdHardening d.changes := by
  classical
  obtain ⟨_, rfl⟩ := compareReports_ok_iff.mp hd
  obtain ⟨units, hnodup, hmem, hchanges⟩ := @systemdHardening_changes before after
  refine ⟨_, _, hnodup.filter _, ?_, ?_, forall₂_unitChanges _ _ units⟩
  · intro u
    rw [List.mem_filter, hmem, decide_eq_true_iff, and_iff_right_iff_imp]
    intro hdiffers
    cases hwas : missingDirectives before.security.systemdHardening u with
    | some was => exact .inl nofun
    | none =>
        cases hnow : missingDirectives after.security.systemdHardening u with
        | some now => exact .inr nofun
        | none =>
            rw [hwas, hnow] at hdiffers
            cases hdiffers
  · rw [← hchanges, ← @filter_collectChanges escapes]
    exact (sortBy_perm _ _).symm.filter _

end reports

/-- **Hardening drift**: whatever else two reports hold and whichever units each side lists, the
comparison has exactly one entry for every unit that differs.  It returns unless the other sections
make it overflow. -/
theorem hardening_drift (escapes : Char → Bool) (before after : AgentReport)
    (was now : List HardeningFinding) :
    (∃ d, compareReports escapes (before.withHardening was) (after.withHardening now) = .ok d ∧
      HardeningDrift was now d.changes) ↔ compareOverflows before after = false := by
  constructor
  · rintro ⟨d, hd, _⟩
    exact (compareReports_ok_iff.mp hd).1
  · intro hsafe
    have hd := compareReports_of_safe escapes
      (b := before.withHardening was) (a := after.withHardening now) hsafe
    exact ⟨_, hd, hardeningDrift_of_ok hd⟩

end OwlzopsMapper
