import OwlzopsMapper.Models
import OwlzopsMapper.Lib.Sorting
import OwlzopsMapper.Rust.Lines
import Mathlib.Data.List.Chain

/-! # Hardening of systemd units

`systemd_hardening.rs`: the units that `systemctl list-units` names are shown in batches, the output
of a batch is cut into records at its blank lines, and every record is evaluated by itself.

A *block* is what `systemctl show` prints for one unit, one line for every property; the output of a
call is its blocks with a blank line between any two (`showOutput`).  Cutting that output gives back
the blocks, whatever their number and order, also where a block is empty (`records_showOutput`).
So the batched scan evaluates each answered unit once and on its own properties
(**`batched_scan_agrees`**). -/

namespace Rust

/-! ### Splitting at blank lines -/

/-- `str::split("\n\n")` on the list of characters. -/
def splitBlank : List Char → List (List Char)
  | [] => [[]]
  | '\n' :: '\n' :: cs => [] :: splitBlank cs
  | c :: cs => (splitBlank cs).modifyHead (c :: ·)

/-- No line feed follows another. -/
def Tight (cs : List Char) : Prop := cs.IsChain fun a b => a = '\n' → b ≠ '\n'

theorem splitBlank_cons {c : Char} {cs : List Char} (h : c = '\n' → cs.head? ≠ some '\n') :
    splitBlank (c :: cs) = (splitBlank cs).modifyHead (c :: ·) := by
  rw [splitBlank]
  rintro cs' rfl rfl
  exact h rfl rfl

theorem splitBlank_tight {cs : List Char} (h : Tight cs) : splitBlank cs = [cs] := by
  induction cs with
  | nil => rfl
  | cons c cs ih =>
      rw [splitBlank_cons, ih h.tail]
      · rfl
      · intro hc hhead
        exact h.rel_head? hhead hc rfl

theorem splitBlank_append {cs : List Char} (h : Tight (cs ++ ['\n'])) (rest : List Char) :
    splitBlank (cs ++ '\n' :: '\n' :: rest) = cs :: splitBlank rest := by
  induction cs with
  | nil => rfl
  | cons c cs ih =>
      rw [List.cons_append, splitBlank_cons, ih h.tail]
      · rfl
      · intro hc hhead
        cases cs with
        | nil => exact h.rel_head? rfl hc rfl
        | cons d cs => exact h.rel_head? (y := d) rfl hc (Option.some.inj hhead)

theorem tight_line {l cs : List Char} (hl : '\n' ∉ l) (h : Tight ('\n' :: cs)) :
    Tight (l ++ '\n' :: cs) := by
  induction l with
  | nil => exact h
  | cons c l ih =>
      obtain ⟨hc, hl⟩ := List.ne_and_not_mem_of_not_mem_cons hl
      exact List.isChain_cons.mpr ⟨fun _ _ h => absurd h.symm hc, ih hl⟩

theorem tight_terminated {ls : List (List Char)} (h : ∀ l ∈ ls, PlainLine l) :
    Tight ('\n' :: terminated ls) := by
  induction ls with
  | nil => exact List.isChain_singleton _
  | cons l ls ih =>
      obtain ⟨hl, hls⟩ := List.forall_mem_cons.mp h
      have hcons : terminated (l :: ls) = l ++ '\n' :: terminated ls := by simp [terminated]
      rw [hcons]
      have htight := tight_line hl.oneLine (ih hls)
      refine List.isChain_cons.mpr ⟨fun d hd _ hn => ?_, htight⟩
      obtain ⟨c, rest, hc⟩ := List.exists_cons_of_ne_nil hl.nonempty
      have hoff := hl.oneLine
      rw [hc] at hd hoff
      obtain rfl : c = d := Option.some.inj hd
      exact hoff (hn ▸ List.mem_cons_self)

end Rust

namespace OwlzopsMapper
namespace SystemdHardening

open Rust Lib

/-! ### One unit -/

/-- A finding with the fields that the comparison of two reports does not read. -/
structure UnitFinding extends HardeningFinding where
  rawWeight : UInt8
  user : String
  fragmentPath : String

/-- The directives and what the absence of each weighs. -/
def directives : List (String × ℕ) :=
  [("NoNewPrivileges", 10), ("ProtectSystem", 8), ("ProtectKernelTunables", 8),
    ("ProtectKernelModules", 8), ("ProtectHome", 5), ("PrivateTmp", 5), ("PrivateDevices", 5),
    ("ProtectControlGroups", 5), ("RestrictAddressFamilies", 5)]

/-- The directives that say nothing about a unit of root. -/
def rootIrrelevant : List String := ["NoNewPrivileges", "ProtectHome"]

def vendorUnitDirs : List String := ["/usr/lib/systemd/system/", "/lib/systemd/system/"]

def isVendorUnit (fragmentPath : String) : Bool :=
  vendorUnitDirs.any fun d => startsWith fragmentPath d

def isSystemdInternal (unit fragmentPath : String) : Bool :=
  startsWith unit "systemd-" && isVendorUnit fragmentPath

def isRuntimeArtifact (unit fragmentPath : String) : Bool :=
  startsWith fragmentPath "/run/systemd/transient/" ||
    (startsWith unit "user@" && isVendorUnit fragmentPath &&
      endsWith fragmentPath "/user@.service")

/-- The effective value of a directive is not a hardened one. -/
def isUnhardened (directive value : String) : Bool :=
  if ["NoNewPrivileges", "PrivateTmp", "PrivateDevices", "ProtectKernelTunables",
      "ProtectKernelModules", "ProtectControlGroups"].contains directive then value != "yes"
  else if directive == "ProtectSystem" then !(["yes", "full", "strict"].contains value)
  else if directive == "ProtectHome" then !(["yes", "read-only", "tmpfs"].contains value)
  else if directive == "RestrictAddressFamilies" then trim value == ""
  else false

/-- The pairs of a record in the order of their lines; `entry` gives what the map built from them
holds. -/
abbrev Props := List (String × String)

def parseShow (stdout : String) : Props :=
  ((lines stdout).filterMap (splitOnce '=')).map fun kv => (trim kv.1, kv.2)

/-- The directives that a unit lacks. -/
def missingOf (props : Props) (isRoot : Bool) : List (String × ℕ) :=
  directives.filter fun d =>
    !(isRoot && rootIrrelevant.contains d.1) &&
      match entry props d.1 with
      | none => true
      | some value => isUnhardened d.1 value

/-- The unit is gone or does not run. -/
def isInactive (props : Props) : Bool :=
  entry props "LoadState" == some "not-found" ||
    entry props "ActiveState" == some "inactive" || entry props "ActiveState" == some "failed"

def evaluateUnit (props : Props) : Option UnitFinding :=
  match entry props "Id" with
  | none => none
  | some unit =>
      let fragmentPath := (entry props "FragmentPath").getD ""
      -- `DynamicUser=` runs under a transient uid also where `User=` is empty
      let dynamic := entry props "DynamicUser" == some "yes"
      let user := (entry props "User").getD ""
      let isRoot := !dynamic && (user == "" || user == "root" || user == "0")
      let missing := missingOf props isRoot
      if isInactive props || isSystemdInternal unit fragmentPath ||
          isRuntimeArtifact unit fragmentPath || missing.isEmpty then none
      else some {
        unit := unit
        missing := missing.map Prod.fst
        rawWeight := UInt8.ofNat (min (missing.map Prod.snd).sum 255)
        user := if isRoot then "root" else if dynamic && user == "" then "dynamic" else user
        fragmentPath := fragmentPath }

/-! ### Records -/

def hasId (props : Props) : Bool := (entry props "Id").isSome

/-- The records of a batch are the pieces between blank lines that have an `Id`. -/
def parseShowRecords (stdout : String) : List Props :=
  ((splitBlank stdout.toList).map fun piece => parseShow (String.ofList piece)).filter hasId

/-- What `systemctl show` prints for one unit: lines of one property each. A value with a line
break is printed as `[unprintable]`. -/
structure Block where
  lines : List String
  plain : ∀ l ∈ lines, PlainLine l.toList

namespace Block

def chars (b : Block) : List Char := terminated (b.lines.map String.toList)

def text (b : Block) : String := String.ofList b.chars

theorem plain_chars (b : Block) : ∀ l ∈ b.lines.map String.toList, PlainLine l := by
  intro l hl
  obtain ⟨line, hline, rfl⟩ := List.mem_map.mp hl
  exact b.plain line hline

theorem map_ofList (b : Block) : (b.lines.map String.toList).map String.ofList = b.lines := by
  simp [List.map_map, Function.comp_def]

theorem lines_text (b : Block) : Rust.lines b.text = b.lines := by
  rw [text, chars, lines_terminated b.plain_chars, map_ofList]

theorem lines_dropLast (b : Block) : Rust.lines (String.ofList b.chars.dropLast) = b.lines := by
  rw [chars, lines_dropLast_terminated b.plain_chars, map_ofList]

theorem tight (b : Block) : Tight ('\n' :: b.chars) := tight_terminated b.plain_chars

/-- A block without lines is empty; any other ends with a line feed. -/
theorem chars_cases (b : Block) : b.chars = [] ∨ b.chars = b.chars.dropLast ++ ['\n'] := by
  rw [chars]
  rcases List.eq_nil_or_concat (b.lines.map String.toList) with h | ⟨init, l, h⟩
  · exact .inl (by rw [h]; rfl)
  · right
    rw [h]
    simp [terminated, ← List.append_assoc]

end Block

/-- The output of one call: a blank line before every block but the first. -/
def showOutput : List Block → List Char
  | [] => []
  | [b] => b.chars
  | b :: rest => b.chars ++ '\n' :: showOutput rest

/-- The records of a text that is given as its characters. -/
def records (cs : List Char) : List Props := parseShowRecords (String.ofList cs)

theorem records_eq (cs : List Char) : records cs =
    ((splitBlank cs).map fun piece => parseShow (String.ofList piece)).filter hasId := by
  rw [records, parseShowRecords, String.toList_ofList]

theorem parseShow_congr {s s' : String} (h : Rust.lines s = Rust.lines s') :
    parseShow s = parseShow s' := by
  rw [parseShow, parseShow, h]

theorem parseShow_newline (cs : List Char) :
    parseShow (String.ofList ('\n' :: cs)) = parseShow (String.ofList cs) := by
  rw [parseShow, lines_newline, List.filterMap_cons_none (by decide)]
  rfl

theorem parseShow_dropLast (b : Block) :
    parseShow (String.ofList b.chars.dropLast) = parseShow b.text :=
  parseShow_congr (b.lines_dropLast.trans b.lines_text.symm)

/-- What a text of one piece holds. -/
theorem records_tight {cs : List Char} (h : Tight cs) :
    records cs = [parseShow (String.ofList cs)].filter hasId := by
  rw [records_eq, splitBlank_tight h, List.map_singleton]

/-- A piece that a blank line ends. -/
theorem records_append {cs : List Char} (h : Tight (cs ++ ['\n'])) (rest : List Char) :
    records (cs ++ '\n' :: '\n' :: rest) =
      [parseShow (String.ofList cs)].filter hasId ++ records rest := by
  rw [records_eq, splitBlank_append h, List.map_cons, ← List.singleton_append, List.filter_append,
    ← records_eq]

theorem no_record : [parseShow (String.ofList [])].filter hasId = [] := by decide

/-- A block that another one follows, also where an empty block stands before it. -/
theorem records_block (b : Block) (rest : List Char)
    (hrest : records ('\n' :: rest) = records rest) :
    records (b.chars ++ '\n' :: rest) = [parseShow b.text].filter hasId ++ records rest ∧
      records ('\n' :: (b.chars ++ '\n' :: rest)) =
        [parseShow b.text].filter hasId ++ records rest := by
  rcases b.chars_cases with hempty | hends
  · have htext : b.text = String.ofList [] := by rw [Block.text, hempty]
    rw [hempty, htext, no_record, List.nil_append, List.nil_append]
    refine ⟨hrest, ?_⟩
    have hblank := records_append (show Tight ([] ++ ['\n']) from List.isChain_singleton _) rest
    rwa [no_record, List.nil_append, List.nil_append] at hblank
  · have hsplit : b.chars ++ '\n' :: rest = b.chars.dropLast ++ '\n' :: '\n' :: rest := by
      conv_lhs => rw [hends]
      simp
    have htight : Tight ('\n' :: b.chars.dropLast ++ ['\n']) := by
      rw [List.cons_append, ← hends]
      exact b.tight
    rw [hsplit, records_append htight.tail, parseShow_dropLast, ← List.cons_append,
      records_append htight, parseShow_newline, parseShow_dropLast]
    exact ⟨rfl, rfl⟩

/-- The records of the blocks, each read alone. -/
def aloneRecords (blocks : List Block) : List Props :=
  (blocks.map fun b => parseShow b.text).filter hasId

theorem records_showOutput_both : ∀ blocks : List Block,
    records (showOutput blocks) = aloneRecords blocks ∧
      records ('\n' :: showOutput blocks) = aloneRecords blocks
  | [] => ⟨by decide, by decide⟩
  | [b] => by
      refine ⟨records_tight b.tight.tail, ?_⟩
      rw [showOutput, records_tight b.tight, parseShow_newline]
      rfl
  | b :: c :: rest => by
      obtain ⟨ih, ihBlank⟩ := records_showOutput_both (c :: rest)
      have hcons : aloneRecords (b :: c :: rest) =
          [parseShow b.text].filter hasId ++ aloneRecords (c :: rest) := by
        rw [aloneRecords, List.map_cons, ← List.singleton_append, List.filter_append]
        rfl
      rw [showOutput, hcons, ← ih]
      · exact records_block b _ (ihBlank.trans ih.symm)
      · exact List.cons_ne_nil _ _

/-- Cutting the output at its blank lines gives back the blocks. -/
theorem records_showOutput (blocks : List Block) :
    parseShowRecords (String.ofList (showOutput blocks)) = aloneRecords blocks :=
  (records_showOutput_both blocks).1

/-! ### The scan -/

def showBatchSize : ℕ := 256

/-- `slice::chunks` for a positive size. -/
def chunks {α : Type} (size : ℕ) : List α → List (List α)
  | [] => []
  | x :: xs => (x :: xs.take (size - 1)) :: chunks size (xs.drop (size - 1))
termination_by xs => xs.length
decreasing_by
  rw [List.length_drop, List.length_cons]
  omega

/-- The result of a child process. -/
structure Output where
  success : Bool
  status : String := ""
  stdout : String := ""
  stderr : String := ""

/-- What the scan asks the machine. -/
structure Machine where
  resolves : Bool
  listUnits : Option Output
  /-- The standard output of `systemctl show` for a batch, where the call succeeded in time. -/
  show_ : List String → Option String

inductive Note where
  | notResolvable
  | listFailed (status stderr : String)
  | listTimedOut
  | unanswered (count : ℕ)
deriving DecidableEq, Repr

/-- The services that `list-units` names. -/
def listedUnits (stdout : String) : List String :=
  ((lines stdout).filterMap fun l => (splitWhitespace l).head?).filter fun u => endsWith u ".service"

structure Progress where
  findings : List UnitFinding := []
  unanswered : ℕ := 0

/-- One call of `systemctl show`. -/
def showBatch (show_ : List String → Option String) (p : Progress) (batch : List String) :
    Progress :=
  match show_ batch with
  | none => { p with unanswered := p.unanswered + batch.length }
  | some stdout =>
      let records := parseShowRecords stdout
      let ids := records.filterMap fun r => entry r "Id"
      { findings := p.findings ++ records.filterMap evaluateUnit
        unanswered := p.unanswered + batch.countP fun u => !ids.contains u }

def showAll (show_ : List String → Option String) (size : ℕ) (units : List String) : Progress :=
  (chunks size units).foldl (showBatch show_) {}

/-- Heavier findings first, then by the name of the unit. -/
def compareFindings (a b : UnitFinding) : Ordering :=
  (compare b.rawWeight a.rawWeight).then (compare a.unit b.unit)

/-- The findings and the coverage notes of a scan. -/
def scanSystemdHardening (m : Machine) : List UnitFinding × List Note :=
  if !m.resolves then ([], [.notResolvable])
  else match m.listUnits with
    | none => ([], [.listTimedOut])
    | some o =>
        if !o.success then ([], [.listFailed o.status (trim o.stderr)])
        else
          let p := showAll m.show_ showBatchSize (listedUnits o.stdout)
          (sortBy compareFindings p.findings,
            if 0 < p.unanswered then [.unanswered p.unanswered] else [])

theorem findings_foldl (show_ : List String → Option String) (batches : List (List String))
    (p : Progress) : (batches.foldl (showBatch show_) p).findings = p.findings ++
      (batches.filterMap show_).flatMap fun out => (parseShowRecords out).filterMap evaluateUnit := by
  induction batches generalizing p with
  | nil => simp
  | cons batch batches ih =>
      rw [List.foldl_cons, ih]
      unfold showBatch
      cases h : show_ batch with
      | none => rw [List.filterMap_cons_none h]
      | some out => rw [List.filterMap_cons_some h, List.flatMap_cons, List.append_assoc]

/-! ### Systemctl -/

/-- A service manager: the block of each unit, none for a unit that it knows nothing about, and
which calls succeed. A call that does prints the blocks of its units in some order. -/
structure Systemctl where
  block : String → Option Block
  answer : List String → Option (List Block)
  answers : ∀ batch blocks, answer batch = some blocks → blocks.Perm (batch.filterMap block)

namespace Systemctl

def show_ (s : Systemctl) (batch : List String) : Option String :=
  (s.answer batch).map fun blocks => String.ofList (showOutput blocks)

/-- The units of the calls that succeed. -/
def answered (s : Systemctl) (size : ℕ) (units : List String) : List String :=
  ((chunks size units).filter fun batch => (s.answer batch).isSome).flatten

/-- The finding of a unit whose block is parsed and evaluated alone. -/
def alone (s : Systemctl) (unit : String) : Option UnitFinding :=
  (s.block unit).bind fun b => evaluateUnit (parseShow b.text)

end Systemctl

theorem evaluateUnit_of_not_hasId {props : Props} (h : hasId props = false) :
    evaluateUnit props = none := by
  unfold evaluateUnit
  rw [Option.isNone_iff_eq_none.mp (Option.isSome_eq_false_iff.mp h)]

/-- Records without an `Id` give no finding. -/
theorem filterMap_aloneRecords (blocks : List Block) :
    (aloneRecords blocks).filterMap evaluateUnit =
      blocks.filterMap fun b => evaluateUnit (parseShow b.text) := by
  unfold aloneRecords
  induction blocks with
  | nil => rfl
  | cons b blocks ih =>
      rw [List.map_cons]
      cases h : hasId (parseShow b.text) with
      | true =>
          rw [List.filter_cons_of_pos h, List.filterMap_cons, List.filterMap_cons, ih]
      | false =>
          have hnone := evaluateUnit_of_not_hasId h
          rw [List.filter_cons_of_neg (by simp [h]), ih, List.filterMap_cons, hnone]

/-- **The batched scan agrees with the scan of single units.** The output of a call parses into
the records of its blocks, each read alone, for any blocks in any order; and for every batch size the
findings are those of the units that were answered, each evaluated once on its own block. -/
theorem batched_scan_agrees (s : Systemctl) (size : ℕ) (units : List String) :
    (∀ blocks : List Block, parseShowRecords (String.ofList (showOutput blocks)) =
      (blocks.map fun b => parseShow b.text).filter hasId) ∧
    (showAll s.show_ size units).findings.Perm ((s.answered size units).filterMap s.alone) := by
  refine ⟨records_showOutput, ?_⟩
  rw [showAll, findings_foldl, List.nil_append, Systemctl.answered]
  generalize chunks size units = batches
  induction batches with
  | nil => exact .refl _
  | cons batch batches ih =>
      cases h : s.answer batch with
      | none =>
          have hshow : s.show_ batch = none := by rw [Systemctl.show_, h]; rfl
          rwa [List.filterMap_cons_none hshow, List.filter_cons_of_neg (by simp [h])]
      | some blocks =>
          have hshow : s.show_ batch = some (String.ofList (showOutput blocks)) := by
            rw [Systemctl.show_, h]; rfl
          rw [List.filterMap_cons_some hshow, List.flatMap_cons, records_showOutput,
            filterMap_aloneRecords, List.filter_cons_of_pos (by simp [h]), List.flatten_cons,
            List.filterMap_append]
          refine List.Perm.append ?_ ih
          have hbatch := ((s.answers batch blocks h).filterMap
            fun b => evaluateUnit (parseShow b.text))
          rwa [List.filterMap_filterMap] at hbatch

end SystemdHardening
end OwlzopsMapper
