import OwlzopsMapper.Lib.Words
import OwlzopsMapper.Rust.Decimal
import OwlzopsMapper.Rust.Utf8
import OwlzopsMapper.Scanners.GhostPid

/-! # The age of a process

`proc_time.rs`, read by the scanners for hidden processes and for leaked secrets.  The start time is
field 22 of `/proc/<pid>/stat`, behind a command name that the process chooses itself.

A `StatLine` is what the kernel writes, with a name of any bytes.  **The name cannot shift the fields,
and the age is the exact difference** (`stat_age_exact`): all that follows the name is ASCII without a
parenthesis (`text_eq`), so the last parenthesis is the one that closes the name. -/

namespace OwlzopsMapper
namespace GhostPid

open Rust Lib

/-- `process_age_secs` of `dlp.rs`, on what it reads. -/
def processAgeSecs (stat : Option String) (clkTck : Option UInt64) (uptimeSecs : UInt64) :
    Option UInt64 := do
  let stat ← stat
  let clkTck ← clkTck
  ageFromParts (← starttimeTicks stat) clkTck uptimeSecs

theorem processAgeSecs_some (stat : String) (clkTck : Option UInt64) :
    processAgeSecs (some stat) clkTck = fun uptimeSecs => clkTck.bind fun hz =>
      (starttimeTicks stat).bind fun ticks => ageFromParts ticks hz uptimeSecs := rfl

/-! ### The line -/

/-- `/proc/<pid>/stat`: the third field is a letter, those behind it are numbers. -/
structure StatLine where
  pid : ℕ
  comm : List UInt8
  state : Char
  /-- The fields from the fourth on. -/
  fields : List ℤ
  state_letter : state.isAlpha = true

namespace StatLine
variable (l : StatLine)

/-- The words behind the name. -/
def words : List (List Char) := [l.state] :: l.fields.map fun n => (toString n).toList

/-- What follows the parenthesis. -/
def tail : String := String.ofList (written ' ' l.words ++ ['\n'])

def bytes : List UInt8 :=
  asciiBytes (toString l.pid ++ " (") ++ l.comm ++ asciiBytes (")" ++ l.tail)

/-- The line as the scanners read it. -/
def text : String := fromUtf8Lossy l.bytes

/-- A number that is a `u64`. -/
def toU64 (n : ℤ) : Option UInt64 :=
  if 0 ≤ n ∧ n < 2 ^ 64 then some (UInt64.ofNat n.toNat) else none

/-- Field 22, the start time in clock ticks. -/
def field22 : Option UInt64 := l.fields[18]?.bind toU64

/-! ### What stands behind the name -/

/-- The characters of a number. -/
def numberChar (c : Char) : Bool := c.isDigit || c == '-'

theorem toString_ofNat (k : ℕ) : toString (k : ℤ) = toString k := rfl

theorem toString_negSucc (k : ℕ) : toString (Int.negSucc k) = "-" ++ toString (k + 1) := rfl

theorem numberChar_of_mem {n : ℤ} {c : Char} (h : c ∈ (toString n).toList) :
    numberChar c = true := by
  unfold numberChar
  rw [Bool.or_eq_true, beq_iff_eq]
  cases n with
  | ofNat k => exact .inl (isDigit_of_mem_toString h)
  | negSucc k =>
      rw [toString_negSucc, String.toList_append, List.mem_append] at h
      rcases h with h | h
      · exact .inr (by simpa using h)
      · exact .inl (isDigit_of_mem_toString h)

theorem toString_int_ne_nil (n : ℤ) : (toString n).toList ≠ [] := by
  cases n with
  | ofNat k => exact toString_ne_nil k
  | negSucc k =>
      rw [toString_negSucc, String.toList_append]
      simp

theorem parseU64_toString (n : ℤ) : parseU64 (toString n) = toU64 n := by
  unfold parseU64 toU64
  cases n with
  | ofNat k =>
      rw [Int.ofNat_eq_natCast, toString_ofNat]
      rw [parseUnsigned_toString_eq]
      by_cases hk : k < 2 ^ 64
      · rw [if_pos hk, if_pos ⟨by omega, by omega⟩]
        rfl
      · rw [if_neg hk, if_neg (by omega)]
        rfl
  | negSucc k =>
      rw [toString_negSucc, if_neg (by omega)]
      have hlist : ("-" ++ toString (k + 1)).toList = '-' :: (toString (k + 1)).toList := by
        rw [String.toList_append]
        rfl
      unfold parseUnsigned
      rw [hlist]
      rfl

/-- The words behind the name are words. -/
theorem isWord_of_mem {w : List Char} (h : w ∈ l.words) : IsWord isAsciiWhitespace w := by
  have halpha := l.state_letter
  rcases List.mem_cons.mp h with rfl | h
  · refine ⟨List.cons_ne_nil _ _, fun c hc => ?_⟩
    rw [List.mem_singleton.mp hc]
    generalize l.state = s at halpha
    unfold isAsciiWhitespace
    by_contra hws
    simp only [Bool.not_eq_false, Bool.or_eq_true, beq_iff_eq] at hws
    rcases hws with (((rfl | rfl) | rfl) | rfl) | rfl <;> cases halpha
  · obtain ⟨n, _, rfl⟩ := List.mem_map.mp h
    refine ⟨toString_int_ne_nil n, fun c hc => ?_⟩
    have hnumber := numberChar_of_mem hc
    unfold isAsciiWhitespace
    by_contra hws
    simp only [Bool.not_eq_false, Bool.or_eq_true, beq_iff_eq] at hws
    rcases hws with (((rfl | rfl) | rfl) | rfl) | rfl <;> cases hnumber

theorem ascii_of_isAlpha {c : Char} (h : c.isAlpha = true) : c.toNat < 128 := by
  have hletter : decide (c.val ≥ 'A'.val ∧ c.val ≤ 'Z'.val) = true ∨
      (decide (c.val ≥ 'a'.val) && decide (c.val ≤ 'z'.val)) = true := Bool.or_eq_true_iff.mp h
  simp only [Bool.and_eq_true, decide_eq_true_iff, ge_iff_le, UInt32.le_iff_toNat_le] at hletter
  have hval : c.toNat = c.val.toNat := rfl
  have hz : 'z'.val.toNat = 122 := rfl
  have hupper : 'Z'.val.toNat = 90 := rfl
  omega

theorem ascii_of_numberChar {c : Char} (h : numberChar c = true) : c.toNat < 128 := by
  simp only [numberChar, Char.isDigit, Bool.or_eq_true, Bool.and_eq_true, decide_eq_true_iff,
    ge_iff_le, UInt32.le_iff_toNat_le, beq_iff_eq] at h
  have hval : c.toNat = c.val.toNat := rfl
  have hnine : '9'.val.toNat = 57 := rfl
  rcases h with ⟨_, h⟩ | rfl
  · omega
  · decide

/-- What follows the parenthesis is ASCII and has no parenthesis in it. -/
theorem tail_chars {c : Char} (h : c ∈ l.tail.toList) : c.toNat < 128 ∧ c ≠ ')' := by
  have halpha := l.state_letter
  unfold tail written words at h
  simp only [String.toList_ofList, List.mem_append, List.mem_flatMap, List.mem_cons,
    List.not_mem_nil, or_false] at h
  rcases h with ⟨w, rfl | hw, rfl | hc⟩ | rfl
  · exact ⟨by decide, by decide⟩
  · obtain rfl := List.mem_singleton.mp hc
    refine ⟨ascii_of_isAlpha halpha, fun h => ?_⟩
    rw [h] at halpha
    cases halpha
  · exact ⟨by decide, by decide⟩
  · obtain ⟨n, _, rfl⟩ := List.mem_map.mp hw
    have hnumber := numberChar_of_mem hc
    refine ⟨ascii_of_numberChar hnumber, ?_⟩
    rintro rfl
    cases hnumber
  · exact ⟨by decide, by decide⟩

theorem splitAsciiWhitespace_tail : splitAsciiWhitespace l.tail = l.words.map String.ofList := by
  have hwords : Lib.words isAsciiWhitespace (written ' ' l.words ++ ['\n']) = l.words :=
    words_written rfl (fun w hw => l.isWord_of_mem hw) (words_seps (List.forall_mem_singleton.mpr rfl))
      (by simp; decide)
  unfold tail splitAsciiWhitespace
  rw [String.toList_ofList]
  exact congrArg (List.map String.ofList) hwords

theorem afterLast_append {sep : Char} {b : String} (h : sep ∉ b.toList) (a : String) :
    afterLast sep (a ++ String.singleton sep ++ b) = some b := by
  have hcut := rsplitOnce_append h a
  unfold rsplitOnce at hcut
  obtain ⟨tail, htail, heq⟩ := Option.map_eq_some_iff.mp hcut
  rw [htail, (Prod.mk.inj heq).2]

theorem asciiBytes_append (a b : String) : asciiBytes (a ++ b) = asciiBytes a ++ asciiBytes b := by
  simp [asciiBytes]

/-- The line is what stands up to the end of the name, and the tail behind the parenthesis. -/
theorem text_eq : l.text =
    fromUtf8Lossy (asciiBytes (toString l.pid ++ " (") ++ l.comm) ++ String.singleton ')' ++
      l.tail := by
  have hclose : asciiBytes (")" ++ l.tail) = 0x29 :: asciiBytes l.tail := by
    rw [asciiBytes_append]
    rfl
  have hascii : ∀ c ∈ (")" ++ l.tail).toList, c.toNat < 128 := by
    intro c hc
    rw [String.toList_append, List.mem_append] at hc
    rcases hc with hc | hc
    · obtain rfl : c = ')' := by simpa using hc
      decide
    · exact (l.tail_chars hc).1
  unfold text bytes
  rw [hclose, lossy_append_ascii (by decide), ← hclose, lossy_asciiBytes hascii,
    ← String.append_assoc]
  rfl

/-- The last parenthesis is the one that closes the name, whatever bytes the name has. -/
theorem afterLast_text : afterLast ')' l.text = some l.tail := by
  rw [text_eq]
  exact afterLast_append (fun h => (l.tail_chars h).2 rfl) _

theorem starttimeTicks_text : starttimeTicks l.text = l.field22 := by
  unfold starttimeTicks field22
  rw [afterLast_text, Option.bind_eq_bind, Option.bind_some, splitAsciiWhitespace_tail]
  unfold words
  rw [List.map_cons, List.getElem?_cons_succ, List.map_map, List.getElem?_map]
  cases l.fields[18]? with
  | none => rfl
  | some n =>
      have hfield : String.ofList (toString n).toList = toString n := String.ofList_toList
      simp only [Option.map_some, Function.comp_apply, hfield, Option.bind_some]
      exact parseU64_toString n

end StatLine

/-! ### The age -/

theorem ageFromParts_eq_none_iff (ticks hz uptime : UInt64) : ageFromParts ticks hz uptime = none ↔
    hz = 0 ∨ uptime.toNat < ticks.toNat / hz.toNat := by
  unfold ageFromParts
  by_cases hzero : hz = 0
  · simp [hzero]
  · have hdiv : ticks / hz ≤ uptime ↔ ticks.toNat / hz.toNat ≤ uptime.toNat := by
      rw [UInt64.le_iff_toNat_le, UInt64.toNat_div]
    rw [if_neg hzero]
    dsimp only
    by_cases hle : ticks / hz ≤ uptime
    · rw [if_pos hle]
      rw [hdiv] at hle
      simp only [reduceCtorEq, hzero, false_or, false_iff]
      omega
    · rw [if_neg hle]
      rw [hdiv] at hle
      simp only [hzero, false_or, true_iff]
      omega

theorem toNat_ageFromParts {ticks hz uptime age : UInt64}
    (h : ageFromParts ticks hz uptime = some age) :
    age.toNat + ticks.toNat / hz.toNat = uptime.toNat := by
  unfold ageFromParts at h
  split at h
  · cases h
  · dsimp only at h
    split at h
    · rename_i hle
      rw [Option.some.injEq] at h
      rw [← h, UInt64.toNat_sub_of_le _ _ hle, UInt64.toNat_div]
      rw [UInt64.le_iff_toNat_le, UInt64.toNat_div] at hle
      omega
    · cases h

/-- **The age of a process is exact**, for every name and every list of fields: the start time is field
22, both readers compute the age from it, and the age is unknown only when the clock rate is zero or
the start lies behind the uptime. -/
theorem stat_age_exact (l : StatLine) : starttimeTicks l.text = l.field22 ∧
    (∀ h : GhostHost, (parseStatStateAge h l.text).2 =
      h.uptimeSecs.bind (processAgeSecs (some l.text) h.clockTicksPerSec)) ∧
    ∀ ticks, l.field22 = some ticks → ∀ hz uptime,
      (processAgeSecs (some l.text) (some hz) uptime = none ↔
        hz = 0 ∨ uptime.toNat < ticks.toNat / hz.toNat) ∧
      ∀ age, processAgeSecs (some l.text) (some hz) uptime = some age →
        age.toNat + ticks.toNat / hz.toNat = uptime.toNat := by
  have hticks := l.starttimeTicks_text
  refine ⟨hticks, fun h => ?_, fun ticks hfield hz uptime => ?_⟩
  · have hreader : (parseStatStateAge h l.text).2 = l.field22.bind fun ticks =>
        h.clockTicksPerSec.bind fun hz => h.uptimeSecs.bind (ageFromParts ticks hz) := by
      unfold parseStatStateAge
      rw [l.afterLast_text]
      simp only [hticks, Option.bind_eq_bind]
    rw [hreader]
    simp only [processAgeSecs_some, hticks]
    generalize l.field22 = ticks
    cases ticks <;> cases h.clockTicksPerSec <;> cases h.uptimeSecs <;> simp
  · rw [processAgeSecs_some, hticks, hfield]
    exact ⟨ageFromParts_eq_none_iff ticks hz uptime, fun age => toNat_ageFromParts⟩

/-- A name that imitates the fields behind it. -/
def hostileLine : StatLine where
  pid := 7
  comm := asciiBytes "x) R 1 ("
  state := 'S'
  fields := List.replicate 18 0 ++ [6000]
  state_letter := rfl

theorem hostile_name_age :
    ∃ age, processAgeSecs (some hostileLine.text) (some 100) 120 = some age ∧ age.toNat = 60 := by
  have hfield : hostileLine.field22 = some 6000 := by decide
  obtain ⟨hnone, hsome⟩ := (stat_age_exact hostileLine).2.2 6000 hfield 100 120
  cases hage : processAgeSecs (some hostileLine.text) (some 100) 120 with
  | none => exact absurd (hnone.mp hage) (by decide)
  | some age =>
      have hsum : age.toNat + 60 = 120 := hsome age hage
      exact ⟨age, rfl, by omega⟩

end GhostPid
end OwlzopsMapper
