import OwlzopsMapper.Lib.Difference
import Mathlib.Data.List.Induction

/-! # The verdict cache

`verdict_cache.rs`: verdicts of deep scans by path, each bound to the inode, modification time and
size of the file at that path and to the time of the scan.

`record` replaces the entry of its path (`entries_record`).  A sequence of records leaves, for every
path, the last verdict that was recorded (`entries_recordAll`), which the next scan loads if the
cache could be persisted (`entries_load_persist`). -/

namespace OwlzopsMapper

inductive Verdict where
  | benign
  | malicious
deriving DecidableEq, Repr

namespace VerdictCache

def cacheVersion : ℕ := 1
def ttlSecs : ℕ := 14 * 24 * 3600

/-- What `stat` says about a file. -/
structure Metadata where
  ino : ℕ
  mtime : Int
  len : ℕ
deriving DecidableEq, Repr

structure Entry where
  inode : ℕ
  mtime : Int
  size : ℕ
  verdict : Verdict
  scannedAt : ℕ
  version : ℕ
  sha256 : String := ""
deriving DecidableEq, Repr

/-- The files and the clock, at one moment. -/
structure Moment where
  stat : String → Option Metadata
  now : Option ℕ

structure Cache where
  entries : List (String × Entry) := []
  dirty : Bool := false

/-- An entry whose age cannot be computed is stale. -/
def isStale (e : Entry) (now : Option ℕ) : Bool :=
  e.version != cacheVersion ||
    match now with
    | none => true
    | some n => if n < e.scannedAt then true else decide (ttlSecs < n - e.scannedAt)

/-- The entry is about the file at the path, and not stale. -/
def isValid (t : Moment) (exe : String) (e : Entry) : Bool :=
  !isStale e t.now &&
    match t.stat exe with
    | none => false
    | some m => m.ino == e.inode && m.mtime == e.mtime && m.len == e.size

def Cache.lookup (c : Cache) (t : Moment) (exe : String) : Option Verdict :=
  match c.entries.lookup exe with
  | none => none
  | some e => if isValid t exe e then some e.verdict else none

/-- `HashMap::insert`. -/
def insert (entries : List (String × Entry)) (exe : String) (e : Entry) : List (String × Entry) :=
  (exe, e) :: entries.filter fun old => old.1 != exe

/-- The entry that a scan makes of a file. -/
def entryOf (m : Metadata) (now : ℕ) (verdict : Verdict) : Entry where
  inode := m.ino
  mtime := m.mtime
  size := m.len
  verdict := verdict
  scannedAt := now
  version := cacheVersion

/-- Nothing is recorded about a path without a file, or without a clock. -/
def Cache.record (c : Cache) (t : Moment) (exe : String) (verdict : Verdict) : Cache :=
  match t.stat exe, t.now with
  | some m, some now => ⟨insert c.entries exe (entryOf m now verdict), true⟩
  | _, _ => c

theorem lookup_insert (entries : List (String × Entry)) (exe path : String) (e : Entry) :
    (insert entries exe e).lookup path = if path = exe then some e else entries.lookup path := by
  unfold insert
  by_cases hpath : path = exe
  · rw [if_pos hpath, hpath, List.lookup_cons_self]
  · rw [if_neg hpath, List.lookup_cons, beq_false_of_ne hpath]
    show (entries.filter fun old => old.1 != exe).lookup path = entries.lookup path
    induction entries with
    | nil => rfl
    | cons old entries ih =>
        by_cases hold : old.1 = exe
        · have hne : (path == old.1) = false := beq_false_of_ne (hold ▸ hpath)
          rw [List.filter_cons_of_neg (by simp [hold]), ih, List.lookup_cons, hne]
        · rw [List.filter_cons_of_pos (by simp [hold]), List.lookup_cons, List.lookup_cons, ih]

/-- What is recorded for a path, when something is. -/
def recordable (t : Moment) (exe : String) (verdict : Verdict) : Option Entry :=
  match t.stat exe, t.now with
  | some m, some now => some (entryOf m now verdict)
  | _, _ => none

theorem entries_record (c : Cache) (t : Moment) (exe path : String) (verdict : Verdict) :
    (c.record t exe verdict).entries.lookup path =
      if path = exe then (recordable t exe verdict).or (c.entries.lookup path)
      else c.entries.lookup path := by
  unfold Cache.record recordable
  cases t.stat exe with
  | none => simp
  | some m =>
      cases t.now with
      | none => simp
      | some now =>
          dsimp only
          rw [lookup_insert]
          rfl

theorem dirty_record (c : Cache) (t : Moment) (exe : String) (verdict : Verdict) :
    (c.record t exe verdict).dirty = (c.dirty || (recordable t exe verdict).isSome) := by
  unfold Cache.record recordable
  cases t.stat exe with
  | none => simp
  | some m => cases t.now <;> simp

/-- Whether something can be recorded does not depend on the verdict. -/
theorem recordable_cases (t : Moment) (exe : String) :
    (∀ verdict, recordable t exe verdict = none) ∨
      ∃ m now, t.stat exe = some m ∧ t.now = some now ∧
        ∀ verdict, recordable t exe verdict = some (entryOf m now verdict) := by
  unfold recordable
  cases t.stat exe with
  | none => exact .inl fun _ => rfl
  | some m =>
      cases t.now with
      | none => exact .inl fun _ => rfl
      | some now => exact .inr ⟨m, now, rfl, rfl, fun _ => rfl⟩

/-! ### The verdicts of a scan -/

def recordAll (moment : Moment) (cache : Cache) (verdicts : List (String × Verdict)) : Cache :=
  verdicts.foldl (fun c v => c.record moment v.1 v.2) cache

theorem recordAll_append (t : Moment) (c : Cache) (older later : List (String × Verdict)) :
    recordAll t c (older ++ later) = recordAll t (recordAll t c older) later :=
  List.foldl_append

/-- **The last verdict of a path is the one that stays.** -/
theorem entries_recordAll (t : Moment) (c : Cache) (verdicts : List (String × Verdict))
    (path : String) : (recordAll t c verdicts).entries.lookup path =
      ((verdicts.reverse.lookup path).bind (recordable t path)).or (c.entries.lookup path) := by
  induction verdicts using List.reverseRecOn with
  | nil => rfl
  | append_singleton older v ih =>
      rw [recordAll_append, List.reverse_append, List.reverse_singleton, List.singleton_append]
      show ((recordAll t c older).record t v.1 v.2).entries.lookup path = _
      rw [entries_record, ih]
      by_cases hpath : path = v.1
      · rw [if_pos hpath, ← hpath]
        have hlookup : ((v :: older.reverse).lookup path) = some v.2 := by
          rw [hpath]
          exact List.lookup_cons_self
        rw [hlookup, Option.bind_some]
        rcases recordable_cases t path with hnone | ⟨m, now, _, _, hsome⟩
        · -- nothing was recorded before, either
          cases older.reverse.lookup path with
          | none => rfl
          | some verdict => rw [Option.bind_some, hnone, hnone]; rfl
        · rw [hsome]
          rfl
      · rw [if_neg hpath, List.lookup_cons, beq_false_of_ne hpath]

theorem dirty_recordAll (t : Moment) (c : Cache) (verdicts : List (String × Verdict)) :
    (recordAll t c verdicts).dirty =
      (c.dirty || verdicts.any fun v => (recordable t v.1 v.2).isSome) := by
  induction verdicts generalizing c with
  | nil => simp [recordAll]
  | cons v verdicts ih =>
      show (recordAll t (c.record t v.1 v.2) verdicts).dirty = _
      rw [ih, dirty_record, List.any_cons, Bool.or_assoc]

/-! ### From one scan to the next -/

def maxCacheBytes : ℕ := 16 * 1024 * 1024

/-- Where the cache is kept.  The text of a cache is JSON that `serde` reads back; the model keeps
the entries and the length of their text. -/
structure Store where
  writable : Bool
  textLength : List (String × Entry) → ℕ

/-- A text that is cut at the cap is no JSON, and a cache that cannot be read is empty. -/
def load (store : Store) (file : Option (List (String × Entry))) : Cache :=
  match file with
  | none => {}
  | some entries => if store.textLength entries ≤ maxCacheBytes then { entries := entries } else {}

/-- The file after the scan; an unmodified cache is not written, and errors are ignored. -/
def Cache.persist (c : Cache) (store : Store) (file : Option (List (String × Entry))) :
    Option (List (String × Entry)) :=
  if c.dirty && store.writable then some c.entries else file

/-- The next scan loads what was persisted. -/
theorem entries_load_persist (c : Cache) (store : Store) (file : Option (List (String × Entry))) :
    load store (c.persist store file) =
      if c.dirty && store.writable then
        if store.textLength c.entries ≤ maxCacheBytes then { entries := c.entries } else {}
      else load store file := by
  unfold Cache.persist
  split <;> rfl

end VerdictCache
end OwlzopsMapper
