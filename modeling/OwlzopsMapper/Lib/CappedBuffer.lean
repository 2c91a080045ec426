import Mathlib.Data.List.TakeDrop
import Mathlib.Tactic.Common

/-! # Buffers with a cap

A reader that keeps the first `cap` elements of a stream, which comes in chunks, and remembers that
it left something out.  However the stream is cut, the buffer holds its beginning
(`items_pushAll`).  The flag depends on the cut: a chunk that arrives at a full buffer raises it even
when the chunk is empty (`truncated_pushAll`), so it says that elements were lost only where every
chunk has some (`overflows_iff_of_nonempty`). -/

namespace Lib

structure CappedBuffer (α : Type) (cap : ℕ) where
  items : List α
  truncated : Bool
  length_le : items.length ≤ cap

namespace CappedBuffer
variable {α : Type} {cap : ℕ}

def empty : CappedBuffer α cap := ⟨[], false, Nat.zero_le _⟩

/-- One more chunk: as much of it as there is room for. -/
def push (b : CappedBuffer α cap) (chunk : List α) : CappedBuffer α cap :=
  let room := cap - b.items.length
  if 0 < room then
    { items := b.items ++ chunk.take room
      truncated := b.truncated || decide (room < chunk.length)
      length_le := by
        have hle := b.length_le
        have htake := List.length_take_le room chunk
        rw [List.length_append]
        omega }
  else { b with truncated := true }

def pushAll (b : CappedBuffer α cap) (chunks : List (List α)) : CappedBuffer α cap :=
  chunks.foldl push b

/-- Some chunk comes to a full buffer, or brings more than there is room for. -/
def Overflows (cap : ℕ) (chunks : List (List α)) : Prop :=
  ∃ before chunk after, chunks = before ++ chunk :: after ∧
    (cap ≤ before.flatten.length ∨ cap < before.flatten.length + chunk.length)

@[simp] theorem not_overflows_nil : ¬ Overflows cap ([] : List (List α)) := by
  rintro ⟨before, chunk, after, h, _⟩
  simp at h

/-- What the last chunk adds. -/
theorem overflows_concat (chunks : List (List α)) (chunk : List α) :
    Overflows cap (chunks ++ [chunk]) ↔ Overflows cap chunks ∨ cap ≤ chunks.flatten.length ∨
      cap < chunks.flatten.length + chunk.length := by
  constructor
  · rintro ⟨before, c, after, heq, h⟩
    rcases List.eq_nil_or_concat after with rfl | ⟨after', last, rfl⟩
    · obtain ⟨rfl, hc⟩ := List.append_inj' heq rfl
      rw [List.cons.injEq] at hc
      exact .inr (hc.1 ▸ h)
    · rw [List.concat_eq_append, ← List.cons_append, ← List.append_assoc] at heq
      exact .inl ⟨before, c, after', (List.append_inj' heq rfl).1, h⟩
  · rintro (⟨before, c, after, rfl, h⟩ | h)
    · exact ⟨before, c, after ++ [chunk], by simp, h⟩
    · exact ⟨chunks, chunk, [], rfl, h⟩

/-- A buffer that has seen exactly these chunks. -/
structure Sound (b : CappedBuffer α cap) (chunks : List (List α)) : Prop where
  items_eq : b.items = chunks.flatten.take cap
  truncated_iff : b.truncated = true ↔ Overflows cap chunks

theorem sound_empty : (empty : CappedBuffer α cap).Sound [] := by
  refine ⟨?_, ?_⟩
  · simp [empty]
  · simp [empty]

theorem Sound.push {b : CappedBuffer α cap} {chunks : List (List α)} (h : b.Sound chunks)
    (chunk : List α) : (b.push chunk).Sound (chunks ++ [chunk]) := by
  have hlen : b.items.length = min cap chunks.flatten.length := by rw [h.items_eq, List.length_take]
  have hflat : (chunks ++ [chunk]).flatten = chunks.flatten ++ chunk := by simp
  unfold CappedBuffer.push
  by_cases hroom : 0 < cap - b.items.length
  · -- there is room, so nothing before this chunk was cut off
    have hfit : chunks.flatten.length < cap := by omega
    have hitems : b.items = chunks.flatten := by rw [h.items_eq, List.take_of_length_le (Nat.le_of_lt hfit)]
    simp only [hroom, if_true]
    refine ⟨?_, ?_⟩
    · rw [hflat, List.take_append, ← hitems, List.take_of_length_le b.length_le]
    · rw [overflows_concat, Bool.or_eq_true, h.truncated_iff, decide_eq_true_iff, hitems]
      apply or_congr_right
      omega
  · have hfull : cap ≤ chunks.flatten.length := by omega
    simp only [hroom, if_false]
    refine ⟨?_, ?_⟩
    · rw [hflat, List.take_append_of_le_length hfull, h.items_eq]
    · exact ⟨fun _ => (overflows_concat chunks chunk).mpr (.inr (.inl hfull)), fun _ => rfl⟩

theorem Sound.pushAll {b : CappedBuffer α cap} {chunks : List (List α)} (h : b.Sound chunks)
    (more : List (List α)) : (b.pushAll more).Sound (chunks ++ more) := by
  induction more generalizing b chunks with
  | nil => simpa [CappedBuffer.pushAll] using h
  | cons chunk more ih => simpa [CappedBuffer.pushAll] using ih (h.push chunk)

theorem items_pushAll (chunks : List (List α)) :
    ((empty : CappedBuffer α cap).pushAll chunks).items = chunks.flatten.take cap := by
  simpa using (sound_empty.pushAll chunks).items_eq

theorem truncated_pushAll (chunks : List (List α)) :
    ((empty : CappedBuffer α cap).pushAll chunks).truncated = true ↔ Overflows cap chunks := by
  simpa using (sound_empty.pushAll chunks).truncated_iff

/-- A stream that does not overflow is kept whole. -/
theorem length_le_of_not_overflows {chunks : List (List α)} (h : ¬ Overflows cap chunks) :
    chunks.flatten.length ≤ cap := by
  rcases List.eq_nil_or_concat chunks with rfl | ⟨before, chunk, rfl⟩
  · simp
  · rw [List.concat_eq_append] at h ⊢
    by_contra hlong
    refine h ((overflows_concat before chunk).mpr (.inr (.inr ?_)))
    simpa using hlong

/-- Where every chunk brings something, the flag says that elements were lost. -/
theorem overflows_iff_of_nonempty {chunks : List (List α)} (hne : ∀ c ∈ chunks, c ≠ []) :
    Overflows cap chunks ↔ cap < chunks.flatten.length := by
  constructor
  · rintro ⟨before, chunk, after, rfl, h⟩
    have hpos := List.length_pos_iff.mpr (hne chunk (by simp))
    simp only [List.flatten_append, List.flatten_cons, List.length_append]
    omega
  · intro hlong
    by_contra hno
    exact absurd (length_le_of_not_overflows hno) (by omega)

end CappedBuffer

/-! ### Chunks that fit

A buffer that only asks of every chunk whether all of it fits.  Here an empty chunk always does, so
the flag says that elements were lost (`fits_pushFits`). -/

section fits
variable {α : Type} (cap : ℕ)

/-- As much of the chunk as there is room for, and whether that is all of it. -/
def pushFits (buf chunk : List α) : List α × Bool :=
  (buf ++ chunk.take (cap - buf.length), decide (chunk.length ≤ cap - buf.length))

variable {cap}

theorem items_pushFits (given chunk : List α) :
    (pushFits cap (given.take cap) chunk).1 = (given ++ chunk).take cap := by
  have hlen : (given.take cap).length = min cap given.length := List.length_take
  have hroom : cap - min cap given.length = cap - given.length := by omega
  rw [pushFits, List.take_append, hlen, hroom]

theorem fits_pushFits (given chunk : List α) :
    ((pushFits cap (given.take cap) chunk).2 = false ∨ cap < given.length) ↔
      cap < (given ++ chunk).length := by
  have hlen : (given.take cap).length = min cap given.length := List.length_take
  rw [pushFits, hlen, decide_eq_false_iff_not, List.length_append]
  constructor
  · rintro (hno | hlt)
    · omega
    · omega
  · intro hlt
    by_cases hover : cap < given.length
    · exact .inr hover
    · exact .inl (by omega)

end fits
/-! ### Counting what is lost

A list that stops growing at the cap, next to a counter of what found no room. -/

section counted
variable {α : Type} (cap : ℕ)

def pushCounted (kept : List α) (x : α) (lost : ℕ) : List α × ℕ :=
  if kept.length < cap then (kept ++ [x], lost) else (kept, lost + 1)

variable {cap}

theorem pushCounted_take (given : List α) (x : α) (lost : ℕ) :
    pushCounted cap (given.take cap) x lost = ((given ++ [x]).take cap,
      lost + if given.length < cap then 0 else 1) := by
  unfold pushCounted
  rw [List.length_take]
  by_cases hroom : given.length < cap
  · rw [if_pos (by omega), if_pos hroom, List.take_of_length_le (Nat.le_of_lt hroom),
      List.take_of_length_le (by rw [List.length_append, List.length_singleton]; omega)]
    rfl
  · rw [if_neg (by omega), if_neg hroom, List.take_append_of_le_length (Nat.not_lt.mp hroom)]

/-- A counter of its own has counted everything beyond the cap. -/
theorem pushCounted_excess (given : List α) (x : α) :
    pushCounted cap (given.take cap) x (given.length - cap) =
      ((given ++ [x]).take cap, (given ++ [x]).length - cap) := by
  rw [pushCounted_take, List.length_append, List.length_singleton]
  split
  · rw [show given.length - cap + 0 = given.length + 1 - cap by omega]
  · rw [show given.length - cap + 1 = given.length + 1 - cap by omega]

theorem le_pushCounted (kept : List α) (x : α) (lost : ℕ) :
    lost ≤ (pushCounted cap kept x lost).2 := by
  unfold pushCounted
  split
  · exact Nat.le_refl _
  · exact Nat.le_succ _

end counted

end Lib
