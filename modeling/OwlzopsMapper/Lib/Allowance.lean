import Mathlib.Data.List.Nodup

/-! # Allowances

A pass takes the items of a stream that were not met before, as long as its allowance lasts.  Between
the items stand gates (`none`), which are only passed with something left.  Several passes share what
was met, and each has an allowance of its own.

An item that is met with nothing left counts as met, and no pass takes it any more.  `share` is what
the passes are for: each takes, up to its allowance, the first items that no pass before it took.
**The passes take what `share` takes exactly when none meets a lost item with something left**
(`taken_sweep`, `met_iff`), and `exact_iff` says when a pass that stops tells that an item is missing. -/

namespace Lib

/-- A pass on its way: what was met, what was taken, and what is left of the allowance. -/
structure Pass (α : Type) where
  seen : List α
  taken : List α
  left : ℕ

namespace Pass
variable {α : Type}

/-- The state at the end. -/
def final : Except (Pass α) (Pass α) → Pass α
  | .ok s => s
  | .error s => s

@[simp] theorem final_ok (s : Pass α) : final (.ok s) = s := rfl

@[simp] theorem final_error (s : Pass α) : final (.error s) = s := rfl

/-- A pass with a new allowance. -/
def renew (s : Pass α) (allowance : ℕ) : Pass α := { s with left := allowance }

/-- The taken items are met items, each taken once. -/
structure Valid (s : Pass α) : Prop where
  nodup : s.taken.Nodup
  seen_of_taken : ∀ a ∈ s.taken, a ∈ s.seen

/-- How a pass grows: what was met stays met, the taken items follow the earlier ones and use up the
allowance, and no item that was met is taken. -/
structure Grows (s t : Pass α) : Prop where
  seen : ∀ a ∈ s.seen, a ∈ t.seen
  taken : ∃ new, t.taken = s.taken ++ new ∧ new.length + t.left = s.left ∧ ∀ a ∈ new, a ∉ s.seen
  valid : s.Valid → t.Valid

theorem Grows.refl (s : Pass α) : Grows s s where
  seen _ := id
  taken := ⟨[], (List.append_nil _).symm, Nat.zero_add _, fun _ h => absurd h List.not_mem_nil⟩
  valid := id

theorem Grows.trans {s t u : Pass α} (hst : Grows s t) (htu : Grows t u) : Grows s u where
  seen a ha := htu.seen a (hst.seen a ha)
  taken := by
    obtain ⟨new, hnew, hlen, hfresh⟩ := hst.taken
    obtain ⟨new', hnew', hlen', hfresh'⟩ := htu.taken
    refine ⟨new ++ new', ?_, ?_, fun a ha => ?_⟩
    · rw [hnew', hnew, List.append_assoc]
    · rw [List.length_append]
      omega
    · rcases List.mem_append.mp ha with ha | ha
      · exact hfresh a ha
      · exact fun hs => hfresh' a ha (hst.seen a hs)
  valid h := htu.valid (hst.valid h)

theorem Valid.renew {s : Pass α} (hs : s.Valid) (allowance : ℕ) : (s.renew allowance).Valid :=
  ⟨hs.nodup, hs.seen_of_taken⟩

/-- What was met stays met, and what was met and not taken is never taken. -/
structure Later (s t : Pass α) : Prop where
  seen : ∀ a ∈ s.seen, a ∈ t.seen
  taken : ∀ a ∈ s.taken, a ∈ t.taken
  lost : ∀ a ∈ s.seen, a ∉ s.taken → a ∉ t.taken
  valid : s.Valid → t.Valid

theorem Later.trans {s t u : Pass α} (hst : Later s t) (htu : Later t u) : Later s u where
  seen a ha := htu.seen a (hst.seen a ha)
  taken a ha := htu.taken a (hst.taken a ha)
  lost a ha hno := htu.lost a (hst.seen a ha) (hst.lost a ha hno)
  valid h := htu.valid (hst.valid h)

theorem Grows.later {s t : Pass α} (h : Grows s t) : Later s t := by
  obtain ⟨new, hnew, _, hfresh⟩ := h.taken
  refine ⟨h.seen, fun a ha => ?_, fun a hseen hno ha => ?_, h.valid⟩
  · rw [hnew]
    exact List.mem_append_left _ ha
  · rw [hnew] at ha
    exact (List.mem_append.mp ha).elim hno fun ha => hfresh a ha hseen

theorem later_renew (s : Pass α) (allowance : ℕ) : Later s (s.renew allowance) :=
  ⟨fun _ => id, fun _ => id, fun _ _ => id, fun h => h.renew allowance⟩

/-- Nothing is met yet. -/
def start : Pass α := ⟨[], [], 0⟩

theorem valid_start : (start (α := α)).Valid := ⟨List.nodup_nil, fun _ h => absurd h List.not_mem_nil⟩

variable [DecidableEq α]

/-! ### The passes -/

/-- One element of the stream; the pass stops with an error. -/
def meet (s : Pass α) : Option α → Except (Pass α) (Pass α)
  | none => if s.left = 0 then .error s else .ok s
  | some a =>
      if a ∈ s.seen then .ok s
      else if s.left = 0 then .error { s with seen := a :: s.seen }
      else .ok { seen := a :: s.seen, taken := s.taken ++ [a], left := s.left - 1 }

def run : Pass α → List (Option α) → Except (Pass α) (Pass α)
  | s, [] => .ok s
  | s, e :: es =>
      match s.meet e with
      | .ok s' => run s' es
      | .error s' => .error s'

/-- What the pass meets, with the state it is in. -/
def trace : Pass α → List (Option α) → List (Pass α × Option α)
  | _, [] => []
  | s, e :: es => (s, e) ::
      match s.meet e with
      | .ok s' => trace s' es
      | .error _ => []

/-- The passes sweep several streams, one after the other. -/
def sweep : Pass α → List (ℕ × List (Option α)) → Pass α
  | s, [] => s
  | s, (allowance, es) :: rest => sweep (final ((s.renew allowance).run es)) rest

/-- What the passes meet. -/
def traces : Pass α → List (ℕ × List (Option α)) → List (Pass α × Option α)
  | _, [] => []
  | s, (allowance, es) :: rest =>
      (s.renew allowance).trace es ++ traces (final ((s.renew allowance).run es)) rest

/-- The passes that stop, each with the state it stops in. -/
def stops : Pass α → List (ℕ × List (Option α)) → List (Pass α)
  | _, [] => []
  | s, (allowance, es) :: rest =>
      match (s.renew allowance).run es with
      | .ok s' => stops s' rest
      | .error s' => s' :: stops s' rest

/-! ### One pass -/

/-- What one element does: nothing, or it is met, or it is met and taken. -/
theorem meet_cases (s : Pass α) (e : Option α) :
    (e = none ∧ s.left = 0 ∧ s.meet e = .error s) ∨
    (e = none ∧ 0 < s.left ∧ s.meet e = .ok s) ∨
    (∃ a, e = some a ∧ a ∈ s.seen ∧ s.meet e = .ok s) ∨
    (∃ a, e = some a ∧ a ∉ s.seen ∧ s.left = 0 ∧ s.meet e = .error { s with seen := a :: s.seen }) ∨
    (∃ a, e = some a ∧ a ∉ s.seen ∧ 0 < s.left ∧
      s.meet e = .ok ⟨a :: s.seen, s.taken ++ [a], s.left - 1⟩) := by
  cases e with
  | none =>
      unfold meet
      by_cases hleft : s.left = 0
      · exact .inl ⟨rfl, hleft, if_pos hleft⟩
      · exact .inr (.inl ⟨rfl, Nat.pos_of_ne_zero hleft, if_neg hleft⟩)
  | some a =>
      unfold meet
      by_cases hseen : a ∈ s.seen
      · exact .inr (.inr (.inl ⟨a, rfl, hseen, if_pos hseen⟩))
      · by_cases hleft : s.left = 0
        · refine .inr (.inr (.inr (.inl ⟨a, rfl, hseen, hleft, ?_⟩)))
          dsimp only
          rw [if_neg hseen, if_pos hleft]
        · refine .inr (.inr (.inr (.inr ⟨a, rfl, hseen, Nat.pos_of_ne_zero hleft, ?_⟩)))
          dsimp only
          rw [if_neg hseen, if_neg hleft]

theorem grows_meet (s : Pass α) (e : Option α) : Grows s (final (s.meet e)) := by
  rcases meet_cases s e with ⟨_, _, h⟩ | ⟨_, _, h⟩ | ⟨a, _, _, h⟩ | ⟨a, _, _, _, h⟩ |
    ⟨a, _, hseen, hleft, h⟩
  · rw [h]
    exact .refl s
  · rw [h]
    exact .refl s
  · rw [h]
    exact .refl s
  · rw [h]
    refine ⟨fun b hb => List.mem_cons_of_mem _ hb, (Grows.refl s).taken, fun hs => ?_⟩
    exact ⟨hs.nodup, fun b hb => List.mem_cons_of_mem _ (hs.seen_of_taken b hb)⟩
  · rw [h]
    refine ⟨fun b hb => List.mem_cons_of_mem _ hb, ⟨[a], rfl, ?_, ?_⟩, fun hs => ⟨?_, ?_⟩⟩
    · simp only [List.length_singleton, final_ok]
      omega
    · simpa using hseen
    · refine List.nodup_append.mpr ⟨hs.nodup, List.nodup_singleton a, fun b hb c hc => ?_⟩
      rintro rfl
      rw [List.mem_singleton] at hc
      exact hseen (hc ▸ hs.seen_of_taken b hb)
    · intro b hb
      rcases List.mem_append.mp hb with hb | hb
      · exact List.mem_cons_of_mem _ (hs.seen_of_taken b hb)
      · exact List.mem_cons.mpr (.inl (List.mem_singleton.mp hb))

theorem grows_run (s : Pass α) (es : List (Option α)) : Grows s (final (s.run es)) := by
  induction es generalizing s with
  | nil => exact .refl s
  | cons e es ih =>
      have hstep := grows_meet s e
      unfold run
      cases h : s.meet e with
      | ok t =>
          rw [h] at hstep
          exact hstep.trans (ih t)
      | error t =>
          rw [h] at hstep
          exact hstep

theorem run_append (s : Pass α) (xs ys : List (Option α)) :
    s.run (xs ++ ys) = s.run xs >>= fun t => t.run ys := by
  induction xs generalizing s with
  | nil => rfl
  | cons e xs ih =>
      rw [List.cons_append, run, run]
      cases s.meet e with
      | ok t => exact ih t
      | error t => rfl

/-- Without a stop every item of the stream was met. -/
theorem seen_of_run {s t : Pass α} {es : List (Option α)} (h : s.run es = .ok t) {a : α}
    (ha : some a ∈ es) : a ∈ t.seen := by
  induction es generalizing s with
  | nil => cases ha
  | cons e es ih =>
      unfold run at h
      cases hmeet : s.meet e with
      | error u => rw [hmeet] at h; cases h
      | ok u =>
          rw [hmeet] at h
          change u.run es = .ok t at h
          rcases List.mem_cons.mp ha with rfl | ha
          · have hgrows := grows_run u es
            rw [h] at hgrows
            apply hgrows.seen
            rcases meet_cases s (some a) with ⟨h', _⟩ | ⟨h', _⟩ | ⟨b, hb, hseen, hu⟩ |
              ⟨b, _, _, _, hu⟩ | ⟨b, hb, _, _, hu⟩
            · cases h'
            · cases h'
            · cases hb
              rw [hmeet] at hu
              cases hu
              exact hseen
            · rw [hmeet] at hu
              cases hu
            · cases hb
              rw [hmeet] at hu
              cases hu
              exact List.mem_cons_self
          · exact ih h ha

/-- A pass takes only items of its stream. -/
theorem mem_of_taken {s : Pass α} {es : List (Option α)} {a : α}
    (ha : a ∈ (final (s.run es)).taken) : a ∈ s.taken ∨ some a ∈ es := by
  induction es generalizing s with
  | nil => exact .inl ha
  | cons e es ih =>
      unfold run at ha
      rcases meet_cases s e with ⟨_, _, h⟩ | ⟨_, _, h⟩ | ⟨b, _, _, h⟩ | ⟨b, _, _, _, h⟩ |
        ⟨b, rfl, _, _, h⟩
      · rw [h] at ha
        exact .inl ha
      · rw [h] at ha
        exact (ih ha).imp_right (List.mem_cons_of_mem _)
      · rw [h] at ha
        exact (ih ha).imp_right (List.mem_cons_of_mem _)
      · rw [h] at ha
        exact .inl ha
      · rw [h] at ha
        rcases ih ha with ha | ha
        · rcases List.mem_append.mp ha with ha | ha
          · exact .inl ha
          · rw [List.mem_singleton.mp ha]
            exact .inr List.mem_cons_self
        · exact .inr (List.mem_cons_of_mem _ ha)

/-- Without a stop nothing is lost. -/
theorem kept_of_run {s t : Pass α} {es : List (Option α)} (h : s.run es = .ok t)
    (hs : ∀ a ∈ s.seen, a ∈ s.taken) : ∀ a ∈ t.seen, a ∈ t.taken := by
  induction es generalizing s with
  | nil =>
      cases h
      exact hs
  | cons e es ih =>
      unfold run at h
      rcases meet_cases s e with ⟨_, _, hmeet⟩ | ⟨_, _, hmeet⟩ | ⟨a, _, _, hmeet⟩ |
        ⟨a, _, _, _, hmeet⟩ | ⟨a, _, _, _, hmeet⟩ <;> rw [hmeet] at h
      · cases h
      · exact ih h hs
      · exact ih h hs
      · cases h
      · refine ih h fun b hb => ?_
        rcases List.mem_cons.mp hb with rfl | hb
        · exact List.mem_append_right _ List.mem_cons_self
        · exact List.mem_append_left _ (hs b hb)

/-- A pass stops at a gate, or at an item that is then lost. -/
theorem stop_cases {s t : Pass α} {es : List (Option α)} (h : s.run es = .error t) (hs : s.Valid) :
    (∃ u, (u, none) ∈ s.trace es ∧ u.left = 0) ∨
      ∃ a, some a ∈ es ∧ a ∈ t.seen ∧ a ∉ t.taken := by
  induction es generalizing s with
  | nil => cases h
  | cons e es ih =>
      have hvalid := (grows_meet s e).valid hs
      unfold run at h
      unfold trace
      cases hmeet : s.meet e with
      | ok u =>
          rw [hmeet] at h hvalid
          rcases ih h hvalid with ⟨v, hv, hleft⟩ | ⟨a, ha, hlost⟩
          · exact .inl ⟨v, List.mem_cons_of_mem _ hv, hleft⟩
          · exact .inr ⟨a, List.mem_cons_of_mem _ ha, hlost⟩
      | error u =>
          rw [hmeet] at h
          cases h
          rcases meet_cases s e with ⟨rfl, hleft, _⟩ | ⟨_, _, h⟩ | ⟨a, _, _, h⟩ |
            ⟨a, rfl, hseen, _, h⟩ | ⟨a, _, _, _, h⟩
          · exact .inl ⟨s, List.mem_cons_self, hleft⟩
          · rw [hmeet] at h
            cases h
          · rw [hmeet] at h
            cases h
          · rw [hmeet] at h
            cases h
            exact .inr ⟨a, List.mem_cons_self, List.mem_cons_self,
              fun ha => hseen (hs.seen_of_taken a ha)⟩
          · rw [hmeet] at h
            cases h

/-- A gate that is met with nothing left stops the pass. -/
theorem run_of_gate {s u : Pass α} {es : List (Option α)} (h : (u, none) ∈ s.trace es)
    (hleft : u.left = 0) : ∃ t, s.run es = .error t := by
  induction es generalizing s with
  | nil => cases h
  | cons e es ih =>
      unfold trace at h
      unfold run
      cases hmeet : s.meet e with
      | error t => exact ⟨t, rfl⟩
      | ok t =>
          rw [hmeet] at h
          rcases List.mem_cons.mp h with h | h
          · cases h
            unfold meet at hmeet
            rw [if_pos hleft] at hmeet
            cases hmeet
          · exact ih h

/-! ### What the passes are for -/

/-- The first new items, up to the allowance, after what was taken. -/
def share : List α → ℕ → List (Option α) → List α
  | taken, _, [] => taken
  | taken, allowance, none :: es => share taken allowance es
  | taken, allowance, some a :: es =>
      if a ∈ taken ∨ allowance = 0 then share taken allowance es
      else share (taken ++ [a]) (allowance - 1) es

def shares : List α → List (ℕ × List (Option α)) → List α
  | taken, [] => taken
  | taken, (allowance, es) :: rest => shares (share taken allowance es) rest

/-- No pass meets a lost item with something left. -/
def Kept (met : List (Pass α × Option α)) : Prop :=
  ∀ s a, (s, some a) ∈ met → 0 < s.left → a ∈ s.seen → a ∈ s.taken

theorem share_zero (taken : List α) (es : List (Option α)) : share taken 0 es = taken := by
  induction es with
  | nil => rfl
  | cons e es ih =>
      cases e with
      | none => exact ih
      | some a =>
          rw [share, if_pos (.inr rfl)]
          exact ih

theorem taken_run {s : Pass α} {es : List (Option α)} (hs : s.Valid) (hkept : Kept (s.trace es)) :
    (final (s.run es)).taken = share s.taken s.left es := by
  induction es generalizing s with
  | nil => rfl
  | cons e es ih =>
      have hvalid := (grows_meet s e).valid hs
      unfold trace at hkept
      unfold run
      have hhere : ∀ a, e = some a → 0 < s.left → a ∈ s.seen → a ∈ s.taken := by
        rintro a rfl
        exact hkept s a List.mem_cons_self
      rcases meet_cases s e with ⟨rfl, hleft, h⟩ | ⟨rfl, hleft, h⟩ | ⟨a, rfl, hseen, h⟩ |
        ⟨a, rfl, hseen, hleft, h⟩ | ⟨a, rfl, hseen, hleft, h⟩ <;> rw [h] at hkept hvalid ⊢
      · rw [hleft, share_zero]
        rfl
      · exact ih hvalid fun u b hb => hkept u b (List.mem_cons_of_mem _ hb)
      · have hskip : a ∈ s.taken ∨ s.left = 0 := by
          by_cases hleft : s.left = 0
          · exact .inr hleft
          · exact .inl (hhere a rfl (Nat.pos_of_ne_zero hleft) hseen)
        rw [share, if_pos hskip]
        exact ih hvalid fun u b hb => hkept u b (List.mem_cons_of_mem _ hb)
      · rw [hleft, share_zero]
        rfl
      · have htake : ¬ (a ∈ s.taken ∨ s.left = 0) := by
          rintro (ha | hzero)
          · exact hseen (hs.seen_of_taken a ha)
          · omega
        rw [share, if_neg htake]
        exact ih hvalid fun u b hb => hkept u b (List.mem_cons_of_mem _ hb)

/-- An item that is met with something left is taken, or was met before. -/
theorem taken_of_met {s u : Pass α} {es : List (Option α)} {a : α} (h : (u, some a) ∈ s.trace es)
    (hleft : 0 < u.left) (hseen : a ∈ u.seen → a ∈ u.taken) : a ∈ (final (s.run es)).taken := by
  induction es generalizing s with
  | nil => cases h
  | cons e es ih =>
      have hhere : ∀ t : Pass α, a ∈ t.taken → a ∈ (final (t.run es)).taken := by
        intro t ha
        obtain ⟨new, hnew, _⟩ := (grows_run t es).taken
        rw [hnew]
        exact List.mem_append_left _ ha
      unfold trace at h
      unfold run
      rcases List.mem_cons.mp h with h | h
      · cases h
        rcases meet_cases u (some a) with ⟨h, _⟩ | ⟨h, _⟩ | ⟨b, hb, hmet, h⟩ |
          ⟨b, _, _, hzero, _⟩ | ⟨b, hb, _, _, h⟩
        · cases h
        · cases h
        · cases hb
          rw [h]
          exact hhere u (hseen hmet)
        · omega
        · cases hb
          rw [h]
          exact hhere _ (List.mem_append_right _ List.mem_cons_self)
      · cases hmeet : s.meet e with
        | ok t =>
            rw [hmeet] at h
            exact ih h
        | error t =>
            rw [hmeet] at h
            cases h

/-! ### Several passes -/

theorem later_pass (s : Pass α) (allowance : ℕ) (es : List (Option α)) :
    Later s (final ((s.renew allowance).run es)) :=
  (later_renew s allowance).trans (grows_run _ es).later

theorem later_sweep (s : Pass α) (streams : List (ℕ × List (Option α))) :
    Later s (sweep s streams) := by
  induction streams generalizing s with
  | nil => exact ⟨fun _ => id, fun _ => id, fun _ _ => id, id⟩
  | cons stream rest ih => exact (later_pass s stream.1 stream.2).trans (ih _)

/-- What the passes take is on a stream. -/
theorem mem_of_taken_sweep {s : Pass α} {streams : List (ℕ × List (Option α))} {a : α}
    (ha : a ∈ (sweep s streams).taken) : a ∈ s.taken ∨ ∃ stream ∈ streams, some a ∈ stream.2 := by
  induction streams generalizing s with
  | nil => exact .inl ha
  | cons stream rest ih =>
      rcases ih ha with ha | ⟨stream', hmem, ha⟩
      · exact (mem_of_taken ha).imp id fun ha => ⟨stream, List.mem_cons_self, ha⟩
      · exact .inr ⟨stream', List.mem_cons_of_mem _ hmem, ha⟩

/-- Where no pass stops every item was met. -/
theorem seen_of_no_stop {s : Pass α} {streams : List (ℕ × List (Option α))}
    (h : stops s streams = []) {stream : ℕ × List (Option α)} (hstream : stream ∈ streams) {a : α}
    (ha : some a ∈ stream.2) : a ∈ (sweep s streams).seen := by
  induction streams generalizing s with
  | nil => cases hstream
  | cons first rest ih =>
      unfold stops at h
      unfold sweep
      cases hrun : (s.renew first.1).run first.2 with
      | error t => rw [hrun] at h; cases h
      | ok t =>
          rw [hrun] at h
          rcases List.mem_cons.mp hstream with rfl | hstream
          · exact (later_sweep t rest).seen a (seen_of_run hrun ha)
          · exact ih h hstream

/-- A lost item was met by a pass that stopped at it. -/
theorem taken_of_no_stop {s : Pass α} {streams : List (ℕ × List (Option α))}
    (h : stops s streams = []) (hs : ∀ a ∈ s.seen, a ∈ s.taken) :
    ∀ a ∈ (sweep s streams).seen, a ∈ (sweep s streams).taken := by
  induction streams generalizing s with
  | nil => exact hs
  | cons first rest ih =>
      unfold stops at h
      unfold sweep
      cases hrun : (s.renew first.1).run first.2 with
      | error t => rw [hrun] at h; cases h
      | ok t =>
          rw [hrun] at h
          exact ih h (kept_of_run hrun hs)

theorem later_of_trace {s u : Pass α} {es : List (Option α)} {e : Option α}
    (h : (u, e) ∈ s.trace es) : Later u (final (s.run es)) := by
  induction es generalizing s with
  | nil => cases h
  | cons e' es ih =>
      have hrun := grows_run s (e' :: es)
      unfold trace at h
      rcases List.mem_cons.mp h with h | h
      · cases h
        exact hrun.later
      · unfold run
        cases hmeet : s.meet e' with
        | ok t =>
            rw [hmeet] at h
            exact ih h
        | error t =>
            rw [hmeet] at h
            cases h

theorem later_of_traces {s u : Pass α} {streams : List (ℕ × List (Option α))} {e : Option α}
    (h : (u, e) ∈ traces s streams) : Later u (sweep s streams) := by
  induction streams generalizing s with
  | nil => cases h
  | cons stream rest ih =>
      rcases List.mem_append.mp h with h | h
      · exact (later_of_trace h).trans (later_sweep _ rest)
      · exact ih h

/-- **The passes take whatever one of them meets with something left exactly when no lost item is met
so.** -/
theorem met_iff (s : Pass α) (streams : List (ℕ × List (Option α))) :
    (∀ u a, (u, some a) ∈ traces s streams → 0 < u.left → a ∈ (sweep s streams).taken) ↔
      Kept (traces s streams) := by
  constructor
  · intro h u a hmem hleft hseen
    by_contra hno
    exact (later_of_traces hmem).lost a hseen hno (h u a hmem hleft)
  · intro h u a hmem hleft
    have hkept : a ∈ u.seen → a ∈ u.taken := h u a hmem hleft
    clear h
    induction streams generalizing s with
    | nil => cases hmem
    | cons stream rest ih =>
        rcases List.mem_append.mp hmem with hmem | hmem
        · exact (later_sweep _ rest).taken a (taken_of_met hmem hleft hkept)
        · exact ih _ hmem

theorem taken_sweep {s : Pass α} {streams : List (ℕ × List (Option α))} (hs : s.Valid)
    (hkept : Kept (traces s streams)) : (sweep s streams).taken = shares s.taken streams := by
  induction streams generalizing s with
  | nil => rfl
  | cons stream rest ih =>
      unfold traces at hkept
      have hfirst : Kept ((s.renew stream.1).trace stream.2) :=
        fun u a hmem => hkept u a (List.mem_append_left _ hmem)
      have hpass := taken_run (hs.renew stream.1) hfirst
      have hvalid := (later_pass s stream.1 stream.2).valid hs
      unfold sweep shares
      rw [ih hvalid fun u a hmem => hkept u a (List.mem_append_right _ hmem), hpass]
      rfl

/-- Where a pass stops, one met a gate with nothing left, or an item of a stream is lost. -/
theorem stops_cases {s : Pass α} {streams : List (ℕ × List (Option α))} (hs : s.Valid)
    (h : stops s streams ≠ []) : (∃ u, (u, none) ∈ traces s streams ∧ u.left = 0) ∨
      ∃ stream ∈ streams, ∃ a, some a ∈ stream.2 ∧ a ∉ (sweep s streams).taken := by
  induction streams generalizing s with
  | nil => exact absurd rfl h
  | cons stream rest ih =>
      have hvalid := (later_pass s stream.1 stream.2).valid hs
      unfold stops at h
      unfold traces
      cases hrun : (s.renew stream.1).run stream.2 with
      | error t =>
          rcases stop_cases hrun (hs.renew stream.1) with ⟨u, hu, hleft⟩ | ⟨a, ha, hseen, hno⟩
          · exact .inl ⟨u, List.mem_append_left _ hu, hleft⟩
          · refine .inr ⟨stream, List.mem_cons_self, a, ha, ?_⟩
            unfold sweep
            rw [hrun]
            exact (later_sweep t rest).lost a hseen hno
      | ok t =>
          rw [hrun] at h hvalid
          rcases ih hvalid h with ⟨u, hu, hleft⟩ | ⟨stream', hmem, a, ha, hno⟩
          · exact .inl ⟨u, List.mem_append_right _ hu, hleft⟩
          · refine .inr ⟨stream', List.mem_cons_of_mem _ hmem, a, ha, ?_⟩
            unfold sweep
            rw [hrun]
            exact hno

theorem stops_of_gate {s u : Pass α} {streams : List (ℕ × List (Option α))}
    (h : (u, none) ∈ traces s streams) (hleft : u.left = 0) : stops s streams ≠ [] := by
  induction streams generalizing s with
  | nil => cases h
  | cons stream rest ih =>
      unfold stops
      rcases List.mem_append.mp h with h | h
      · obtain ⟨t, ht⟩ := run_of_gate h hleft
        rw [ht]
        exact List.cons_ne_nil _ _
      · have hrest := ih h
        cases hrun : (s.renew stream.1).run stream.2 with
        | error t => exact List.cons_ne_nil _ _
        | ok t =>
            rw [hrun] at hrest
            exact hrest

/-! ### When a stop tells the truth -/

section exact
variable (streams : List (ℕ × List (Option α))) (Wanted : α → Prop)

/-- **A pass stops exactly when a wanted item is missing, and what is met with something left is taken,
exactly when no lost item is met so and: an item of a stream is in no share, or a gate is met with
nothing left exactly when a wanted item is on no stream.** -/
theorem exact_iff (hwanted : ∀ stream ∈ streams, ∀ a, some a ∈ stream.2 → Wanted a) :
    ((stops start streams ≠ [] ↔ ∃ a, Wanted a ∧ a ∉ (sweep start streams).taken) ∧
      ∀ u a, (u, some a) ∈ traces start streams → 0 < u.left → a ∈ (sweep start streams).taken) ↔
    Kept (traces start streams) ∧
      ((∃ stream ∈ streams, ∃ a, some a ∈ stream.2 ∧ a ∉ shares [] streams) ∨
        ((∃ u, (u, none) ∈ traces start streams ∧ u.left = 0) ↔
          ∃ a, Wanted a ∧ ∀ stream ∈ streams, some a ∉ stream.2)) := by
  rw [met_iff, and_comm]
  refine and_congr_right fun hkept => ?_
  have hshares : (sweep start streams).taken = shares [] streams := taken_sweep valid_start hkept
  rw [hshares]
  by_cases hmissing : ∃ stream ∈ streams, ∃ a, some a ∈ stream.2 ∧ a ∉ shares [] streams
  · refine iff_of_true ?_ (.inl hmissing)
    obtain ⟨stream, hstream, a, ha, hno⟩ := hmissing
    refine iff_of_true (fun hstop => hno ?_) ⟨a, hwanted stream hstream a ha, hno⟩
    rw [← hshares]
    exact taken_of_no_stop hstop (fun _ h => absurd h List.not_mem_nil) a
      (seen_of_no_stop hstop hstream ha)
  · have hall : ∀ stream ∈ streams, ∀ a, some a ∈ stream.2 → a ∈ shares [] streams :=
      fun stream hstream a ha => by_contra fun hno => hmissing ⟨stream, hstream, a, ha, hno⟩
    have hstop : stops start streams ≠ [] ↔
        ∃ u, (u, none) ∈ traces start streams ∧ u.left = 0 := by
      refine ⟨fun h => (stops_cases valid_start h).resolve_right ?_, fun ⟨u, hu, hleft⟩ =>
        stops_of_gate hu hleft⟩
      rintro ⟨stream, hstream, a, ha, hno⟩
      exact hno (hshares ▸ hall stream hstream a ha)
    have hwant : (∃ a, Wanted a ∧ a ∉ shares [] streams) ↔
        ∃ a, Wanted a ∧ ∀ stream ∈ streams, some a ∉ stream.2 := by
      refine exists_congr fun a => and_congr_right fun _ => ⟨fun hno stream hstream ha => ?_,
        fun hno ha => ?_⟩
      · exact hno (hall stream hstream a ha)
      · rw [← hshares] at ha
        rcases mem_of_taken_sweep ha with ha | ⟨stream, hstream, ha⟩
        · exact absurd ha List.not_mem_nil
        · exact hno stream hstream ha
    rw [hstop, hwant]
    exact ⟨.inr, fun h => h.resolve_left hmissing⟩

end exact

end Pass
end Lib
