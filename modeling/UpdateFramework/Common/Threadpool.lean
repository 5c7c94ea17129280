import UpdateFramework.Collections.Fifo
import UpdateFramework.Collections.Ring

/-!
# Common — the work queue

`threadpool.c`: a ring of items with a count, between the threads that push and the threads that
pop.  Each function holds the queue's lock throughout, except that `tpq_pop` gives it up to wait and
then looks at the queue again, woken by a push, by the shutdown or by nothing.  So a run of the queue
is a sequence of pushes, of looks by whichever thread is in `tpq_pop`, and of shutdowns
(`Tpq.Run`).

The queue refines a bounded FIFO (`tpq_refines_fifo`).
-/

namespace UpdateFramework

open Collections

variable {α : Type}

/-- `tpq_t`, without the lock and the condition. -/
structure Tpq (α : Type) where
  items : List α
  capacity : ℕ
  head : ℕ
  tail : ℕ
  count : ℕ
  shutdown : Bool

/-- `tpq_init`, with whether `calloc` succeeds. -/
def tpqInit [Inhabited α] (capacity : ℕ) (allocated : Bool) : Option (Tpq α) :=
  if capacity ≤ 0 then none
  else if ¬ allocated then none
  else some ⟨List.replicate capacity default, capacity, 0, 0, 0, false⟩

/-- `tpq_push`: whether it returns `0`, and the queue after it. -/
def tpqPush (q : Tpq α) (item : α) : Bool × Tpq α :=
  if q.shutdown ∨ q.count ≥ q.capacity then (false, q)
  else (true, { q with
    items := q.items.set q.tail item
    tail := (q.tail + 1) % q.capacity
    count := q.count + 1 })

/-- `tpq_pop`, from where it holds the lock: it waits, gives an item out, or returns `-1`. -/
def tpqPop [Inhabited α] (q : Tpq α) : Taken α × Tpq α :=
  if ¬ q.shutdown ∧ q.count = 0 then (.waits, q)
  else if q.count = 0 ∧ q.shutdown then (.stopped, q)
  else (.item (q.items.getD q.head default), { q with
    head := (q.head + 1) % q.capacity
    count := q.count - 1 })

/-- `tpq_shutdown` -/
def tpqShutdown (q : Tpq α) : Tpq α := { q with shutdown := true }

/-- `tpq_destroy`: the cells are freed, whatever they hold. -/
def tpqDestroy (_ : Tpq α) : Tpq α := ⟨[], 0, 0, 0, 0, false⟩

namespace Tpq

/-- One critical section of a thread that uses the queue. -/
inductive Step [Inhabited α] : Tpq α → FifoEvent α → Tpq α → Prop where
  | push (q : Tpq α) (item : α) : Step q (.put item (tpqPush q item).1) (tpqPush q item).2
  | pop (q : Tpq α) : Step q (.take (tpqPop q).1) (tpqPop q).2
  | shutdown (q : Tpq α) : Step q .close (tpqShutdown q)

/-- A run of the queue from `q₀`, and its events. -/
inductive Run [Inhabited α] (q₀ : Tpq α) : List (FifoEvent α) → Tpq α → Prop where
  | start : Run q₀ [] q₀
  | step {evs : List (FifoEvent α)} {q q' : Tpq α} {ev : FifoEvent α}
      (h : Run q₀ evs q) (hs : Step q ev q') : Run q₀ (evs ++ [ev]) q'

/-- The ring's invariant. -/
structure Valid (q : Tpq α) : Prop where
  length : q.items.length = q.capacity
  head_lt : q.head < q.capacity
  tail_lt : q.tail < q.capacity
  count_le : q.count ≤ q.capacity
  tail_eq : q.tail = (q.head + q.count) % q.capacity

/-- What the ring stands for. -/
def view (q : Tpq α) : Fifo α := ⟨ringContents q.items q.head q.count, q.shutdown⟩

section Operations

variable {q q' : Tpq α}

/-- A push into a full or closed queue fails and changes nothing. -/
theorem push_refused (h : q.shutdown = true ∨ q.capacity ≤ q.count) (item : α) :
    tpqPush q item = (false, q) :=
  if_pos h

theorem Valid.length_held (h : q.Valid) : q.view.held.length = q.count :=
  length_ringContents (h.length ▸ h.count_le)

theorem Valid.held_eq_nil (h : q.Valid) : q.view.held = [] ↔ q.count = 0 := by
  rw [← List.length_eq_zero_iff, h.length_held]

/-- Any other adds the item at the end. -/
theorem push_view (hq : q.Valid) (hs : q.shutdown = false) (hc : q.count < q.capacity) (item : α) :
    (tpqPush q item).1 = true ∧ (tpqPush q item).2.Valid ∧
      (tpqPush q item).2.view = { q.view with held := q.view.held ++ [item] } := by
  have hgo : ¬ (q.shutdown = true ∨ q.count ≥ q.capacity) := by
    rintro (h | h)
    · rw [hs] at h
      cases h
    · exact absurd h (Nat.not_le.mpr hc)
  have hlt : q.count < q.items.length := hq.length ▸ hc
  rw [tpqPush, if_neg hgo]
  refine ⟨rfl, ⟨?_, hq.head_lt, Nat.mod_lt _ (Nat.zero_lt_of_lt hc), hc, ?_⟩, ?_⟩
  · exact (List.length_set ..).trans hq.length
  · show (q.tail + 1) % q.capacity = (q.head + (q.count + 1)) % q.capacity
    rw [hq.tail_eq, Nat.mod_add_mod, Nat.add_assoc]
  · have hpush := ringContents_push q.items q.head hlt item
    rw [hq.length, ← hq.tail_eq] at hpush
    exact congrArg (Fifo.mk · q.shutdown) hpush

variable [Inhabited α]

theorem valid_init {capacity : ℕ} (hpos : 1 ≤ capacity) (hq : tpqInit capacity true = some q) :
    q.Valid ∧ q.view = ⟨[], false⟩ ∧ q.capacity = capacity := by
  have hne : ¬ capacity ≤ 0 := Nat.not_le.mpr hpos
  rw [tpqInit, if_neg hne, if_neg (by simp)] at hq
  cases hq
  exact ⟨⟨List.length_replicate .., hpos, hpos, Nat.zero_le _, (Nat.zero_mod _).symm⟩, rfl, rfl⟩

theorem pop_waits (h : q.shutdown = false) (hc : q.count = 0) : tpqPop q = (.waits, q) :=
  if_pos ⟨by simp [h], hc⟩

theorem pop_stopped (h : q.shutdown = true) (hc : q.count = 0) : tpqPop q = (.stopped, q) := by
  rw [tpqPop, if_neg fun hn => hn.1 h, if_pos ⟨hc, h⟩]

/-- A pop from a queue that holds something gives the oldest item out. -/
theorem pop_view (hq : q.Valid) (hc : 0 < q.count) :
    ∃ x xs, q.view.held = x :: xs ∧ (tpqPop q).1 = .item x ∧ (tpqPop q).2.Valid ∧
      (tpqPop q).2.view = ⟨xs, q.shutdown⟩ := by
  obtain ⟨n, hn⟩ : ∃ n, q.count = n + 1 := Nat.exists_eq_succ_of_ne_zero (Nat.ne_of_gt hc)
  have hle : n + 1 ≤ q.capacity := hn ▸ hq.count_le
  obtain ⟨x, hx, hpop⟩ := ringContents_pop q.items q.head (hq.length ▸ hle)
  rw [hq.length] at hpop
  rw [hq.length, Nat.mod_eq_of_lt hq.head_lt] at hx
  rw [tpqPop, if_neg fun h => absurd h.2 (Nat.ne_of_gt hc),
    if_neg fun h => absurd h.1 (Nat.ne_of_gt hc)]
  refine ⟨x, ringContents q.items ((q.head + 1) % q.capacity) n, ?_, ?_, ⟨hq.length, ?_,
    hq.tail_lt, ?_, ?_⟩, ?_⟩
  · exact (congrArg (ringContents q.items q.head) hn).trans hpop
  · rw [List.getD_eq_getElem?_getD, hx, Option.getD_some]
  · exact Nat.mod_lt _ (Nat.zero_lt_of_lt hq.head_lt)
  · exact (Nat.sub_le ..).trans hq.count_le
  · show q.tail = ((q.head + 1) % q.capacity + (q.count - 1)) % q.capacity
    rw [hq.tail_eq, Nat.mod_add_mod, hn, Nat.add_sub_cancel, Nat.add_assoc, Nat.add_comm 1 n]
  · rw [view, hn, Nat.add_sub_cancel]

omit [Inhabited α] in
/-- What a successful push does. -/
theorem held_of_push (hq : q.Valid) {item : α} (h : (tpqPush q item).1 = true) :
    (tpqPush q item).2.Valid ∧ (tpqPush q item).2.view.held = q.view.held ++ [item] := by
  by_cases hfull : q.shutdown = true ∨ q.capacity ≤ q.count
  · rw [push_refused hfull] at h
    cases h
  · rw [not_or, Nat.not_le, Bool.not_eq_true] at hfull
    obtain ⟨-, hvalid, hview⟩ := push_view hq hfull.1 hfull.2 item
    exact ⟨hvalid, congrArg Fifo.held hview⟩

omit [Inhabited α] in
/-- What a push that fails does. -/
theorem eq_of_push {item : α} (h : (tpqPush q item).1 = false) : (tpqPush q item).2 = q := by
  by_cases hfull : q.shutdown = true ∨ q.capacity ≤ q.count
  · rw [push_refused hfull]
  · rw [tpqPush, if_neg hfull] at h
    cases h

/-- What a pop that gives an item out does. -/
theorem held_of_pop (hq : q.Valid) {x : α} (h : (tpqPop q).1 = .item x) :
    (tpqPop q).2.Valid ∧ q.view.held = x :: (tpqPop q).2.view.held := by
  rcases Nat.eq_zero_or_pos q.count with hc | hc
  · cases hshut : q.shutdown with
    | false =>
        rw [pop_waits hshut hc] at h
        cases h
    | true =>
        rw [pop_stopped hshut hc] at h
        cases h
  · obtain ⟨y, ys, hheld, hitem, hvalid, hview⟩ := pop_view hq hc
    rw [hitem] at h
    cases h
    exact ⟨hvalid, hheld.trans (congrArg (List.cons x) (congrArg Fifo.held hview).symm)⟩

/-- Each critical section is a step of the FIFO. -/
theorem Step.refines {ev : FifoEvent α} (hq : q.Valid) (hs : Step q ev q') :
    q'.Valid ∧ q'.capacity = q.capacity ∧ Fifo.Step q.capacity q.view ev q'.view := by
  cases hs with
  | push item =>
      by_cases h : q.shutdown = true ∨ q.capacity ≤ q.count
      · rw [push_refused h]
        exact ⟨hq, rfl, .refuse item (h.imp id fun h => hq.length_held ▸ h)⟩
      · rw [not_or, Nat.not_le, Bool.not_eq_true] at h
        obtain ⟨hok, hvalid, hview⟩ := push_view hq h.1 h.2 item
        have hcap : (tpqPush q item).2.capacity = q.capacity := by
          rw [tpqPush]
          split <;> rfl
        rw [hok, hview]
        exact ⟨hvalid, hcap, .put item h.1 (hq.length_held ▸ h.2)⟩
  | pop =>
      rcases Nat.eq_zero_or_pos q.count with hc | hc
      · have hnil := hq.held_eq_nil.mpr hc
        cases hshut : q.shutdown with
        | false =>
            rw [pop_waits hshut hc]
            have hview : q.view = ⟨[], false⟩ := by rw [view, ← hnil, hshut]; rfl
            exact ⟨hq, rfl, hview ▸ .wait⟩
        | true =>
            rw [pop_stopped hshut hc]
            have hview : q.view = ⟨[], true⟩ := by rw [view, ← hnil, hshut]; rfl
            exact ⟨hq, rfl, hview ▸ .stop⟩
      · obtain ⟨x, xs, hheld, hitem, hvalid, hview⟩ := pop_view hq hc
        have hcap : (tpqPop q).2.capacity = q.capacity := by
          rw [tpqPop]
          split
          · rfl
          · split <;> rfl
        have hold : q.view = ⟨x :: xs, q.shutdown⟩ := by rw [← hheld]; rfl
        rw [hitem, hview, hold]
        exact ⟨hvalid, hcap, .take x xs q.shutdown⟩
  | shutdown => exact ⟨⟨hq.length, hq.head_lt, hq.tail_lt, hq.count_le, hq.tail_eq⟩, rfl, .close⟩

end Operations

/-- A run of the queue is a run of the FIFO. -/
theorem Run.refines [Inhabited α] {capacity : ℕ} (hpos : 1 ≤ capacity) {q₀ q : Tpq α}
    (hq₀ : tpqInit capacity true = some q₀) {evs : List (FifoEvent α)} (h : Run q₀ evs q) :
    q.Valid ∧ q.capacity = capacity ∧ Fifo.Run capacity evs q.view := by
  obtain ⟨hvalid₀, hview₀, hcap₀⟩ := valid_init hpos hq₀
  induction h with
  | start => exact ⟨hvalid₀, hcap₀, hview₀ ▸ .start⟩
  | step h hs ih =>
      obtain ⟨hvalid, hcap, hrun⟩ := ih
      obtain ⟨hvalid', hcap', hstep⟩ := hs.refines hvalid
      exact ⟨hvalid', hcap'.trans hcap, hrun.step (hcap ▸ hstep)⟩

end Tpq

/-- **The work queue is a bounded FIFO.**  After every run the ring is in order; what was popped,
followed by what the ring holds, is what was pushed; a push fails exactly when the queue is full or
shut down, and then changes nothing; a pop gives the oldest item out, waits, or, when the queue is
shut down and empty, returns `-1`. -/
theorem tpq_refines_fifo [Inhabited α] {capacity : ℕ} (hpos : 1 ≤ capacity) {q₀ q : Tpq α}
    (hq₀ : tpqInit capacity true = some q₀) {evs : List (FifoEvent α)} (h : Tpq.Run q₀ evs q) :
    (q.capacity = capacity ∧ q.count ≤ capacity ∧ q.head < capacity ∧ q.tail < capacity ∧
        q.tail = (q.head + q.count) % capacity) ∧
      takenOut evs ++ ringContents q.items q.head q.count = putIn evs ∧
      (q.shutdown = true ↔ FifoEvent.close ∈ evs) ∧
      (∀ item, ((tpqPush q item).1 = false ↔ q.count = capacity ∨ q.shutdown = true) ∧
        ((tpqPush q item).1 = false → (tpqPush q item).2 = q)) ∧
      ((tpqPop q).1 = .waits ↔ ringContents q.items q.head q.count = [] ∧ q.shutdown = false) ∧
      ((tpqPop q).1 = .stopped ↔ ringContents q.items q.head q.count = [] ∧ q.shutdown = true) ∧
      ∀ x, (tpqPop q).1 = .item x ↔ ∃ xs, ringContents q.items q.head q.count = x :: xs ∧
        ringContents (tpqPop q).2.items (tpqPop q).2.head (tpqPop q).2.count = xs := by
  obtain ⟨hvalid, rfl, hrun⟩ := h.refines hpos hq₀
  have hpop : Fifo.Step q.capacity q.view (.take (tpqPop q).1) (tpqPop q).2.view :=
    ((Tpq.Step.pop q).refines hvalid).2.2
  refine ⟨⟨rfl, hvalid.count_le, hvalid.head_lt, hvalid.tail_lt, hvalid.tail_eq⟩, hrun.conserved,
    hrun.closed_iff, fun item => ?_, ?_⟩
  · by_cases hfull : q.shutdown = true ∨ q.capacity ≤ q.count
    · rw [Tpq.push_refused hfull]
      refine ⟨⟨fun _ => ?_, fun _ => rfl⟩, fun _ => rfl⟩
      exact hfull.symm.imp (fun h => Nat.le_antisymm hvalid.count_le h) id
    · rw [not_or, Nat.not_le, Bool.not_eq_true] at hfull
      obtain ⟨hok, -, -⟩ := Tpq.push_view hvalid hfull.1 hfull.2 item
      rw [hok]
      refine ⟨⟨nofun, ?_⟩, nofun⟩
      rintro (hc | hs)
      · exact absurd hc (Nat.ne_of_lt hfull.2)
      · rw [hfull.1] at hs
        cases hs
  · change (_ ↔ q.view.held = [] ∧ q.view.closed = false) ∧
      (_ ↔ q.view.held = [] ∧ q.view.closed = true) ∧
      ∀ x, _ ↔ ∃ xs, q.view.held = x :: xs ∧ (tpqPop q).2.view.held = xs
    generalize (tpqPop q).1 = r at hpop
    generalize (tpqPop q).2.view = after at hpop
    generalize q.view = before at hpop
    cases hpop with
    | wait => simp
    | take x xs closed => simp
    | stop => simp

/-- Two items fill a queue of two cells, a third is refused, and the first comes out. -/
theorem tpq_refines_fifo_two :
    ∃ q : Tpq ℕ, Tpq.Run ⟨[0, 0], 2, 0, 0, 0, false⟩
        [.put 5 true, .put 6 true, .put 7 false, .take (.item 5)] q ∧
      [5] ++ ringContents q.items q.head q.count = [5, 6] := by
  have hrun : Tpq.Run (α := ℕ) ⟨[0, 0], 2, 0, 0, 0, false⟩
      [.put 5 true, .put 6 true, .put 7 false, .take (.item 5)] ⟨[5, 6], 2, 1, 0, 1, false⟩ :=
    (((Tpq.Run.start.step (.push _ 5)).step (.push _ 6)).step (.push _ 7)).step (.pop _)
  have h := (tpq_refines_fifo (show 0 < 2 by decide) rfl hrun).2.1
  exact ⟨_, hrun, h⟩

end UpdateFramework
