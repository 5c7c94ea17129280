import Mathlib.Data.List.TakeWhile
import UpdateFramework.Collections.Fifo
import UpdateFramework.Collections.Ring
import UpdateFramework.Common.Constants
import UpdateFramework.Libc.Lines
import UpdateFramework.Process.Program

/-!
# Common — the logger

`logger.c`: `log_msg` puts lines into a bounded queue, and counts those it has no room for; the
logger's thread takes them out one at a time and writes them, with a record of what was dropped
before.  The thread's wait, its look at the queue and the removal of a line are one critical section
(`loggerTake`), and so is the rest of `log_msg` after its line is made (`logEnqueue`).

`dropped` is an `unsigned long`: dropping 2^64 lines before the thread takes the next one leaves it
as it was, and these lines are in no record (`logger_wraps`).  The surroundings count how often that
happens.
-/

namespace UpdateFramework

open Libc Process Collections

/-- `log_level_t` -/
inductive LogLevel where
  | debug | info | warn | error
  deriving DecidableEq

/-- The value of the constant. -/
def LogLevel.toNat : LogLevel → ℕ
  | .debug => 0
  | .info => 1
  | .warn => 2
  | .error => 3

/-- `level_text` -/
def levelText : LogLevel → Bytes
  | .debug => ascii "DEBUG"
  | .info => ascii "INFO "
  | .warn => ascii "WARN "
  | .error => ascii "ERROR"

/-- `logger_state_t` -/
structure Logger where
  queue : List Bytes
  head : ℕ
  tail : ℕ
  count : ℕ
  stop : Bool
  dropped : UInt64
  ring : List Bytes
  ringStart : ℕ
  ringCount : ℕ
  started : Bool
  minLevel : LogLevel

/-- `logger_start`, once it has returned `0`. -/
def loggerStart (minLevel : LogLevel) : Logger where
  queue := List.replicate logQueueCap []
  head := 0
  tail := 0
  count := 0
  stop := false
  dropped := 0
  ring := List.replicate guiLogRing []
  ringStart := 0
  ringCount := 0
  started := true
  minLevel := minLevel

/-- The line `log_msg` makes of its arguments, at a time. -/
def logLine (level : LogLevel) (stamp threadTag clientInfo message : Bytes) : Bytes :=
  snprintf logLineMax (cstr stamp ++ ascii " [" ++ levelText level ++ ascii "] [" ++
    cstr threadTag ++ ascii "] [" ++ cstr clientInfo ++ ascii "] " ++ snprintf 256 (cstr message))

/-- What `log_msg` does under the lock: whether there is room, and the logger after it. -/
def logEnqueue (g : Logger) (line : Bytes) : Bool × Logger :=
  if g.count = logQueueCap then (false, { g with dropped := g.dropped + 1 })
  else (true, { g with
    queue := g.queue.set g.tail (snprintf logLineMax (cstr line))
    tail := (g.tail + 1) % logQueueCap
    count := g.count + 1 })

/-- `logger_thread`, from where it holds the lock: it waits, leaves its loop, or takes the oldest
line and the number of lines dropped. -/
def loggerTake (g : Logger) : Taken (Bytes × UInt64) × Logger :=
  if ¬ g.stop ∧ g.count = 0 then (.waits, g)
  else if g.stop ∧ g.count = 0 then (.stopped, g)
  else (.item (snprintf logLineMax (cstr (g.queue.getD g.head [])), g.dropped), { g with
    head := (g.head + 1) % logQueueCap
    count := g.count - 1
    dropped := 0 })

/-- What `logger_stop` does under the lock. -/
def loggerStop (g : Logger) : Logger := { g with stop := true }

/-- `ring_add` -/
def ringAdd (g : Logger) (line : Bytes) : Logger :=
  if g.ringCount = guiLogRing then { g with
    ring := g.ring.set g.ringStart (snprintf logLineMax (cstr line))
    ringStart := (g.ringStart + 1) % guiLogRing }
  else { g with
    ring := g.ring.set ((g.ringStart + g.ringCount) % guiLogRing) (snprintf logLineMax (cstr line))
    ringCount := g.ringCount + 1 }

/-- The record of dropped lines. -/
def droppedLine (dropped : UInt64) : Bytes :=
  snprintf logLineMax (ascii "logger queue overflow: dropped " ++ decimal dropped.toNat ++
    ascii " log lines")

/-! ### The thread -/

inductive LoggerOp where
  /-- A line and the number of lines dropped, unless the loop is left. -/
  | take
  /-- `write_line_unlocked` -/
  | writeLine (line : Bytes)

@[reducible] def LoggerOp.Res : LoggerOp → Type
  | .take => Option (Bytes × UInt64)
  | .writeLine _ => Unit

@[reducible] def loggerInterface : Interface := ⟨LoggerOp, LoggerOp.Res⟩

/-- A round of the loop of `logger_thread`. -/
def loggerRound : Unit → Prog loggerInterface (Unit ⊕ Unit) := fun _ =>
  .call LoggerOp.take fun
    | none => .ret (.inr ())
    | some (line, dropped) =>
      if dropped > 0 then
        .call (LoggerOp.writeLine (droppedLine dropped)) fun _ =>
          .call (LoggerOp.writeLine line) fun _ => .ret (.inl ())
      else .call (LoggerOp.writeLine line) fun _ => .ret (.inl ())

/-- `logger_thread` -/
def loggerThread (bound : ℕ) : Prog loggerInterface Unit := Prog.iterate bound loggerRound ()

/-! ### Its surroundings -/

/-- The logger, the lines of the log file, the lines `log_msg` has been given so far that were of the
minimum level, each with whether there was room for it, and how often the number of lines dropped
has passed its greatest value. -/
structure LogWorld where
  logger : Logger
  file : List Bytes
  submitted : List (Bytes × Bool)
  wraps : ℕ

/-- `1` if the next line passes the number of lines dropped beyond its greatest value. -/
def Logger.wrapping (g : Logger) : ℕ := if g.count = logQueueCap ∧ g.dropped + 1 = 0 then 1 else 0

/-- What other threads do: `log_msg`, and `logger_stop`. -/
inductive LogStep : LogWorld → LogWorld → Prop where
  | ignored (w : LogWorld) (level : LogLevel) (h : level.toNat < w.logger.minLevel.toNat) :
      LogStep w w
  | message (w : LogWorld) (level : LogLevel) (stamp threadTag clientInfo message : Bytes)
      (h : ¬ level.toNat < w.logger.minLevel.toNat) (hs : w.logger.started = true) :
      LogStep w { w with
        logger := (logEnqueue w.logger (logLine level stamp threadTag clientInfo message)).2
        submitted := w.submitted ++ [(logLine level stamp threadTag clientInfo message,
          (logEnqueue w.logger (logLine level stamp threadTag clientInfo message)).1)]
        wraps := w.wraps + w.logger.wrapping }
  | stop (w : LogWorld) : LogStep w { w with logger := loggerStop w.logger }

/-- The surroundings of the logger's thread. -/
def loggerEnv : Env loggerInterface LogWorld where
  may w o r w' :=
    match o, r with
    | .take, some x => loggerTake w.logger = (.item x, w'.logger) ∧
        w' = { w with logger := w'.logger }
    | .take, none => (loggerTake w.logger).1 = .stopped ∧ w' = w
    | .writeLine line, _ =>
        w' = { w with logger := ringAdd w.logger line, file := w.file ++ [line] }
  drift := Relation.ReflTransGen LogStep
  drift_refl _ := .refl
  drift_trans := .trans

/-! ### Records -/

/-- What a line of the log file is. -/
inductive LogRecord where
  | line (text : Bytes)
  | dropped (n : UInt64)

def LogRecord.text : LogRecord → Bytes
  | .line text => text
  | .dropped n => droppedLine n

/-- The messages written. -/
def writtenMessages (recs : List LogRecord) : List Bytes :=
  recs.filterMap fun
    | .line text => some text
    | .dropped _ => none

/-- The messages reported as dropped. -/
def reportedDrops (recs : List LogRecord) : ℕ :=
  (recs.map fun
    | .line _ => 0
    | .dropped n => n.toNat).sum

/-- The messages there was room for, in order. -/
def enqueued (submitted : List (Bytes × Bool)) : List Bytes :=
  submitted.filterMap fun x => if x.2 then some x.1 else none

/-- How many there was no room for. -/
def refused (submitted : List (Bytes × Bool)) : ℕ := submitted.countP fun x => !x.2

/-- Every message has been written once, in order, or is counted in a record of dropped lines, but
for so many. -/
def Accounted (lost : ℕ) (w : LogWorld) : Prop :=
  ∃ recs : List LogRecord, w.file = recs.map LogRecord.text ∧
    writtenMessages recs = enqueued w.submitted ∧
    reportedDrops recs + lost = refused w.submitted ∧
    w.submitted.length = (writtenMessages recs).length + (reportedDrops recs + lost)

/-! ### Lines -/

/-- A text that passes through `snprintf("%s")` as it is. -/
def IsLine (l : Bytes) : Prop := 0 ∉ l ∧ l.length < logLineMax

theorem IsLine.copy {l : Bytes} (h : IsLine l) : snprintf logLineMax (cstr l) = l := by
  have hcstr : cstr l = l := by
    rw [cstr, List.takeWhile_eq_self_iff]
    intro b hb
    exact decide_eq_true fun h0 => h.1 (h0 ▸ hb)
  rw [hcstr]
  exact List.take_of_length_le (Nat.le_sub_one_of_lt h.2)

theorem isLine_logLine (level : LogLevel) (stamp threadTag clientInfo message : Bytes) :
    IsLine (logLine level stamp threadTag clientInfo message) := by
  constructor
  · intro h
    have h := List.mem_of_mem_take h
    have hlevel : 0 ∉ levelText level := by cases level <;> decide
    have hmsg : 0 ∉ snprintf 256 (cstr message) :=
      fun h => zero_not_mem_cstr message (List.mem_of_mem_take h)
    have hascii : 0 ∉ ascii " [" ∧ 0 ∉ ascii "] [" ∧ 0 ∉ ascii "] " := by decide
    simp only [List.mem_append] at h
    simp only [zero_not_mem_cstr, hlevel, hmsg, hascii.1, hascii.2.1, hascii.2.2, or_self] at h
  · exact Nat.lt_of_le_of_lt (List.length_take_le ..) (by decide)

/-! ### The queue -/

namespace Logger

/-- The invariant of the queue: lines are dropped only while it is full. -/
structure Valid (g : Logger) : Prop where
  length : g.queue.length = logQueueCap
  head_lt : g.head < logQueueCap
  count_le : g.count ≤ logQueueCap
  tail_eq : g.tail = (g.head + g.count) % logQueueCap
  full : 0 < g.dropped → g.count = logQueueCap
  lines : ∀ l ∈ ringContents g.queue g.head g.count, IsLine l

/-- The lines in the queue. -/
def waiting (g : Logger) : List Bytes := ringContents g.queue g.head g.count

variable {g : Logger}

theorem valid_start (minLevel : LogLevel) : (loggerStart minLevel).Valid where
  length := List.length_replicate
  head_lt := Nat.zero_lt_succ _
  count_le := Nat.zero_le _
  tail_eq := (Nat.zero_mod _).symm
  full := nofun
  lines := nofun

theorem enqueue_full (h : g.count = logQueueCap) (line : Bytes) :
    logEnqueue g line = (false, { g with dropped := g.dropped + 1 }) :=
  if_pos h

/-- A line for which there is room comes last. -/
theorem enqueue_room (hg : g.Valid) (h : g.count ≠ logQueueCap) {line : Bytes} (hl : IsLine line) :
    (logEnqueue g line).1 = true ∧ (logEnqueue g line).2.Valid ∧
      (logEnqueue g line).2.waiting = g.waiting ++ [line] ∧
      (logEnqueue g line).2.dropped = g.dropped := by
  have hlt : g.count < logQueueCap := Nat.lt_of_le_of_ne hg.count_le h
  have hpush := ringContents_push g.queue g.head (hg.length ▸ hlt) line
  rw [hg.length, ← hg.tail_eq] at hpush
  rw [logEnqueue, if_neg h, hl.copy]
  refine ⟨rfl, ⟨?_, hg.head_lt, hlt, ?_, fun hd => absurd (hg.full hd) h, ?_⟩, hpush, rfl⟩
  · exact (List.length_set ..).trans hg.length
  · show (g.tail + 1) % logQueueCap = (g.head + (g.count + 1)) % logQueueCap
    rw [hg.tail_eq, Nat.mod_add_mod, Nat.add_assoc]
  · intro l hm
    rcases List.mem_append.mp (hpush ▸ hm) with hm | hm
    · exact hg.lines l hm
    · exact List.mem_singleton.mp hm ▸ hl

/-- What the thread takes is the first line, with the number of lines dropped so far. -/
theorem take_item (hg : g.Valid) {x : Bytes × UInt64} {g' : Logger}
    (h : loggerTake g = (.item x, g')) :
    g.waiting = x.1 :: g'.waiting ∧ x.2 = g.dropped ∧ g'.Valid ∧ g'.dropped = 0 := by
  rcases Nat.eq_zero_or_pos g.count with hc | hc
  · rw [loggerTake] at h
    by_cases hs : g.stop = true
    · rw [if_neg fun hn => hn.1 hs, if_pos ⟨hs, hc⟩] at h
      cases h
    · rw [if_pos ⟨hs, hc⟩] at h
      cases h
  rw [loggerTake, if_neg fun h => absurd h.2 (Nat.ne_of_gt hc),
    if_neg fun h => absurd h.2 (Nat.ne_of_gt hc)] at h
  cases h
  obtain ⟨n, hn⟩ : ∃ n, g.count = n + 1 := Nat.exists_eq_succ_of_ne_zero (Nat.ne_of_gt hc)
  have hle : n + 1 ≤ logQueueCap := hn ▸ hg.count_le
  obtain ⟨l, hl, hpop⟩ := ringContents_pop g.queue g.head (hg.length ▸ hle)
  rw [hg.length] at hpop
  rw [hg.length, Nat.mod_eq_of_lt hg.head_lt] at hl
  have hwaiting : ringContents g.queue g.head g.count =
      l :: ringContents g.queue ((g.head + 1) % logQueueCap) n := by rw [hn, hpop]
  have hget : g.queue.getD g.head [] = l := by
    rw [List.getD_eq_getElem?_getD, hl, Option.getD_some]
  have hline : IsLine l := hg.lines l (hwaiting ▸ List.mem_cons_self)
  rw [hget, hline.copy]
  refine ⟨?_, rfl, ⟨hg.length, Nat.mod_lt _ (by decide), ?_, ?_, nofun, ?_⟩, rfl⟩
  · show ringContents g.queue g.head g.count = _
    rw [hwaiting, waiting, hn, Nat.add_sub_cancel]
  · exact (Nat.sub_le ..).trans hg.count_le
  · show g.tail = ((g.head + 1) % logQueueCap + (g.count - 1)) % logQueueCap
    rw [hg.tail_eq, Nat.mod_add_mod, hn, Nat.add_sub_cancel, Nat.add_assoc, Nat.add_comm 1 n]
  · intro m hm
    have hm' : m ∈ ringContents g.queue ((g.head + 1) % logQueueCap) n := by
      simpa [hn] using hm
    exact hg.lines m (hwaiting ▸ List.mem_cons_of_mem _ hm')

/-- The thread leaves its loop with the queue empty, and then nothing dropped is unreported. -/
theorem take_stopped (hg : g.Valid) (h : (loggerTake g).1 = .stopped) :
    g.waiting = [] ∧ g.dropped = 0 := by
  have hc : g.count = 0 := by
    by_contra hc
    rw [loggerTake, if_neg fun h => hc h.2, if_neg fun h => hc h.2] at h
    cases h
  refine ⟨by rw [waiting, hc, ringContents_zero], ?_⟩
  by_contra hd
  have hfull := hg.full (UInt64.pos_iff_ne_zero.mpr hd)
  rw [hc] at hfull
  cases hfull

theorem ringAdd_waiting (hg : g.Valid) (line : Bytes) :
    (ringAdd g line).Valid ∧ (ringAdd g line).waiting = g.waiting ∧
      (ringAdd g line).dropped = g.dropped := by
  rw [ringAdd]
  split
  · exact ⟨⟨hg.length, hg.head_lt, hg.count_le, hg.tail_eq, hg.full, hg.lines⟩, rfl, rfl⟩
  · exact ⟨⟨hg.length, hg.head_lt, hg.count_le, hg.tail_eq, hg.full, hg.lines⟩, rfl, rfl⟩

end Logger

/-! ### The accounts -/

/-- The accounts while the thread has `hand` to write and `owed` lines to report as dropped. -/
structure Accounts (hand : List Bytes) (owed : UInt64) (w : LogWorld) : Prop where
  valid : w.logger.Valid
  balance : ∃ recs : List LogRecord, w.file = recs.map LogRecord.text ∧
    writtenMessages recs ++ hand ++ w.logger.waiting = enqueued w.submitted ∧
    reportedDrops recs + owed.toNat + w.logger.dropped.toNat + 2 ^ 64 * w.wraps =
      refused w.submitted

section Accounts

variable {hand : List Bytes} {owed : UInt64} {w w' : LogWorld}

theorem length_submitted (submitted : List (Bytes × Bool)) :
    submitted.length = (enqueued submitted).length + refused submitted := by
  induction submitted with
  | nil => rfl
  | cons x submitted ih =>
      obtain ⟨line, ok⟩ := x
      cases ok with
      | true => simp [enqueued, refused] at ih ⊢; omega
      | false => simp [enqueued, refused] at ih ⊢; omega

theorem enqueued_snoc (submitted : List (Bytes × Bool)) (line : Bytes) (ok : Bool) :
    enqueued (submitted ++ [(line, ok)]) = enqueued submitted ++ if ok then [line] else [] := by
  cases ok <;> simp [enqueued]

theorem refused_snoc (submitted : List (Bytes × Bool)) (line : Bytes) (ok : Bool) :
    refused (submitted ++ [(line, ok)]) = refused submitted + if ok then 0 else 1 := by
  cases ok <;> simp [refused, List.countP_append]

/-- One more line dropped, on a number of 64 bits and beyond it. -/
theorem toNat_dropped_succ (dropped : UInt64) :
    (dropped + 1).toNat + 2 ^ 64 * (if dropped + 1 = 0 then 1 else 0) = dropped.toNat + 1 := by
  have hlt := dropped.toNat_lt
  have hsum : (dropped + 1).toNat = (dropped.toNat + 1) % 2 ^ 64 := by simp
  have hzero : dropped + 1 = 0 ↔ (dropped + 1).toNat = 0 := by
    rw [← UInt64.toNat_inj, UInt64.toNat_zero]
  simp only [hzero, hsum]
  split <;> omega

/-- Other threads keep the accounts. -/
theorem Accounts.step (h : Accounts hand owed w) (hs : LogStep w w') : Accounts hand owed w' := by
  obtain ⟨hvalid, recs, hfile, hlines, hdrops⟩ := h
  cases hs with
  | ignored level hlow => exact ⟨hvalid, recs, hfile, hlines, hdrops⟩
  | message level stamp threadTag clientInfo message hlevel hstarted =>
      have hline := isLine_logLine level stamp threadTag clientInfo message
      by_cases hfull : w.logger.count = logQueueCap
      · rw [Logger.enqueue_full hfull]
        refine ⟨⟨hvalid.length, hvalid.head_lt, hvalid.count_le, hvalid.tail_eq, fun _ => hfull,
          hvalid.lines⟩, recs, hfile, ?_, ?_⟩
        · rw [enqueued_snoc]
          exact hlines.trans (List.append_nil _).symm
        · have hsucc := toNat_dropped_succ w.logger.dropped
          have hwraps : w.logger.wrapping = if w.logger.dropped + 1 = 0 then 1 else 0 := by
            simp only [Logger.wrapping, hfull, true_and]
          simp only [refused_snoc, hwraps, Bool.false_eq_true, if_false]
          omega
      · obtain ⟨hok, hvalid', hwaiting, hdropped⟩ := Logger.enqueue_room hvalid hfull hline
        rw [hok]
        refine ⟨hvalid', recs, hfile, ?_, ?_⟩
        · rw [enqueued_snoc, if_pos rfl, ← hlines, List.append_assoc _ _ [_]]
          exact congrArg _ hwaiting
        · have hwraps : w.logger.wrapping = 0 := if_neg fun h => hfull h.1
          rw [refused_snoc, if_pos rfl, Nat.add_zero, ← hdrops, hwraps, hdropped]
          rfl
  | stop =>
      exact ⟨⟨hvalid.length, hvalid.head_lt, hvalid.count_le, hvalid.tail_eq, hvalid.full,
        hvalid.lines⟩, recs, hfile, hlines, hdrops⟩

theorem Accounts.drift (h : Accounts hand owed w) (hd : loggerEnv.drift w w') :
    Accounts hand owed w' := by
  induction hd with
  | refl => exact h
  | tail _ hs ih => exact ih.step hs

/-- A line the thread had to write is written. -/
theorem Accounts.writeLine {line : Bytes} (h : Accounts (line :: hand) owed w) :
    Accounts hand owed
      { w with logger := ringAdd w.logger line, file := w.file ++ [line] } := by
  obtain ⟨hvalid, recs, hfile, hlines, hdrops⟩ := h
  obtain ⟨hvalid', hwaiting, hdropped⟩ := Logger.ringAdd_waiting hvalid line
  refine ⟨hvalid', recs ++ [.line line], ?_, ?_, ?_⟩
  · rw [List.map_append, ← hfile]
    rfl
  · rw [show writtenMessages (recs ++ [.line line]) = writtenMessages recs ++ [line] from
      List.filterMap_append, ← hlines, List.append_assoc _ [line]]
    exact congrArg _ hwaiting
  · rw [show reportedDrops (recs ++ [.line line]) = reportedDrops recs by simp [reportedDrops],
      ← hdrops, hdropped]

/-- The dropped lines are reported. -/
theorem Accounts.writeDropped (h : Accounts hand owed w) :
    Accounts hand 0 { w with
      logger := ringAdd w.logger (droppedLine owed), file := w.file ++ [droppedLine owed] } := by
  obtain ⟨hvalid, recs, hfile, hlines, hdrops⟩ := h
  obtain ⟨hvalid', hwaiting, hdropped⟩ := Logger.ringAdd_waiting hvalid (droppedLine owed)
  refine ⟨hvalid', recs ++ [.dropped owed], ?_, ?_, ?_⟩
  · rw [List.map_append, ← hfile]
    rfl
  · rw [show writtenMessages (recs ++ [.dropped owed]) = writtenMessages recs by
      simp [writtenMessages], ← hlines]
    exact congrArg _ hwaiting
  · rw [show reportedDrops (recs ++ [.dropped owed]) = reportedDrops recs + owed.toNat by
      simp [reportedDrops], ← hdrops, hdropped]
    rfl

/-- The thread takes a line, and owes a report of the lines dropped. -/
theorem Accounts.take {x : Bytes × UInt64} (h : Accounts [] 0 w)
    (ht : loggerTake w.logger = (.item x, w'.logger)) (hw : w' = { w with logger := w'.logger }) :
    Accounts [x.1] x.2 w' := by
  obtain ⟨hvalid, recs, hfile, hlines, hdrops⟩ := h
  obtain ⟨hwaiting, hx, hvalid', hdropped⟩ := Logger.take_item hvalid ht
  rw [hwaiting] at hlines
  rw [← hx] at hdrops
  have hfile' : w'.file = w.file := by rw [hw]
  have hsub : w'.submitted = w.submitted := by rw [hw]
  have hwraps : w'.wraps = w.wraps := by rw [hw]
  refine ⟨hvalid', recs, hfile'.trans hfile, ?_, ?_⟩
  · rw [hsub, ← hlines, List.append_nil, List.append_assoc]
    rfl
  · rw [hsub, hwraps, ← hdrops, hdropped]
    rfl

/-- When the thread leaves its loop, everything is accounted for. -/
theorem Accounts.stopped (h : Accounts [] 0 w) (hs : (loggerTake w.logger).1 = .stopped) :
    Accounted (2 ^ 64 * w.wraps) w := by
  obtain ⟨hvalid, recs, hfile, hlines, hdrops⟩ := h
  obtain ⟨hwaiting, hdropped⟩ := Logger.take_stopped hvalid hs
  rw [hwaiting, List.append_nil, List.append_nil] at hlines
  rw [hdropped] at hdrops
  refine ⟨recs, hfile, hlines, hdrops, ?_⟩
  rw [length_submitted, hlines, ← hdrops]
  rfl

end Accounts

/-! ### The thread's runs -/

/-- The thread leaves its loop only when everything is accounted for. -/
def leavesAccounted (w : LogWorld) (o : LoggerOp) : Prop :=
  o = .take → (loggerTake w.logger).1 = .stopped → Accounted (2 ^ 64 * w.wraps) w

/-- What a round leaves, unless the loop is left. -/
def AfterTake : Unit ⊕ Unit → LogWorld → Prop
  | .inl _, w => Accounts [] 0 w
  | .inr _, _ => True

theorem loggerRound_safe {w : LogWorld} (h : Accounts [] 0 w) :
    Safe loggerEnv leavesAccounted AfterTake (loggerRound ()) w := by
  have hwrite : ∀ {w : LogWorld} {line : Bytes}, Accounts [line] 0 w →
      Safe loggerEnv leavesAccounted AfterTake
        (.call (LoggerOp.writeLine line) fun _ => .ret (.inl ())) w := by
    intro w line h w₁ hd
    refine ⟨nofun, ?_⟩
    rintro _ _ rfl w₂ hd₂
    exact ((h.drift hd).writeLine).drift hd₂
  intro w₁ hd
  have h₁ := h.drift hd
  refine ⟨fun _ hs => h₁.stopped hs, fun r w₂ hm => ?_⟩
  cases r with
  | none => exact fun _ _ => trivial
  | some x =>
      obtain ⟨line, dropped⟩ := x
      have h₂ := h₁.take hm.1 hm.2
      by_cases hpos : dropped > 0
      · simp only [if_pos hpos]
        intro w₃ hd₃
        refine ⟨nofun, ?_⟩
        rintro _ _ rfl
        exact hwrite (h₂.drift hd₃).writeDropped
      · have hzero : dropped = 0 := not_not.mp (mt UInt64.pos_iff_ne_zero.mpr hpos)
        subst hzero
        simp only [if_neg hpos]
        exact hwrite h₂

theorem loggerThread_safe (bound : ℕ) {w : LogWorld} (h : Accounts [] 0 w) :
    Safe loggerEnv leavesAccounted (fun _ _ => True) (loggerThread bound) w := by
  refine safe_loop loggerRound trivial (fun _ w => Accounts [] 0 w) (fun _ w h => ?_) bound h
  refine (loggerRound_safe h).post fun r w h => ?_
  cases r with
  | inl _ => exact h
  | inr _ => exact fun _ _ => trivial

/-- The thread returns when it has taken nothing. -/
theorem loggerThread_last (bound : ℕ) (tr : List (Call loggerInterface)) :
    Safe (Env.any loggerInterface) (fun _ _ => True)
      (fun _ tr => ∃ before, tr = before ++ [⟨.take, none⟩]) (loggerThread bound) tr := by
  refine safe_loop loggerRound trivial (fun _ _ => True) (fun _ tr _ => ?_) bound trivial
  refine safe_any_call.mpr ⟨trivial, fun r => ?_⟩
  cases r with
  | none =>
      rintro _ rfl _ rfl
      exact ⟨tr, rfl⟩
  | some x =>
      obtain ⟨line, dropped⟩ := x
      dsimp only
      split
      · exact safe_any_call.mpr ⟨trivial, fun _ => safe_any_call.mpr ⟨trivial, fun _ _ _ => trivial⟩⟩
      · exact safe_any_call.mpr ⟨trivial, fun _ _ _ => trivial⟩

/-- **No log event disappears.**  At the moment the logger's thread leaves its loop, in every
interleaving with the threads that log and with the stop, every message of the minimum level has
been written once, in the order of submission, or is counted in one record of dropped lines; but for
2^64 messages each time the number of lines dropped has passed its greatest value, which takes as
many. -/
theorem logger_accounts (bound : ℕ) (minLevel : LogLevel) {p : Prog loggerInterface Unit}
    {w w' : LogWorld}
    (hrun : Run loggerEnv (loggerThread bound, ⟨loggerStart minLevel, [], [], 0⟩) (p, w))
    (hp : p ≠ .ret ()) (hexit : Step loggerEnv (p, w) (.ret (), w')) :
    Accounted (2 ^ 64 * w'.wraps) w' ∧ (refused w'.submitted < 2 ^ 64 → Accounted 0 w') := by
  have hinit : Accounts [] 0 ⟨loggerStart minLevel, [], [], 0⟩ :=
    ⟨Logger.valid_start minLevel, [], rfl, rfl, rfl⟩
  have hsafe : Safe loggerEnv leavesAccounted (fun _ _ => True) p w :=
    (loggerThread_safe bound hinit).run hrun
  obtain ⟨tr, htr⟩ := hrun.exists_trace
  have haccounted : Accounted (2 ^ 64 * w'.wraps) w' := by
    rcases hexit.inv with ⟨heq, -⟩ | ⟨o, k, r, rfl, hk, hm⟩
    · exact absurd heq.symm hp
    · -- the last call took nothing
      have hlast := (loggerThread_last bound []).run (htr.history.tail (.op (r := r) rfl))
      rw [← hk] at hlast
      obtain ⟨before, hbefore⟩ := hlast.result
      obtain ⟨-, hcall⟩ := List.append_inj' hbefore rfl
      cases hcall
      obtain ⟨hstop, rfl⟩ := hm
      exact hsafe.guard rfl hstop
  refine ⟨haccounted, fun hfew => ?_⟩
  have hnone : w'.wraps = 0 := by
    obtain ⟨recs, -, -, hdrops, -⟩ := haccounted
    omega
  rwa [hnone] at haccounted

/-! ### Runs with a full queue -/

section Full

/-- A message of the minimum level and beyond. -/
def oneLine : Bytes := logLine .error [] (ascii "main") (ascii "-") (ascii "ready")

/-- What the logger is after a message. -/
def LogWorld.after (w : LogWorld) : LogWorld :=
  { w with
    logger := (logEnqueue w.logger oneLine).2
    submitted := w.submitted ++ [(oneLine, (logEnqueue w.logger oneLine).1)]
    wraps := w.wraps + w.logger.wrapping }

theorem LogWorld.step_after {w : LogWorld} (hs : w.logger.started = true) :
    LogStep w w.after := by
  have hlevel : ¬ LogLevel.error.toNat < w.logger.minLevel.toNat := by
    cases w.logger.minLevel <;> decide
  exact .message w .error [] (ascii "main") (ascii "-") (ascii "ready") hlevel hs

/-- Messages fill the queue. -/
theorem fills (n : ℕ) (hn : n ≤ logQueueCap) : ∃ w : LogWorld,
    loggerEnv.drift ⟨loggerStart .info, [], [], 0⟩ w ∧ w.logger.Valid ∧ w.logger.count = n ∧
      w.logger.dropped = 0 ∧ w.logger.started = true ∧ w.file = [] ∧
      w.submitted = List.replicate n (oneLine, true) := by
  induction n with
  | zero => exact ⟨_, .refl, Logger.valid_start .info, rfl, rfl, rfl, rfl, rfl⟩
  | succ n ih =>
      obtain ⟨w, hdrift, hvalid, hcount, hdropped, hstarted, hfile, hsub⟩ := ih (Nat.le_of_lt hn)
      have hroom : w.logger.count ≠ logQueueCap := hcount.trans_ne (Nat.ne_of_lt hn)
      obtain ⟨hok, hvalid', -, hdropped'⟩ :=
        Logger.enqueue_room hvalid hroom (isLine_logLine .error [] (ascii "main") (ascii "-")
          (ascii "ready"))
      refine ⟨w.after, hdrift.tail (LogWorld.step_after hstarted), hvalid', ?_,
        hdropped'.trans hdropped, ?_, hfile, ?_⟩
      · show (logEnqueue w.logger oneLine).2.count = n + 1
        rw [logEnqueue, if_neg hroom, ← hcount]
      · show (logEnqueue w.logger oneLine).2.started = true
        rw [logEnqueue, if_neg hroom, ← hstarted]
      · rw [List.replicate_succ', ← hsub]
        exact congrArg (fun ok => w.submitted ++ [(oneLine, ok)]) hok

/-- While it is full, messages are dropped. -/
theorem overflows {w : LogWorld} (hfull : w.logger.count = logQueueCap)
    (hstarted : w.logger.started = true) (n : ℕ) : ∃ w' : LogWorld,
      loggerEnv.drift w w' ∧
      w'.logger = { w.logger with dropped := w.logger.dropped + UInt64.ofNat n } ∧
      w'.file = w.file ∧ w'.submitted = w.submitted ++ List.replicate n (oneLine, false) := by
  induction n with
  | zero => exact ⟨w, .refl, by simp, rfl, (List.append_nil _).symm⟩
  | succ n ih =>
      obtain ⟨w', hdrift, hlogger, hfile, hsub⟩ := ih
      have hfull' : w'.logger.count = logQueueCap := by rw [hlogger, hfull]
      refine ⟨w'.after, hdrift.tail (LogWorld.step_after ?_), ?_, hfile, ?_⟩
      · rw [hlogger]
        exact hstarted
      · show (logEnqueue w'.logger oneLine).2 = _
        rw [Logger.enqueue_full hfull', hlogger, UInt64.ofNat_add, ← UInt64.add_assoc]
        rfl
      · simp [LogWorld.after, Logger.enqueue_full hfull', hsub, List.replicate_succ']

/-- A round of the thread, and the rounds after it. -/
theorem loggerThread_succ (bound : ℕ) : loggerThread (bound + 1) =
    .call LoggerOp.take fun
      | none => .ret ()
      | some (line, dropped) =>
        if dropped > 0 then
          .call (LoggerOp.writeLine (droppedLine dropped)) fun _ =>
            .call (LoggerOp.writeLine line) fun _ => loggerThread bound
        else .call (LoggerOp.writeLine line) fun _ => loggerThread bound := by
  rw [loggerThread, Prog.iterate, loggerRound, Prog.call_bind]
  refine congrArg _ (funext fun r => ?_)
  cases r with
  | none => rfl
  | some x =>
      dsimp only
      split <;> rfl

/-- A line is written. -/
def LogWorld.write (w : LogWorld) (line : Bytes) : LogWorld :=
  { w with logger := ringAdd w.logger line, file := w.file ++ [line] }

theorem LogWorld.write_queue {w : LogWorld} (hvalid : w.logger.Valid) (line : Bytes) :
    (w.write line).logger.Valid ∧ (w.write line).logger.count = w.logger.count ∧
      (w.write line).logger.stop = w.logger.stop ∧
      (w.write line).logger.dropped = w.logger.dropped := by
  obtain ⟨hvalid', -, hdropped⟩ := Logger.ringAdd_waiting hvalid line
  refine ⟨hvalid', ?_, ?_, hdropped⟩
  · show (ringAdd w.logger line).count = _
    rw [ringAdd]
    split <;> rfl
  · show (ringAdd w.logger line).stop = _
    rw [ringAdd]
    split <;> rfl

theorem Logger.take_some {g : Logger} (hne : g.count ≠ 0) : ∃ line g',
    loggerTake g = (.item (line, g.dropped), g') ∧ g'.count = g.count - 1 ∧ g'.stop = g.stop := by
  rw [loggerTake, if_neg fun h => hne h.2, if_neg fun h => hne h.2]
  exact ⟨_, _, rfl, rfl, rfl⟩

/-- A round of the thread on a queue that is not empty. -/
theorem round_run (bound : ℕ) {w : LogWorld} (hvalid : w.logger.Valid)
    (hne : w.logger.count ≠ 0) : ∃ w' : LogWorld,
      Run loggerEnv (loggerThread (bound + 1), w) (loggerThread bound, w') ∧ w'.logger.Valid ∧
      w'.logger.count = w.logger.count - 1 ∧ w'.logger.stop = w.logger.stop ∧
      w'.logger.dropped = 0 ∧ w'.submitted = w.submitted ∧
      (w.logger.dropped = 0 → w'.file.length = w.file.length + 1) := by
  obtain ⟨line, g', htake, hcount, hstop⟩ := Logger.take_some hne
  obtain ⟨-, -, hvalid', hdropped⟩ := Logger.take_item hvalid htake
  have hmay : loggerEnv.may w .take (some (line, w.logger.dropped)) { w with logger := g' } :=
    ⟨htake, rfl⟩
  rw [loggerThread_succ]
  by_cases hpos : w.logger.dropped > 0
  · -- the record of what was dropped comes first
    let w₁ : LogWorld := LogWorld.write { w with logger := g' } (droppedLine w.logger.dropped)
    obtain ⟨hvalid₁, hcount₁, hstop₁, hdropped₁⟩ := LogWorld.write_queue
      (w := { w with logger := g' }) hvalid' (droppedLine w.logger.dropped)
    obtain ⟨hvalid₂, hcount₂, hstop₂, hdropped₂⟩ := LogWorld.write_queue (w := w₁) hvalid₁ line
    refine ⟨w₁.write line, .head (.op hmay) ?_, hvalid₂, (hcount₂.trans hcount₁).trans hcount,
      (hstop₂.trans hstop₁).trans hstop, (hdropped₂.trans hdropped₁).trans hdropped, rfl,
      fun hzero => absurd hzero (UInt64.pos_iff_ne_zero.mp hpos)⟩
    dsimp only
    rw [if_pos hpos]
    exact .head (.op (r := ()) rfl) (.single (.op (r := ()) rfl))
  · obtain ⟨hvalid₁, hcount₁, hstop₁, hdropped₁⟩ := LogWorld.write_queue
      (w := { w with logger := g' }) hvalid' line
    refine ⟨LogWorld.write { w with logger := g' } line, .head (.op hmay) ?_, hvalid₁,
      hcount₁.trans hcount, hstop₁.trans hstop, hdropped₁.trans hdropped, rfl,
      fun _ => List.length_append⟩
    dsimp only
    rw [if_neg hpos]
    exact .single (.op (r := ()) rfl)

/-- After the stop the thread empties the queue. -/
theorem drains (n bound : ℕ) {w : LogWorld} (hvalid : w.logger.Valid) (hcount : w.logger.count = n)
    (hstop : w.logger.stop = true) : ∃ w' : LogWorld,
      Run loggerEnv (loggerThread (bound + n), w) (loggerThread bound, w') ∧
      w'.logger.count = 0 ∧ w'.logger.stop = true ∧ w'.submitted = w.submitted ∧
      (w.logger.dropped = 0 → w'.file.length = w.file.length + n) := by
  induction n generalizing w with
  | zero => exact ⟨w, .refl, hcount, hstop, rfl, fun _ => rfl⟩
  | succ n ih =>
      obtain ⟨w₁, hrun₁, hvalid₁, hcount₁, hstop₁, hdropped₁, hsub₁, hfile₁⟩ :=
        round_run (bound + n) hvalid (hcount.trans_ne (Nat.succ_ne_zero n))
      obtain ⟨w₂, hrun₂, hcount₂, hstop₂, hsub₂, hfile₂⟩ :=
        ih hvalid₁ (by rw [hcount₁, hcount, Nat.add_sub_cancel]) (hstop₁.trans hstop)
      refine ⟨w₂, hrun₁.trans hrun₂, hcount₂, hstop₂, hsub₂.trans hsub₁, fun hzero => ?_⟩
      rw [hfile₂ hdropped₁, hfile₁ hzero, Nat.add_assoc, Nat.add_comm 1 n]

/-- `n` messages more than there is room for, the stop, and the thread empties the queue. -/
theorem full_run (n : ℕ) : ∃ w w' : LogWorld,
    Run loggerEnv (loggerThread (1 + logQueueCap), ⟨loggerStart .info, [], [], 0⟩)
      (loggerThread 1, w) ∧
    Step loggerEnv (loggerThread 1, w) (.ret (), w') ∧
    (enqueued w'.submitted).length = logQueueCap ∧ refused w'.submitted = n ∧
    (UInt64.ofNat n = 0 → w'.file.length = logQueueCap) := by
  obtain ⟨w₁, hdrift₁, hvalid₁, hcount₁, hdropped₁, hstarted₁, hfile₁, hsub₁⟩ :=
    fills logQueueCap (Nat.le_refl _)
  obtain ⟨w₂, hdrift₂, hlogger₂, hfile₂, hsub₂⟩ := overflows hcount₁ hstarted₁ n
  let w₃ : LogWorld := { w₂ with logger := loggerStop w₂.logger }
  have hlogger₃ : w₃.logger =
      { w₁.logger with dropped := w₁.logger.dropped + UInt64.ofNat n, stop := true } := by
    simp only [w₃, loggerStop, hlogger₂]
  have hvalid₃ : w₃.logger.Valid := by
    rw [hlogger₃]
    exact ⟨hvalid₁.length, hvalid₁.head_lt, hvalid₁.count_le, hvalid₁.tail_eq, fun _ => hcount₁,
      hvalid₁.lines⟩
  obtain ⟨w₄, hrun₄, hcount₄, hstop₄, hsub₄, hfile₄⟩ :=
    drains logQueueCap 1 hvalid₃ (by rw [hlogger₃, hcount₁]) (by rw [hlogger₃])
  have hdrift : loggerEnv.drift ⟨loggerStart .info, [], [], 0⟩ w₃ :=
    (hdrift₁.trans hdrift₂).tail (.stop w₂)
  have hstopped : loggerEnv.may w₄ .take none w₄ := by
    refine ⟨?_, rfl⟩
    rw [loggerTake, if_neg fun h => h.1 hstop₄, if_pos ⟨hstop₄, hcount₄⟩]
  have hsub : w₄.submitted =
      List.replicate logQueueCap (oneLine, true) ++ List.replicate n (oneLine, false) := by
    rw [hsub₄, ← hsub₁]
    exact hsub₂
  refine ⟨w₄, w₄, .head (.drift hdrift) hrun₄, .op hstopped, ?_, ?_, fun hn => ?_⟩
  · simp [hsub, enqueued]
  · simp [hsub, refused, List.countP_replicate]
  · have hzero : w₃.logger.dropped = 0 := by rw [hlogger₃, hdropped₁, hn, UInt64.add_zero]
    rw [hfile₄ hzero, show w₃.file = w₂.file from rfl, hfile₂, hfile₁, List.length_nil,
      Nat.zero_add]

end Full

/-- A message more than there is room for: it is in a record. -/
theorem logger_accounts_full :
    ∃ w', w'.submitted.length = logQueueCap + 1 ∧ refused w'.submitted = 1 ∧ Accounted 0 w' := by
  obtain ⟨w, w', hrun, hexit, henqueued, hrefused, -⟩ := full_run 1
  refine ⟨w', by rw [length_submitted, henqueued, hrefused], hrefused, ?_⟩
  exact (logger_accounts (1 + logQueueCap) .info hrun nofun hexit).2 (hrefused.trans_lt (by decide))

/-- The records of a file with as many lines as messages report nothing. -/
theorem reportedDrops_eq_zero {recs : List LogRecord}
    (h : (writtenMessages recs).length = recs.length) : reportedDrops recs = 0 := by
  have hle : ∀ recs : List LogRecord, (writtenMessages recs).length ≤ recs.length :=
    fun recs => List.length_filterMap_le ..
  induction recs with
  | nil => rfl
  | cons r recs ih =>
      cases r with
      | line text => simpa [reportedDrops] using ih (Nat.succ.inj h)
      | dropped n => exact absurd (h ▸ hle recs) (Nat.not_succ_le_self _)

/-- Messages that bring the number of lines dropped back to 0 are in no record. -/
theorem lost_run {n : ℕ} (hn : UInt64.ofNat n = 0) (hpos : n ≠ 0) :
    ∃ (p : Prog loggerInterface Unit) (w w' : LogWorld),
      Run loggerEnv (loggerThread (1 + logQueueCap), ⟨loggerStart .info, [], [], 0⟩) (p, w) ∧
        p ≠ .ret () ∧ Step loggerEnv (p, w) (.ret (), w') ∧ ¬ Accounted 0 w' := by
  obtain ⟨w, w', hrun, hexit, henqueued, hrefused, hfile⟩ := full_run n
  refine ⟨_, w, w', hrun, nofun, hexit, ?_⟩
  rintro ⟨recs, hrecs, hwritten, hdrops, -⟩
  have hlength : recs.length = logQueueCap := by
    rw [← hfile hn, hrecs, List.length_map]
  rw [reportedDrops_eq_zero (by rw [hwritten, henqueued, hlength]), hrefused] at hdrops
  exact hpos hdrops.symm

/-- 2^64 messages more than there is room for: they are in no record. -/
theorem logger_wraps : ∃ (p : Prog loggerInterface Unit) (w w' : LogWorld),
    Run loggerEnv (loggerThread (1 + logQueueCap), ⟨loggerStart .info, [], [], 0⟩) (p, w) ∧
      p ≠ .ret () ∧ Step loggerEnv (p, w) (.ret (), w') ∧ ¬ Accounted 0 w' :=
  lost_run (n := 2 ^ 64) (by decide) (by decide)

end UpdateFramework
