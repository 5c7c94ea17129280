import UpdateFramework.Collections.Rollcall
import UpdateFramework.Server.Connections

/-!
# Server — what a shutdown reaches

The workers and the callers of `server_request_shutdown` are a `Rollcall`: a worker posts its
connection in its slot of `g_worker_fds`, and a shutdown goes down the slots.  A worker that posts
its connection behind the shutdown's back is never reached (`session_not_reached`), and one that
closes its connection while it is being reached for is reached too late (`shutdown_after_close`);
in every run without these, all sessions are reached in time (`shutdown_reaches`).
-/

namespace UpdateFramework.Server

open Collections Libc Process

/-! ### A worker and its slot -/

/-- Where a worker is with its slot, after a call. -/
def dutyStep (duty : Attendance ℕ) : Call threadInterface → Attendance ℕ
  | ⟨.storeWorkerFd _ (some fd), _⟩ => .present fd
  | ⟨.storeWorkerFd _ none, _⟩ => .away
  | ⟨.close _, _⟩ =>
    match duty with
    | .present fd => .leaving fd
    | duty => duty
  | _ => duty

/-- A worker is `present` from the time it posts a connection until it closes it, and `leaving`
until it takes it off. -/
def duty (tr : ThreadHistory) : Attendance ℕ := tr.foldl dutyStep .away

@[simp] theorem duty_nil : duty [] = .away := rfl

@[simp] theorem duty_concat (tr : ThreadHistory) (x : Call threadInterface) :
    duty (tr ++ [x]) = dutyStep (duty tr) x :=
  List.foldl_concat ..

/-- Worker `id` posts a connection it has in hand, and takes it off once it has closed it. -/
def keepsSlot (id : ℕ) (tr : ThreadHistory) : ThreadOp → Prop
  | .storeWorkerFd i (some fd) => i = id ∧ duty tr = .away ∧ inHand tr = some fd
  | .storeWorkerFd i none => i = id ∧ ∃ fd, duty tr = .leaving fd
  | .close fd => duty tr = .away ∨ duty tr = .present fd
  | .tpqPop => duty tr = .away
  | .accept _ | .tpqPush _ | .shutdown _ | .loadWorkerFd _ | .clearListenFd => False
  | _ => True

/-- An operation that has nothing to do with slots or connections. -/
def apart : ThreadOp → Prop
  | .storeWorkerFd _ _ | .shutdown _ | .loadWorkerFd _ | .clearListenFd => False
  | o => sparesHand o

/-- The worker is at `d` with its slot, and has `hand` in hand. -/
structure OnDuty (d : Attendance ℕ) (hand : Option ℕ) (tr : ThreadHistory) : Prop where
  duty : duty tr = d
  hand : inHand tr = hand

theorem dutyStep_apart {o : ThreadOp} (h : apart o) (r : ThreadOp.Res o) (d : Attendance ℕ) :
    dutyStep d ⟨o, r⟩ = d := by
  cases o with
  | storeWorkerFd _ _ => exact h.elim
  | close _ => exact h.elim
  | _ => rfl

theorem sparesHand_of_apart {o : ThreadOp} (h : apart o) : sparesHand o := by
  cases o with
  | storeWorkerFd _ _ | shutdown _ | loadWorkerFd _ | clearListenFd => exact h.elim
  | _ => exact h

theorem keepsSlot_apart {id : ℕ} {tr : ThreadHistory} {o : ThreadOp} (h : apart o) :
    keepsSlot id tr o := by
  cases o with
  | storeWorkerFd _ _ | shutdown _ | loadWorkerFd _ | clearListenFd | close _ => exact h.elim
  | accept _ | tpqPush _ | tpqPop => exact h.elim
  | _ => trivial

theorem OnDuty.apart {d : Attendance ℕ} {hand : Option ℕ} {tr : ThreadHistory}
    (h : OnDuty d hand tr) {o : ThreadOp} (ho : apart o) (r : ThreadOp.Res o) :
    OnDuty d hand (tr ++ [made o r]) where
  duty := by rw [duty_concat, dutyStep_apart ho, h.duty]
  hand := by rw [inHand_concat, handStep_spared (sparesHand_of_apart ho), h.hand]

section Worker

variable {id : ℕ} {α β : Type} {d : Attendance ℕ} {hand : Option ℕ} {tr : ThreadHistory}

theorem apart_safe {p : ThreadProg α} (hp : p.Only apart) (h : OnDuty d hand tr) :
    Safe (Env.any threadInterface) (keepsSlot id) (fun _ => OnDuty d hand) p tr := by
  induction p generalizing tr with
  | ret a => exact safe_any_ret.mpr h
  | call o k ih =>
      exact safe_any_call.mpr ⟨keepsSlot_apart hp.1, fun r => ih r (hp.2 r) (h.apart hp.1 r)⟩
  | spin => trivial

theorem apart_bind {p : ThreadProg α} {f : α → ThreadProg β} {Q : β → ThreadHistory → Prop}
    (hp : p.Only apart) (h : OnDuty d hand tr)
    (hf : ∀ a tr, OnDuty d hand tr → Safe (Env.any threadInterface) (keepsSlot id) Q (f a) tr) :
    Safe (Env.any threadInterface) (keepsSlot id) Q (p >>= f) tr :=
  safe_bind.mpr ((apart_safe hp h).post hf)

theorem apart_call {o : ThreadOp} {k : ThreadOp.Res o → ThreadProg β}
    {Q : β → ThreadHistory → Prop} (ho : apart o) (h : OnDuty d hand tr)
    (hk : ∀ r tr, OnDuty d hand tr → Safe (Env.any threadInterface) (keepsSlot id) Q (k r) tr) :
    Safe (Env.any threadInterface) (keepsSlot id) Q (.call o k) tr :=
  safe_any_call.mpr ⟨keepsSlot_apart ho, fun r => hk r _ (h.apart ho r)⟩

/-- Every worker has a slot. -/
theorem serverTrackWorkerFd_tracked (hid : 1 ≤ id ∧ id < trackedWorkerFds) (fd : Option ℕ) :
    serverTrackWorkerFd id fd = Thread.storeWorkerFd id fd :=
  if_neg (not_or.mpr ⟨Nat.ne_of_gt hid.1, Nat.not_le.mpr hid.2⟩)

/-- A worker without a connection. -/
abbrev OffDuty {α : Type} (_ : α) (tr : ThreadHistory) : Prop := OnDuty .away none tr

theorem connClose_keepsSlot {fd : ℕ} (ssl : Bool) {d' : Attendance ℕ}
    (hd : dutyStep d (made (.close fd) ()) = d')
    (hguard : d = .away ∨ d = .present fd) (h : OnDuty d hand tr) :
    Safe (Env.any threadInterface) (keepsSlot id) (fun _ => OnDuty d' none) (connClose fd ssl)
      tr := by
  have hclose : ∀ tr, OnDuty d hand tr → Safe (Env.any threadInterface) (keepsSlot id)
      (fun _ => OnDuty d' none) (Thread.close fd) tr := by
    intro tr h
    refine safe_any_call.mpr ⟨?_, fun _ => safe_any_ret.mpr ⟨?_, inHand_concat ..⟩⟩
    · exact hguard.imp h.duty.trans h.duty.trans
    · rw [duty_concat, h.duty]
      exact hd
  cases ssl with
  | true => exact apart_call trivial h fun _ => hclose
  | false => exact hclose tr h

theorem dropConnection_keepsSlot (hid : 1 ≤ id ∧ id < trackedWorkerFds) (item : TpqItem)
    (ssl : Bool) (h : OnDuty (.present item.fd) (some item.fd) tr) :
    Safe (Env.any threadInterface) (keepsSlot id) OffDuty (dropConnection id item ssl) tr := by
  unfold dropConnection
  rw [serverTrackWorkerFd_tracked hid]
  refine safe_bind.mpr ((connClose_keepsSlot ssl rfl (.inr rfl) h).post fun _ tr h => ?_)
  refine safe_any_call.mpr ⟨⟨rfl, _, h.duty⟩, fun _ => ?_⟩
  have haway : OnDuty .away none (tr ++ [made (.storeWorkerFd id none) ()]) :=
    ⟨duty_concat .., (inHand_concat ..).trans h.hand⟩
  refine apart_call trivial haway fun _ tr h => apart_call trivial h fun _ tr h => ?_
  exact safe_any_ret.mpr h

theorem threadSession_apart (cfg : ThreadsConfig) (clientInfo : Bytes) :
    (threadSession cfg clientInfo).Only apart := by
  have hone : ∀ o : ServerOp,
      (Prog.call (E := threadInterface) (ThreadOp.session o) .ret).Only apart := fun o =>
    .call trivial fun _ => trivial
  exact .interp hone _

theorem serveConnection_keepsSlot (cfg : ThreadsConfig) (hid : 1 ≤ id ∧ id < trackedWorkerFds)
    (item : TpqItem) (ssl : Bool) (h : OnDuty (.present item.fd) (some item.fd) tr) :
    Safe (Env.any threadInterface) (keepsSlot id) OffDuty (serveConnection cfg id item ssl) tr := by
  unfold serveConnection
  refine apart_bind (threadSession_apart cfg item.clientInfo) h fun rc tr h => ?_
  split
  · refine apart_call trivial h fun _ tr h => apart_call trivial h fun _ tr h => ?_
    exact dropConnection_keepsSlot hid item ssl h
  · refine apart_call trivial h fun _ tr h => ?_
    exact dropConnection_keepsSlot hid item ssl h

theorem workerRound_keepsSlot (cfg : ThreadsConfig) (hid : 1 ≤ id ∧ id < trackedWorkerFds)
    (h : OnDuty .away none tr) :
    Safe (Env.any threadInterface) (keepsSlot id) OffDuty (workerRound cfg id ()) tr := by
  unfold workerRound
  simp only [serverTrackWorkerFd_tracked hid, Prog.call_bind, Prog.ret_bind]
  refine apart_call trivial h fun running tr h => ?_
  split
  · exact safe_any_ret.mpr h
  refine safe_any_call.mpr ⟨h.duty, fun popped => ?_⟩
  have hduty : duty (tr ++ [made .tpqPop popped]) = .away := (duty_concat ..).trans h.duty
  cases popped with
  | none => exact safe_any_ret.mpr ⟨hduty, (inHand_concat ..).trans h.hand⟩
  | some item =>
      have h : OnDuty .away (some item.fd) (tr ++ [made .tpqPop (some item)]) :=
        ⟨hduty, inHand_concat ..⟩
      refine apart_call trivial h fun running tr h => ?_
      split
      · refine safe_bind.mpr ((connClose_keepsSlot false rfl (.inl rfl) h).post fun _ tr h => ?_)
        exact safe_any_ret.mpr h
      refine apart_call trivial h fun _ tr h => apart_call trivial h fun _ tr h => ?_
      refine safe_any_call.mpr ⟨⟨rfl, h.duty, h.hand⟩, fun _ => ?_⟩
      have h : OnDuty (.present item.fd) (some item.fd)
          (tr ++ [made (.storeWorkerFd id (some item.fd)) ()]) :=
        ⟨duty_concat .., (inHand_concat ..).trans h.hand⟩
      split
      · refine apart_call trivial h fun ssl tr h => ?_
        split
        · refine apart_call trivial h fun _ tr h => apart_call trivial h fun _ tr h => ?_
          exact dropConnection_keepsSlot hid item false h
        · exact serveConnection_keepsSlot cfg hid item true h
      · exact serveConnection_keepsSlot cfg hid item false h

/-- A worker keeps its slot in order. -/
theorem workerThread_keepsSlot (bound : ℕ) (cfg : ThreadsConfig)
    (hid : 1 ≤ id ∧ id < trackedWorkerFds) :
    Safe (Env.any threadInterface) (keepsSlot id) OffDuty (workerThread bound cfg id) [] := by
  unfold workerThread
  simp only [Prog.call_bind, Prog.ret_bind]
  refine apart_call trivial ⟨duty_nil, inHand_nil⟩ fun _ tr h => safe_bind.mpr ?_
  refine (safe_loop (workerRound cfg id) trivial (fun _ => OffDuty ()) (fun _ tr h => ?_) bound
    h).post fun _ tr h => apart_call trivial h fun _ tr h => safe_any_ret.mpr h
  refine (workerRound_keepsSlot cfg hid h).post fun r tr h => ?_
  cases r with
  | inl _ => exact h
  | inr _ => exact safe_any_ret (G := keepsSlot id).mpr h

end Worker

/-! ### A shutdown and the slots -/

/-- What a shutdown has read in a slot and not called `shutdown` on, after a call. -/
def caughtStep (caught : Option (ℕ × ℕ)) : Call threadInterface → Option (ℕ × ℕ)
  | ⟨.loadWorkerFd i, some fd⟩ => some (i, fd)
  | ⟨.shutdown _, _⟩ => none
  | _ => caught

def caught (tr : ThreadHistory) : Option (ℕ × ℕ) := tr.foldl caughtStep none

/-- The slot a call looks at. -/
def lookedStep : Call threadInterface → List ℕ
  | ⟨.loadWorkerFd i, _⟩ => [i]
  | _ => []

/-- The slots looked at. -/
def looked (tr : ThreadHistory) : List ℕ := tr.flatMap lookedStep

@[simp] theorem caught_concat (tr : ThreadHistory) (x : Call threadInterface) :
    caught (tr ++ [x]) = caughtStep (caught tr) x :=
  List.foldl_concat ..

@[simp] theorem looked_concat (tr : ThreadHistory) (x : Call threadInterface) :
    looked (tr ++ [x]) = looked tr ++ lookedStep x := by
  rw [looked, List.flatMap_append, List.flatMap_singleton]
  rfl

/-- A shutdown empties the slots it finds full, calls `shutdown` on what it has found before it
looks further, and takes the listening socket away before all that. -/
def callsRoll (tr : ThreadHistory) : ThreadOp → Prop
  | .loadWorkerFd _ => caught tr = none
  | .storeWorkerFd i fd => fd = none ∧ ∃ fd', caught tr = some (i, fd')
  | .shutdown fd => ∃ i, caught tr = some (i, fd)
  | .clearListenFd => looked tr = []
  | _ => True

/-- Nothing is in the air, and these slots have been looked at. -/
structure Looked (slots : List ℕ) (tr : ThreadHistory) : Prop where
  caught : caught tr = none
  looked : looked tr = slots

section Stopper

variable {tr : ThreadHistory}

theorem shutdownSlots_callsRoll (slots : List ℕ) {seen : List ℕ} (h : Looked seen tr) :
    Safe (Env.any threadInterface) callsRoll (fun _ => Looked (seen ++ slots))
      (shutdownSlots slots) tr := by
  induction slots generalizing tr seen with
  | nil =>
      rw [List.append_nil]
      exact safe_any_ret.mpr h
  | cons i slots ih =>
      unfold shutdownSlots
      refine safe_any_call.mpr ⟨h.caught, fun fd => ?_⟩
      have hlooked : looked (tr ++ [made (.loadWorkerFd i) fd]) = seen ++ [i] := by
        rw [looked_concat, h.looked]
        rfl
      rw [List.append_cons seen i slots]
      cases fd with
      | none => exact ih ⟨(caught_concat ..).trans h.caught, hlooked⟩
      | some fd =>
          have hcaught : caught (tr ++ [made (.loadWorkerFd i) (some fd)]) = some (i, fd) :=
            caught_concat ..
          refine safe_any_call.mpr ⟨⟨rfl, fd, hcaught⟩, fun _ => ?_⟩
          have hstored := (caught_concat (tr ++ [made (.loadWorkerFd i) (some fd)])
            (made (.storeWorkerFd i none) ())).trans hcaught
          refine safe_any_call.mpr ⟨⟨i, hstored⟩, fun _ => ih ⟨caught_concat .., ?_⟩⟩
          rw [looked_concat, looked_concat, hlooked]
          simp only [lookedStep, List.append_nil]

/-- A call that looks at no slot. -/
theorem looked_call {α : Type} {o : ThreadOp} {k : ThreadOp.Res o → ThreadProg α}
    {Q : α → ThreadHistory → Prop} {slots : List ℕ} (hc : ∀ r c, caughtStep c (made o r) = c)
    (hl : ∀ r, lookedStep (made o r) = []) (hg : callsRoll tr o) (h : Looked slots tr)
    (hk : ∀ r tr, Looked slots tr → Safe (Env.any threadInterface) callsRoll Q (k r) tr) :
    Safe (Env.any threadInterface) callsRoll Q (.call o k) tr := by
  refine safe_any_call.mpr ⟨hg, fun r => hk r _ ⟨?_, ?_⟩⟩
  · rw [caught_concat, hc, h.caught]
  · rw [looked_concat, hl, List.append_nil, h.looked]

/-- A shutdown goes down all the slots. -/
theorem serverRequestShutdown_callsRoll :
    Safe (Env.any threadInterface) callsRoll (fun _ => Looked (List.range trackedWorkerFds))
      serverRequestShutdown [] := by
  have hrest : ∀ (u : Unit) tr, Looked [] tr → Safe (Env.any threadInterface) callsRoll
      (fun _ => Looked (List.range trackedWorkerFds)) (do
        shutdownActiveWorkerFds
        Thread.tpqShutdown
        Thread.unlockShutdown) tr := by
    intro _ tr h
    have hslots := shutdownSlots_callsRoll (List.range trackedWorkerFds) h
    rw [List.nil_append] at hslots
    rw [shutdownActiveWorkerFds]
    refine safe_bind.mpr (hslots.post fun _ tr h => ?_)
    refine looked_call (fun _ _ => rfl) (fun _ => rfl) trivial h fun _ tr h => ?_
    refine looked_call (fun _ _ => rfl) (fun _ => rfl) trivial h fun _ tr h => ?_
    exact safe_any_ret.mpr h
  unfold serverRequestShutdown
  refine looked_call (fun _ _ => rfl) (fun _ => rfl) trivial ⟨rfl, rfl⟩ fun _ tr h => ?_
  refine looked_call (fun _ _ => rfl) (fun _ => rfl) trivial h fun _ tr h => ?_
  refine looked_call (fun _ _ => rfl) (fun _ => rfl) trivial h fun fd tr h => ?_
  cases fd with
  | none => exact hrest () tr h
  | some fd =>
      refine looked_call (fun _ _ => rfl) (fun _ => rfl) h.looked h fun _ tr h => ?_
      refine looked_call (fun _ _ => rfl) (fun _ => rfl) trivial h fun _ tr h => ?_
      refine looked_call (fun _ _ => rfl) (fun _ => rfl) trivial h fun _ tr h => ?_
      exact hrest () tr h

/-- A call after which there is no listening socket. -/
def leavesNoListener : Call threadInterface → Prop
  | ⟨.clearListenFd, _⟩ | ⟨.loadListenFd, none⟩ => True
  | _ => False

/-- A shutdown leaves no listening socket. -/
theorem serverRequestShutdown_noListener :
    Safe (Env.any threadInterface) (fun _ _ => True) (fun _ tr => ∃ x ∈ tr, leavesNoListener x)
      serverRequestShutdown [] := by
  have hrest : ∀ (u : Unit) tr, (∃ x ∈ tr, leavesNoListener x) →
      Safe (Env.any threadInterface) (fun _ _ => True)
        (fun _ tr => ∃ x ∈ tr, leavesNoListener x) (do
          shutdownActiveWorkerFds
          Thread.tpqShutdown
          Thread.unlockShutdown) tr := by
    rintro _ tr ⟨x, hx, hleaves⟩
    have honly : (do
        shutdownActiveWorkerFds
        Thread.tpqShutdown
        Thread.unlockShutdown : ThreadProg Unit).Only fun _ => True :=
      ((shutdownSlots_spares _).mono fun _ _ => trivial).bind fun _ =>
        .call trivial fun _ => .call trivial fun _ => trivial
    refine (honly.safe tr).post fun _ tr' h => ?_
    obtain ⟨seg, rfl, -⟩ := h
    exact ⟨x, List.mem_append_left seg hx, hleaves⟩
  unfold serverRequestShutdown
  refine safe_any_call.mpr ⟨trivial, fun _ => safe_any_call.mpr ⟨trivial, fun _ => ?_⟩⟩
  refine safe_any_call.mpr ⟨trivial, fun fd => ?_⟩
  cases fd with
  | none =>
      have hlast : (made .loadListenFd none) ∈
          [made .lockShutdown (), made .clearRunning ()] ++ [made .loadListenFd none] :=
        List.mem_append_right _ (List.mem_singleton_self _)
      exact hrest () _ ⟨_, hlast, trivial⟩
  | some fd =>
      refine safe_any_call.mpr ⟨trivial, fun _ => safe_any_call.mpr ⟨trivial, fun _ => ?_⟩⟩
      refine safe_any_call.mpr ⟨trivial, fun _ => hrest () _ ⟨made .clearListenFd (), ?_, trivial⟩⟩
      simp only [List.mem_append, List.mem_singleton, true_or, or_true]

end Stopper

/-! ### The acceptor -/

/-- An operation on neither slots nor the listening socket's place. -/
def offRoll : ThreadOp → Prop
  | .loadWorkerFd _ | .storeWorkerFd _ _ | .shutdown _ | .clearListenFd => False
  | _ => True

theorem acceptorFailed_offRoll (text : Bytes) (errno : Errno) :
    (acceptorFailed text errno).Only offRoll := by
  unfold acceptorFailed
  simp only [Prog.call_bind, Prog.ret_bind]
  refine .call trivial fun running => ?_
  split
  · trivial
  · cases errno with
    | other n => exact .call trivial fun _ => trivial
    | _ => trivial

theorem queueConnection_offRoll (cfg : ThreadsConfig) (fd : ℕ) :
    (queueConnection cfg fd).Only offRoll := by
  unfold queueConnection
  simp only [Prog.call_bind, Prog.ret_bind]
  refine .call trivial fun _ => .call trivial fun _ => .call trivial fun _ => .call trivial fun _ => ?_
  split
  · exact .call trivial fun _ => .call trivial fun _ => .call trivial fun _ => trivial
  · exact .call trivial fun _ => trivial

theorem acceptorThread_offRoll (bound : ℕ) (cfg : ThreadsConfig) (listenFd : Option ℕ) :
    (acceptorThread bound cfg listenFd).Only offRoll := by
  have hround : ∀ u, (acceptorRound cfg listenFd u).Only offRoll := by
    intro u
    unfold acceptorRound
    simp only [Prog.call_bind, Prog.ret_bind]
    refine .call trivial fun running => ?_
    split
    · trivial
    cases listenFd with
    | none => trivial
    | some listenFd =>
        refine .call trivial fun selected => ?_
        cases selected with
        | failed errno => exact acceptorFailed_offRoll _ errno
        | timedOut => trivial
        | ready =>
            refine .call trivial fun accepted => ?_
            cases accepted with
            | failed errno => exact acceptorFailed_offRoll _ errno
            | fd fd => exact queueConnection_offRoll cfg fd
  unfold acceptorThread
  refine .call trivial fun _ => (Prog.Only.iterate hround bound ()).bind fun _ => ?_
  exact .call trivial fun _ => trivial

/-! ### The roll call -/

/-- What a worker, and a shutdown, is doing, if it runs. -/
def threadDuty : Option (ThreadProg Unit × ThreadHistory) → Attendance ℕ
  | some (_, tr) => duty tr
  | none => .away

def threadCaller (t : Option (ThreadProg Unit × ThreadHistory)) : Option (Caller ℕ ℕ) :=
  t.map fun t => ⟨fun i => i < trackedWorkerFds ∧ i ∉ looked t.2, caught t.2⟩

/-- The workers, the slots, and the shutdowns under way. -/
def roll (c : Threads) : Rollcall ℕ ℕ ℕ where
  member id := threadDuty (c.threads (.worker id))
  slot := c.shared.workerFds
  caller n := threadCaller (c.threads (.stopper n))
  told fd := fd ∈ c.shared.shut
  begun := c.shared.listenFd = none

section Roll

variable {cfg : ThreadsConfig} {listenFd : Option ℕ} {c d : Threads} {i : Role} {id n : ℕ}
  {tr : ThreadHistory}

theorem roll_set_worker (c : Threads) (id : ℕ) (t : Option (ThreadProg Unit × ThreadHistory))
    (w : ThreadWorld) : roll (c.set (.worker id) t w) =
      ⟨Function.update (roll c).member id (threadDuty t), w.workerFds, (roll c).caller,
        fun fd => fd ∈ w.shut, w.listenFd = none⟩ := by
  have hmember : (roll (c.set (.worker id) t w)).member =
      Function.update (roll c).member id (threadDuty t) := by
    funext j
    by_cases hji : j = id
    · subst hji
      rw [Function.update_self]
      exact congrArg threadDuty (Pool.set_self c (.worker j) t w)
    · rw [Function.update_of_ne hji]
      exact congrArg threadDuty (Pool.set_ne c (fun h => hji (Role.worker.inj h)) t w)
  have hcaller : (roll (c.set (.worker id) t w)).caller = (roll c).caller := by
    funext n
    exact congrArg threadCaller (Pool.set_ne c (fun h => Role.noConfusion h) t w)
  rw [← hmember, ← hcaller]
  rfl

theorem roll_set_stopper (c : Threads) (n : ℕ) (t : Option (ThreadProg Unit × ThreadHistory))
    (w : ThreadWorld) : roll (c.set (.stopper n) t w) =
      ⟨(roll c).member, w.workerFds, Function.update (roll c).caller n (threadCaller t),
        fun fd => fd ∈ w.shut, w.listenFd = none⟩ := by
  have hmember : (roll (c.set (.stopper n) t w)).member = (roll c).member := by
    funext j
    exact congrArg threadDuty (Pool.set_ne c (fun h => Role.noConfusion h) t w)
  have hcaller : (roll (c.set (.stopper n) t w)).caller =
      Function.update (roll c).caller n (threadCaller t) := by
    funext m
    by_cases hmn : m = n
    · subst hmn
      rw [Function.update_self]
      exact congrArg threadCaller (Pool.set_self c (.stopper m) t w)
    · rw [Function.update_of_ne hmn]
      exact congrArg threadCaller (Pool.set_ne c (fun h => hmn (Role.stopper.inj h)) t w)
  rw [← hmember, ← hcaller]
  rfl

theorem roll_set_acceptor (c : Threads) (t : Option (ThreadProg Unit × ThreadHistory))
    (w : ThreadWorld) : roll (c.set .acceptor t w) =
      ⟨(roll c).member, w.workerFds, (roll c).caller, fun fd => fd ∈ w.shut, w.listenFd = none⟩ := by
  have hmember : (roll (c.set .acceptor t w)).member = (roll c).member := by
    funext j
    exact congrArg threadDuty (Pool.set_ne c (fun h => Role.noConfusion h) t w)
  have hcaller : (roll (c.set .acceptor t w)).caller = (roll c).caller := by
    funext m
    exact congrArg threadCaller (Pool.set_ne c (fun h => Role.noConfusion h) t w)
  rw [← hmember, ← hcaller]
  rfl

/-! ### What the threads are about to do -/

theorem worker_id (hf : Pool.Follows (roles cfg listenFd) c) {t : ThreadProg Unit × ThreadHistory}
    (hi : c.threads (.worker id) = some t) : 1 ≤ id ∧ id < trackedWorkerFds := by
  obtain ⟨p₀, ⟨hid, -⟩, -⟩ := hf _ _ _ hi
  exact ⟨hid.1, Nat.lt_succ_of_le (hid.2.trans cfg.maxWorkers_range.2)⟩

theorem worker_keepsSlot (hf : Pool.Follows (roles cfg listenFd) c) {o : ThreadOp}
    {k : ThreadOp.Res o → ThreadProg Unit} (hi : c.threads (.worker id) = some (.call o k, tr)) :
    keepsSlot id tr o := by
  obtain ⟨p₀, ⟨-, bound, rfl⟩, hrun⟩ := hf _ _ _ hi
  exact ((workerThread_keepsSlot bound cfg (worker_id hf hi)).run hrun).guard

theorem worker_end (hf : Pool.Follows (roles cfg listenFd) c)
    (hi : c.threads (.worker id) = some (.ret (), tr)) : duty tr = .away := by
  obtain ⟨p₀, ⟨-, bound, rfl⟩, hrun⟩ := hf _ _ _ hi
  exact ((workerThread_keepsSlot bound cfg (worker_id hf hi)).run hrun).result.duty

theorem stopper_callsRoll (hf : Pool.Follows (roles cfg listenFd) c) {o : ThreadOp}
    {k : ThreadOp.Res o → ThreadProg Unit} (hi : c.threads (.stopper n) = some (.call o k, tr)) :
    sparesHand o ∧ callsRoll tr o := by
  obtain ⟨p₀, hp₀, hrun⟩ := hf _ _ _ hi
  obtain rfl : p₀ = serverRequestShutdown := hp₀
  exact ⟨(serverRequestShutdown_spares.history hrun).2 _ _ rfl,
    (serverRequestShutdown_callsRoll.run hrun).guard⟩

theorem stopper_end (hf : Pool.Follows (roles cfg listenFd) c)
    (hi : c.threads (.stopper n) = some (.ret (), tr)) :
    Looked (List.range trackedWorkerFds) tr := by
  obtain ⟨p₀, hp₀, hrun⟩ := hf _ _ _ hi
  obtain rfl : p₀ = serverRequestShutdown := hp₀
  exact (serverRequestShutdown_callsRoll.run hrun).result

theorem acceptor_offRoll (hf : Pool.Follows (roles cfg listenFd) c) {o : ThreadOp}
    {k : ThreadOp.Res o → ThreadProg Unit} (hi : c.threads .acceptor = some (.call o k, tr)) :
    offRoll o := by
  obtain ⟨p₀, ⟨bound, rfl⟩, hrun⟩ := hf _ _ _ hi
  exact ((acceptorThread_offRoll bound cfg listenFd).history hrun).2 _ _ rfl

/-- An operation off the roll leaves the slots and the listening socket's place. -/
theorem threadEnv_offRoll {w w' : ThreadWorld} {o : ThreadOp} {r : ThreadOp.Res o}
    (ho : offRoll o) (hclose : ∀ fd, o ≠ .close fd) (hm : threadEnv.may w o r w') :
    w'.workerFds = w.workerFds ∧ w'.shut = w.shut ∧ w'.listenFd = w.listenFd := by
  cases o with
  | loadWorkerFd _ | storeWorkerFd _ _ | shutdown _ | clearListenFd => exact ho.elim
  | close fd => exact absurd rfl (hclose fd)
  | accept _ =>
      cases r with
      | failed errno =>
          obtain rfl := hm
          exact ⟨rfl, rfl, rfl⟩
      | fd fd =>
          obtain ⟨-, rfl⟩ := hm
          exact ⟨rfl, rfl, rfl⟩
  | tpqPop =>
      cases r with
      | none =>
          obtain ⟨-, rfl⟩ := hm
          exact ⟨rfl, rfl, rfl⟩
      | some item =>
          obtain ⟨-, rfl⟩ := hm
          exact ⟨rfl, rfl, rfl⟩
  | tpqPush _ | loadRunning | loadListenFd | lockShutdown =>
      obtain ⟨-, rfl⟩ := hm
      exact ⟨rfl, rfl, rfl⟩
  | _ =>
      obtain rfl := hm
      exact ⟨rfl, rfl, rfl⟩

/-- What `close` leaves of the connections shut down. -/
theorem mem_shut_close (w : ThreadWorld) (fd : ℕ) :
    (fun b => b ∈ w.shut.filter (· ≠ fd)) = fun b => b ∈ w.shut ∧ b ≠ fd := by
  funext b
  rw [List.mem_filter, decide_eq_true_iff]

/-! ### Steps in time -/

/-- A worker posts its connection before a shutdown has taken the listening socket away, or while
one is still to look at its slot; it does not close its connection while a shutdown has it in hand;
and a shutdown does not find in a slot what the worker has closed and not taken off. -/
def inTime (c : Threads) : Role → ThreadOp → Prop
  | .worker id, .storeWorkerFd _ (some _) => c.shared.listenFd = none → (roll c).Awaited id
  | .worker id, .close _ => ∀ fd, ¬ (roll c).Caught id fd
  | .stopper _, .loadWorkerFd id =>
    ∀ fd, c.shared.workerFds id = some fd → (roll c).member id ≠ .leaving fd
  | _, _ => True

/-- What thread `i` is about to do is in time. -/
def InTime (c : Threads) (i : Role) : Prop :=
  ∀ o k tr, c.threads i = some (.call o k, tr) → inTime c i o

/-- A worker has in hand what it has posted, and the roll is kept. -/
structure Watched (c : Threads) : Prop where
  sound : Sound c
  hands : ∀ {id fd}, (roll c).member id = .present fd → (custody c).hand (.worker id) = some fd
  kept : (roll c).Kept

theorem member_eq {p : ThreadProg Unit} (hi : c.threads (.worker id) = some (p, tr)) :
    (roll c).member id = duty tr :=
  congrArg threadDuty hi

theorem caller_eq {p : ThreadProg Unit} (hi : c.threads (.stopper n) = some (p, tr)) :
    (roll c).caller n = some ⟨fun i => i < trackedWorkerFds ∧ i ∉ looked tr, caught tr⟩ :=
  congrArg threadCaller hi

theorem member_present {fd : ℕ} (h : (roll c).member id = .present fd) :
    ∃ t, c.threads (.worker id) = some t := by
  refine Option.ne_none_iff_exists'.mp fun hnone => ?_
  cases (congrArg threadDuty hnone).symm.trans h

/-- A call of a worker is a step of the roll call, or none. -/
theorem roll_worker (hf : Pool.Follows (roles cfg listenFd) c) (h : Watched c)
    (ha : Pool.Acts threadEnv (.worker id) c d) (ht : InTime c (.worker id)) :
    roll d = roll c ∨ Rollcall.Step (roll c) (roll d) := by
  obtain ⟨o, k, tr, r, w, hi, hm, rfl⟩ := ha
  have hguard := worker_keepsSlot hf hi
  have hmember := member_eq hi
  have hafter : threadDuty (some (k r, tr ++ [⟨o, r⟩])) = dutyStep (duty tr) ⟨o, r⟩ :=
    duty_concat ..
  have htime := ht o k tr hi
  rw [roll_set_worker, hafter]
  have same : offRoll o → (∀ fd, o ≠ .close fd) → dutyStep (duty tr) ⟨o, r⟩ = duty tr →
      (⟨Function.update (roll c).member id (dutyStep (duty tr) ⟨o, r⟩), w.workerFds,
        (roll c).caller, fun fd => fd ∈ w.shut, w.listenFd = none⟩ : Rollcall ℕ ℕ ℕ) = roll c := by
    intro hoff hclose hduty
    obtain ⟨hslots, hshut, hlisten⟩ := threadEnv_offRoll hoff hclose hm
    rw [hduty, ← hmember, Function.update_eq_self, hslots, hshut, hlisten]
    rfl
  cases o with
  | loadWorkerFd _ | shutdown _ | clearListenFd => exact hguard.elim
  | storeWorkerFd i fd =>
      obtain rfl := hm
      cases fd with
      | none =>
          obtain ⟨rfl, fd, hduty⟩ := hguard
          exact .inr (.wipe (hmember.trans hduty))
      | some fd =>
          obtain ⟨rfl, hduty, -⟩ := hguard
          exact .inr (.signIn (hmember.trans hduty) htime)
  | close fd =>
      have hsole : ∀ j, (roll c).member j = .present fd → j = id := fun j hj =>
        Role.worker.inj (h.sound.sole.one (h.hands hj)
          ((custody_hand hi).trans (roles_handles hf hi)))
      obtain rfl := hm
      dsimp only
      rw [mem_shut_close]
      rcases hguard with hduty | hduty
      · have haway : Function.update (roll c).member id (dutyStep (duty tr) ⟨.close fd, r⟩) =
            (roll c).member := by
          have hstays : dutyStep .away ⟨.close fd, r⟩ = .away := rfl
          rw [hduty, hstays, ← hduty, ← hmember, Function.update_eq_self]
        rw [haway]
        refine .inr (.forget fun j hj => ?_)
        obtain rfl := hsole j hj
        cases hj.symm.trans (hmember.trans hduty)
      · rw [hduty]
        exact .inr (.leave (hmember.trans hduty) htime hsole)
  | _ => exact .inl (same trivial (fun fd h => ThreadOp.noConfusion h) rfl)

/-- A call of a shutdown is a step of the roll call, or none. -/
theorem roll_stopper (hf : Pool.Follows (roles cfg listenFd) c)
    (ha : Pool.Acts threadEnv (.stopper n) c d) (ht : InTime c (.stopper n)) :
    roll d = roll c ∨ Rollcall.Step (roll c) (roll d) := by
  obtain ⟨o, k, tr, r, w, hi, hm, rfl⟩ := ha
  obtain ⟨hspares, hguard⟩ := stopper_callsRoll hf hi
  have hcaller := caller_eq hi
  have htime := ht o k tr hi
  have hafter : threadCaller (some (k r, tr ++ [⟨o, r⟩])) =
      some ⟨fun i => i < trackedWorkerFds ∧ i ∉ looked tr ++ lookedStep ⟨o, r⟩,
        caughtStep (caught tr) ⟨o, r⟩⟩ := by
    rw [← looked_concat, ← caught_concat]
    rfl
  rw [roll_set_stopper, hafter]
  have same : lookedStep ⟨o, r⟩ = [] → caughtStep (caught tr) ⟨o, r⟩ = caught tr →
      Function.update (roll c).caller n (some ⟨fun i => i < trackedWorkerFds ∧
        i ∉ looked tr ++ lookedStep ⟨o, r⟩, caughtStep (caught tr) ⟨o, r⟩⟩) = (roll c).caller := by
    intro hlooked hcaught
    rw [hlooked, hcaught, List.append_nil, ← hcaller, Function.update_eq_self]
  have apart : offRoll o → (∀ fd, o ≠ .close fd) → lookedStep ⟨o, r⟩ = [] →
      caughtStep (caught tr) ⟨o, r⟩ = caught tr →
      (⟨(roll c).member, w.workerFds, Function.update (roll c).caller n (some ⟨fun i =>
        i < trackedWorkerFds ∧ i ∉ looked tr ++ lookedStep ⟨o, r⟩,
          caughtStep (caught tr) ⟨o, r⟩⟩), fun fd => fd ∈ w.shut, w.listenFd = none⟩ :
            Rollcall ℕ ℕ ℕ) = roll c := by
    intro hoff hclose hlooked hcaught
    obtain ⟨hslots, hshut, hlisten⟩ := threadEnv_offRoll hoff hclose hm
    rw [same hlooked hcaught, hslots, hshut, hlisten]
    rfl
  cases o with
  | accept _ | tpqPop | tpqPush _ | close _ => exact hspares.elim
  | loadWorkerFd i =>
      obtain ⟨rfl, rfl⟩ := hm
      refine .inr ?_
      have hunseen : (fun j => j < trackedWorkerFds ∧ j ∉ looked tr ++ [i]) =
          fun j => (j < trackedWorkerFds ∧ j ∉ looked tr) ∧ j ≠ i := by
        funext j
        rw [List.mem_append, List.mem_singleton, not_or, and_assoc]
      have hcaught : caughtStep (caught tr) ⟨.loadWorkerFd i, c.shared.workerFds i⟩ =
          (c.shared.workerFds i).map fun fd => (i, fd) := by
        cases c.shared.workerFds i with
        | none => exact hguard
        | some fd => rfl
      rw [hcaught, lookedStep, hunseen]
      exact .look hcaller hguard htime
  | storeWorkerFd i fd =>
      obtain ⟨rfl, fd, hcaught⟩ := hguard
      obtain rfl := hm
      rw [same rfl rfl]
      exact .inr (.take hcaller hcaught)
  | shutdown fd =>
      obtain ⟨i, hcaught⟩ := hguard
      obtain rfl := hm
      have htold : (fun b => b ∈ fd :: c.shared.shut) = fun b => b = fd ∨ b ∈ c.shared.shut := by
        funext b
        rw [List.mem_cons]
      have hnil : lookedStep ⟨.shutdown fd, r⟩ = [] := rfl
      dsimp only
      rw [hnil, List.append_nil, htold]
      exact .inr (.tell hcaller hcaught)
  | clearListenFd =>
      obtain rfl := hm
      have hlooked : looked tr = [] := hguard
      rw [same rfl rfl]
      dsimp only
      rw [eq_self]
      refine .inr (.begin hcaller fun i a hi => ⟨?_, by rw [hlooked]; exact List.not_mem_nil⟩)
      obtain ⟨t, ht⟩ := member_present hi
      exact (worker_id hf ht).2
  | _ => exact .inl (apart trivial (fun fd h => ThreadOp.noConfusion h) rfl rfl)

/-- A call of the acceptor is a step of the roll call, or none. -/
theorem roll_acceptor (hf : Pool.Follows (roles cfg listenFd) c) (h : Watched c)
    (ha : Pool.Acts threadEnv .acceptor c d) :
    roll d = roll c ∨ Rollcall.Step (roll c) (roll d) := by
  obtain ⟨o, k, tr, r, w, hi, hm, rfl⟩ := ha
  have hoff := acceptor_offRoll hf hi
  rw [roll_set_acceptor]
  by_cases hclose : ∀ fd, o ≠ .close fd
  · obtain ⟨hslots, hshut, hlisten⟩ := threadEnv_offRoll hoff hclose hm
    rw [hslots, hshut, hlisten]
    exact .inl rfl
  · obtain ⟨fd, hfd⟩ := not_forall.mp hclose
    obtain rfl := not_not.mp hfd
    have hhand := (custody_hand hi).trans (roles_handles hf hi)
    obtain rfl := hm
    dsimp only
    rw [mem_shut_close]
    refine .inr (.forget fun j hj => ?_)
    cases h.sound.sole.one (h.hands hj) hhand

/-- What a worker has posted is in its hand. -/
theorem hands_act (hf : Pool.Follows (roles cfg listenFd) c)
    (h : ∀ {id fd}, (roll c).member id = .present fd → (custody c).hand (.worker id) = some fd)
    (ha : Pool.Acts threadEnv i c d) {id fd : ℕ} (hid : (roll d).member id = .present fd) :
    (custody d).hand (.worker id) = some fd := by
  obtain ⟨o, k, tr, r, w, hi, hm, rfl⟩ := ha
  by_cases hne : Role.worker id = i
  · subst hne
    have hguard := worker_keepsSlot hf hi
    have hbefore : duty tr = .present fd → inHand tr = some fd := fun hduty =>
      (custody_hand hi).symm.trans (h ((member_eq hi).trans hduty))
    have hafter : dutyStep (duty tr) ⟨o, r⟩ = .present fd := by
      rw [← duty_concat, ← member_eq (Pool.set_self c (.worker id) _ w)]
      exact hid
    rw [custody_hand (Pool.set_self c (.worker id) _ w), inHand_concat]
    cases o with
    | accept _ | tpqPush _ | shutdown _ | loadWorkerFd _ | clearListenFd => exact hguard.elim
    | storeWorkerFd j fd' =>
        cases fd' with
        | none => cases hafter
        | some fd' =>
            cases hafter
            exact hguard.2.2
    | close fd' =>
        rcases hguard with hduty | hduty
        · rw [hduty] at hafter
          cases hafter
        · rw [hduty] at hafter
          cases hafter
    | tpqPop =>
        have haway : duty tr = .away := hguard
        cases haway.symm.trans hafter
    | _ => exact hbefore hafter
  · have hthread := Pool.set_ne c hne (some (k r, tr ++ [⟨o, r⟩])) w
    have hmember : (roll c).member id = .present fd :=
      (congrArg threadDuty hthread).symm.trans hid
    exact (congrArg threadHand hthread).trans (h hmember)

/-- The same, after the start or the end of a thread. -/
theorem hands_set
    (h : ∀ {id fd}, (roll c).member id = .present fd → (custody c).hand (.worker id) = some fd)
    {t : Option (ThreadProg Unit × ThreadHistory)} (ht : threadDuty t = .away) {w : ThreadWorld}
    {id fd : ℕ} (hid : (roll (c.set i t w)).member id = .present fd) :
    (custody (c.set i t w)).hand (.worker id) = some fd := by
  by_cases hne : Role.worker id = i
  · subst hne
    have hmember := congrArg threadDuty (Pool.set_self c (.worker id) t w)
    cases (hmember.trans ht).symm.trans hid
  · have hthread := Pool.set_ne c hne t w
    exact (congrArg threadHand hthread).trans (h ((congrArg threadDuty hthread).symm.trans hid))

/-! ### Runs in time -/

/-- A run in which every step is in time. -/
abbrev TimelyRun (cfg : ThreadsConfig) (listenFd : Option ℕ) : Threads → Threads → Prop :=
  Pool.GuardedRun threadEnv (roles cfg listenFd) InTime

theorem Watched.step (hf : Pool.Follows (roles cfg listenFd) c) (h : Watched c)
    (hs : Pool.Step threadEnv (roles cfg listenFd) c d)
    (ht : ∀ i, Pool.Acts threadEnv i c d → InTime c i) : Watched d := by
  have hsound := h.sound.step hf hs
  cases hs with
  | act ha =>
      rename_i i
      refine ⟨hsound, hands_act hf h.hands ha, ?_⟩
      have hroll : roll d = roll c ∨ Rollcall.Step (roll c) (roll d) := by
        cases i with
        | acceptor => exact roll_acceptor hf h ha
        | worker id => exact roll_worker hf h ha (ht _ ha)
        | stopper n => exact roll_stopper hf ha (ht _ ha)
      rcases hroll with hsame | hstep
      · exact hsame ▸ h.kept
      · exact h.kept.step hstep
  | start hp hidle =>
      rename_i i p
      refine ⟨hsound, hands_set h.hands rfl, ?_⟩
      cases i with
      | acceptor =>
          rw [roll_set_acceptor]
          exact h.kept
      | worker id =>
          have haway : threadDuty (some (p, [])) = (roll c).member id :=
            (congrArg threadDuty hidle).symm
          rw [roll_set_worker, haway, Function.update_eq_self]
          exact h.kept
      | stopper n =>
          rw [roll_set_stopper]
          exact h.kept.start (congrArg threadCaller hidle) _
  | finish hi =>
      rename_i i a tr
      refine ⟨hsound, hands_set h.hands rfl, ?_⟩
      cases i with
      | acceptor =>
          rw [roll_set_acceptor]
          exact h.kept
      | worker id =>
          have haway : threadDuty none = (roll c).member id :=
            ((member_eq hi).trans (worker_end hf hi)).symm
          rw [roll_set_worker, haway, Function.update_eq_self]
          exact h.kept
      | stopper n =>
          have hend := stopper_end hf hi
          rw [roll_set_stopper]
          refine h.kept.stop (caller_eq hi) hend.caught fun j hj => hj.2 ?_
          rw [hend.looked]
          exact List.mem_range.mpr hj.1
  | drift hd =>
      rcases hd with rfl | rfl
      · exact h
      · exact ⟨hsound, h.hands, h.kept⟩

theorem TimelyRun.watched (h : TimelyRun cfg listenFd c d)
    (hf : Pool.Follows (roles cfg listenFd) c) (hc : Watched c) :
    Pool.Follows (roles cfg listenFd) d ∧ Watched d := by
  induction h with
  | refl => exact ⟨hf, hc⟩
  | tail _ hs ih => exact ⟨ih.1.step hs.1, ih.2.step ih.1 hs.1 hs.2⟩

/-! ### The listening socket -/

/-- Only a shutdown takes the listening socket away. -/
theorem listenFd_kept {w w' : ThreadWorld} {o : ThreadOp} {r : ThreadOp.Res o}
    (hm : threadEnv.may w o r w') (ho : o ≠ .clearListenFd) : w'.listenFd = w.listenFd := by
  have hoff : offRoll o → (∀ fd, o ≠ .close fd) → w'.listenFd = w.listenFd := fun ho hclose =>
    (threadEnv_offRoll ho hclose hm).2.2
  cases o with
  | clearListenFd => exact absurd rfl ho
  | loadWorkerFd _ =>
      obtain ⟨-, rfl⟩ := hm
      rfl
  | storeWorkerFd _ _ | shutdown _ | close _ =>
      obtain rfl := hm
      rfl
  | _ => exact hoff trivial fun fd h => ThreadOp.noConfusion h

theorem listenFd_kept_allows {w w' : ThreadWorld} {calls : ThreadHistory}
    (h : threadEnv.Allows w calls w') (hcalls : ∀ x ∈ calls, x.1 ≠ .clearListenFd) :
    w'.listenFd = w.listenFd := by
  induction calls generalizing w with
  | nil =>
      obtain rfl : w = w' := h
      rfl
  | cons x calls ih =>
      obtain ⟨t, hm, hrest⟩ := h
      rw [ih hrest fun y hy => hcalls y (List.mem_cons_of_mem _ hy)]
      exact listenFd_kept hm (hcalls x List.mem_cons_self)

/-- A listening socket that has been taken away stays so. -/
theorem listenFd_none {w w' : ThreadWorld} {o : ThreadOp} {r : ThreadOp.Res o}
    (hm : threadEnv.may w o r w') (hw : w.listenFd = none) : w'.listenFd = none := by
  by_cases ho : o = .clearListenFd
  · subst ho
    obtain rfl := hm
    rfl
  · exact (listenFd_kept hm ho).trans hw

theorem listenFd_none_of_leaves {w w' : ThreadWorld} {o : ThreadOp} {r : ThreadOp.Res o}
    (hm : threadEnv.may w o r w') (h : leavesNoListener ⟨o, r⟩) : w'.listenFd = none := by
  cases o with
  | clearListenFd =>
      obtain rfl := hm
      rfl
  | loadListenFd =>
      cases r with
      | none =>
          obtain ⟨hnone, rfl⟩ := hm
          exact hnone.symm
      | some fd => exact h.elim
  | _ => exact h.elim

theorem listenFd_none_step (hs : Pool.Step threadEnv (roles cfg listenFd) c d)
    (hc : c.shared.listenFd = none) : d.shared.listenFd = none := by
  cases hs with
  | act ha =>
      obtain ⟨o, k, tr, r, w, -, hm, rfl⟩ := ha
      exact listenFd_none hm hc
  | start | finish => exact hc
  | drift hd =>
      rcases hd with rfl | rfl
      · exact hc
      · exact hc

/-- Where a thread has left no listening socket, there is none. -/
def ListenerGone (c : Threads) : Prop :=
  ∀ i p tr, c.threads i = some (p, tr) → (∃ x ∈ tr, leavesNoListener x) → c.shared.listenFd = none

theorem ListenerGone.step (h : ListenerGone c)
    (hs : Pool.Step threadEnv (roles cfg listenFd) c d) : ListenerGone d := by
  rintro j p tr hj ⟨x, hx, hleaves⟩
  by_cases hsame : d.threads j = c.threads j
  · exact listenFd_none_step hs (h j p tr (hsame.symm.trans hj) ⟨x, hx, hleaves⟩)
  cases hs with
  | act ha =>
      obtain ⟨o, k, tr', r, w, hi, hm, rfl⟩ := ha
      obtain rfl := not_not.mp (mt (fun hne => Pool.set_ne c hne _ w) hsame)
      rw [Pool.set_self] at hj
      cases hj
      rcases List.mem_append.mp hx with hx | hx
      · exact listenFd_none hm (h _ _ _ hi ⟨x, hx, hleaves⟩)
      · obtain rfl := List.mem_singleton.mp hx
        exact listenFd_none_of_leaves hm hleaves
  | start hp hidle =>
      obtain rfl := not_not.mp (mt (fun hne => Pool.set_ne c hne _ _) hsame)
      rw [Pool.set_self] at hj
      cases hj
      cases hx
  | finish hi =>
      obtain rfl := not_not.mp (mt (fun hne => Pool.set_ne c hne _ _) hsame)
      rw [Pool.set_self] at hj
      cases hj
  | drift hd => exact absurd rfl hsame

/-- A shutdown that has returned has left no listening socket. -/
theorem stopper_listener (hf : Pool.Follows (roles cfg listenFd) c) (h : ListenerGone c)
    (hi : c.threads (.stopper n) = some (.ret (), tr)) : c.shared.listenFd = none := by
  obtain ⟨p₀, hp₀, hrun⟩ := hf _ _ _ hi
  obtain rfl : p₀ = serverRequestShutdown := hp₀
  exact h _ _ _ hi (serverRequestShutdown_noListener.run hrun).result

/-! ### What a shutdown reaches -/

/-- Worker `id` is in a session on `fd`: it has posted it, and not closed it. -/
def InSession (c : Threads) (id fd : ℕ) : Prop :=
  ∃ p tr, c.threads (.worker id) = some (p, tr) ∧ duty tr = .present fd

theorem member_of_inSession {fd : ℕ} (h : InSession c id fd) :
    (roll c).member id = .present fd := by
  obtain ⟨p, tr, hi, hduty⟩ := h
  exact (member_eq hi).trans hduty

theorem inSession_of_member {fd : ℕ} (h : (roll c).member id = .present fd) :
    InSession c id fd := by
  obtain ⟨⟨p, tr⟩, hi⟩ := member_present h
  exact ⟨p, tr, hi, (member_eq hi).symm.trans h⟩

theorem watched_start {q₀ : Tpq TpqItem} {capacity : ℕ} (hcap : 0 < capacity)
    (hq₀ : tpqInit capacity true = some q₀) (l : ℕ) : Watched (serverStart q₀ (some l)) where
  sound := sound_start hcap hq₀ _
  hands h := by cases h
  kept := by
    have hbegun : ((serverStart q₀ (some l)).shared.listenFd = none) = False :=
      eq_false (Option.some_ne_none l)
    have hroll : roll (serverStart q₀ (some l)) =
        ⟨fun _ => .away, fun _ => none, fun _ => none, fun fd => fd ∈ [], False⟩ := by
      rw [roll, hbegun]
      rfl
    exact hroll ▸ Rollcall.kept_empty _

/-- **What a shutdown reaches.**  In every run in time, of the workers, the acceptor and any number
of shutdowns: a shutdown calls `shutdown` only on what a worker is in a session on, and found it in
the slot of this worker.  Once a shutdown has returned, and whenever all others have too, each
session a worker is in has been shut down. -/
theorem shutdown_reaches (cfg : ThreadsConfig) (l : ℕ) {q₀ : Tpq TpqItem}
    (hq₀ : tpqInit cfg.queueCapacity true = some q₀) {c : Threads}
    (hc : TimelyRun cfg (some l) (serverStart q₀ (some l)) c) :
    (∀ n fd k tr, c.threads (.stopper n) = some (.call (.shutdown fd) k, tr) →
        ∃ id, caught tr = some (id, fd) ∧ InSession c id fd) ∧
      ∀ n tr, c.threads (.stopper n) = some (.ret (), tr) →
        ∀ d, TimelyRun cfg (some l) c d →
          (∀ m p tr, d.threads (.stopper m) = some (p, tr) → p = .ret ()) →
          ∀ id fd, InSession d id fd → fd ∈ d.shared.shut := by
  obtain ⟨hf, hwatched⟩ := hc.watched (Pool.follows_idle _ _)
    (watched_start cfg.queueCapacity_range.1 hq₀ l)
  refine ⟨fun n fd k tr hn => ?_, fun n tr hn d hd hlast id fd hid => ?_⟩
  · obtain ⟨id, hcaught⟩ := (stopper_callsRoll hf hn).2
    exact ⟨id, hcaught, inSession_of_member (hwatched.kept.caught ⟨n, _, caller_eq hn, hcaught⟩)⟩
  · obtain ⟨-, hgone⟩ := hc.run.invariant (Pool.follows_idle _ _)
      (fun i p tr hi => by cases hi) fun _ h hs => ListenerGone.step h hs
    obtain ⟨-, hnone⟩ := hd.run.invariant hf (stopper_listener hf hgone hn)
      fun _ h hs => listenFd_none_step hs h
    obtain ⟨hfd, hend⟩ := hd.watched hf hwatched
    refine hend.kept.told hnone (fun m caller hm => ?_) (member_of_inSession hid)
    obtain ⟨⟨p, tr⟩, hthread, rfl⟩ := Option.map_eq_some_iff.mp hm
    obtain rfl := hlast m p tr hthread
    have hlooked := stopper_end hfd hthread
    refine ⟨hlooked.caught, fun i hi => hi.2 ?_⟩
    rw [hlooked.looked]
    exact List.mem_range.mpr hi.1

/-! ### Calls in time -/

/-- Before any shutdown, a worker is in time. -/
theorem worker_inTime {l : ℕ} (hl : c.shared.listenFd = some l)
    (hstop : ∀ n, c.threads (.stopper n) = none) : InTime c (.worker id) := by
  intro o k tr hi
  cases o with
  | storeWorkerFd i fd =>
      cases fd with
      | none => trivial
      | some fd => exact fun hnone => absurd (hl.symm.trans hnone) (Option.some_ne_none l)
  | close fd =>
      rintro fd ⟨n, caller, hn, -⟩
      cases (congrArg threadCaller (hstop n)).symm.trans hn
  | _ => trivial

/-- While no worker has closed its connection and not taken it off, a shutdown is in time. -/
theorem stopper_inTime (hstay : ∀ id fd, (roll c).member id ≠ .leaving fd) :
    InTime c (.stopper n) := by
  intro o k tr hi
  cases o with
  | loadWorkerFd i => exact fun fd _ => hstay i fd
  | _ => trivial

theorem acceptor_inTime : InTime c .acceptor := by
  intro o k tr hi
  cases o with
  | _ => trivial

/-- A worker goes on, before any shutdown. -/
theorem timely_worker {p q : ThreadProg Unit} {done calls : ThreadHistory} {w : ThreadWorld} {l : ℕ}
    (hi : c.threads (.worker id) = some (p, done)) (hq : p.replay calls = some q)
    (hs : threadEnv.Allows c.shared calls w) (hl : c.shared.listenFd = some l)
    (hcalls : ∀ x ∈ calls, x.1 ≠ .clearListenFd)
    (hstop : ∀ n, c.threads (.stopper n) = none) :
    TimelyRun cfg listenFd c (c.set (.worker id) (some (q, done ++ calls)) w) := by
  refine Pool.guardedRun_replay _ hi hq hs fun before x after htr k t ht => ?_
  refine worker_inTime ((listenFd_kept_allows ht fun y hy => hcalls y ?_).trans hl) fun n => ?_
  · rw [htr]
    exact List.mem_append_left _ hy
  · exact (Pool.set_ne c (fun h => Role.noConfusion h) _ t).trans (hstop n)

theorem timely_worker_start {p q : ThreadProg Unit} {calls : ThreadHistory} {w : ThreadWorld}
    {l : ℕ} (hidle : c.threads (.worker id) = none) (hp : roles cfg listenFd (.worker id) p)
    (hq : p.replay calls = some q) (hs : threadEnv.Allows c.shared calls w)
    (hl : c.shared.listenFd = some l) (hcalls : ∀ x ∈ calls, x.1 ≠ .clearListenFd)
    (hstop : ∀ n, c.threads (.stopper n) = none) :
    TimelyRun cfg listenFd c (c.set (.worker id) (some (q, calls)) w) := by
  refine Pool.guardedRun_start hidle hp hq hs fun before x after htr k t ht => ?_
  refine worker_inTime ((listenFd_kept_allows ht fun y hy => hcalls y ?_).trans hl) fun n => ?_
  · rw [htr]
    exact List.mem_append_left _ hy
  · exact (Pool.set_ne c (fun h => Role.noConfusion h) _ t).trans (hstop n)

/-- A shutdown starts, and goes on while nobody leaves. -/
theorem timely_stopper {q : ThreadProg Unit} {calls : ThreadHistory} {w : ThreadWorld}
    (hidle : c.threads (.stopper n) = none) (hq : serverRequestShutdown.replay calls = some q)
    (hs : threadEnv.Allows c.shared calls w)
    (hstay : ∀ id fd, (roll c).member id ≠ .leaving fd) :
    TimelyRun cfg listenFd c (c.set (.stopper n) (some (q, calls)) w) := by
  refine Pool.guardedRun_start hidle rfl hq hs fun before x after htr k t ht => ?_
  refine stopper_inTime fun id fd => ?_
  rw [roll_set_stopper]
  exact hstay id fd

end Roll

/-! ### A worker that is reached, and two that are not -/

/-- The worker takes the connection up, and posts it. -/
def takesUp : ThreadHistory :=
  [made (.logMsg .info (ascii "WORKER_START")) (), made .loadRunning true,
    made .tpqPop (some ⟨7, ascii "peer"⟩), made .loadRunning true]

def posts : ThreadHistory :=
  [made (.statsAdd .busyWorkers) (), made (.statsActiveClientAdd (ascii "peer") (ascii "peer")) (),
    made (.storeWorkerFd 1 (some 7)) ()]

/-- The handshake fails. -/
def failsHandshake : ThreadHistory :=
  [made (.tlsAcceptConnection 7) false, made (.statsAdd .errors) (),
    made (.logMsg .warn (ascii "TLS_FAIL handshake")) (), made (.close 7) ()]

/-- A shutdown takes the connection off the slot of the worker. -/
def takesOff : ThreadHistory :=
  [made .lockShutdown (), made .clearRunning (), made .loadListenFd (some 3),
    made .clearListenFd (), made (.shutdownListener 3) (), made (.closeListener 3) (),
    made (.loadWorkerFd 0) none, made (.loadWorkerFd 1) (some 7), made (.storeWorkerFd 1 none) ()]

/-- The rest of the shutdown. -/
def goesOn : ThreadHistory :=
  [made (.shutdown 7) ()] ++
  (List.range' 2 255).map (fun i => made (.loadWorkerFd i) none) ++
  [made .tpqShutdown (), made .unlockShutdown ()]

/-- The queue after the connection has been popped. -/
def poppedQueue (shutdown : Bool) : Tpq TpqItem := ⟨[⟨7, ascii "peer"⟩], 1, 0, 0, 0, shutdown⟩

/-- The slots while the worker has its connection posted, and when it has been taken off. -/
def postedSlots : ℕ → Option ℕ := Function.update (fun _ => none) 1 (some 7)
def clearedSlots : ℕ → Option ℕ := Function.update postedSlots 1 none

theorem clearedSlots_none (i : ℕ) : clearedSlots i = none := by
  rw [clearedSlots, postedSlots, Function.update_idem]
  by_cases hi : i = 1
  · exact hi ▸ Function.update_self ..
  · exact Function.update_of_ne hi ..

/-- The world when the worker has taken the connection up, when it has posted it, and when a
shutdown has it in hand. -/
def takenUp : ThreadWorld := { whileRunning with queue := poppedQueue false }
def whilePosted : ThreadWorld := { takenUp with workerFds := postedSlots }
def takenOff : ThreadWorld :=
  ⟨false, poppedQueue false, [7], [], [], none, clearedSlots, true⟩

/-- The world after the shutdown, if it has reached the worker, and if the worker has been late. -/
def reached : ThreadWorld := ⟨false, poppedQueue true, [7], [], [7], none, clearedSlots, false⟩
def missed : ThreadWorld := { takenUp with
  running := false, listenFd := none, queue := poppedQueue true }

theorem allows_takesOff : threadEnv.Allows whilePosted takesOff takenOff :=
  ⟨_, ⟨rfl, rfl⟩, _, rfl, _, ⟨rfl, rfl⟩, _, rfl, _, rfl, _, rfl, _, ⟨rfl, rfl⟩, _, ⟨rfl, rfl⟩, _,
    rfl, rfl⟩

theorem allows_goesOn : threadEnv.Allows takenOff goesOn reached := by
  have hslots : ∀ w : ThreadWorld, (∀ i, w.workerFds i = none) →
      threadEnv.Allows w
        ((List.range' 2 255).map fun i => made (.loadWorkerFd i) none) w :=
    fun w hw => allows_slots w hw _
  exact .append (.append ⟨_, rfl, rfl⟩ (hslots _ clearedSlots_none)) ⟨_, rfl, _, rfl, rfl⟩

theorem allows_stops_taken : threadEnv.Allows takenUp stops missed := by
  have hslots : ∀ w : ThreadWorld, (∀ i, w.workerFds i = none) →
      threadEnv.Allows w
        ((List.range trackedWorkerFds).map fun i => made (.loadWorkerFd i) none) w :=
    fun w hw => allows_slots w hw _
  refine .append (.append ⟨_, ⟨rfl, rfl⟩, _, rfl, _, ⟨rfl, rfl⟩, _, rfl, _, rfl, _, rfl, rfl⟩
    (hslots _ fun _ => rfl)) ?_
  exact ⟨_, rfl, _, rfl, rfl⟩

/-- The threads, of which the acceptor and one worker may run. -/
def withWorker (t t' : Option (ThreadProg Unit × ThreadHistory)) (w : ThreadWorld) : Threads :=
  (besides t w).set (.worker 1) t' w

theorem withWorker_stopper (t t' : Option (ThreadProg Unit × ThreadHistory)) (w : ThreadWorld)
    (n : ℕ) : (withWorker t t' w).threads (.stopper n) = none :=
  (Pool.set_ne _ (fun h => Role.noConfusion h) t' w).trans
    (besides_ne t w fun h => Role.noConfusion h)

theorem withWorker_worker (t t' : Option (ThreadProg Unit × ThreadHistory)) (w : ThreadWorld) :
    (withWorker t t' w).threads (.worker 1) = t' :=
  Pool.set_self ..

theorem withWorker_set (t t' t'' : Option (ThreadProg Unit × ThreadHistory)) (w w' : ThreadWorld) :
    (withWorker t t' w).set (.worker 1) t'' w' = withWorker t t'' w' := by
  rw [withWorker, withWorker, Pool.set, Pool.set, Pool.set, Function.update_idem]
  rfl

/-- The one shutdown under way has returned. -/
theorem withWorker_returned {t t' : Option (ThreadProg Unit × ThreadHistory)} {w w' : ThreadWorld}
    {calls tr : ThreadHistory} {n : ℕ} {p : ThreadProg Unit}
    (hn : ((withWorker t t' w).set (.stopper 0) (some (.ret (), calls)) w').threads (.stopper n) =
      some (p, tr)) : p = .ret () := by
  by_cases h0 : Role.stopper n = .stopper 0
  · rw [h0, Pool.set_self] at hn
    cases hn
    rfl
  · rw [Pool.set_ne _ h0, withWorker_stopper] at hn
    cases hn

/-- Nobody leaves, where the worker does not. -/
theorem withWorker_stays {t t' : Option (ThreadProg Unit × ThreadHistory)} {w : ThreadWorld}
    (ht' : ∀ fd, threadDuty t' ≠ .leaving fd) (id fd : ℕ) :
    (roll (withWorker t t' w)).member id ≠ .leaving fd := by
  intro hid
  rw [withWorker, roll_set_worker] at hid
  rcases Rollcall.update_eq hid with ⟨-, hleaving⟩ | ⟨-, hid⟩
  · exact ht' fd hleaving
  · have hnone : (besides t w).threads (.worker id) = none :=
      besides_ne t w fun h => Role.noConfusion h
    cases (congrArg threadDuty hnone).symm.trans hid

theorem oneWorker_role : roles oneWorker (some 3) (.worker 1) (workerThread 1 oneWorker 1) :=
  ⟨⟨Nat.le_refl 1, Nat.le_refl 1⟩, 1, rfl⟩

theorem replay_worker : ((workerThread 1 oneWorker 1).replay
    ((takesUp ++ posts) ++ failsHandshake)).isSome := by
  decide +kernel

theorem replay_stopper : serverRequestShutdown.replay (takesOff ++ goesOn) = some (.ret ()) :=
  Prog.replay_ret (by decide +kernel)

/-- The acceptor queues a connection, and the worker takes it up. -/
theorem run_takesUp : ∃ a p, (workerThread 1 oneWorker 1).replay takesUp = some p ∧
    TimelyRun oneWorker (some 3) (serverStart emptyQueue (some 3))
      (withWorker (some (a, acceptsOne)) (some (p, takesUp)) takenUp) := by
  have hacceptor := Option.isSome_iff_exists.mpr ⟨_, replay_acceptor⟩
  have hworker := Prog.replay_isSome_left (Prog.replay_isSome_left replay_worker)
  obtain ⟨a, ha⟩ := Option.isSome_iff_exists.mp (Prog.replay_isSome_left hacceptor)
  obtain ⟨p, hp⟩ := Option.isSome_iff_exists.mp hworker
  refine ⟨a, p, hp, ?_⟩
  have haccepts : threadEnv.Allows (serverStart emptyQueue (some 3)).shared acceptsOne
      whileRunning := by
    refine ⟨_, rfl, _, ⟨rfl, rfl⟩, _, rfl, _, ⟨?_, rfl⟩, _, rfl, _, rfl, _, rfl, _, ⟨rfl, rfl⟩, _,
      rfl, rfl⟩
    exact Nat.lt_irrefl _
  have htakes : threadEnv.Allows whileRunning takesUp takenUp :=
    ⟨_, rfl, _, ⟨rfl, rfl⟩, _, ⟨rfl, rfl⟩, _, ⟨rfl, rfl⟩, rfl⟩
  have hqueued : TimelyRun oneWorker (some 3) (serverStart emptyQueue (some 3))
      (besides (some (a, acceptsOne)) whileRunning) :=
    Pool.guardedRun_start (i := .acceptor) rfl ⟨2, rfl⟩ ha haccepts
      fun _ _ _ _ _ _ _ => acceptor_inTime
  have htaken : TimelyRun oneWorker (some 3) (besides (some (a, acceptsOne)) whileRunning)
      (withWorker (some (a, acceptsOne)) (some (p, takesUp)) takenUp) := by
    refine timely_worker_start (besides_ne _ _ fun h => Role.noConfusion h) oneWorker_role hp htakes
      rfl ?_ fun n => besides_ne _ _ fun h => Role.noConfusion h
    decide
  exact hqueued.trans htaken

/-- The worker posts the connection. -/
theorem run_posts : ∃ a p, (workerThread 1 oneWorker 1).replay (takesUp ++ posts) = some p ∧
    TimelyRun oneWorker (some 3) (serverStart emptyQueue (some 3))
      (withWorker (some (a, acceptsOne)) (some (p, takesUp ++ posts)) whilePosted) := by
  obtain ⟨a, p, hp, hrun⟩ := run_takesUp
  obtain ⟨q, hq⟩ := Option.isSome_iff_exists.mp (Prog.replay_isSome_left replay_worker)
  refine ⟨a, q, hq, ?_⟩
  rw [Prog.replay_append (E := threadInterface), hp] at hq
  have hallows : threadEnv.Allows takenUp posts whilePosted := ⟨_, rfl, _, rfl, _, rfl, rfl⟩
  have hposts : TimelyRun oneWorker (some 3) _ _ :=
    timely_worker (withWorker_worker (some (a, acceptsOne)) (some (p, takesUp)) takenUp) hq hallows
      rfl (by decide) fun n => withWorker_stopper _ _ _ n
  rw [withWorker_set] at hposts
  exact hrun.trans hposts

/-- A worker that has posted its connection is reached. -/
theorem shutdown_reaches_posted : ∃ c, InSession c 1 7 ∧ 7 ∈ c.shared.shut := by
  obtain ⟨a, p, -, hrun⟩ := run_posts
  have hstopped : TimelyRun oneWorker (some 3) _ _ :=
    timely_stopper (withWorker_stopper (some (a, acceptsOne)) (some (p, takesUp ++ posts))
      whilePosted 0) replay_stopper (allows_takesOff.append allows_goesOn) <|
      withWorker_stays fun fd h => by cases h
  have hsession : InSession ((withWorker (some (a, acceptsOne)) (some (p, takesUp ++ posts))
      whilePosted).set (.stopper 0) (some (.ret (), takesOff ++ goesOn)) reached) 1 7 :=
    ⟨p, takesUp ++ posts, (Pool.set_ne _ (fun h => Role.noConfusion h) ..).trans
      (withWorker_worker ..), rfl⟩
  refine ⟨_, hsession, (shutdown_reaches oneWorker 3 rfl (hrun.trans hstopped)).2 0 _
    (Pool.set_self ..) _ .refl (fun n q tr hn => withWorker_returned hn) 1 7 hsession⟩

/-- A worker that posts its connection when the shutdown has gone by is not reached. -/
theorem session_not_reached : ∃ c d tr,
    Pool.Run threadEnv (roles oneWorker (some 3)) (serverStart emptyQueue (some 3)) c ∧
      c.threads (.stopper 0) = some (.ret (), tr) ∧
      Pool.Run threadEnv (roles oneWorker (some 3)) c d ∧
      (∀ n p tr, d.threads (.stopper n) = some (p, tr) → p = .ret ()) ∧
      InSession d 1 7 ∧ 7 ∉ d.shared.shut := by
  obtain ⟨a, p, hp, hrun⟩ := run_takesUp
  obtain ⟨q, hq⟩ := Option.isSome_iff_exists.mp (Prog.replay_isSome_left replay_worker)
  rw [Prog.replay_append (E := threadInterface), hp] at hq
  have hstopped : TimelyRun oneWorker (some 3) _ _ :=
    timely_stopper (withWorker_stopper (some (a, acceptsOne)) (some (p, takesUp)) takenUp 0)
      replay_stops allows_stops_taken (withWorker_stays fun fd h => by cases h)
  have hallows : threadEnv.Allows missed posts { missed with workerFds := postedSlots } :=
    ⟨_, rfl, _, rfl, _, rfl, rfl⟩
  have hlate := Pool.run_replay (roles oneWorker (some 3)) (c := (withWorker (some (a, acceptsOne))
    (some (p, takesUp)) takenUp).set (.stopper 0) (some (.ret (), stops)) missed)
    ((Pool.set_ne _ (fun h => Role.noConfusion h) ..).trans (withWorker_worker ..)) hq hallows
  refine ⟨_, _, stops, Pool.GuardedRun.run (hrun.trans hstopped), Pool.set_self .., hlate,
    fun n r tr hn => ?_, ⟨q, takesUp ++ posts, Pool.set_self .., rfl⟩, List.not_mem_nil⟩
  rw [Pool.set_ne _ fun h => Role.noConfusion h] at hn
  exact withWorker_returned hn

/-- A worker that closes its connection while a shutdown has it in hand is reached too late. -/
theorem shutdown_after_close : ∃ c k p tr,
    Pool.Run threadEnv (roles oneWorker (some 3)) (serverStart emptyQueue (some 3)) c ∧
      c.threads (.stopper 0) = some (.call (.shutdown 7) k, takesOff) ∧
      c.threads (.worker 1) = some (p, tr ++ [made (.close 7) ()]) ∧ duty tr = .present 7 ∧
      ¬ c.shared.Open 7 := by
  obtain ⟨a, p, hp, hrun⟩ := run_posts
  have hstopper : ((serverRequestShutdown.replay takesOff).bind fun q =>
      q.replay [made (.shutdown 7) ()]).isSome := by decide +kernel
  obtain ⟨_, hstopper⟩ := Option.isSome_iff_exists.mp hstopper
  obtain ⟨r, hr, hnext⟩ := Option.bind_eq_some_iff.mp hstopper
  obtain ⟨k, rfl⟩ := Prog.call_of_replay hnext
  obtain ⟨q, hq⟩ := Option.isSome_iff_exists.mp replay_worker
  rw [Prog.replay_append (E := threadInterface), hp] at hq
  have hstopped : TimelyRun oneWorker (some 3) _ _ :=
    timely_stopper (withWorker_stopper (some (a, acceptsOne)) (some (p, takesUp ++ posts))
      whilePosted 0) hr allows_takesOff (withWorker_stays fun fd h => by cases h)
  have hallows : threadEnv.Allows takenOff failsHandshake { takenOff with closed := [7] } :=
    ⟨_, rfl, _, rfl, _, rfl, _, rfl, rfl⟩
  have hlate := Pool.run_replay (roles oneWorker (some 3)) (c := (withWorker (some (a, acceptsOne))
    (some (p, takesUp ++ posts)) whilePosted).set (.stopper 0)
      (some (.call (.shutdown 7) k, takesOff)) takenOff)
    ((Pool.set_ne _ (fun h => Role.noConfusion h) ..).trans (withWorker_worker ..)) hq hallows
  have hclosed : ¬ ThreadWorld.Open { takenOff with closed := [7] } 7 := Nat.lt_irrefl 1
  exact ⟨_, k, q, takesUp ++ posts ++ failsHandshake.dropLast,
    (Pool.GuardedRun.run (hrun.trans hstopped)).trans hlate,
    (Pool.set_ne _ (fun h => Role.noConfusion h) ..).trans (Pool.set_self ..), Pool.set_self .., rfl,
    hclosed⟩

end UpdateFramework.Server
