import UpdateFramework.Collections.Custody
import UpdateFramework.Process.Pool
import UpdateFramework.Server.Threads

/-!
# Server — what becomes of accepted connections

An accepted descriptor passes from the acceptor through the queue to a worker.  The threads and the
queue are a `Custody` of descriptors: each is in one place, and none is closed twice.  What the
queue holds when it is destroyed is closed by nobody (`accepted_closed_iff`).
-/

namespace UpdateFramework.Server

open Collections Libc Process

abbrev ThreadHistory := List (Call threadInterface)

/-- The operation `o` of a thread, answered by `r`. -/
abbrev made (o : ThreadOp) (r : ThreadOp.Res o) : Call threadInterface := ⟨o, r⟩

/-! ### What a thread has in hand -/

/-- The descriptor in hand after a call. -/
def handStep (hand : Option ℕ) : Call threadInterface → Option ℕ
  | ⟨.accept _, .fd fd⟩ => some fd
  | ⟨.tpqPop, some item⟩ => some item.fd
  | ⟨.tpqPush _, true⟩ => none
  | ⟨.close _, _⟩ => none
  | _ => hand

/-- The descriptor a thread has accepted or popped, and neither queued nor closed. -/
def inHand (tr : ThreadHistory) : Option ℕ := tr.foldl handStep none

@[simp] theorem inHand_nil : inHand [] = none := rfl

@[simp] theorem inHand_concat (tr : ThreadHistory) (x : Call threadInterface) :
    inHand (tr ++ [x]) = handStep (inHand tr) x :=
  List.foldl_concat ..

/-- Before a call that takes a descriptor the hand is empty; what is queued or closed is in hand. -/
def handles (tr : ThreadHistory) : ThreadOp → Prop
  | .accept _ | .tpqPop => inHand tr = none
  | .tpqPush item => inHand tr = some item.fd
  | .close fd => inHand tr = some fd
  | _ => True

/-- An operation that leaves the hand as it is. -/
def sparesHand : ThreadOp → Prop
  | .accept _ | .tpqPop | .tpqPush _ | .close _ => False
  | _ => True

theorem handStep_spared {o : ThreadOp} (h : sparesHand o) (r : ThreadOp.Res o)
    (hand : Option ℕ) : handStep hand ⟨o, r⟩ = hand := by
  cases o with
  | accept _ => exact h.elim
  | tpqPop => exact h.elim
  | tpqPush _ => exact h.elim
  | close _ => exact h.elim
  | _ => rfl

theorem handles_spared {tr : ThreadHistory} {o : ThreadOp} (h : sparesHand o) : handles tr o := by
  cases o with
  | accept _ => exact h.elim
  | tpqPop => exact h.elim
  | tpqPush _ => exact h.elim
  | close _ => exact h.elim
  | _ => trivial

section Hand

variable {α β : Type} {hand : Option ℕ} {tr : ThreadHistory}

/-- A part of a thread that leaves the hand as it is. -/
theorem spared_safe {p : ThreadProg α} (hp : p.Only sparesHand) (h : inHand tr = hand) :
    Safe (Env.any threadInterface) handles (fun _ tr => inHand tr = hand) p tr := by
  induction p generalizing tr with
  | ret a => exact safe_any_ret.mpr h
  | call o k ih =>
      refine safe_any_call.mpr ⟨handles_spared hp.1, fun r => ih r (hp.2 r) ?_⟩
      rw [inHand_concat, handStep_spared hp.1, h]
  | spin => trivial

/-- The same, with what follows. -/
theorem spared_bind {p : ThreadProg α} {f : α → ThreadProg β} {Q : β → ThreadHistory → Prop}
    (hp : p.Only sparesHand) (h : inHand tr = hand)
    (hf : ∀ a tr, inHand tr = hand → Safe (Env.any threadInterface) handles Q (f a) tr) :
    Safe (Env.any threadInterface) handles Q (p >>= f) tr :=
  safe_bind.mpr ((spared_safe hp h).post hf)

/-- One call that leaves the hand as it is, with what follows. -/
theorem spared_call {o : ThreadOp} {k : ThreadOp.Res o → ThreadProg β}
    {Q : β → ThreadHistory → Prop} (ho : sparesHand o) (h : inHand tr = hand)
    (hk : ∀ r tr, inHand tr = hand → Safe (Env.any threadInterface) handles Q (k r) tr) :
    Safe (Env.any threadInterface) handles Q (.call o k) tr :=
  safe_any_call.mpr ⟨handles_spared ho, fun r =>
    hk r _ (by rw [inHand_concat, handStep_spared ho, h])⟩

/-- A round of a loop ends with empty hands. -/
abbrev EmptyHanded {α : Type} (_ : α) (tr : ThreadHistory) : Prop := inHand tr = none

theorem acceptorFailed_spares (text : Bytes) (errno : Errno) :
    (acceptorFailed text errno).Only sparesHand := by
  unfold acceptorFailed
  simp only [Prog.call_bind, Prog.ret_bind]
  refine .call trivial fun running => ?_
  split
  · trivial
  · cases errno with
    | other n => exact .call trivial fun _ => trivial
    | _ => trivial

/-- An accepted connection is queued or closed. -/
theorem queueConnection_handles (cfg : ThreadsConfig) (fd : ℕ) (h : inHand tr = some fd) :
    Safe (Env.any threadInterface) handles EmptyHanded (queueConnection cfg fd) tr := by
  unfold queueConnection
  simp only [Prog.call_bind, Prog.ret_bind]
  refine spared_call trivial h fun _ tr h => spared_call trivial h fun clientInfo tr h =>
    spared_call trivial h fun _ tr h => safe_any_call.mpr ⟨h, fun pushed => ?_⟩
  cases pushed with
  | true =>
      have hqueued : inHand (tr ++ [made (.tpqPush ⟨fd, clientInfo⟩) true]) = none :=
        inHand_concat ..
      exact spared_call trivial hqueued fun _ tr h => safe_any_ret.mpr h
  | false =>
      have h : inHand (tr ++ [made (.tpqPush ⟨fd, clientInfo⟩) false]) = some fd := by
        rw [inHand_concat, h]
        rfl
      refine spared_call trivial h fun _ tr h => spared_call trivial h fun _ tr h => ?_
      exact safe_any_call.mpr ⟨h, fun _ => safe_any_ret.mpr (inHand_concat ..)⟩

theorem acceptorRound_handles (cfg : ThreadsConfig) (listenFd : Option ℕ) (h : inHand tr = none) :
    Safe (Env.any threadInterface) handles EmptyHanded (acceptorRound cfg listenFd ()) tr := by
  unfold acceptorRound
  simp only [Prog.call_bind, Prog.ret_bind]
  refine spared_call trivial h fun running tr h => ?_
  split
  · exact safe_any_ret.mpr h
  cases listenFd with
  | none => exact safe_any_ret.mpr h
  | some listenFd =>
      refine spared_call trivial h fun selected tr h => ?_
      cases selected with
      | failed errno => exact spared_safe (acceptorFailed_spares _ errno) h
      | timedOut => exact safe_any_ret.mpr h
      | ready =>
          refine safe_any_call.mpr ⟨h, fun accepted => ?_⟩
          cases accepted with
          | failed errno =>
              refine spared_safe (acceptorFailed_spares _ errno) ?_
              rw [inHand_concat, h]
              rfl
          | fd fd => exact queueConnection_handles cfg fd (inHand_concat ..)

/-- A loop of a thread that starts and ends its rounds with empty hands. -/
theorem iterate_handles {body : Unit → ThreadProg (Unit ⊕ Unit)} (bound : ℕ)
    (hbody : ∀ tr, inHand tr = none →
      Safe (Env.any threadInterface) handles EmptyHanded (body ()) tr) (h : inHand tr = none) :
    Safe (Env.any threadInterface) handles EmptyHanded (Prog.iterate bound body ()) tr := by
  refine safe_loop body trivial (fun _ => EmptyHanded ()) (fun _ tr h => ?_) bound h
  refine (hbody tr h).post fun r tr h => ?_
  cases r with
  | inl _ => exact h
  | inr _ => exact safe_any_ret (G := handles).mpr h

theorem acceptorThread_handles (bound : ℕ) (cfg : ThreadsConfig) (listenFd : Option ℕ) :
    Safe (Env.any threadInterface) handles EmptyHanded (acceptorThread bound cfg listenFd) [] := by
  unfold acceptorThread
  simp only [Prog.call_bind, Prog.ret_bind]
  refine spared_call trivial inHand_nil fun _ tr h => safe_bind.mpr ?_
  refine (iterate_handles bound (fun _ => acceptorRound_handles cfg listenFd) h).post fun _ tr h => ?_
  exact spared_call trivial h fun _ tr h => safe_any_ret.mpr h

/-! ### Workers -/

theorem serverTrackWorkerFd_spares (workerId : ℕ) (fd : Option ℕ) :
    (serverTrackWorkerFd workerId fd).Only sparesHand := by
  unfold serverTrackWorkerFd
  split
  · trivial
  · exact .call trivial fun _ => trivial

theorem connClose_handles {fd : ℕ} (ssl : Bool) (h : inHand tr = some fd) :
    Safe (Env.any threadInterface) handles EmptyHanded (connClose fd ssl) tr := by
  have hclose : ∀ tr, inHand tr = some fd →
      Safe (Env.any threadInterface) handles EmptyHanded (Thread.close fd) tr := fun tr h =>
    safe_any_call.mpr ⟨h, fun _ => safe_any_ret.mpr (inHand_concat ..)⟩
  cases ssl with
  | true => exact spared_call trivial h fun _ => hclose
  | false => exact hclose tr h

theorem dropConnection_handles (workerId : ℕ) (item : TpqItem) (ssl : Bool)
    (h : inHand tr = some item.fd) :
    Safe (Env.any threadInterface) handles EmptyHanded (dropConnection workerId item ssl) tr := by
  unfold dropConnection
  refine safe_bind.mpr ((connClose_handles ssl h).post fun _ tr h => ?_)
  refine spared_bind (serverTrackWorkerFd_spares workerId none) h fun _ tr h => ?_
  refine spared_call trivial h fun _ tr h => spared_call trivial h fun _ tr h => ?_
  exact safe_any_ret.mpr h

theorem threadSession_spares (cfg : ThreadsConfig) (clientInfo : Bytes) :
    (threadSession cfg clientInfo).Only sparesHand := by
  have hone : ∀ o : ServerOp,
      (Prog.call (E := threadInterface) (ThreadOp.session o) .ret).Only sparesHand := fun o =>
    .call trivial fun _ => trivial
  exact .interp hone _

theorem serveConnection_handles (cfg : ThreadsConfig) (workerId : ℕ) (item : TpqItem) (ssl : Bool)
    (h : inHand tr = some item.fd) :
    Safe (Env.any threadInterface) handles EmptyHanded (serveConnection cfg workerId item ssl)
      tr := by
  unfold serveConnection
  refine spared_bind (threadSession_spares cfg item.clientInfo) h fun rc tr h => ?_
  split
  · refine spared_call trivial h fun _ tr h => spared_call trivial h fun _ tr h => ?_
    exact dropConnection_handles workerId item ssl h
  · refine spared_call trivial h fun _ tr h => ?_
    exact dropConnection_handles workerId item ssl h

/-- A popped connection is closed, whatever becomes of it. -/
theorem workerRound_handles (cfg : ThreadsConfig) (workerId : ℕ) (h : inHand tr = none) :
    Safe (Env.any threadInterface) handles EmptyHanded (workerRound cfg workerId ()) tr := by
  unfold workerRound
  simp only [Prog.call_bind, Prog.ret_bind]
  refine spared_call trivial h fun running tr h => ?_
  split
  · exact safe_any_ret.mpr h
  refine safe_any_call.mpr ⟨h, fun popped => ?_⟩
  cases popped with
  | none =>
      refine safe_any_ret.mpr ?_
      rw [EmptyHanded, inHand_concat, h]
      rfl
  | some item =>
      have hpopped : inHand (tr ++ [made .tpqPop (some item)]) = some item.fd := inHand_concat ..
      refine spared_call trivial hpopped fun running tr h => ?_
      split
      · refine safe_bind.mpr ((connClose_handles false h).post fun _ tr h => ?_)
        exact safe_any_ret.mpr h
      refine spared_call trivial h fun _ tr h => spared_call trivial h fun _ tr h => ?_
      refine spared_bind (serverTrackWorkerFd_spares workerId _) h fun _ tr h => ?_
      split
      · refine spared_call trivial h fun ssl tr h => ?_
        split
        · refine spared_call trivial h fun _ tr h => spared_call trivial h fun _ tr h => ?_
          exact dropConnection_handles workerId item false h
        · exact serveConnection_handles cfg workerId item true h
      · exact serveConnection_handles cfg workerId item false h

theorem workerThread_handles (bound : ℕ) (cfg : ThreadsConfig) (workerId : ℕ) :
    Safe (Env.any threadInterface) handles EmptyHanded (workerThread bound cfg workerId) [] := by
  unfold workerThread
  simp only [Prog.call_bind, Prog.ret_bind]
  refine spared_call trivial inHand_nil fun _ tr h => safe_bind.mpr ?_
  refine (iterate_handles bound (fun _ => workerRound_handles cfg workerId) h).post fun _ tr h => ?_
  exact spared_call trivial h fun _ tr h => safe_any_ret.mpr h

/-! ### Shutdown -/

theorem shutdownSlots_spares (slots : List ℕ) : (shutdownSlots slots).Only sparesHand := by
  induction slots with
  | nil => trivial
  | cons i slots ih =>
      unfold shutdownSlots
      refine .call trivial fun fd => ?_
      cases fd with
      | none => exact ih
      | some fd => exact .call trivial fun _ => .call trivial fun _ => ih

theorem serverRequestShutdown_spares : serverRequestShutdown.Only sparesHand := by
  unfold serverRequestShutdown
  have hrest : ∀ u : Unit, (do
      shutdownActiveWorkerFds
      Thread.tpqShutdown
      Thread.unlockShutdown).Only sparesHand := fun _ =>
    (shutdownSlots_spares _).bind fun _ => .call trivial fun _ => .call trivial fun _ => trivial
  refine .call trivial fun _ => .call trivial fun _ => .call trivial fun fd => ?_
  cases fd with
  | none => exact hrest ()
  | some fd => exact .call trivial fun _ => .call trivial fun _ => .call trivial fun _ => hrest ()

end Hand

/-! ### The custody of descriptors -/

abbrev Threads := Pool Role threadInterface Unit ThreadWorld

/-- The descriptor a thread, if it runs, has in hand. -/
def threadHand (t : Option (ThreadProg Unit × ThreadHistory)) : Option ℕ :=
  t.bind fun t => inHand t.2

/-- Who has which descriptor. -/
def custody (c : Threads) : Custody Role ℕ where
  hand i := threadHand (c.threads i)
  shelf := c.shared.queue.view.held.map TpqItem.fd
  entered := c.shared.accepted
  disposed := c.shared.closed

section Pool

variable {cfg : ThreadsConfig} {listenFd : Option ℕ} {c d : Threads} {i : Role}
  {tr : ThreadHistory}

theorem custody_hand {p : ThreadProg Unit} (hi : c.threads i = some (p, tr)) :
    (custody c).hand i = inHand tr :=
  congrArg threadHand hi

theorem custody_set (c : Threads) (i : Role) (t : Option (ThreadProg Unit × ThreadHistory))
    (w : ThreadWorld) : custody (c.set i t w) =
      ⟨(custody c).holds i (threadHand t), w.queue.view.held.map TpqItem.fd,
        w.accepted, w.closed⟩ := by
  have hhand : (custody (c.set i t w)).hand =
      (custody c).holds i (threadHand t) := by
    funext j
    by_cases hji : j = i
    · subst hji
      rw [Custody.holds_self]
      exact congrArg threadHand (Pool.set_self c j t w)
    · rw [Custody.holds_ne _ hji]
      exact congrArg threadHand (Pool.set_ne c hji t w)
  rw [← hhand]
  rfl

/-- A thread handles what it has in hand. -/
theorem roles_handles (hf : Pool.Follows (roles cfg listenFd) c) {o : ThreadOp}
    {k : ThreadOp.Res o → ThreadProg Unit} (hi : c.threads i = some (.call o k, tr)) :
    handles tr o := by
  obtain ⟨p₀, hp₀, hrun⟩ := hf i _ tr hi
  cases i with
  | acceptor =>
      obtain ⟨bound, rfl⟩ := hp₀
      exact ((acceptorThread_handles bound cfg listenFd).run hrun).guard
  | worker id =>
      obtain ⟨-, bound, rfl⟩ := hp₀
      exact ((workerThread_handles bound cfg id).run hrun).guard
  | stopper n =>
      obtain rfl : p₀ = serverRequestShutdown := hp₀
      exact ((spared_safe serverRequestShutdown_spares inHand_nil).run hrun).guard

/-- A thread ends with empty hands. -/
theorem roles_end (hf : Pool.Follows (roles cfg listenFd) c)
    (hi : c.threads i = some (.ret (), tr)) : inHand tr = none := by
  obtain ⟨p₀, hp₀, hrun⟩ := hf i _ tr hi
  cases i with
  | acceptor =>
      obtain ⟨bound, rfl⟩ := hp₀
      exact ((acceptorThread_handles bound cfg listenFd).run hrun).result
  | worker id =>
      obtain ⟨-, bound, rfl⟩ := hp₀
      exact ((workerThread_handles bound cfg id).run hrun).result
  | stopper n =>
      obtain rfl : p₀ = serverRequestShutdown := hp₀
      exact ((spared_safe serverRequestShutdown_spares inHand_nil).run hrun).result

/-- An operation that spares the hand spares the queue's items and the descriptors. -/
theorem threadEnv_spared {w w' : ThreadWorld} {o : ThreadOp} {r : ThreadOp.Res o}
    (ho : sparesHand o) (hm : threadEnv.may w o r w') (hq : w.queue.Valid) :
    w'.queue.Valid ∧ w'.queue.view.held = w.queue.view.held ∧ w'.accepted = w.accepted ∧
      w'.closed = w.closed := by
  cases o with
  | accept _ => exact ho.elim
  | tpqPop => exact ho.elim
  | tpqPush _ => exact ho.elim
  | close _ => exact ho.elim
  | tpqShutdown =>
      obtain rfl := hm
      exact ⟨((Tpq.Step.shutdown w.queue).refines hq).1, rfl, rfl, rfl⟩
  | loadRunning | loadWorkerFd _ | loadListenFd =>
      obtain ⟨-, rfl⟩ := hm
      exact ⟨hq, rfl, rfl, rfl⟩
  | lockShutdown =>
      obtain ⟨-, rfl⟩ := hm
      exact ⟨hq, rfl, rfl, rfl⟩
  | _ =>
      obtain rfl := hm
      exact ⟨hq, rfl, rfl, rfl⟩

/-- The queue is in order, and each descriptor in one place. -/
structure Sound (c : Threads) : Prop where
  valid : c.shared.queue.Valid
  sole : (custody c).Sole

/-- A change of a thread that leaves the hand and the world as they are. -/
theorem custody_same {t : Option (ThreadProg Unit × ThreadHistory)} {w : ThreadWorld}
    (ht : (custody c).hand i = threadHand t)
    (hheld : w.queue.view.held = c.shared.queue.view.held)
    (haccepted : w.accepted = c.shared.accepted) (hclosed : w.closed = c.shared.closed) :
    custody (c.set i t w) = custody c := by
  rw [custody_set, Custody.holds_hand ht, hheld, haccepted, hclosed]
  rfl

/-- A call of a thread is a step of the custody, or none. -/
theorem custody_act (hf : Pool.Follows (roles cfg listenFd) c) (h : Sound c)
    (ha : Pool.Acts threadEnv i c d) :
    d.shared.queue.Valid ∧ (custody d = custody c ∨ Custody.Step (custody c) (custody d)) := by
  obtain ⟨o, k, tr, r, w, hi, hm, rfl⟩ := ha
  have hguard := roles_handles hf hi
  have hhand := custody_hand hi
  have hafter : threadHand (some (k r, tr ++ [⟨o, r⟩])) = handStep (inHand tr) ⟨o, r⟩ :=
    inHand_concat ..
  by_cases hspared : sparesHand o
  · obtain ⟨hvalid, hheld, haccepted, hclosed⟩ := threadEnv_spared hspared hm h.valid
    refine ⟨hvalid, .inl (custody_same ?_ hheld haccepted hclosed)⟩
    rw [hafter, handStep_spared hspared, hhand]
  have same : handStep (inHand tr) ⟨o, r⟩ = inHand tr → w = c.shared →
      (c.set i (some (k r, tr ++ [⟨o, r⟩])) w).shared.queue.Valid ∧
        (custody (c.set i (some (k r, tr ++ [⟨o, r⟩])) w) = custody c ∨
          Custody.Step (custody c) (custody (c.set i (some (k r, tr ++ [⟨o, r⟩])) w))) := by
    rintro hsame rfl
    exact ⟨h.valid, .inl (custody_same (hhand.trans (hsame.symm.trans hafter.symm)) rfl rfl rfl)⟩
  cases o with
  | accept _ =>
      have hempty : inHand tr = none := hguard
      cases r with
      | failed errno => exact same rfl hm
      | fd fd =>
          obtain ⟨hopen, rfl⟩ := hm
          refine ⟨h.valid, .inr ?_⟩
          rw [custody_set, hafter]
          exact .enter (hhand.trans hempty) (mt (h.sole.kept_iff_count fd).mp hopen)
  | tpqPush item =>
      have hitem : inHand tr = some item.fd := hguard
      obtain ⟨hpushed, rfl⟩ := hm
      cases r with
      | false => exact same rfl (by rw [Tpq.eq_of_push hpushed.symm])
      | true =>
          obtain ⟨hvalid, hheld⟩ := Tpq.held_of_push h.valid hpushed.symm
          refine ⟨hvalid, .inr ?_⟩
          rw [custody_set, hafter, hheld, List.map_append]
          exact .store (hhand.trans hitem)
  | tpqPop =>
      have hempty : inHand tr = none := hguard
      cases r with
      | none => exact same rfl hm.2
      | some item =>
          obtain ⟨hpopped, rfl⟩ := hm
          obtain ⟨hvalid, hheld⟩ := Tpq.held_of_pop h.valid hpopped
          refine ⟨hvalid, .inr ?_⟩
          rw [custody_set, hafter]
          exact .fetch (hhand.trans hempty) (congrArg (List.map TpqItem.fd) hheld)
  | close fd =>
      have hfd : inHand tr = some fd := hguard
      obtain rfl := hm
      refine ⟨h.valid, .inr ?_⟩
      rw [custody_set, hafter]
      exact .dispose (hhand.trans hfd)
  | _ => exact absurd trivial hspared

/-- Every step keeps each descriptor in one place. -/
theorem Sound.step (hf : Pool.Follows (roles cfg listenFd) c) (h : Sound c)
    (hs : Pool.Step threadEnv (roles cfg listenFd) c d) : Sound d := by
  cases hs with
  | act ha =>
      obtain ⟨hvalid, hsame | hstep⟩ := custody_act hf h ha
      · exact ⟨hvalid, hsame ▸ h.sole⟩
      · exact ⟨hvalid, h.sole.step hstep⟩
  | start hp hidle =>
      refine ⟨h.valid, ?_⟩
      rw [custody_same (t := some (_, [])) (congrArg threadHand hidle : _ = threadHand none) rfl rfl rfl]
      exact h.sole
  | finish hi =>
      refine ⟨h.valid, ?_⟩
      rw [custody_same (t := none) ((custody_hand hi).trans (roles_end hf hi)) rfl rfl rfl]
      exact h.sole
  | drift hd =>
      rcases hd with rfl | rfl
      · exact h
      · exact ⟨h.valid, h.sole⟩

end Pool

/-! ### After the shutdown -/

/-- The server before its threads start. -/
def serverStart (q : Tpq TpqItem) (listenFd : Option ℕ) : Threads :=
  .idle ⟨true, q, [], [], [], listenFd, fun _ => none, false⟩

theorem sound_start {q₀ : Tpq TpqItem} {capacity : ℕ} (hcap : 0 < capacity)
    (hq₀ : tpqInit capacity true = some q₀) (listenFd : Option ℕ) :
    Sound (serverStart q₀ listenFd) := by
  obtain ⟨hvalid, hview, -⟩ := Tpq.valid_init hcap hq₀
  refine ⟨hvalid, ?_⟩
  have hempty : custody (serverStart q₀ listenFd) = ⟨fun _ => none, [], [], []⟩ := by
    rw [custody, serverStart, Pool.idle, hview]
    rfl
  exact hempty ▸ Custody.sole_start

/-- What `cleanup_server` does to the queue, once it has joined the threads. -/
def cleanupQueue (w : ThreadWorld) : ThreadWorld := { w with queue := tpqDestroy w.queue }

/-- Each descriptor `accept` has returned has been closed, as often as it was returned. -/
def ClosedOnce (w : ThreadWorld) : Prop := w.closed.Perm w.accepted

/-- **What happens to accepted connections.**  For every capacity and number of workers, in every
interleaving of the acceptor, the workers and any number of shutdowns: no descriptor is closed twice,
and at most one of each number is open.  When all threads have stopped and the queue has been
destroyed, every descriptor has been closed exactly if the queue was empty when it was destroyed. -/
theorem accepted_closed_iff (cfg : ThreadsConfig) (listenFd : Option ℕ) {q₀ : Tpq TpqItem}
    (hq₀ : tpqInit cfg.queueCapacity true = some q₀) {c : Threads}
    (h : Pool.Run threadEnv (roles cfg listenFd) (serverStart q₀ listenFd) c) :
    (∀ fd, c.shared.closed.count fd ≤ c.shared.accepted.count fd ∧
        c.shared.accepted.count fd ≤ c.shared.closed.count fd + 1) ∧
      ((∀ i, c.threads i = none) →
        (ClosedOnce (cleanupQueue c.shared) ↔ c.shared.queue.count = 0)) := by
  have hstart := sound_start cfg.queueCapacity_range.1 hq₀ listenFd
  obtain ⟨-, hc⟩ := h.invariant (Pool.follows_idle _ _) hstart fun hf hc hs => hc.step hf hs
  refine ⟨hc.sole.count_le, fun hstopped => ?_⟩
  have hsettled := hc.sole.settled fun i => congrArg threadHand (hstopped i)
  rw [← hc.valid.held_eq_nil]
  exact hsettled.trans List.map_eq_nil_iff

/-- A server with one worker and room for one connection. -/
def oneWorker : ThreadsConfig where
  toServerConfig := .shipped
  maxWorkers := 1
  queueCapacity := 1
  clientTimeoutSec := 30
  enableTls := true
  maxWorkers_range := by decide
  queueCapacity_range := by decide

/-- The acceptor queues a connection. -/
def acceptsOne : ThreadHistory :=
  [made (.logMsg .info (ascii "ACCEPTOR_START listen_fd=3")) (),
    made .loadRunning true,
    made (.select 3 200000) .ready,
    made (.accept 3) (.fd 7),
    made (.netSetTimeouts 7 30) (),
    made (.netPeerInfo 7 128) (ascii "peer"),
    made (.statsAdd .connections) (),
    made (.tpqPush ⟨7, ascii "peer"⟩) true,
    made (.logMsg .info (ascii "ACCEPT queued")) ()]

/-- The server is told to stop. -/
def stops : ThreadHistory :=
  [made .lockShutdown (), made .clearRunning (), made .loadListenFd (some 3),
    made .clearListenFd (), made (.shutdownListener 3) (), made (.closeListener 3) ()] ++
  (List.range trackedWorkerFds).map (fun i => made (.loadWorkerFd i) none) ++
  [made .tpqShutdown (), made .unlockShutdown ()]

/-- The acceptor finds that the server stops. -/
def acceptorLeaves : ThreadHistory :=
  [made .loadRunning false, made (.logMsg .info (ascii "ACCEPTOR_STOP")) ()]

/-- The worker finds that the server stops. -/
def workerLeaves : ThreadHistory :=
  [made (.logMsg .info (ascii "WORKER_START")) (), made .loadRunning false,
    made (.logMsg .info (ascii "WORKER_STOP")) ()]

/-- The queue of one cell, with nothing in it, and with the connection. -/
def emptyQueue : Tpq TpqItem := ⟨[default], 1, 0, 0, 0, false⟩
def queuedOne (shutdown : Bool) : Tpq TpqItem := ⟨[⟨7, ascii "peer"⟩], 1, 0, 0, 1, shutdown⟩

/-- The world, while the server runs, and after its shutdown. -/
def whileRunning : ThreadWorld :=
  ⟨true, queuedOne false, [7], [], [], some 3, fun _ => none, false⟩
def afterShutdown : ThreadWorld :=
  ⟨false, queuedOne true, [7], [], [], none, fun _ => none, false⟩

theorem allows_slots (w : ThreadWorld) (hw : ∀ i, w.workerFds i = none) (slots : List ℕ) :
    threadEnv.Allows w (slots.map fun i => made (.loadWorkerFd i) none) w := by
  induction slots with
  | nil => rfl
  | cons i slots ih => exact ⟨w, ⟨(hw i).symm, rfl⟩, ih⟩

theorem allows_stops : threadEnv.Allows whileRunning stops afterShutdown := by
  have hslots : ∀ w : ThreadWorld, (∀ i, w.workerFds i = none) →
      threadEnv.Allows w
        ((List.range trackedWorkerFds).map fun i => made (.loadWorkerFd i) none) w :=
    fun w hw => allows_slots w hw _
  refine .append (.append ⟨_, ⟨rfl, rfl⟩, _, rfl, _, ⟨rfl, rfl⟩, _, rfl, _, rfl, _, rfl, rfl⟩
    (hslots _ fun _ => rfl)) ?_
  exact ⟨_, rfl, _, rfl, rfl⟩

/-- The threads, of which the acceptor alone may run. -/
def besides (t : Option (ThreadProg Unit × ThreadHistory)) (w : ThreadWorld) : Threads :=
  (Pool.idle w).set .acceptor t w

theorem besides_set (t t' : Option (ThreadProg Unit × ThreadHistory)) (w w' : ThreadWorld) :
    (besides t w).set .acceptor t' w' = besides t' w' := by
  rw [besides, Pool.set, Pool.set, Function.update_idem]
  rfl

theorem besides_acceptor (t : Option (ThreadProg Unit × ThreadHistory)) (w : ThreadWorld) :
    (besides t w).threads .acceptor = t :=
  Pool.set_self ..

theorem besides_ne (t : Option (ThreadProg Unit × ThreadHistory)) (w : ThreadWorld) {i : Role}
    (h : i ≠ .acceptor) : (besides t w).threads i = none :=
  Pool.set_ne _ h ..

theorem besides_none (w : ThreadWorld) (i : Role) : (besides none w).threads i = none := by
  by_cases h : i = .acceptor
  · exact h ▸ besides_acceptor none w
  · exact besides_ne none w h

theorem replay_acceptor : (acceptorThread 2 oneWorker (some 3)).replay
    (acceptsOne ++ acceptorLeaves) = some (.ret ()) :=
  Prog.replay_ret (by decide +kernel)

theorem replay_stops : serverRequestShutdown.replay stops = some (.ret ()) :=
  Prog.replay_ret (by decide +kernel)

/-- A connection is queued, and then the server is told to stop. -/
theorem queued_run :
    Pool.Run threadEnv (roles oneWorker (some 3)) (serverStart emptyQueue (some 3))
      (besides none afterShutdown) := by
  have hacceptor := replay_acceptor
  have hworker : (workerThread 1 oneWorker 1).replay workerLeaves = some (.ret ()) :=
    Prog.replay_ret (by decide +kernel)
  rw [Prog.replay_append (E := threadInterface)] at hacceptor
  obtain ⟨q, hq, hleaves⟩ := Option.bind_eq_some_iff.mp hacceptor
  have haccepts : threadEnv.Allows (serverStart emptyQueue (some 3)).shared acceptsOne
      whileRunning := by
    refine ⟨_, rfl, _, ⟨rfl, rfl⟩, _, rfl, _, ⟨?_, rfl⟩, _, rfl, _, rfl, _, rfl, _, ⟨rfl, rfl⟩, _,
      rfl, rfl⟩
    exact Nat.lt_irrefl _
  have hallows : threadEnv.Allows afterShutdown acceptorLeaves afterShutdown :=
    ⟨_, ⟨rfl, rfl⟩, _, rfl, rfl⟩
  have hstart : Pool.Step threadEnv (roles oneWorker (some 3)) (serverStart emptyQueue (some 3))
      (besides (some (acceptorThread 2 oneWorker (some 3), []))
        (serverStart emptyQueue (some 3)).shared) := .start ⟨2, rfl⟩ rfl
  have hqueued : Pool.Run threadEnv (roles oneWorker (some 3))
      (besides (some (acceptorThread 2 oneWorker (some 3), []))
        (serverStart emptyQueue (some 3)).shared)
      (besides (some (q, acceptsOne)) whileRunning) := by
    have hrun := Pool.run_replay (roles oneWorker (some 3)) (c := besides (some
      (acceptorThread 2 oneWorker (some 3), [])) (serverStart emptyQueue (some 3)).shared)
      (besides_acceptor ..) hq haccepts
    rwa [besides_set] at hrun
  have hstopped : Pool.Run threadEnv (roles oneWorker (some 3))
      (besides (some (q, acceptsOne)) whileRunning) (besides (some (q, acceptsOne)) afterShutdown) :=
    Pool.run_whole (roles oneWorker (some 3)) (i := .stopper 0)
      (besides_ne _ _ fun h => by cases h) rfl replay_stops allows_stops
  have hleft : Pool.Run threadEnv (roles oneWorker (some 3))
      (besides (some (q, acceptsOne)) afterShutdown) (besides none afterShutdown) := by
    have hrun := Pool.run_rest (roles oneWorker (some 3)) (c := besides (some (q, acceptsOne))
      afterShutdown) (besides_acceptor ..) hleaves hallows
    rwa [besides_set] at hrun
  have hworked : Pool.Run threadEnv (roles oneWorker (some 3)) (besides none afterShutdown)
      (besides none afterShutdown) :=
    Pool.run_whole (roles oneWorker (some 3)) (i := .worker 1) (besides_none ..)
      ⟨⟨Nat.le_refl 1, Nat.le_refl 1⟩, 1, rfl⟩ hworker ⟨_, rfl, _, ⟨rfl, rfl⟩, _, rfl, rfl⟩
  exact .head hstart (hqueued.trans (hstopped.trans (hleft.trans hworked)))

/-- The queue was not empty. -/
theorem accepted_closed_iff_queued :
    ClosedOnce (cleanupQueue afterShutdown) ↔ afterShutdown.queue.count = 0 :=
  (accepted_closed_iff oneWorker (some 3) rfl queued_run).2 (besides_none _)

/-- A connection in the queue when the server stops is never closed. -/
theorem queued_connection_lost :
    ∃ c : Threads, Pool.Run threadEnv (roles oneWorker (some 3))
        (serverStart emptyQueue (some 3)) c ∧
      (∀ i, c.threads i = none) ∧ ¬ ClosedOnce (cleanupQueue c.shared) := by
  refine ⟨_, queued_run, besides_none _, fun h => ?_⟩
  exact absurd h.length_eq (by decide)

end UpdateFramework.Server
