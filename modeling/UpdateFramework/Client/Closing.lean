import UpdateFramework.Client.Sockets
import UpdateFramework.Collections.Handover

/-!
# Client — each socket is closed once

The client's thread shows the descriptor of an attempt in `g_active_fd`, and whoever asks the client
to stop may take it from there and close it.  Others may come between the steps in which the two
flags are read and written; where none does in one of three ways (`InOrder`), the threads are a
`Handover` of descriptors, and each is closed exactly once (`closed_once`).
-/

namespace UpdateFramework.Client

open Collections Libc Process

abbrev SocketHistory := List (Call socketInterface)

abbrev Sockets := Pool Party socketInterface Unit SocketWorld

/-- The operation `o`, answered by `r`. -/
abbrev did (o : SocketOp) (r : SocketOp.Res o) : Call socketInterface := ⟨o, r⟩

/-! ### A stop -/

/-- What a stop has taken, after an operation. -/
def stopStep : Handover.Taker ℕ → Call socketInterface → Handover.Taker ℕ
  | _, ⟨.loadActive, some fd⟩ => .read fd
  | .read fd, ⟨.storeActive _, _⟩ => .cleared fd
  | .cleared fd, ⟨.storeSignalClosed _, _⟩ => .noted fd
  | _, ⟨.close _, _⟩ => .idle
  | t, _ => t

/-- What a stop does to the flags and the descriptor it has taken, and when. -/
def stopHandles : Handover.Taker ℕ → SocketOp → Prop
  | _, .setStop => True
  | t, .loadActive => t = .idle
  | t, .storeActive fd => fd = none ∧ ∃ fd, t = .read fd
  | t, .storeSignalClosed fd => ∃ fd', fd = some fd' ∧ t = .cleared fd'
  | t, .close fd => t = .noted fd
  | _, _ => False

theorem clientRequestStop_safe :
    Safe (Env.folding stopStep) stopHandles (fun _ t => t = .idle) clientRequestStop .idle := by
  refine safe_folding_call.mpr ⟨trivial, fun _ => safe_folding_call.mpr ⟨rfl, fun fd => ?_⟩⟩
  cases fd with
  | none => exact safe_folding_ret.mpr rfl
  | some fd =>
      refine safe_folding_call.mpr ⟨⟨rfl, fd, rfl⟩, fun _ => ?_⟩
      refine safe_folding_call.mpr ⟨⟨fd, rfl, rfl⟩, fun _ => ?_⟩
      exact safe_folding_call.mpr ⟨rfl, fun _ => safe_folding_ret.mpr rfl⟩

/-! ### The handover of descriptors -/

/-- The phase of a thread of the client, if it runs. -/
def threadPhase (t : Option (SocketProg Unit × SocketHistory)) : Phase :=
  t.elim .away fun t => t.2.foldl phaseStep .away

/-- What a stop, if it runs, has taken. -/
def threadTaken (t : Option (SocketProg Unit × SocketHistory)) : Handover.Taker ℕ :=
  t.elim .idle fun t => t.2.foldl stopStep .idle

abbrev clientPhase (c : Sockets) : Phase := threadPhase (c.threads .client)

abbrev taken (c : Sockets) (n : ℕ) : Handover.Taker ℕ := threadTaken (c.threads (.stopper n))

/-- The owner in a phase. -/
def Phase.owner : Phase → Handover.Owner ℕ
  | .away => .away
  | .connected fd => .holding fd
  | .posted fd => .posted fd
  | .armed fd => .armed fd
  | .told fd => .told fd
  | .leaving fd | .seen fd => .leaving fd
  | .withdrawn fd | .dropped fd => .left fd

/-- Who has which descriptor. -/
def handover (c : Sockets) : Handover ℕ ℕ where
  owner := (clientPhase c).owner
  taker := taken c
  slot := c.shared.active
  notice := c.shared.signalClosed
  entered := c.shared.opened
  disposed := c.shared.closed

/-- What party `i` may do next. -/
def inOrder (c : Sockets) : Party → SocketOp → Prop
  | .stopper n, .loadActive => c.shared.active ≠ none →
      (∀ m, m ≠ n → ∀ fd, taken c m ≠ .read fd) ∧
        ∀ fd, clientPhase c ≠ .leaving fd ∧ clientPhase c ≠ .seen fd
  | .client, .storeSignalClosed none => ∀ fd, clientPhase c = .posted fd →
      c.shared.signalClosed ≠ some fd
  | .client, .loadSignalClosed => ∀ n fd, taken c n ≠ .read fd ∧ taken c n ≠ .cleared fd
  | _, _ => True

/-- Nobody comes between the steps of another in a way that matters: a stop reads a descriptor from
`g_active_fd` only when no other stop has read it and not cleared it, and when the client's thread
has not found that it was not closed; the client's thread wipes `g_signal_closed_fd` only when that
is not the descriptor it has just shown, and looks at it only when no stop has read `g_active_fd` and
not said so. -/
def InOrder (c : Sockets) (i : Party) : Prop :=
  ∀ o k tr, c.threads i = some (.call o k, tr) → inOrder c i o

section Handing

variable {cfg : ClientConfig} {c d : Sockets} {tr : SocketHistory} {p : SocketProg Unit}

theorem client_safe (hf : Pool.Follows (parties cfg) c) (hi : c.threads .client = some (p, tr)) :
    Safe (Env.folding phaseStep) phaseHandles (fun _ q => q = .away) p (clientPhase c) := by
  obtain ⟨p₀, ⟨bound, rfl⟩, hrun⟩ := hf .client p tr hi
  rw [clientPhase, hi]
  exact (updateThread_safe bound cfg).folded hrun

theorem stopper_safe {n : ℕ} (hf : Pool.Follows (parties cfg) c)
    (hi : c.threads (.stopper n) = some (p, tr)) :
    Safe (Env.folding stopStep) stopHandles (fun _ t => t = .idle) p (taken c n) := by
  obtain ⟨p₀, hp₀, hrun⟩ := hf (.stopper n) p tr hi
  obtain rfl : p₀ = clientRequestStop := hp₀
  rw [taken, hi]
  exact clientRequestStop_safe.folded hrun

theorem handover_client (c : Sockets) (t : Option (SocketProg Unit × SocketHistory))
    (w : SocketWorld) : handover (c.set .client t w) =
      ⟨(threadPhase t).owner, (handover c).taker, w.active, w.signalClosed, w.opened,
        w.closed⟩ := by
  have htaken : taken (c.set .client t w) = taken c :=
    funext fun n => congrArg threadTaken (Pool.set_ne c Party.noConfusion t w)
  rw [handover, htaken, clientPhase, Pool.set_self]
  rfl

theorem handover_stopper (c : Sockets) (n : ℕ) (t : Option (SocketProg Unit × SocketHistory))
    (w : SocketWorld) : handover (c.set (.stopper n) t w) =
      ⟨(handover c).owner, (handover c).takes n (threadTaken t), w.active, w.signalClosed, w.opened,
        w.closed⟩ := by
  have htaken : taken (c.set (.stopper n) t w) = (handover c).takes n (threadTaken t) := by
    funext m
    rw [Handover.takes]
    by_cases hmn : m = n
    · subst hmn
      rw [Function.update_self, taken, Pool.set_self]
    · rw [Function.update_of_ne hmn, taken, Pool.set_ne c fun h => hmn (Party.stopper.inj h)]
      rfl
  have hclient : (c.set (.stopper n) t w).threads .client = c.threads .client :=
    Pool.set_ne c Party.noConfusion t w
  rw [handover, htaken, clientPhase, hclient]
  rfl

/-- A thread that starts or ends with nothing in hand. -/
theorem handover_client_same {t : Option (SocketProg Unit × SocketHistory)}
    (ht : threadPhase t = clientPhase c) : handover (c.set .client t c.shared) = handover c := by
  rw [handover_client, ht]
  rfl

theorem handover_stopper_same {n : ℕ} {t : Option (SocketProg Unit × SocketHistory)}
    (ht : threadTaken t = taken c n) : handover (c.set (.stopper n) t c.shared) = handover c := by
  have htakes : (handover c).takes n (taken c n) = (handover c).taker :=
    Function.update_eq_self n _
  rw [handover_stopper, ht, htakes]
  rfl

/-- What is called goes on the history, and is read off it. -/
theorem threadPhase_call (q : SocketProg Unit) (x : Call socketInterface) :
    threadPhase (some (q, tr ++ [x])) = phaseStep (threadPhase (some (p, tr))) x :=
  List.foldl_concat ..

theorem threadTaken_call (q : SocketProg Unit) (x : Call socketInterface) :
    threadTaken (some (q, tr ++ [x])) = stopStep (threadTaken (some (p, tr))) x :=
  List.foldl_concat ..

/-- A client that is leaving has its descriptor in `g_active_fd`. -/
theorem active_of_leaving (h : (handover c).Sound) {fd : ℕ}
    (ho : (handover c).owner = .leaving fd) : c.shared.active = some fd := by
  obtain ⟨l, hl⟩ := h
  have hagrees := hl.agrees
  rw [ho] at hagrees
  cases hagrees
  exact hl.slot

/-- A call of the client's thread is a step of the handover, or none. -/
theorem client_act (hf : Pool.Follows (parties cfg) c) (h : (handover c).Sound) {o : SocketOp}
    {k : SocketOp.Res o → SocketProg Unit} {r : SocketOp.Res o} {w : SocketWorld}
    (hi : c.threads .client = some (.call o k, tr)) (hm : socketMay c.shared o r w)
    (hG : inOrder c .client o) :
    handover (c.set .client (some (k r, tr ++ [⟨o, r⟩])) w) = handover c ∨
      Handover.Step (handover c) (handover (c.set .client (some (k r, tr ++ [⟨o, r⟩])) w)) := by
  have hguard := (client_safe hf hi).guard
  have hphase : threadPhase (some (k r, tr ++ [⟨o, r⟩])) = phaseStep (clientPhase c) ⟨o, r⟩ := by
    rw [clientPhase, hi]
    exact threadPhase_call (k r) ⟨o, r⟩
  have howner : ∀ {q}, clientPhase c = q → (handover c).owner = q.owner := fun hq =>
    congrArg Phase.owner hq
  rw [handover_client, hphase]
  cases o with
  | setStop => exact hguard.elim
  | loadActive =>
      obtain ⟨fd, hq⟩ := hguard
      obtain ⟨rfl, rfl⟩ := hm
      have hactive := active_of_leaving h (howner hq)
      rw [hq, phaseStep, if_pos hactive]
      exact .inl (congrArg (fun o => { handover c with owner := o }) (howner hq).symm)
  | storeActive fd =>
      obtain rfl := hm
      cases fd with
      | some fd =>
          have hq : clientPhase c = .connected fd := hguard
          rw [hq]
          exact .inr (.post (howner hq))
      | none =>
          obtain ⟨fd, hq | hq⟩ := hguard
          · rw [hq]
            exact .inr (.clear (howner hq))
          · rw [hq]
            exact .inr (.again (howner hq))
  | loadSignalClosed =>
      obtain ⟨fd, hq⟩ := hguard
      obtain ⟨rfl, rfl⟩ := hm
      rw [hq, phaseStep]
      by_cases htold : c.shared.signalClosed = some fd
      · rw [if_pos htold]
        exact .inr (.hear (howner hq) htold)
      · rw [if_neg htold]
        exact .inr (.leave (howner hq) htold (fun n fd => (hG n fd).1) fun n fd => (hG n fd).2)
  | storeSignalClosed fd =>
      obtain rfl := hm
      cases fd with
      | some fd => exact hguard.elim
      | none =>
          obtain ⟨fd, hq | hq⟩ := hguard
          · rw [hq]
            exact .inr (.arm (howner hq) (hG fd hq))
          · rw [hq]
            exact .inr (.forget (howner hq))
  | close fd =>
      have hq : clientPhase c = .dropped fd := hguard
      obtain rfl := hm
      rw [hq]
      exact .inr (.drop (howner hq))
  | other o =>
      have same : phaseStep (clientPhase c) ⟨.other o, r⟩ = clientPhase c → w = c.shared →
          (⟨(phaseStep (clientPhase c) ⟨.other o, r⟩).owner, (handover c).taker, w.active,
            w.signalClosed, w.opened, w.closed⟩ : Handover ℕ ℕ) = handover c := by
        rintro hsame rfl
        rw [hsame]
        rfl
      cases o with
      | netConnectTcp =>
          have hq : clientPhase c = .away := hguard
          cases r with
          | none => exact .inl (same (by rw [hq]; rfl) hm)
          | some fd =>
              obtain ⟨hopen, rfl⟩ := hm
              rw [hq]
              exact .inr (.enter (howner hq) hopen)
      | stopRequested => exact .inl (same (by cases clientPhase c <;> rfl) hm.2)
      | _ => exact .inl (same (by cases clientPhase c <;> rfl) hm)

/-- The owner is leaving only in two phases. -/
theorem not_leaving {q : Phase} (h : ∀ fd, q ≠ .leaving fd ∧ q ≠ .seen fd) {fd : ℕ} :
    q.owner ≠ .leaving fd := by
  cases q with
  | leaving fd => exact absurd rfl (h fd).1
  | seen fd => exact absurd rfl (h fd).2
  | _ => exact nofun

/-- A call of a stop is a step of the handover, or none. -/
theorem stopper_act (hf : Pool.Follows (parties cfg) c) {n : ℕ} {o : SocketOp}
    {k : SocketOp.Res o → SocketProg Unit} {r : SocketOp.Res o} {w : SocketWorld}
    (hi : c.threads (.stopper n) = some (.call o k, tr)) (hm : socketMay c.shared o r w)
    (hG : inOrder c (.stopper n) o) :
    handover (c.set (.stopper n) (some (k r, tr ++ [⟨o, r⟩])) w) = handover c ∨
      Handover.Step (handover c)
        (handover (c.set (.stopper n) (some (k r, tr ++ [⟨o, r⟩])) w)) := by
  have hguard := (stopper_safe hf hi).guard
  have htaken : threadTaken (some (k r, tr ++ [⟨o, r⟩])) = stopStep (taken c n) ⟨o, r⟩ := by
    rw [taken, hi]
    exact threadTaken_call (k r) ⟨o, r⟩
  have same : stopStep (taken c n) ⟨o, r⟩ = taken c n → w.active = c.shared.active →
      w.signalClosed = c.shared.signalClosed → w.opened = c.shared.opened →
      w.closed = c.shared.closed →
      (⟨(handover c).owner, (handover c).takes n (stopStep (taken c n) ⟨o, r⟩), w.active,
        w.signalClosed, w.opened, w.closed⟩ : Handover ℕ ℕ) = handover c := by
    intro hsame hactive hsignal hopened hclosed
    have htakes : (handover c).takes n (taken c n) = (handover c).taker :=
      Function.update_eq_self n _
    rw [hsame, htakes, hactive, hsignal, hopened, hclosed]
    rfl
  rw [handover_stopper, htaken]
  cases o with
  | setStop =>
      obtain rfl := hm
      exact .inl (same (by cases taken c n <;> rfl) rfl rfl rfl rfl)
  | loadActive =>
      have hidle : taken c n = .idle := hguard
      obtain ⟨rfl, rfl⟩ := hm
      rcases Option.eq_none_or_eq_some c.shared.active with hactive | ⟨fd, hactive⟩
      · exact .inl (same (by rw [hactive, hidle]; rfl) rfl rfl rfl rfl)
      · have hstep : stopStep (taken c n) (did .loadActive c.shared.active) = .read fd := by
          rw [hactive, hidle]
          rfl
        obtain ⟨hread, howner⟩ := hG (by rw [hactive]; exact Option.some_ne_none fd)
        rw [hstep]
        refine .inr (.take hidle hactive (fun m fd => ?_) fun fd ho => ?_)
        · by_cases hmn : m = n
          · subst hmn
            exact fun hr => nomatch hidle.symm.trans hr
          · exact hread m hmn fd
        · exact not_leaving howner ho
  | storeActive fd =>
      obtain ⟨rfl, fd, hread⟩ := hguard
      obtain rfl := hm
      rw [hread]
      exact .inr (.empty hread)
  | loadSignalClosed => exact hguard.elim
  | storeSignalClosed fd =>
      obtain ⟨fd, rfl, hcleared⟩ := hguard
      obtain rfl := hm
      rw [hcleared]
      exact .inr (.note hcleared)
  | close fd =>
      have hnoted : taken c n = .noted fd := hguard
      obtain rfl := hm
      rw [hnoted]
      exact .inr (.dispose hnoted)
  | other o => exact hguard.elim

/-- Every step in order keeps each descriptor in one place. -/
theorem handover_step (hf : Pool.Follows (parties cfg) c) (h : (handover c).Sound)
    (hs : Pool.Step socketEnv (parties cfg) c d)
    (hG : ∀ i, Pool.Acts socketEnv i c d → InOrder c i) : (handover d).Sound := by
  cases hs with
  | act ha =>
      rename_i i
      have horder := hG i ha
      obtain ⟨o, k, tr, r, w, hi, hm, rfl⟩ := ha
      cases i with
      | client =>
          rcases client_act hf h hi hm (horder o k tr hi) with hsame | hstep
          · exact hsame ▸ h
          · exact h.step hstep
      | stopper n =>
          rcases stopper_act hf hi hm (horder o k tr hi) with hsame | hstep
          · exact hsame ▸ h
          · exact h.step hstep
  | @start i p hp hidle =>
      cases i with
      | client =>
          have haway : threadPhase (some (p, [])) = clientPhase c :=
            (congrArg threadPhase hidle).symm
          exact handover_client_same haway ▸ h
      | stopper n =>
          have hempty : threadTaken (some (p, [])) = taken c n :=
            (congrArg threadTaken hidle).symm
          exact handover_stopper_same hempty ▸ h
  | @finish i _ tr hi =>
      cases i with
      | client =>
          have haway : clientPhase c = threadPhase none := (client_safe hf hi).result
          exact handover_client_same haway.symm ▸ h
      | stopper n =>
          have hempty : taken c n = threadTaken none := (stopper_safe hf hi).result
          exact handover_stopper_same hempty.symm ▸ h
  | drift hd => exact hd ▸ h

end Handing

/-- The client before its threads start. -/
def socketStart : Sockets := .idle ⟨false, none, none, [], []⟩

theorem handover_start : (handover socketStart).Sound :=
  Handover.sound_start

/-- Each descriptor is closed as often as it was opened, and only while it is open. -/
structure ClosedOnce (c : Sockets) : Prop where
  /-- Nothing is closed that is not open. -/
  open_first : ∀ fd, c.shared.closed.count fd ≤ c.shared.opened.count fd
  /-- A descriptor comes from `net_connect_tcp` again only when it was closed. -/
  closed_first : ∀ fd, c.shared.opened.count fd ≤ c.shared.closed.count fd + 1
  /-- When the threads have ended, nothing is left open. -/
  all : (∀ i, c.threads i = none) → c.shared.closed.Perm c.shared.opened

/-- **Sockets are closed once.**  For every client, and however many attempts are made, in every
interleaving of the client's thread with any number of stops in which nobody comes between the steps
of another: no descriptor is passed to `close` when it is not open, and when the threads have ended,
each has been closed as often as `net_connect_tcp` returned it. -/
theorem closed_once (cfg : ClientConfig) {c : Sockets}
    (h : Pool.GuardedRun socketEnv (parties cfg) InOrder socketStart c) : ClosedOnce c := by
  have hsound : Pool.Follows (parties cfg) c ∧ (handover c).Sound := by
    induction h with
    | refl => exact ⟨Pool.follows_idle _ _, handover_start⟩
    | tail _ hs ih => exact ⟨ih.1.step hs.1, handover_step ih.1 ih.2 hs.1 hs.2⟩
  obtain ⟨-, hc⟩ := hsound
  refine ⟨fun fd => (hc.count_le fd).1, fun fd => (hc.count_le fd).2, fun hended => ?_⟩
  refine hc.settled ?_ fun n => ?_
  · exact congrArg (fun t => (threadPhase t).owner) (hended .client)
  · exact congrArg threadTaken (hended (.stopper n))

/-! ### A stop during an attempt -/

/-- The client connects, and the handshake fails. -/
def connects : SocketHistory :=
  [did (.other (.file (.lock .tableLock))) none, did (.other .stopRequested) false,
    did (.other .netConnectTcp) (some 7), did (.storeActive (some 7)) (),
    did (.storeSignalClosed none) (), did (.other .stopRequested) false,
    did (.other (.tlsConnectConnection 7)) false]

/-- A stop finds the descriptor, and closes it. -/
def stopsAttempt : SocketHistory :=
  [did .setStop (), did .loadActive (some 7), did (.storeActive none) (),
    did (.storeSignalClosed (some 7)) (), did (.close 7) ()]

/-- The client finds that its descriptor was closed. -/
def isTold : SocketHistory :=
  [did .loadSignalClosed (some 7), did (.storeSignalClosed none) (),
    did (.other .stopRequested) true]

/-- The world while the client is connected, after the stop, and in the end. -/
def whileConnected : SocketWorld := ⟨false, some 7, none, [7], []⟩
def afterStop : SocketWorld := ⟨true, none, some 7, [7], [7]⟩
def afterAttempt : SocketWorld := ⟨true, none, none, [7], [7]⟩

theorem allows_connects : socketEnv.Allows socketStart.shared connects whileConnected :=
  ⟨_, rfl, _, ⟨rfl, rfl⟩, _, ⟨Nat.lt_irrefl _, rfl⟩, _, rfl, _, rfl, _, ⟨rfl, rfl⟩, _, rfl, rfl⟩

theorem allows_stopsAttempt : socketEnv.Allows whileConnected stopsAttempt afterStop :=
  ⟨_, rfl, _, ⟨rfl, rfl⟩, _, rfl, _, rfl, _, rfl, rfl⟩

theorem allows_isTold : socketEnv.Allows afterStop isTold afterAttempt :=
  ⟨_, ⟨rfl, rfl⟩, _, rfl, _, ⟨rfl, rfl⟩, rfl⟩

theorem replay_connects :
    ∃ q, (updateThread 1 .client001).replay connects = some q ∧
      q.replay isTold = some (.ret ()) := by
  have hall : (updateThread 1 .client001).replay (connects ++ isTold) = some (.ret ()) :=
    Prog.replay_ret (by decide +kernel)
  rw [Prog.replay_append (E := socketInterface)] at hall
  exact Option.bind_eq_some_iff.mp hall

theorem replay_stopsAttempt : clientRequestStop.replay stopsAttempt = some (.ret ()) := rfl

section Alone

variable {c : Sockets}

/-- The client's thread is in order while no stop runs, if its notice is not about to be wiped. -/
theorem inOrder_client (hstops : ∀ n, c.threads (.stopper n) = none)
    (hwiped : ∀ fd, clientPhase c = .posted fd → c.shared.signalClosed ≠ some fd) :
    InOrder c .client := by
  intro o k tr hi
  cases o with
  | loadSignalClosed =>
      intro n fd
      rw [taken, hstops]
      exact ⟨nofun, nofun⟩
  | storeSignalClosed fd =>
      cases fd with
      | none => exact hwiped
      | some fd => trivial
  | _ => trivial

/-- A stop is in order while no other runs, if the client's thread is not leaving. -/
theorem inOrder_stopper {n : ℕ} (hstops : ∀ m, m ≠ n → c.threads (.stopper m) = none)
    (hclient : ∀ fd, clientPhase c ≠ .leaving fd ∧ clientPhase c ≠ .seen fd) :
    InOrder c (.stopper n) := by
  intro o k tr hi
  cases o with
  | loadActive =>
      refine fun _ => ⟨fun m hmn fd => ?_, hclient⟩
      rw [taken, hstops m hmn]
      exact nofun
  | _ => trivial

theorem signalClosed_kept {tr : SocketHistory} {w w' : SocketWorld}
    (htr : ∀ x ∈ tr, ∀ fd, x.1 ≠ .storeSignalClosed (some fd))
    (h : socketEnv.Allows w tr w') (hw : w.signalClosed = none) : w'.signalClosed = none := by
  induction tr generalizing w with
  | nil => exact h ▸ hw
  | cons x tr ih =>
      obtain ⟨o, r⟩ := x
      obtain ⟨v, hm, hrest⟩ := h
      refine ih (fun x hx => htr x (List.mem_cons_of_mem _ hx)) hrest ?_
      replace hm : socketMay w o r v := hm
      cases o with
      | storeSignalClosed fd =>
          cases fd with
          | none => exact hm ▸ rfl
          | some fd => exact absurd rfl (htr _ List.mem_cons_self fd)
      | loadActive | loadSignalClosed => exact hm.2 ▸ hw
      | other o =>
          cases o with
          | netConnectTcp =>
              cases r with
              | none => exact hm ▸ hw
              | some fd => exact hm.2 ▸ hw
          | stopRequested => exact hm.2 ▸ hw
          | _ => exact hm ▸ hw
      | _ => exact hm ▸ hw

end Alone

/-- The client connects, is stopped, and finds its descriptor closed. -/
theorem told_run :
    Pool.GuardedRun socketEnv (parties .client001) InOrder socketStart (.idle afterAttempt) := by
  obtain ⟨q, hq, hrest⟩ := replay_connects
  have hother : ∀ (t : Option (SocketProg Unit × SocketHistory)) (w : SocketWorld) (n : ℕ),
      (socketStart.set .client t w).threads (.stopper n) = none := fun t w n =>
    Pool.set_ne _ (by nofun) t w
  have hconnects : Pool.GuardedRun socketEnv (parties .client001) InOrder socketStart
      (socketStart.set .client (some (q, connects)) whileConnected) := by
    refine Pool.guardedRun_start rfl ⟨1, rfl⟩ hq allows_connects fun before x after htr k t ht => ?_
    refine inOrder_client (hother _ _) fun fd _ => ?_
    have hnone : t.signalClosed = none := by
      refine signalClosed_kept (fun y hy fd => ?_) ht rfl
      have hy : y ∈ connects := htr ▸ List.mem_append_left _ hy
      simp only [connects, List.mem_cons, List.not_mem_nil, or_false] at hy
      rcases hy with rfl | rfl | rfl | rfl | rfl | rfl | rfl <;> exact nofun
    rw [Pool.set_shared, hnone]
    exact nofun
  have hstops : Pool.GuardedRun socketEnv (parties .client001) InOrder
      (socketStart.set .client (some (q, connects)) whileConnected)
      (socketStart.set .client (some (q, connects)) afterStop) := by
    refine Pool.guardedRun_whole (i := Party.stopper 0) (p := clientRequestStop) (hother _ _ 0) rfl
      replay_stopsAttempt allows_stopsAttempt fun before x after htr k t ht => ?_
    refine inOrder_stopper (fun m hm => ?_) ?_
    · rw [Pool.set_ne _ fun h => hm (Party.stopper.inj h)]
      exact hother _ _ m
    · have harmed : clientPhase ((socketStart.set .client (some (q, connects)) whileConnected).set
          (.stopper 0) (some (.call x.1 k, before)) t) = .armed 7 := rfl
      rw [harmed]
      exact fun fd => ⟨nofun, nofun⟩
  have htold : Pool.GuardedRun socketEnv (parties .client001) InOrder
      (socketStart.set .client (some (q, connects)) afterStop)
      (socketStart.set .client none afterAttempt) := by
    have hrun := Pool.guardedRun_rest (G := InOrder) (parties .client001)
      (c := socketStart.set .client (some (q, connects)) afterStop) (Pool.set_self ..) hrest
      allows_isTold fun before x after htr k t ht => ?_
    · rwa [Pool.set, Pool.set, Function.update_idem] at hrun
    · rw [Pool.set, Pool.set, Function.update_idem]
      refine inOrder_client (hother _ _) fun fd hposted => ?_
      have hphase : threadPhase (some (.call x.1 k, connects ++ before)) = .posted fd := hposted
      -- the calls made so far leave the client armed, told or away
      rcases before with _ | ⟨_, _ | ⟨_, _ | ⟨_, before⟩⟩⟩
      · cases htr
        cases hphase
      · cases htr
        cases hphase
      · cases htr
        cases hphase
      · have hlen := congrArg List.length htr
        simp only [isTold, List.cons_append, List.length_cons, List.length_append,
          List.length_nil] at hlen
        omega
  have hidle : socketStart.set .client none afterAttempt = .idle afterAttempt :=
    congrArg (fun threads => (⟨threads, afterAttempt⟩ : Sockets))
      (Function.update_eq_self Party.client socketStart.threads)
  exact hidle ▸ hconnects.trans (hstops.trans htold)

/-- The descriptor that the stop closed is closed once. -/
theorem closed_once_stopped : ClosedOnce (.idle afterAttempt) :=
  closed_once .client001 told_run

/-- The client finds that its descriptor was not closed. -/
def looksTooEarly : SocketHistory := [did .loadSignalClosed none]

/-- And closes it. -/
def closesAgain : SocketHistory :=
  [did .loadActive none, did (.storeActive none) (), did (.close 7) (),
    did (.other .stopRequested) true]

def closedTwice : SocketWorld := ⟨true, none, some 7, [7], [7, 7]⟩

/-- A stop between the client's two looks closes the descriptor, and the client closes it again. -/
theorem stop_between_looks : ∃ c : Sockets,
    Pool.Run socketEnv (parties .client001) socketStart c ∧ ¬ ClosedOnce c := by
  have hall : (updateThread 1 .client001).replay ((connects ++ looksTooEarly) ++ closesAgain) =
      some (.ret ()) := Prog.replay_ret (by decide +kernel)
  rw [Prog.replay_append (E := socketInterface)] at hall
  obtain ⟨q, hq, hrest⟩ := Option.bind_eq_some_iff.mp hall
  have hlooks : Pool.Run socketEnv (parties .client001) socketStart
      (socketStart.set .client (some (q, connects ++ looksTooEarly)) whileConnected) :=
    (Pool.guardedRun_start (G := fun _ _ => True) rfl ⟨1, rfl⟩ hq
      (allows_connects.append ⟨_, ⟨rfl, rfl⟩, rfl⟩) fun _ _ _ _ _ _ _ => trivial).run
  have hstops : Pool.Run socketEnv (parties .client001)
      (socketStart.set .client (some (q, connects ++ looksTooEarly)) whileConnected)
      (socketStart.set .client (some (q, connects ++ looksTooEarly)) afterStop) :=
    Pool.run_whole (parties .client001) (i := Party.stopper 0) (p := clientRequestStop) rfl rfl
      replay_stopsAttempt allows_stopsAttempt
  have hcloses : Pool.Run socketEnv (parties .client001)
      (socketStart.set .client (some (q, connects ++ looksTooEarly)) afterStop)
      ((socketStart.set .client (some (q, connects ++ looksTooEarly)) afterStop).set .client none
        closedTwice) :=
    Pool.run_rest (parties .client001) (Pool.set_self ..) hrest
      ⟨_, ⟨rfl, rfl⟩, _, rfl, _, rfl, _, ⟨rfl, rfl⟩, rfl⟩
  have htwice : ¬ closedTwice.closed.count 7 ≤ closedTwice.opened.count 7 := by decide
  exact ⟨_, hlooks.trans (hstops.trans hcloses), fun h => htwice (h.open_first 7)⟩

end UpdateFramework.Client
