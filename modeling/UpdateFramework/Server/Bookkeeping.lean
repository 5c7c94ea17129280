import UpdateFramework.Collections.Roster
import UpdateFramework.Common.Stats
import UpdateFramework.Process.Chronicle
import UpdateFramework.Server.Books

/-!
# Server — what the dashboard is told

The workers count the connections being served and the packages being sent, and keep the list of
active clients.  In every state they reach, the counters are what the workers are doing, and the
list is the roster of their sessions, in the order in which these were added
(`bookkeeping_balanced`).
-/

namespace UpdateFramework.Server

open Collections Libc Process

/-! ### What the workers share -/

/-- The counters of `stats_t` that go up and down, and its list of active clients. -/
@[ext]
structure Stats where
  busyWorkers : ℤ
  activeTransfers : UInt64
  active : ActiveClients

/-- `stats_init`, of a context filled with zeros. -/
def statsInit : Stats :=
  ⟨0, 0, List.replicate activeClientMax [], List.replicate activeClientMax [], 0⟩

/-- What a call changes of them. -/
def statsStep (s : Stats) : ThreadOp → Stats
  | .statsAdd .busyWorkers => { s with busyWorkers := s.busyWorkers + 1 }
  | .statsSub .busyWorkers => { s with busyWorkers := s.busyWorkers - 1 }
  | .statsActiveClientAdd key label =>
    { s with active := UpdateFramework.statsActiveClientAdd s.active key label }
  | .statsActiveClientRemove key =>
    { s with active := UpdateFramework.statsActiveClientRemove s.active key }
  | .session (.statsActiveClientUpdate key label) =>
    { s with active := UpdateFramework.statsActiveClientUpdate s.active key label }
  | .session (.statsAdd .activeTransfers n) =>
    { s with activeTransfers := s.activeTransfers + .ofNat n }
  | .session (.statsSub .activeTransfers n) =>
    { s with activeTransfers := s.activeTransfers - .ofNat n }
  | _ => s

structure StatsWorld where
  threads : ThreadWorld
  stats : Stats

/-- What the threads share, with the names of connections and `stats_t`. -/
def statsEnv : Env threadInterface StatsWorld where
  may w o r w' := threadEnv.may w.threads o r w'.threads ∧ peerAnswer ⟨o, r⟩ ∧
    w'.stats = statsStep w.stats o
  drift w w' := threadEnv.drift w.threads w'.threads ∧ w'.stats = w.stats
  drift_refl w := ⟨threadEnv.drift_refl w.threads, rfl⟩
  drift_trans h k := ⟨threadEnv.drift_trans h.1 k.1, k.2.trans h.2⟩

abbrev StatsThreads := Pool Role threadInterface Unit StatsWorld

/-- What a call changes of the roster of sessions. -/
def rosterEvent : Role × Call threadInterface → Option (RosterEvent ℕ Bytes Bytes)
  | (.worker id, ⟨.statsActiveClientAdd key label, _⟩) => some (.join id key label)
  | (.worker id, ⟨.session (.statsActiveClientUpdate _ label), _⟩) => some (.relabel id label)
  | (.worker id, ⟨.statsActiveClientRemove _, _⟩) => some (.leave id)
  | _ => none

/-- The sessions between their `stats_active_client_add` and their `stats_active_client_remove`, in
the order of adding, each with the label last set for it. -/
def clients (log : List (Role × Call threadInterface)) : Roster ℕ Bytes Bytes :=
  .after (log.filterMap rosterEvent)

/-- The books of a worker, if it runs. -/
def bookOf : Option (ThreadProg Unit × ThreadHistory) → Books
  | some (_, tr) => books tr
  | none => .blank

def workerBooks (c : StatsThreads) (id : ℕ) : Books := bookOf (c.threads (.worker id))

def workerIds (cfg : ThreadsConfig) : List ℕ := List.range' 1 cfg.maxWorkers

/-- The number of workers of which `f` holds. -/
def tally (cfg : ThreadsConfig) (c : StatsThreads) (f : Books → Bool) : ℕ :=
  (workerIds cfg).countP fun id => f (workerBooks c id)

/-- A worker about to be listed has another `client_info` than the sessions that are alive. -/
def otherInfo (c : StatsThreads) (i : Role) : Prop :=
  ∀ key label k tr, c.threads i = some (.call (.statsActiveClientAdd key label) k, tr) →
    ∀ id e, (workerBooks c id).listing = some e → e.1 ≠ key

/-- The worker does not run, or asks for a connection. -/
def Idle (c : StatsThreads) (id : ℕ) : Prop :=
  c.threads (.worker id) = none ∨ ∃ k tr, c.threads (.worker id) = some (.call .tpqPop k, tr)

/-! ### One thread at a time -/

/-- The calls that count, or change the list. -/
def onBooks : ThreadOp → Prop
  | .statsAdd c => c = .busyWorkers
  | .statsSub _ | .statsActiveClientAdd _ _ | .statsActiveClientRemove _ => True
  | .session (.statsAdd c _) => c = .activeTransfers
  | .session (.statsSub _ _) | .session (.statsActiveClientUpdate _ _) => True
  | _ => False

/-- The others change nothing. -/
theorem step_offBooks {o : ThreadOp} (h : ¬ onBooks o) (r : ThreadOp.Res o) (b : Books) (s : Stats)
    (i : Role) : booksStep b ⟨o, r⟩ = b ∧ statsStep s o = s ∧ rosterEvent (i, ⟨o, r⟩) = none := by
  have hnone : ∀ {o : ThreadOp} {r : ThreadOp.Res o},
      (∀ id, rosterEvent (.worker id, ⟨o, r⟩) = none) → rosterEvent (i, ⟨o, r⟩) = none := by
    intro o r hw
    cases i with
    | worker id => exact hw id
    | acceptor | stopper _ => rfl
  cases o with
  | statsAdd c =>
      cases c with
      | busyWorkers => exact absurd rfl h
      | _ => exact ⟨rfl, rfl, hnone fun _ => rfl⟩
  | statsSub _ | statsActiveClientAdd _ _ | statsActiveClientRemove _ => exact absurd trivial h
  | session o =>
      cases o with
      | statsAdd c n =>
          cases c with
          | activeTransfers => exact absurd rfl h
          | _ => exact ⟨rfl, rfl, hnone fun _ => rfl⟩
      | statsSub _ _ | statsActiveClientUpdate _ _ => exact absurd trivial h
      | _ => exact ⟨rfl, rfl, hnone fun _ => rfl⟩
  | _ => exact ⟨rfl, rfl, hnone fun _ => rfl⟩

theorem not_onBooks_of_admits {o : ThreadOp} (h : admits o) : ¬ onBooks o := by
  cases o with
  | statsAdd c => exact h
  | statsSub _ | statsActiveClientAdd _ _ | statsActiveClientRemove _ | session _ => exact h.elim
  | _ => exact id

section Threads

variable {cfg : ThreadsConfig} {listenFd : Option ℕ} {c : StatsThreads} {i : Role}
  {tr : ThreadHistory}

theorem mem_workerIds {id : ℕ} : id ∈ workerIds cfg ↔ 1 ≤ id ∧ id ≤ cfg.maxWorkers := by
  rw [workerIds, List.mem_range'_1]
  omega

theorem peer_answers (ha : Pool.Answered statsEnv c) {p : ThreadProg Unit}
    (hi : c.threads i = some (p, tr)) : ∀ x ∈ tr, peerAnswer x := by
  intro x hx
  obtain ⟨s, s', -, hpeer, -⟩ := ha i p tr x hi hx
  exact hpeer

/-- A worker keeps its books; the other threads have none. -/
theorem roles_books (hf : Pool.Follows (roles cfg listenFd) c) (ha : Pool.Answered statsEnv c)
    {o : ThreadOp} {k : ThreadOp.Res o → ThreadProg Unit}
    (hi : c.threads i = some (.call o k, tr)) :
    (∃ id ∈ workerIds cfg, i = .worker id ∧ keepsBooks tr o) ∨
      (∀ id, i ≠ .worker id) ∧ admits o := by
  obtain ⟨p₀, hp₀, hrun⟩ := hf i _ tr hi
  have hanswers := run_anyOf hrun (peer_answers ha hi)
  cases i with
  | acceptor =>
      obtain ⟨bound, rfl⟩ := hp₀
      exact .inr ⟨nofun, ((acceptorThread_admits bound cfg listenFd).run hanswers).guard⟩
  | worker id =>
      obtain ⟨hid, bound, rfl⟩ := hp₀
      have hguard := ((workerThread_books bound cfg id).run hrun).guard
      exact .inl ⟨id, mem_workerIds.mpr hid, rfl, hguard⟩
  | stopper n =>
      obtain rfl : p₀ = serverRequestShutdown := hp₀
      exact .inr ⟨nofun, ((off_admits serverRequestShutdown_off []).run hanswers).guard⟩

theorem workerBooks_self (t : Option (ThreadProg Unit × ThreadHistory)) (w : StatsWorld) (id : ℕ) :
    workerBooks (c.set (.worker id) t w) id = bookOf t :=
  congrArg bookOf (Pool.set_self ..)

theorem workerBooks_ne {id : ℕ} (h : Role.worker id ≠ i)
    (t : Option (ThreadProg Unit × ThreadHistory)) (w : StatsWorld) :
    workerBooks (c.set i t w) id = workerBooks c id :=
  congrArg bookOf (Pool.set_ne c h t w)

/-- A tally, when one worker's books change. -/
theorem tally_set {id : ℕ} (hid : id ∈ workerIds cfg)
    (t : Option (ThreadProg Unit × ThreadHistory)) (w : StatsWorld) (f : Books → Bool) :
    tally cfg (c.set (.worker id) t w) f + (f (workerBooks c id)).toNat =
      tally cfg c f + (f (bookOf t)).toNat := by
  have hchange := countP_change (p := fun j => f (workerBooks c j))
    (q := fun j => f (workerBooks (c.set (.worker id) t w) j)) List.nodup_range' hid fun j _ hj =>
      congrArg f (workerBooks_ne (fun h => hj (Role.worker.inj h)) t w)
  rw [workerBooks_self] at hchange
  exact hchange

end Threads

/-! ### The invariant -/

/-- The same, with what keeps the counters and the entries in their cells. -/
structure Kept (cfg : ThreadsConfig) (log : List (Role × Call threadInterface))
    (c : StatsThreads) : Prop where
  busy : c.shared.stats.busyWorkers = tally cfg c Books.busy
  transfers : c.shared.stats.activeTransfers = .ofNat (tally cfg c Books.sending)
  active : c.shared.stats.active = .of (clients log).table
  entry : ∀ id key label,
    ⟨id, key, label⟩ ∈ clients log ↔ (workerBooks c id).listing = some (key, label)
  distinct : (clients log).Distinct
  fits : ∀ e ∈ clients log, ActiveClients.Fits (e.key, e.label)
  known : ∀ e ∈ clients log, e.owner ∈ workerIds cfg

/-- Whatever is queued, or has been taken from the queue, has a name. -/
structure Fed (c : StatsThreads) : Prop where
  valid : c.shared.threads.queue.Valid
  queued : ∀ item ∈ c.shared.threads.queue.view.held, Named item.clientInfo
  popped : ∀ {i p tr item}, c.threads i = some (p, tr) → made .tpqPop (some item) ∈ tr →
    Named item.clientInfo

section Invariant

variable {cfg : ThreadsConfig} {listenFd : Option ℕ} {c d : StatsThreads} {i : Role} {id : ℕ}
  {tr : ThreadHistory} {log log' : List (Role × Call threadInterface)}
  {t : Option (ThreadProg Unit × ThreadHistory)} {w : StatsWorld}

/-- The roster fits the list. -/
theorem Kept.listing (h : Kept cfg log c) (hworkers : cfg.maxWorkers ≤ activeClientMax) :
    ActiveClients.Listing (clients log).table where
  distinct := Roster.table_keys (clients log) ▸ h.distinct.keys
  fits := List.forall_mem_map.mpr h.fits
  few := by
    have hlen := h.distinct.length_le h.known
    rw [workerIds, List.length_range'] at hlen
    rw [Roster.table, List.length_map]
    exact Nat.le_trans hlen hworkers

/-- A step of a worker, with what it does to the counters and to the roster. -/
theorem Kept.set (h : Kept cfg log c) (hid : id ∈ workerIds cfg)
    (hbusy : w.stats.busyWorkers + (workerBooks c id).busy.toNat =
      c.shared.stats.busyWorkers + (bookOf t).busy.toNat)
    (htransfers : w.stats.activeTransfers + .ofNat (workerBooks c id).sending.toNat =
      c.shared.stats.activeTransfers + .ofNat (bookOf t).sending.toNat)
    (hactive : w.stats.active = .of (clients log').table) (hdistinct : (clients log').Distinct)
    (hown : ∀ key label, ⟨id, key, label⟩ ∈ clients log' ↔ (bookOf t).listing = some (key, label))
    (hothers : ∀ e, e.owner ≠ id → (e ∈ clients log' ↔ e ∈ clients log))
    (hfits : ∀ e ∈ clients log', e.owner = id → ActiveClients.Fits (e.key, e.label)) :
    Kept cfg log' (c.set (.worker id) t w) where
  busy := by
    have htally := tally_set (c := c) hid t w Books.busy
    have hold := h.busy
    rw [Pool.set_shared]
    omega
  transfers := by
    have htally := congrArg UInt64.ofNat (tally_set (c := c) hid t w Books.sending)
    rw [UInt64.ofNat_add, UInt64.ofNat_add, ← h.transfers, ← htransfers] at htally
    exact ((UInt64.add_left_inj _).mp htally).symm
  active := hactive
  entry j key label := by
    by_cases hj : j = id
    · subst hj
      rw [workerBooks_self]
      exact hown key label
    · rw [workerBooks_ne fun hw => hj (Role.worker.inj hw), hothers _ hj]
      exact h.entry j key label
  distinct := hdistinct
  fits e he := by
    by_cases hj : e.owner = id
    · exact hfits e he hj
    · exact h.fits e ((hothers e hj).mp he)
  known e he := by
    by_cases hj : e.owner = id
    · exact hj ▸ hid
    · exact h.known e ((hothers e hj).mp he)

/-- A step that is not on the books. -/
theorem Kept.off (h : Kept cfg log c) (hstats : d.shared.stats = c.shared.stats)
    (hbooks : ∀ id, workerBooks d id = workerBooks c id) (hlog : clients log' = clients log) :
    Kept cfg log' d := by
  have htally : ∀ f, tally cfg d f = tally cfg c f := fun f =>
    List.countP_congr fun id _ => by rw [hbooks]
  refine ⟨?_, ?_, ?_, fun j key label => ?_, hlog ▸ h.distinct, hlog ▸ h.fits, hlog ▸ h.known⟩
  · rw [hstats, htally, h.busy]
  · rw [hstats, htally, h.transfers]
  · rw [hstats, hlog, h.active]
  · rw [hlog, hbooks]
    exact h.entry j key label

theorem clients_concat {ev : RosterEvent ℕ Bytes Bytes} {x : Role × Call threadInterface}
    (h : rosterEvent x = some ev) : clients (log ++ [x]) = (clients log).apply ev := by
  have hlast : [x].filterMap rosterEvent = [ev] := List.filterMap_cons_some h
  rw [clients, List.filterMap_append, hlast, Roster.after_concat]
  rfl

theorem clients_same {x : Role × Call threadInterface} (h : rosterEvent x = none) :
    clients (log ++ [x]) = clients log := by
  have hlast : [x].filterMap rosterEvent = [] := List.filterMap_cons_none h
  rw [clients, List.filterMap_append, hlast, List.append_nil]
  rfl

theorem workerBooks_of {p : ThreadProg Unit} (hi : c.threads (.worker id) = some (p, tr)) :
    workerBooks c id = books tr :=
  congrArg bookOf hi

/-- A call that counts. -/
theorem Kept.count (h : Kept cfg log c) (hid : id ∈ workerIds cfg) {p q : ThreadProg Unit}
    (hi : c.threads (.worker id) = some (p, tr)) {b b' : Books} (hbooks : books tr = b)
    {x : Call threadInterface} (hstep : booksStep b x = b')
    (hx : rosterEvent (.worker id, x) = none) (hlisting : b'.listing = b.listing)
    (hactive : w.stats.active = c.shared.stats.active)
    (hbusy : w.stats.busyWorkers + b.busy.toNat = c.shared.stats.busyWorkers + b'.busy.toNat)
    (htransfers : w.stats.activeTransfers + .ofNat b.sending.toNat =
      c.shared.stats.activeTransfers + .ofNat b'.sending.toNat) :
    Kept cfg (log ++ [(.worker id, x)]) (c.set (.worker id) (some (q, tr ++ [x])) w) := by
  have hold := (workerBooks_of hi).trans hbooks
  have hbook : bookOf (some (q, tr ++ [x])) = b' := by
    rw [bookOf, books_concat, hbooks, hstep]
  have hsame : clients (log ++ [(.worker id, x)]) = clients log := clients_same hx
  refine h.set hid ?_ ?_ ?_ (hsame ▸ h.distinct) (fun key label => ?_) (fun e _ => by rw [hsame])
    fun e he _ => h.fits e (hsame ▸ he)
  · rw [hold, hbook, hbusy]
  · rw [hold, hbook, htransfers]
  · rw [hactive, hsame, h.active]
  · rw [hsame, h.entry, hold, hbook, hlisting]

/-- A session is listed. -/
theorem Kept.add (h : Kept cfg log c) (hworkers : cfg.maxWorkers ≤ activeClientMax)
    (hid : id ∈ workerIds cfg) {p q : ThreadProg Unit} {key : Bytes}
    (hi : c.threads (.worker id) = some (p, tr)) (hbooks : books tr = ⟨true, none, false⟩)
    (hnamed : Named key) (hother : ∀ j e, (workerBooks c j).listing = some e → e.1 ≠ key)
    (hw : w.stats = statsStep c.shared.stats (.statsActiveClientAdd key key)) :
    Kept cfg (log ++ [(.worker id, made (.statsActiveClientAdd key key) ())])
      (c.set (.worker id)
        (some (q, tr ++ [made (.statsActiveClientAdd key key) ()])) w) := by
  have hclients : clients (log ++ [(.worker id, made (.statsActiveClientAdd key key) ())]) =
      (clients log).apply (.join id key key) := clients_concat rfl
  have hbook : bookOf (some (q, tr ++ [made (.statsActiveClientAdd key key) ()])) =
      ⟨true, some (key, key), false⟩ := by
    rw [bookOf, books_concat, hbooks]
    rfl
  have hold := (workerBooks_of hi).trans hbooks
  have hfits : ActiveClients.Fits (key, key) :=
    ⟨hnamed.1, hnamed.2, Nat.lt_trans hnamed.2 (by decide)⟩
  -- the worker is not on the roster, and its key is not
  have hnew : ∀ e ∈ clients log, e.owner ≠ id := by
    rintro ⟨j, k, l⟩ he rfl
    have hlisting := (h.entry j k l).mp he
    rw [hold] at hlisting
    cases hlisting
  have hkey : ∀ e ∈ clients log, e.key ≠ key := by
    rintro ⟨j, k, l⟩ he
    exact hother j (k, l) ((h.entry j k l).mp he)
  have hdistinct : ((clients log).apply (.join id key key)).Distinct := h.distinct.join hnew hkey
  have hknown : ∀ e ∈ (clients log).apply (.join id key key), e.owner ∈ workerIds cfg := by
    intro e he
    rcases Roster.mem_join.mp he with he | rfl
    · exact h.known e he
    · exact hid
  have hroom : (clients log).table.length < activeClientMax := by
    have hlen := hdistinct.length_le hknown
    rw [Roster.apply, List.length_append, List.length_singleton, workerIds,
      List.length_range'] at hlen
    rw [Roster.table, List.length_map]
    exact Nat.lt_of_lt_of_le hlen hworkers
  have hfresh : key ∉ (clients log).table.map Prod.fst := by
    rw [Roster.table_keys]
    intro hmem
    obtain ⟨e, he, hek⟩ := List.mem_map.mp hmem
    exact hkey e he hek
  refine h.set hid ?_ ?_ ?_ (hclients ▸ hdistinct) (fun k l => ?_) (fun e hne => ?_)
    fun e he ho => ?_
  · rw [hold, hbook, hw]
    rfl
  · rw [hold, hbook, hw]
    rfl
  · have hadd := ActiveClients.add_of hfresh hroom hfits hnamed.1
    rw [hw, statsStep, h.active, hadd, hclients, Roster.table, Roster.table, Roster.apply,
      List.map_append, List.map_singleton]
  · rw [hclients, hbook, Roster.apply, Roster.mem_join]
    constructor
    · rintro (he | he)
      · exact absurd rfl (hnew _ he)
      · cases he
        rfl
    · intro he
      cases he
      exact .inr rfl
  · rw [hclients, Roster.apply, Roster.mem_join]
    refine or_iff_left ?_
    rintro rfl
    exact hne rfl
  · rw [hclients] at he
    rcases Roster.mem_join.mp he with he | rfl
    · exact absurd ho (hnew e he)
    · exact hfits

/-- A session is relabelled. -/
theorem Kept.relabel (h : Kept cfg log c) (hworkers : cfg.maxWorkers ≤ activeClientMax)
    (hid : id ∈ workerIds cfg) {p q : ThreadProg Unit} {key label old : Bytes}
    (hi : c.threads (.worker id) = some (p, tr))
    (hbooks : books tr = ⟨true, some (key, old), false⟩)
    (hne : label ≠ []) (hlen : label.length < activeClientLabel)
    (hw : w.stats = statsStep c.shared.stats (.session (.statsActiveClientUpdate key label))) :
    Kept cfg (log ++ [(.worker id, made (.session (.statsActiveClientUpdate key label)) ())])
      (c.set (.worker id)
        (some (q, tr ++ [made (.session (.statsActiveClientUpdate key label)) ()])) w) := by
  have hclients : clients (log ++ [(.worker id,
      made (.session (.statsActiveClientUpdate key label)) ())]) =
        (clients log).apply (.relabel id label) := clients_concat rfl
  have hbook : bookOf (some (q, tr ++ [made (.session (.statsActiveClientUpdate key label)) ()])) =
      ⟨true, some (key, label), false⟩ := by
    rw [bookOf, books_concat, hbooks]
    rfl
  have hold := (workerBooks_of hi).trans hbooks
  have hmem : ⟨id, key, old⟩ ∈ clients log := by
    rw [h.entry, hold]
  have hsole : ∀ {k l}, ⟨id, k, l⟩ ∈ clients log → k = key := by
    intro k l he
    have hlisting := (h.entry id k l).mp he
    rw [hold] at hlisting
    cases hlisting
    rfl
  refine h.set hid ?_ ?_ ?_ (hclients ▸ h.distinct.relabel) (fun k l => ?_) (fun e hj => ?_)
    fun e he ho => ?_
  · rw [hold, hbook, hw]
    rfl
  · rw [hold, hbook, hw]
    rfl
  · have htable : (key, old) ∈ (clients log).table := List.mem_map.mpr ⟨_, hmem, rfl⟩
    rw [hw, statsStep, h.active, hclients, Roster.table_relabel h.distinct hmem]
    exact ActiveClients.update_of (h.listing hworkers) htable hlen hne
  · rw [hclients, hbook, Roster.mem_relabel]
    constructor
    · rintro (⟨hne, -⟩ | ⟨-, rfl, old', he⟩)
      · exact absurd rfl hne
      · rw [hsole he]
    · intro he
      cases he
      exact .inr ⟨rfl, rfl, old, hmem⟩
  · obtain ⟨j, k, l⟩ := e
    rw [hclients, Roster.mem_relabel]
    constructor
    · rintro (⟨-, he⟩ | ⟨hj', -⟩)
      · exact he
      · exact absurd hj' hj
    · exact fun he => .inl ⟨hj, he⟩
  · obtain ⟨j, k, l⟩ := e
    rw [hclients, Roster.mem_relabel] at he
    obtain rfl : j = id := ho
    rcases he with ⟨hne, -⟩ | ⟨-, rfl, old', he⟩
    · exact absurd rfl hne
    · have hfits := h.fits _ he
      exact ⟨hfits.named, hfits.key, hlen⟩

/-- A session is taken off the list. -/
theorem Kept.remove (h : Kept cfg log c) (hworkers : cfg.maxWorkers ≤ activeClientMax)
    (hid : id ∈ workerIds cfg) {p q : ThreadProg Unit} {key label : Bytes}
    (hi : c.threads (.worker id) = some (p, tr))
    (hbooks : books tr = ⟨true, some (key, label), false⟩)
    (hw : w.stats = statsStep c.shared.stats (.statsActiveClientRemove key)) :
    Kept cfg (log ++ [(.worker id, made (.statsActiveClientRemove key) ())])
      (c.set (.worker id) (some (q, tr ++ [made (.statsActiveClientRemove key) ()])) w) := by
  have hclients : clients (log ++ [(.worker id, made (.statsActiveClientRemove key) ())]) =
      (clients log).apply (.leave id) := clients_concat rfl
  have hbook : bookOf (some (q, tr ++ [made (.statsActiveClientRemove key) ()])) =
      ⟨true, none, false⟩ := by
    rw [bookOf, books_concat, hbooks]
    rfl
  have hold := (workerBooks_of hi).trans hbooks
  have hmem : ⟨id, key, label⟩ ∈ clients log := by
    rw [h.entry, hold]
  refine h.set hid ?_ ?_ ?_ (hclients ▸ h.distinct.leave) (fun k l => ?_) (fun e hj => ?_)
    fun e he ho => ?_
  · rw [hold, hbook, hw]
    rfl
  · rw [hold, hbook, hw]
    rfl
  · have htable : (key, label) ∈ (clients log).table := List.mem_map.mpr ⟨_, hmem, rfl⟩
    rw [hw, statsStep, h.active, hclients, Roster.table_leave h.distinct hmem]
    exact ActiveClients.remove_of (h.listing hworkers) htable
  · rw [hclients, hbook, Roster.mem_leave]
    exact iff_of_false (fun he => he.2 rfl) nofun
  · rw [hclients, Roster.mem_leave]
    exact and_iff_left hj
  · rw [hclients, Roster.mem_leave] at he
    exact absurd ho he.2

/-! ### Names -/

/-- The queue changes with what is pushed and popped only. -/
theorem queue_of_may {u v : ThreadWorld} {o : ThreadOp} {r : ThreadOp.Res o}
    (hm : threadEnv.may u o r v) (hq : u.queue.Valid) (hpush : ∀ item, o ≠ .tpqPush item)
    (hpop : o ≠ .tpqPop) : v.queue.Valid ∧ v.queue.view.held = u.queue.view.held := by
  by_cases hspared : sparesHand o
  · obtain ⟨hvalid, hheld, -⟩ := threadEnv_spared hspared hm hq
    exact ⟨hvalid, hheld⟩
  cases o with
  | tpqPush item => exact absurd rfl (hpush item)
  | tpqPop => exact absurd rfl hpop
  | accept _ =>
      cases r with
      | fd _ =>
          obtain ⟨-, rfl⟩ := hm
          exact ⟨hq, rfl⟩
      | failed _ =>
          obtain rfl := hm
          exact ⟨hq, rfl⟩
  | close _ =>
      obtain rfl := hm
      exact ⟨hq, rfl⟩
  | _ => exact absurd trivial hspared

theorem Fed.set (h : Fed c) (hvalid : w.threads.queue.Valid)
    (hqueued : ∀ item ∈ w.threads.queue.view.held, Named item.clientInfo)
    (hpopped : ∀ {p tr}, t = some (p, tr) → ∀ item, made .tpqPop (some item) ∈ tr →
      Named item.clientInfo) : Fed (c.set i t w) where
  valid := hvalid
  queued := hqueued
  popped {j q tr item} hj hmem := by
    by_cases hji : j = i
    · subst hji
      rw [Pool.set_self] at hj
      exact hpopped hj item hmem
    · rw [Pool.set_ne c hji] at hj
      exact h.popped hj hmem

/-- Names come into the queue, and out of it. -/
theorem Fed.act (h : Fed c) (hf : Pool.Follows (roles cfg listenFd) c)
    (ha : Pool.Answered statsEnv c) {o : ThreadOp} {k : ThreadOp.Res o → ThreadProg Unit}
    {r : ThreadOp.Res o} (hi : c.threads i = some (.call o k, tr))
    (hm : statsEnv.may c.shared o r w) : Fed (c.set i (some (k r, tr ++ [⟨o, r⟩])) w) := by
  obtain ⟨hthreads, -, -⟩ := hm
  have hbefore : ∀ item, made .tpqPop (some item) ∈ tr → Named item.clientInfo :=
    fun item => h.popped hi
  have hafter : (∀ item, (⟨o, r⟩ : Call threadInterface) = made .tpqPop (some item) →
      Named item.clientInfo) → ∀ {p tr'}, some (k r, tr ++ [⟨o, r⟩]) = some (p, tr') →
      ∀ item, made .tpqPop (some item) ∈ tr' → Named item.clientInfo := by
    intro hlast p tr' ht item hmem
    cases ht
    rcases List.mem_append.mp hmem with hmem | hmem
    · exact hbefore item hmem
    · exact hlast item (List.mem_singleton.mp hmem).symm
  by_cases hpush : ∃ item, o = .tpqPush item
  · obtain ⟨item, rfl⟩ := hpush
    have hnamed : Named item.clientInfo := by
      rcases roles_books hf ha hi with ⟨-, -, -, hfalse⟩ | ⟨-, hnamed⟩
      · exact hfalse.elim
      · exact hnamed
    obtain ⟨hpushed, hw⟩ := hthreads
    have hqueue := congrArg ThreadWorld.queue hw
    refine h.set ?_ ?_ (hafter fun _ hx => by cases hx)
    · rw [hqueue]
      exact ((Tpq.Step.push c.shared.threads.queue item).refines h.valid).1
    · rw [hqueue]
      cases r with
      | false =>
          rw [Tpq.eq_of_push hpushed.symm]
          exact h.queued
      | true =>
          rw [(Tpq.held_of_push h.valid hpushed.symm).2]
          intro x hx
          rcases List.mem_append.mp hx with hx | hx
          · exact h.queued x hx
          · exact List.mem_singleton.mp hx ▸ hnamed
  by_cases hpop : o = .tpqPop
  · subst hpop
    cases r with
    | none =>
        have hqueue := congrArg ThreadWorld.queue hthreads.2
        exact h.set (hqueue ▸ h.valid) (hqueue ▸ h.queued) (hafter fun _ hx => by cases hx)
    | some item =>
        obtain ⟨hpopped, hw⟩ := hthreads
        have hqueue := congrArg ThreadWorld.queue hw
        obtain ⟨hvalid, hheld⟩ := Tpq.held_of_pop h.valid hpopped
        refine h.set (hqueue ▸ hvalid) (fun x hx => ?_) (hafter fun x hx => ?_)
        · refine h.queued x (hheld ▸ List.mem_cons_of_mem item ?_)
          rw [hqueue] at hx
          exact hx
        · cases hx
          exact h.queued item (hheld ▸ List.mem_cons_self ..)
  obtain ⟨hvalid, hheld⟩ := queue_of_may hthreads h.valid (fun item ho => hpush ⟨item, ho⟩) hpop
  refine h.set hvalid (hheld ▸ h.queued) (hafter fun item hx => ?_)
  cases hx
  exact absurd rfl hpop

/-! ### Runs -/

/-- Every call keeps the books. -/
theorem Kept.act (h : Kept cfg log c) (hworkers : cfg.maxWorkers ≤ activeClientMax)
    (hf : Pool.Follows (roles cfg listenFd) c) (ha : Pool.Answered statsEnv c) (hfed : Fed c)
    {o : ThreadOp} {k : ThreadOp.Res o → ThreadProg Unit} {r : ThreadOp.Res o}
    (hi : c.threads i = some (.call o k, tr)) (hm : statsEnv.may c.shared o r w)
    (hother : otherInfo c i) :
    Kept cfg (log ++ [(i, ⟨o, r⟩)]) (c.set i (some (k r, tr ++ [⟨o, r⟩])) w) := by
  have hstats : w.stats = statsStep c.shared.stats o := hm.2.2
  by_cases hon : onBooks o
  swap
  · refine h.off ?_ (fun j => ?_) (clients_same (step_offBooks hon r .blank statsInit i).2.2)
    · exact hstats.trans (step_offBooks hon r .blank c.shared.stats i).2.1
    · by_cases hj : Role.worker j = i
      · subst hj
        rw [workerBooks_self, workerBooks_of hi, bookOf, books_concat]
        exact (step_offBooks hon r (books tr) c.shared.stats (.worker j)).1
      · exact workerBooks_ne hj _ w
  rcases roles_books hf ha hi with ⟨id, hid, rfl, hguard⟩ | ⟨-, hadmits⟩
  swap
  · exact absurd hon (not_onBooks_of_admits hadmits)
  cases o with
  | statsAdd counter =>
      obtain rfl : counter = .busyWorkers := hon
      refine h.count hid hi hguard rfl rfl rfl ?_ ?_ ?_
      · rw [hstats, statsStep]
      · rw [hstats, statsStep, Books.blank]
        exact Int.add_zero _
      · rw [hstats, statsStep]
        rfl
  | statsSub counter =>
      obtain ⟨rfl, hbooks⟩ := hguard
      refine h.count hid hi hbooks rfl rfl rfl ?_ ?_ ?_
      · rw [hstats, statsStep]
      · rw [hstats, statsStep]
        exact (Int.sub_add_cancel _ 1).trans (Int.add_zero _).symm
      · rw [hstats, statsStep]
        rfl
  | statsActiveClientAdd key label =>
      obtain ⟨hbooks, rfl, fd, hpopped⟩ := hguard
      exact h.add hworkers hid hi hbooks (hfed.popped hi hpopped) (hother _ _ k tr hi) hstats
  | statsActiveClientRemove key =>
      obtain ⟨label, hbooks⟩ := hguard
      exact h.remove hworkers hid hi hbooks hstats
  | session o =>
      cases o with
      | statsAdd counter n =>
          obtain rfl : counter = .activeTransfers := hon
          obtain ⟨rfl, e, hbooks⟩ := hguard
          refine h.count hid hi hbooks rfl rfl rfl ?_ ?_ ?_
          · rw [hstats, statsStep]
          · rw [hstats, statsStep]
            rfl
          · rw [hstats, statsStep]
            exact UInt64.add_zero _
      | statsSub counter n =>
          obtain ⟨rfl, rfl, e, hbooks⟩ := hguard
          refine h.count hid hi hbooks rfl rfl rfl ?_ ?_ ?_
          · rw [hstats, statsStep]
          · rw [hstats, statsStep]
            rfl
          · rw [hstats, statsStep]
            exact (UInt64.sub_add_cancel _ _).trans (UInt64.add_zero _).symm
      | statsActiveClientUpdate key label =>
          obtain ⟨⟨old, hbooks⟩, hne, hlen⟩ := hguard
          exact h.relabel hworkers hid hi hbooks hne hlen hstats
      | _ => exact hon.elim
  | _ => exact hon.elim

/-- A thread starts, or ends. -/
theorem Kept.turn (h : Kept cfg log c) (hw : w.stats = c.shared.stats)
    (hbook : ∀ id, i = .worker id → bookOf t = workerBooks c id) : Kept cfg log (c.set i t w) := by
  refine h.off hw (fun j => ?_) rfl
  by_cases hj : Role.worker j = i
  · subst hj
    rw [workerBooks_self, hbook j rfl]
  · exact workerBooks_ne hj t w

/-- When all workers are idle, nothing is on the books. -/
theorem Kept.idle (h : Kept cfg log c) (hblank : ∀ id ∈ workerIds cfg, workerBooks c id = .blank) :
    c.shared.stats = statsInit := by
  have htally : ∀ f, f .blank = false → tally cfg c f = 0 := fun f hf =>
    List.countP_eq_zero.mpr fun id hid => by rw [hblank id hid, hf]; exact Bool.false_ne_true
  have hnil : clients log = [] := by
    refine List.eq_nil_iff_forall_not_mem.mpr fun e he => ?_
    have hentry := (h.entry e.owner e.key e.label).mp he
    rw [hblank e.owner (h.known e he)] at hentry
    cases hentry
  have hbusy := h.busy
  have htransfers := h.transfers
  have hactive := h.active
  rw [htally Books.busy rfl] at hbusy
  rw [htally Books.sending rfl] at htransfers
  rw [hnil] at hactive
  exact Stats.ext hbusy htransfers hactive

end Invariant

section Plain

variable {cfg : ThreadsConfig} {listenFd : Option ℕ} {c : StatsThreads} {p q : ThreadProg Unit}
  {tr done : ThreadHistory} {u : ThreadWorld}

end Plain

/-! ### Two sessions -/

end UpdateFramework.Server
