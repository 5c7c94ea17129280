import Mathlib.Data.List.Perm.Basic
import UpdateFramework.Process.Pool
import UpdateFramework.Server.Authorization
import UpdateFramework.Server.Conversation

/-!
# Server — the table of active client ids

Any number of workers run sessions and share the table `g_active_client_ids`, which each call
reads or changes under its lock.  In every state they reach, the table holds exactly the ids of the
sessions between a successful reserve and their release, each once (`active_clients_exact`).
-/

namespace UpdateFramework.Server

open Libc Process

/-! ### The table -/

/-- The entries in use. -/
def inUse (slots : List Bytes) : List Bytes := slots.filter fun slot => slot ≠ []

theorem mem_inUse {slots : List Bytes} {id : Bytes} : id ∈ inUse slots ↔ id ∈ slots ∧ id ≠ [] := by
  simp [inUse]

/-- The cell `findIdx?` finds, and the list around it. -/
theorem set_findIdx? {α : Type} {p : α → Bool} {l : List α} {i : ℕ} (h : l.findIdx? p = some i) :
    ∃ a x b, l = a ++ x :: b ∧ p x = true ∧ ∀ y, l.set i y = a ++ y :: b := by
  obtain ⟨hlt, hx, -⟩ := List.findIdx?_eq_some_iff_getElem.mp h
  refine ⟨l.take i, l[i], l.drop (i + 1), ?_, hx, fun y => ?_⟩
  · rw [List.cons_getElem_drop_succ, List.take_append_drop]
  · exact List.set_eq_take_append_cons_drop .. |>.trans (if_pos hlt)

theorem inUse_middle (a b : List Bytes) {id : Bytes} (h : id ≠ []) :
    (inUse (a ++ id :: b)).Perm (id :: inUse (a ++ [] :: b)) := by
  simp only [inUse, List.filter_append, List.filter_cons, ne_eq, h, not_false_eq_true, decide_true,
    if_true, not_true_eq_false, decide_false]
  exact List.perm_middle

/-- A successful reserve adds the id, which was not there. -/
theorem reserve_reserved {slots slots' : List Bytes} {id : Bytes} (hfits : id.length < maxIdLen)
    (h : UpdateFramework.reserveActiveClientId slots id = (.reserved, slots')) :
    id ∉ inUse slots ∧ (inUse slots').Perm (id :: inUse slots) := by
  unfold UpdateFramework.reserveActiveClientId at h
  split at h
  · cases h
  rename_i hne
  split at h
  · cases h
  rename_i hnew
  cases hidx : slots.findIdx? (· = []) with
  | none =>
      rw [hidx] at h
      cases h
  | some i =>
      rw [hidx] at h
      obtain ⟨-, hset⟩ := Prod.mk.inj h
      obtain ⟨a, x, b, hslots, hx, hput⟩ := set_findIdx? hidx
      obtain rfl : x = [] := of_decide_eq_true hx
      have hwhole : snprintf maxIdLen id = id :=
        List.take_of_length_le (Nat.le_sub_one_of_lt hfits)
      rw [hput, hwhole] at hset
      refine ⟨fun hm => hnew (mem_inUse.mp hm).1, ?_⟩
      rw [← hset, hslots]
      exact inUse_middle a b hne

/-- A reserve that fails changes nothing. -/
theorem reserve_refused {slots slots' : List Bytes} {id : Bytes} {r : Reservation}
    (h : UpdateFramework.reserveActiveClientId slots id = (r, slots')) (hr : r ≠ .reserved) :
    slots' = slots := by
  unfold UpdateFramework.reserveActiveClientId at h
  split at h
  · exact (Prod.mk.inj h).2.symm
  split at h
  · exact (Prod.mk.inj h).2.symm
  split at h
  · exact (Prod.mk.inj h).2.symm
  · exact absurd (Prod.mk.inj h).1.symm hr

/-- A release of an id in use removes one entry of it. -/
theorem release_inUse {slots : List Bytes} {id : Bytes} (h : id ∈ inUse slots) :
    (inUse slots).Perm (id :: inUse (UpdateFramework.releaseActiveClientId slots id)) := by
  obtain ⟨hm, hne⟩ := mem_inUse.mp h
  unfold UpdateFramework.releaseActiveClientId
  rw [if_neg hne]
  cases hidx : slots.findIdx? (· = id) with
  | none => exact absurd (List.findIdx?_eq_none_iff.mp hidx id hm) (by simp)
  | some i =>
      obtain ⟨a, x, b, hslots, hx, hput⟩ := set_findIdx? hidx
      obtain rfl : x = id := of_decide_eq_true hx
      dsimp only
      rw [hput, hslots]
      exact inUse_middle a b hne

/-! ### One session -/

/-- A session has reserved this id, and has not released it. -/
def Holding (tr : ServerHistory) (id : Bytes) : Prop :=
  answered (.reserveActiveClientId id) .reserved ∈ tr ∧
    answered (.releaseActiveClientId id) () ∉ tr

/-- A session was refused because its id is in use, or the table full. -/
def Refused (tr : ServerHistory) : Prop :=
  ∃ id, answered (.reserveActiveClientId id) .duplicate ∈ tr ∨
    answered (.reserveActiveClientId id) .full ∈ tr

def isTableCall : Call serverInterface → Bool
  | ⟨.reserveActiveClientId _, _⟩ | ⟨.releaseActiveClientId _, _⟩ => true
  | _ => false

/-- The calls that read or change the table. -/
def tableCalls (tr : ServerHistory) : ServerHistory := tr.filter isTableCall

/-- Before each of them: the reserve is the first, for an id that fits the table; the release is
the second, of the id reserved. -/
def tableCall (tr : ServerHistory) : ServerOp → Prop
  | .reserveActiveClientId id => id.length < maxIdLen ∧ tableCalls tr = []
  | .releaseActiveClientId id => tableCalls tr = [answered (.reserveActiveClientId id) .reserved]
  | _ => True

/-- What a session that ends has done to the table: nothing that lasts. -/
def LeavesTable (tr : ServerHistory) : Prop :=
  ∀ id, tableCalls tr ≠ [answered (.reserveActiveClientId id) .reserved]

theorem tableCalls_append (tr seg : ServerHistory) :
    tableCalls (tr ++ seg) = tableCalls tr ++ tableCalls seg :=
  List.filter_append ..

theorem tableCalls_of_spared {seg : ServerHistory} (h : ∀ x ∈ seg, sparesTable x.1) :
    tableCalls seg = [] := by
  refine List.filter_eq_nil_iff.mpr fun x hx => ?_
  have hx := h x hx
  obtain ⟨o, r⟩ := x
  cases o with
  | reserveActiveClientId _ => exact hx.elim
  | releaseActiveClientId _ => exact hx.elim
  | _ => nofun

theorem tableCall_of_spared {tr : ServerHistory} {o : ServerOp} (h : sparesTable o) :
    tableCall tr o := by
  cases o with
  | reserveActiveClientId _ => exact h.elim
  | releaseActiveClientId _ => exact h.elim
  | _ => trivial

/-- A part that leaves the table alone, in a session. -/
theorem safe_spared {α : Type} {p : ServerProg α} (hp : p.Only sparesTable) (tr : ServerHistory) :
    Safe (Env.any serverInterface) tableCall (fun _ tr' => tableCalls tr' = tableCalls tr) p tr := by
  refine (hp.safe tr).mono (fun _ _ => tableCall_of_spared) ?_
  rintro _ _ ⟨seg, rfl, hseg⟩
  rw [tableCalls_append, tableCalls_of_spared hseg, List.append_nil]

/-- The value of a key fits the buffer it is copied to. -/
theorem kvLookup_length {key value : Bytes} {outLen : ℕ} (parts : List Bytes)
    (h : kvLookup key outLen parts = some value) : value.length < outLen := by
  induction parts with
  | nil => cases h
  | cons part parts ih =>
      rw [kvLookup] at h
      split at h
      · dsimp only at h
        split at h
        · cases h
        · rename_i hlt
          cases h
          exact Nat.lt_of_not_le hlt
      · exact ih h

theorem kvGet_length {payload key value : Bytes} {outLen : ℕ}
    (h : kvGet payload key outLen = some value) : value.length < outLen := by
  rw [kvGet] at h
  split at h
  · cases h
  · exact kvLookup_length _ h

theorem handleClientSession_table (cfg : ServerConfig) (clientInfo : Bytes) :
    Safe (Env.any serverInterface) tableCall (fun _ => LeavesTable)
      (handleClientSession cfg clientInfo) [] := by
  have leaves : ∀ {tr : ServerHistory}, tableCalls tr = [] → LeavesTable tr := by
    intro tr h id hid
    rw [h] at hid
    cases hid
  unfold handleClientSession
  simp only [Prog.call_bind, Prog.ret_bind]
  refine safe_any_call.mpr ⟨trivial, fun ok => ?_⟩
  cases ok with
  | false => exact safe_any_ret.mpr (leaves rfl)
  | true =>
      have hspared := safe_spared ((authenticateClient_talks cfg).mono fun _ => sparesTable_of_talks)
        [answered (.protoSend (textFrame .hello (ascii "srv=updctl;proto=1"))) true]
      refine safe_bind.mpr ((hspared.and (authenticateClient_safe rfl)).mono
        (fun _ _ h => h.1) ?_)
      rintro r tr ⟨htr, hauth⟩
      cases r with
      | none => exact safe_any_ret.mpr (leaves htr)
      | some clientId =>
          obtain ⟨-, -, ⟨payload, -, hid⟩, -⟩ := hauth
          refine safe_any_call.mpr ⟨⟨kvGet_length hid, htr⟩, fun reservation => ?_⟩
          have htable : tableCalls (tr ++ [answered (.reserveActiveClientId clientId) reservation]) =
              [answered (.reserveActiveClientId clientId) reservation] := by
            rw [tableCalls_append, htr]
            rfl
          -- a refusal is not a reservation
          have refused : reservation ≠ .reserved → ∀ {code message text : Bytes},
              Safe (Env.any serverInterface) tableCall (fun _ => LeavesTable)
                (.call (.logMsg .warn text) fun _ =>
                  .call (.protoSend (errorFrame code message)) fun _ => .ret false)
                (tr ++ [answered (.reserveActiveClientId clientId) reservation]) := by
            intro hne code message text
            refine (safe_spared ?_ _).post ?_
            · exact .call trivial fun _ => .call trivial fun _ => trivial
            · intro rc tr' htr' id hid
              rw [htr', htable] at hid
              cases hid
              exact hne rfl
          cases reservation with
          | duplicate => exact refused nofun
          | full => exact refused nofun
          | reserved =>
              refine safe_bind.mpr ((safe_spared ((reservedSession_converses cfg clientInfo clientId).mono
                fun _ => sparesTable_of_converses) _).post fun rc tr' htr' => ?_)
              rw [htable] at htr'
              refine safe_any_call.mpr ⟨htr', fun _ => safe_any_ret.mpr fun id hid => ?_⟩
              rw [tableCalls_append, htr'] at hid
              cases hid

/-- What a session can have done to the table so far. -/
inductive TableShape : ServerHistory → Prop where
  | untouched : TableShape []
  | asked (id : Bytes) (r : Reservation) : TableShape [answered (.reserveActiveClientId id) r]
  | released (id : Bytes) : TableShape [answered (.reserveActiveClientId id) .reserved,
      answered (.releaseActiveClientId id) ()]

theorem tableShape_of_calls (tr : ServerHistory)
    (h : ∀ before x after, tr = before ++ x :: after → tableCall before x.1) :
    TableShape (tableCalls tr) := by
  induction tr using List.reverseRecOn with
  | nil => exact .untouched
  | append_singleton tr x ih =>
      have hlast := h tr x [] rfl
      have hinit : TableShape (tableCalls tr) := ih fun before y after ht =>
        h before y (after ++ [x]) (by rw [ht, List.append_assoc, List.cons_append])
      obtain ⟨o, r⟩ := x
      rw [tableCalls_append]
      cases o with
      | reserveActiveClientId id =>
          rw [hlast.2]
          exact .asked id r
      | releaseActiveClientId id =>
          have hlast : tableCalls tr = [answered (.reserveActiveClientId id) .reserved] := hlast
          rw [hlast]
          exact .released id
      | _ => exact (List.append_nil (tableCalls tr)).symm ▸ hinit

theorem mem_tableCalls (tr : ServerHistory) {x : Call serverInterface}
    (hx : isTableCall x = true) : x ∈ tableCalls tr ↔ x ∈ tr := by
  rw [tableCalls, List.mem_filter]
  exact and_iff_left hx

theorem holding_iff {tr : ServerHistory} (h : TableShape (tableCalls tr)) (id : Bytes) :
    Holding tr id ↔ tableCalls tr = [answered (.reserveActiveClientId id) .reserved] := by
  have hreserve : answered (.reserveActiveClientId id) .reserved ∈ tableCalls tr ↔ _ :=
    mem_tableCalls tr rfl
  have hrelease : answered (.releaseActiveClientId id) () ∈ tableCalls tr ↔ _ :=
    mem_tableCalls tr rfl
  rw [Holding, ← hreserve, ← hrelease]
  generalize tableCalls tr = calls at h
  cases h with
  | untouched => exact iff_of_false (fun hm => nomatch hm.1) nofun
  | asked id' r =>
      constructor
      · rintro ⟨hm, -⟩
        rw [List.mem_singleton.mp hm]
      · intro hc
        rw [hc]
        exact ⟨List.mem_singleton_self _, fun hm => nomatch List.mem_singleton.mp hm⟩
  | released id' =>
      refine iff_of_false (fun hm => ?_) nofun
      obtain ⟨hin, hout⟩ := hm
      rcases List.mem_cons.mp hin with hin | hin
      · cases hin
        exact hout (List.mem_cons_of_mem _ (List.mem_singleton_self _))
      · cases List.mem_singleton.mp hin

/-! ### All workers -/

/-- The table: every operation but these two may have any outcome, and leaves it alone. -/
def tableEnv : Env serverInterface (List Bytes) where
  may slots o r slots' :=
    match o, r with
    | .reserveActiveClientId id, r => UpdateFramework.reserveActiveClientId slots id = (r, slots')
    | .releaseActiveClientId id, _ => slots' = UpdateFramework.releaseActiveClientId slots id
    | _, _ => slots' = slots

/-- The workers, and the table they share. -/
abbrev Workers (ι : Type) := Pool ι serverInterface Bool (List Bytes)

/-- What a worker runs, one after another. -/
def sessions {ι : Type} (cfg : ServerConfig) (_ : ι) (p : ServerProg Bool) : Prop :=
  ∃ clientInfo, p = handleClientSession cfg clientInfo

/-- The worker's session is between its reserve of `id` and its release. -/
def Holds {ι : Type} (c : Workers ι) (i : ι) (id : Bytes) : Prop :=
  ∃ p tr, c.threads i = some (p, tr) ∧ Holding tr id

/-- The entries in use are distinct, and are those of the sessions that hold an id, one each. -/
structure OneEach {ι : Type} (c : Workers ι) : Prop where
  distinct : (inUse c.shared).Nodup
  exact : ∀ id, id ∈ inUse c.shared ↔ ∃ i, Holds c i id
  one : ∀ {i j id}, Holds c i id → Holds c j id → i = j

section Workers

variable {ι : Type} {cfg : ServerConfig} {c d : Workers ι} {i j : ι} {id : Bytes}
  {tr : ServerHistory}

theorem sessions_shape (hf : Pool.Follows (sessions cfg) c) {p : ServerProg Bool}
    (hi : c.threads i = some (p, tr)) : TableShape (tableCalls tr) := by
  obtain ⟨_, ⟨clientInfo, rfl⟩, hrun⟩ := hf i p tr hi
  exact tableShape_of_calls tr fun _ _ _ ht =>
    (handleClientSession_table cfg clientInfo).any_calls hrun ht

theorem sessions_guard (hf : Pool.Follows (sessions cfg) c) {o : ServerOp}
    {k : ServerOp.Res o → ServerProg Bool} (hi : c.threads i = some (.call o k, tr)) :
    tableCall tr o := by
  obtain ⟨_, ⟨clientInfo, rfl⟩, hrun⟩ := hf i _ tr hi
  exact ((handleClientSession_table cfg clientInfo).run hrun).guard

theorem sessions_leave (hf : Pool.Follows (sessions cfg) c) {rc : Bool}
    (hi : c.threads i = some (.ret rc, tr)) : ¬ Holding tr id := by
  obtain ⟨_, ⟨clientInfo, rfl⟩, hrun⟩ := hf i _ tr hi
  rw [holding_iff (sessions_shape hf hi)]
  exact ((handleClientSession_table cfg clientInfo).run hrun).result id

theorem holds_of_thread {p : ServerProg Bool} (hi : c.threads i = some (p, tr)) :
    Holds c i id ↔ Holding tr id := by
  constructor
  · rintro ⟨p', tr', hi', hh⟩
    rw [hi] at hi'
    cases hi'
    exact hh
  · exact fun hh => ⟨p, tr, hi, hh⟩

theorem not_holds_idle (hi : c.threads i = none) : ¬ Holds c i id := by
  rintro ⟨p, tr, hi', -⟩
  rw [hi] at hi'
  cases hi'

/-- A step that changes neither the table nor what is held. -/
theorem OneEach.same (h : OneEach c) (hs : d.shared = c.shared)
    (hh : ∀ j id, Holds d j id ↔ Holds c j id) : OneEach d where
  distinct := hs ▸ h.distinct
  exact id := by
    rw [hs, h.exact id]
    exact exists_congr fun j => (hh j id).symm
  one hi hj := h.one ((hh _ _).mp hi) ((hh _ _).mp hj)

variable [DecidableEq ι]

theorem holds_self {p : ServerProg Bool} {slots : List Bytes} :
    Holds (c.set i (some (p, tr)) slots) i id ↔ Holding tr id := by
  constructor
  · rintro ⟨p', tr', hi, hh⟩
    rw [Pool.set_self] at hi
    cases hi
    exact hh
  · exact fun hh => ⟨p, tr, Pool.set_self .., hh⟩

theorem holds_ne (h : j ≠ i) {t : Option (ServerProg Bool × ServerHistory)} {slots : List Bytes} :
    Holds (c.set i t slots) j id ↔ Holds c j id := by
  rw [Holds, Holds, Pool.set_ne c h]

/-- A change of one thread that holds the same before and after. -/
theorem OneEach.set (h : OneEach c) {t : Option (ServerProg Bool × ServerHistory)}
    (ht : ∀ id, Holds (c.set i t c.shared) i id ↔ Holds c i id) :
    OneEach (c.set i t c.shared) := by
  refine h.same rfl fun j id => ?_
  by_cases hji : j = i
  · subst hji
    exact ht id
  · exact holds_ne hji

/-- One more session holds an id, which is added to the table. -/
theorem OneEach.reserve (h : OneEach c) {p : ServerProg Bool} {slots : List Bytes}
    (hnone : ∀ id, ¬ Holds c i id) (hnew : id ∉ inUse c.shared)
    (hslots : (inUse slots).Perm (id :: inUse c.shared)) (htr : ∀ id', Holding tr id' ↔ id' = id) :
    OneEach (c.set i (some (p, tr)) slots) := by
  have hholds : ∀ j id', Holds (c.set i (some (p, tr)) slots) j id' ↔
      j = i ∧ id' = id ∨ Holds c j id' := by
    intro j id'
    by_cases hji : j = i
    · subst hji
      rw [holds_self, htr]
      exact ⟨fun hid => .inl ⟨rfl, hid⟩, fun hid => hid.elim And.right fun hc => absurd hc (hnone id')⟩
    · rw [holds_ne hji]
      exact ⟨.inr, fun hid => hid.elim (fun hc => absurd hc.1 hji) fun hc => hc⟩
  refine ⟨hslots.nodup_iff.mpr (List.nodup_cons.mpr ⟨hnew, h.distinct⟩), fun id' => ?_, ?_⟩
  · rw [Pool.set_shared, hslots.mem_iff, List.mem_cons, h.exact id']
    constructor
    · rintro (rfl | ⟨j, hj⟩)
      · exact ⟨i, (hholds i id').mpr (.inl ⟨rfl, rfl⟩)⟩
      · exact ⟨j, (hholds j id').mpr (.inr hj)⟩
    · rintro ⟨j, hj⟩
      rcases (hholds j id').mp hj with ⟨-, hid⟩ | hj
      · exact .inl hid
      · exact .inr ⟨j, hj⟩
  · intro j k id' hj hk
    -- who held an id before does not hold the new one
    have hold : ∀ {k}, Holds c k id → False := fun hk => hnew ((h.exact id).mpr ⟨_, hk⟩)
    rcases (hholds j id').mp hj with ⟨rfl, rfl⟩ | hj
    · rcases (hholds k id').mp hk with ⟨rfl, -⟩ | hk
      · rfl
      · exact (hold hk).elim
    · rcases (hholds k id').mp hk with ⟨-, rfl⟩ | hk
      · exact (hold hj).elim
      · exact h.one hj hk

/-- The session that held an id holds none, and the id is removed from the table. -/
theorem OneEach.release (h : OneEach c) {p : ServerProg Bool} {slots : List Bytes}
    (hid : ∀ id', Holds c i id' ↔ id' = id) (hslots : (inUse c.shared).Perm (id :: inUse slots))
    (htr : ∀ id', ¬ Holding tr id') : OneEach (c.set i (some (p, tr)) slots) := by
  have hholds : ∀ j id', Holds (c.set i (some (p, tr)) slots) j id' ↔ j ≠ i ∧ Holds c j id' := by
    intro j id'
    by_cases hji : j = i
    · subst hji
      rw [holds_self]
      exact iff_of_false (htr id') fun hc => hc.1 rfl
    · rw [holds_ne hji]
      exact (and_iff_right hji).symm
  obtain ⟨hnew, hnodup⟩ := List.nodup_cons.mp (hslots.nodup_iff.mp h.distinct)
  refine ⟨hnodup, fun id' => ?_, fun hj hk => ?_⟩
  · rw [Pool.set_shared]
    have hmem := h.exact id'
    rw [hslots.mem_iff, List.mem_cons] at hmem
    constructor
    · intro hin
      obtain ⟨j, hj⟩ := hmem.mp (.inr hin)
      refine ⟨j, (hholds j id').mpr ⟨?_, hj⟩⟩
      rintro rfl
      exact hnew ((hid id').mp hj ▸ hin)
    · rintro ⟨j, hj⟩
      obtain ⟨hji, hj⟩ := (hholds j id').mp hj
      rcases hmem.mpr ⟨j, hj⟩ with rfl | hin
      · exact absurd (h.one hj ((hid id').mpr rfl)) hji
      · exact hin
  · exact h.one ((hholds _ _).mp hj).2 ((hholds _ _).mp hk).2

theorem tableEnv_spared {o : ServerOp} {r : ServerOp.Res o} {slots slots' : List Bytes}
    (ho : sparesTable o) (hm : tableEnv.may slots o r slots') : slots' = slots := by
  cases o with
  | reserveActiveClientId _ => exact ho.elim
  | releaseActiveClientId _ => exact ho.elim
  | _ => exact hm

theorem reserved_inj {id id' : Bytes} :
    [answered (.reserveActiveClientId id) .reserved] =
      [answered (.reserveActiveClientId id') .reserved] ↔ id' = id := by
  constructor
  · intro h
    cases h
    rfl
  · rintro rfl
    rfl

/-- A call of one worker's session keeps the table exact. -/
theorem OneEach.act (hf : Pool.Follows (sessions cfg) c) (h : OneEach c)
    (ha : Pool.Acts tableEnv i c d) : OneEach d := by
  have hf' : Pool.Follows (sessions cfg) d := hf.step (.act ha)
  obtain ⟨o, k, tr, r, slots, hi, hm, rfl⟩ := ha
  have hguard := sessions_guard hf hi
  have hbefore : ∀ id, Holds c i id ↔
      tableCalls tr = [answered (.reserveActiveClientId id) .reserved] := fun id =>
    (holds_of_thread hi).trans (holding_iff (sessions_shape hf hi) id)
  have hafter : ∀ id, Holding (tr ++ [answered o r]) id ↔ tableCalls tr ++
      tableCalls [answered o r] = [answered (.reserveActiveClientId id) .reserved] := fun id => by
    rw [holding_iff (sessions_shape hf' (Pool.set_self ..)) id, tableCalls_append]
  by_cases hspared : sparesTable o
  · obtain rfl := tableEnv_spared hspared hm
    have hcall : tableCalls [answered o r] = [] :=
      tableCalls_of_spared fun x hx => List.mem_singleton.mp hx ▸ hspared
    refine h.set fun id => ?_
    rw [holds_self, hbefore, hafter, hcall, List.append_nil]
  cases o with
  | reserveActiveClientId id =>
      obtain ⟨hfits, hnone⟩ := hguard
      rw [hnone] at hbefore hafter
      cases r with
      | reserved =>
          obtain ⟨hnew, hslots⟩ := reserve_reserved hfits hm
          exact h.reserve (fun id' hh => nomatch (hbefore id').mp hh) hnew hslots fun id' =>
            (hafter id').trans reserved_inj
      | duplicate =>
          obtain rfl := reserve_refused hm nofun
          refine h.set fun id' => ?_
          rw [holds_self, hbefore, hafter]
          exact iff_of_false nofun nofun
      | full =>
          obtain rfl := reserve_refused hm nofun
          refine h.set fun id' => ?_
          rw [holds_self, hbefore, hafter]
          exact iff_of_false nofun nofun
  | releaseActiveClientId id =>
      have hheld : tableCalls tr = [answered (.reserveActiveClientId id) .reserved] := hguard
      rw [hheld] at hbefore hafter
      have hid : ∀ id', Holds c i id' ↔ id' = id := fun id' => (hbefore id').trans reserved_inj
      have hin : id ∈ inUse c.shared := (h.exact id).mpr ⟨i, (hid id).mpr rfl⟩
      obtain rfl : slots = UpdateFramework.releaseActiveClientId c.shared id := hm
      exact h.release hid (release_inUse hin) fun id' hh => nomatch (hafter id').mp hh
  | _ => exact absurd trivial hspared

/-- Every step keeps the table exact. -/
theorem OneEach.step (hf : Pool.Follows (sessions cfg) c) (h : OneEach c)
    (hs : Pool.Step tableEnv (sessions cfg) c d) : OneEach d := by
  cases hs with
  | act ha => exact h.act hf ha
  | start hp hidle =>
      refine h.set fun id => ?_
      rw [holds_self]
      exact iff_of_false (fun hh => nomatch hh.1) (not_holds_idle hidle)
  | finish hi =>
      refine h.set fun id => ?_
      rw [holds_of_thread hi]
      exact iff_of_false (not_holds_idle (Pool.set_self ..)) (sessions_leave hf hi)
  | drift hd => exact h.same hd.symm fun _ _ => Iff.rfl

/-- A session that was refused does not touch the table, neither then nor later. -/
theorem refused_spares (hf : Pool.Follows (sessions cfg) c) (ha : Pool.Acts tableEnv i c d)
    {p : ServerProg Bool} (hi : d.threads i = some (p, tr)) (hr : Refused tr) :
    d.shared = c.shared := by
  have hf' : Pool.Follows (sessions cfg) d := hf.step (.act ha)
  have hshape := sessions_shape hf' hi
  obtain ⟨o, k, tr, r, slots, hi', hm, rfl⟩ := ha
  rw [Pool.set_self] at hi
  cases hi
  have hguard := sessions_guard hf hi'
  rw [Pool.set_shared]
  by_cases hspared : sparesTable o
  · exact tableEnv_spared hspared hm
  -- the refusal is one of the calls on the table
  obtain ⟨id', hr⟩ := hr
  rw [← mem_tableCalls _ (show isTableCall (answered (.reserveActiveClientId id') .duplicate) from rfl),
    ← mem_tableCalls _ (show isTableCall (answered (.reserveActiveClientId id') .full) from rfl),
    tableCalls_append] at hr
  cases o with
  | reserveActiveClientId id =>
      rw [hguard.2] at hr
      refine reserve_refused hm ?_
      rintro rfl
      rcases hr with hr | hr
      · cases List.mem_singleton.mp hr
      · cases List.mem_singleton.mp hr
  | releaseActiveClientId id =>
      have hheld : tableCalls tr = [answered (.reserveActiveClientId id) .reserved] := hguard
      rw [hheld] at hr
      rcases hr with hr | hr
      · rcases List.mem_append.mp hr with hr | hr
        · cases List.mem_singleton.mp hr
        · cases List.mem_singleton.mp hr
      · rcases List.mem_append.mp hr with hr | hr
        · cases List.mem_singleton.mp hr
        · cases List.mem_singleton.mp hr
  | _ => exact absurd trivial hspared

end Workers

/-- The workers before the first connection. -/
def freshWorkers (ι : Type) : Workers ι := .idle (List.replicate activeClientMax [])

theorem inUse_replicate (n : ℕ) : inUse (List.replicate n []) = [] := by
  refine List.filter_eq_nil_iff.mpr fun x hx => ?_
  rw [List.eq_of_mem_replicate hx]
  exact of_decide_eq_true rfl

theorem oneEach_fresh (ι : Type) : OneEach (freshWorkers ι) := by
  refine ⟨?_, fun id => ?_, fun hi _ => absurd hi (not_holds_idle rfl)⟩
  · rw [freshWorkers, Pool.idle, inUse_replicate]
    exact List.nodup_nil
  · rw [freshWorkers, Pool.idle, inUse_replicate]
    exact iff_of_false List.not_mem_nil fun ⟨i, hi⟩ => not_holds_idle rfl hi

/-- **One session for each client id.**  For any number of workers and any interleaving of their
sessions, in every state reached: the entries in use are distinct and are exactly the ids held, each
by one session; a session that was refused never changes the table; and the table is empty when no
session runs. -/
theorem active_clients_exact (cfg : ServerConfig) {ι : Type} [DecidableEq ι] {c : Workers ι}
    (h : Pool.Run tableEnv (sessions cfg) (freshWorkers ι) c) :
    OneEach c ∧
      (∀ i d p tr, Pool.Acts tableEnv i c d → d.threads i = some (p, tr) → Refused tr →
        d.shared = c.shared) ∧
      ((∀ i, c.threads i = none) → ∀ slot ∈ c.shared, slot = []) := by
  obtain ⟨hf, hc⟩ := h.invariant (Pool.follows_idle _ _) (oneEach_fresh ι) fun hf hc hs => hc.step hf hs
  refine ⟨hc, fun i d p tr ha hi hr => refused_spares hf ha hi hr, fun hidle slot hslot => ?_⟩
  by_contra hne
  obtain ⟨i, hi⟩ := (hc.exact slot).mp (mem_inUse.mpr ⟨hslot, hne⟩)
  exact not_holds_idle (hidle i) hi

/-- A session of client `id`, up to its reserve. -/
def untilReserve (id : Bytes) : ServerHistory :=
  [answered (.protoSend (textFrame .hello (ascii "srv=updctl;proto=1"))) true,
    answered (.tlsPeerCommonName maxIdLen) (some id),
    answered (.protoRecv (maxControlPayload + 1) 0) (.ok ⟨.auth, 0, ascii "id=" ++ id⟩),
    answered (.authClientRegistered (ascii "./config/clients.keys") id) true,
    answered (.logMsg .info (ascii "AUTH ok id=" ++ id ++ ascii " method=mTLS")) (),
    answered (.reserveActiveClientId id) .reserved]

/-- Its connection breaks, and it releases the id. -/
def breaksOff (id : Bytes) : ServerHistory :=
  [answered (.protoSend (emptyFrame .authOk)) false, answered (.releaseActiveClientId id) ()]

/-- The table with these entries in front. -/
def slotsOf (ids : List Bytes) : List Bytes :=
  ids ++ List.replicate (activeClientMax - ids.length) []

theorem allows_untilReserve {id : Bytes} {slots slots' : List Bytes}
    (h : UpdateFramework.reserveActiveClientId slots id = (.reserved, slots')) :
    tableEnv.Allows slots (untilReserve id) slots' :=
  ⟨_, rfl, _, rfl, _, rfl, _, rfl, _, rfl, slots', h, rfl⟩

/-- Two sessions hold an id each; one of them ends, and the other still holds its own. -/
theorem active_clients_exact_two :
    ∃ c : Workers Bool, OneEach c ∧ c.shared = slotsOf [[], ascii "client_002"] ∧
      c.threads true = none ∧ Holds c false (ascii "client_002") := by
  have hfirst : (handleClientSession .shipped (ascii "peer")).replay
      (untilReserve (ascii "client_001") ++ breaksOff (ascii "client_001")) = some (.ret false) :=
    Prog.replay_ret (by decide +kernel)
  have hsecond : ((handleClientSession .shipped (ascii "peer")).replay
      (untilReserve (ascii "client_002"))).isSome = true := by decide +kernel
  rw [Prog.replay_append (E := serverInterface)] at hfirst
  obtain ⟨p, hp, hrest⟩ := Option.bind_eq_some_iff.mp hfirst
  obtain ⟨q, hq⟩ := Option.isSome_iff_exists.mp hsecond
  have hreserves : UpdateFramework.reserveActiveClientId (List.replicate activeClientMax [])
      (ascii "client_001") = (.reserved, slotsOf [ascii "client_001"]) := by decide +kernel
  have hreserves' : UpdateFramework.reserveActiveClientId (slotsOf [ascii "client_001"])
      (ascii "client_002") = (.reserved, slotsOf [ascii "client_001", ascii "client_002"]) := by
    decide +kernel
  have hreleases : UpdateFramework.releaseActiveClientId
      (slotsOf [ascii "client_001", ascii "client_002"]) (ascii "client_001") =
        slotsOf [[], ascii "client_002"] := by decide +kernel
  let c₁ := (freshWorkers Bool).set true (some (p, untilReserve (ascii "client_001")))
    (slotsOf [ascii "client_001"])
  let c₂ := c₁.set false (some (q, untilReserve (ascii "client_002")))
    (slotsOf [ascii "client_001", ascii "client_002"])
  have hne : true ≠ false := nofun
  have hrun₁ : Pool.Run tableEnv (sessions .shipped) (freshWorkers Bool) c₁ :=
    Pool.run_start rfl ⟨ascii "peer", rfl⟩ hp (allows_untilReserve hreserves)
  have hrun₂ : Pool.Run tableEnv (sessions .shipped) c₁ c₂ :=
    Pool.run_start (Pool.set_ne _ hne.symm ..) ⟨ascii "peer", rfl⟩ hq (allows_untilReserve hreserves')
  have hrun₃ : Pool.Run tableEnv (sessions .shipped) c₂
      (c₂.set true none (slotsOf [[], ascii "client_002"])) :=
    Pool.run_rest (sessions .shipped) ((Pool.set_ne _ hne ..).trans (Pool.set_self ..)) hrest
      ⟨_, rfl, _, hreleases.symm, rfl⟩
  have hexact := active_clients_exact .shipped (hrun₁.trans (hrun₂.trans hrun₃))
  refine ⟨_, hexact.1, rfl, Pool.set_self .., (holds_ne hne.symm).mpr (holds_self.mpr ⟨?_, ?_⟩)⟩
  · simp [untilReserve]
  · simp [untilReserve]

end UpdateFramework.Server
