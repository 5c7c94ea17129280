import Mathlib.Data.List.Basic
import UpdateFramework.Common.Netutil

/-!
# Common — the contract of whole reads and writes

`Meets retried len es t` says what a call that asks for `len` bytes does on the schedule `es`,
where the stalls in `retried` are taken again: it ends with `0` once `len` bytes have moved, with
`-1` at the first other stall before that, and otherwise waits for more.  The schedule is read
byte by byte (`ticks`), so that it does not matter how the transport groups the bytes.

The loop meets this for the stalls its branch retries (`transferAll_meets`).  The contract of
both branches is the one where only an interrupted call is taken again.  A plain connection meets
it; one with TLS takes a timed-out call again too, so it meets the contract on exactly the
schedules that have no timeout before the call ends (`wholeTransfer_contract_iff`).
-/

namespace UpdateFramework

variable {δ : Type}

/-- One byte that moves, or one stall. -/
inductive Tick (δ : Type) where
  | byte (d : δ)
  | stall (s : Stall)

/-- A schedule, byte by byte. -/
def ticks : List (Event δ) → List (Tick δ)
  | [] => []
  | .move d ds :: es => (d :: ds).map .byte ++ ticks es
  | .stall s :: es => .stall s :: ticks es

/-- The bytes that move. -/
def movedBytes (ts : List (Tick δ)) : List δ :=
  ts.filterMap fun
    | .byte d => some d
    | .stall _ => none

/-- Every stall is one that is taken again. -/
def Quiet (retried : Stall → Prop) (ts : List (Tick δ)) : Prop :=
  ∀ s, .stall s ∈ ts → retried s

@[simp] theorem ticks_leftover (ds : List δ) (es : List (Event δ)) :
    ticks (leftover ds es) = ds.map .byte ++ ticks es := by
  cases ds <;> rfl

@[simp] theorem movedBytes_nil : movedBytes ([] : List (Tick δ)) = [] := rfl

@[simp] theorem movedBytes_append (ts us : List (Tick δ)) :
    movedBytes (ts ++ us) = movedBytes ts ++ movedBytes us :=
  List.filterMap_append

@[simp] theorem movedBytes_map (ds : List δ) : movedBytes (ds.map .byte) = ds := by
  induction ds with
  | nil => rfl
  | cons d ds ih => exact congrArg (d :: ·) ih

@[simp] theorem movedBytes_byte (d : δ) (ts : List (Tick δ)) :
    movedBytes (.byte d :: ts) = d :: movedBytes ts := rfl

@[simp] theorem movedBytes_stall (s : Stall) (ts : List (Tick δ)) :
    movedBytes (.stall s :: ts) = movedBytes ts := rfl

theorem quiet_append {retried : Stall → Prop} {ts us : List (Tick δ)} :
    Quiet retried (ts ++ us) ↔ Quiet retried ts ∧ Quiet retried us := by
  simp only [Quiet, List.mem_append, or_imp, forall_and]

theorem quiet_map (retried : Stall → Prop) (ds : List δ) : Quiet retried (ds.map Tick.byte) := by
  intro s hs
  obtain ⟨d, -, hd⟩ := List.mem_map.mp hs
  cases hd

/-- What a call for `len` bytes does on `es` when it takes the stalls in `retried` again. -/
inductive Meets (retried : Stall → Prop) (len : ℕ) (es : List (Event δ)) : Transfer δ → Prop where
  /-- `len` bytes have moved, and the call ends at the last of them. -/
  | done (used : List (Tick δ)) (rest : List (Event δ)) (hes : ticks es = used ++ ticks rest)
      (hq : Quiet retried used) (hlen : (movedBytes used).length = len)
      (hlast : ∀ ts s, used ≠ ts ++ [.stall s]) :
      Meets retried len es ⟨.done, movedBytes used, rest⟩
  /-- A stall that is not taken again, before `len` bytes have moved. -/
  | failed (used : List (Tick δ)) (s : Stall) (rest : List (Event δ))
      (hes : ticks es = used ++ .stall s :: ticks rest) (hq : Quiet retried used)
      (hlen : (movedBytes used).length < len) (hs : ¬ retried s) :
      Meets retried len es ⟨.failed, movedBytes used, rest⟩
  /-- The schedule ends before either. -/
  | waiting (hq : Quiet retried (ticks es)) (hlen : (movedBytes (ticks es)).length < len) :
      Meets retried len es ⟨.waiting, movedBytes (ticks es), []⟩

section Loop

variable {retried : Stall → Prop} {len : ℕ} {es rest : List (Event δ)} {t : Transfer δ}

/-- A stall taken again leaves the rest of the call as it was. -/
theorem Meets.stall {s : Stall} (hs : retried s) (h : Meets retried len es t) :
    0 < len → Meets retried len (.stall s :: es) t := by
  intro hpos
  have hq : ∀ {ts : List (Tick δ)}, Quiet retried ts → Quiet retried (.stall s :: ts) := by
    intro ts h u hu
    rcases List.mem_cons.mp hu with e | hu
    · cases e; exact hs
    · exact h u hu
  cases h with
  | done used rest hes hu hlen hlast =>
      refine .done (.stall s :: used) rest (by simp [ticks, hes]) (hq hu) hlen fun ts u e => ?_
      cases ts with
      | nil =>
          obtain ⟨-, rfl⟩ := List.cons.inj e
          simp at hlen
          omega
      | cons x ts => exact hlast ts u (List.cons.inj e).2
  | failed used u rest hes hu hlen hn =>
      exact .failed (.stall s :: used) u rest (by simp [ticks, hes]) (hq hu) hlen hn
  | waiting hu hlen => exact .waiting (hq hu) hlen

/-- Some bytes of a call move, and the rest of it goes on from there. -/
theorem Meets.move {ds : List δ} (h : Meets retried (len - ds.length) rest t)
    (hes : ticks es = ds.map .byte ++ ticks rest) (hne : ds ≠ []) (hle : ds.length ≤ len) :
    Meets retried len es { t with moved := ds ++ t.moved } := by
  cases h with
  | done used rest' hr hu hlen hlast =>
      have e : ds ++ movedBytes used = movedBytes (ds.map .byte ++ used) := by simp
      rw [e]
      refine .done _ rest' (by simp [hes, hr]) (quiet_append.mpr ⟨quiet_map _ _, hu⟩)
        (by simp; omega) fun ts u he => ?_
      rcases List.eq_nil_or_concat used with rfl | ⟨us, x, rfl⟩
      · obtain ⟨ds', d, rfl⟩ := List.eq_nil_or_concat ds |>.resolve_left hne
        simp only [List.concat_eq_append, List.map_append, List.map_cons, List.map_nil,
          List.append_nil] at he
        cases (List.append_inj' he rfl).2
      · rw [List.concat_eq_append, ← List.append_assoc] at he
        obtain ⟨-, hx⟩ := List.append_inj' he rfl
        exact hlast us u (by rw [List.concat_eq_append, hx])
  | failed used u rest' hr hu hlen hn =>
      have e : ds ++ movedBytes used = movedBytes (ds.map .byte ++ used) := by simp
      rw [e]
      exact .failed _ u rest' (by simp [hes, hr]) (quiet_append.mpr ⟨quiet_map _ _, hu⟩)
        (by simp; omega) hn
  | waiting hu hlen =>
      have e : ds ++ movedBytes (ticks rest) = movedBytes (ticks es) := by simp [hes]
      rw [e]
      exact .waiting (by rw [hes]; exact quiet_append.mpr ⟨quiet_map _ _, hu⟩)
        (by rw [hes]; simp; omega)

/-- The loop, on the stalls its branch takes again. -/
theorem transferAll_meets (c : Conn) (len : ℕ) (es : List (Event δ)) :
    Meets (fun s => c.retries s = true) len es (transferAll c len es) := by
  fun_induction transferAll c len es with
  | case1 es => exact .done [] es rfl (by simp [Quiet]) rfl (by simp)
  | case2 len h0 => exact .waiting (by simp [Quiet, ticks]) (by simp [ticks]; omega)
  | case3 len h0 s es hs ih => exact ih.stall hs (by omega)
  | case4 len h0 s es hs =>
      exact .failed [] s es rfl (by simp [Quiet]) (by simp; omega) hs
  | case5 len h0 chunk d ds es n t ih =>
      have hc : chunk ≤ len ∧ 0 < chunk := by
        show (if len > 0x3fffffff then 0x3fffffff else len) ≤ len ∧
          0 < (if len > 0x3fffffff then 0x3fffffff else len)
        split <;> omega
      have hn : ((d :: ds).take n).length = n := by
        simp only [List.length_take, List.length_cons]
        omega
      refine Meets.move (by rwa [hn]) ?_ ?_ (by omega)
      · rw [ticks_leftover, ← List.append_assoc, ← List.map_append, List.take_append_drop]
        rfl
      · intro e
        rw [e] at hn
        simp at hn
        omega

end Loop

/-! ### The contract of both branches -/

/-- The contract: an interrupted call is taken again; a timeout, the end of the stream and an
error end the call with `-1`. -/
abbrev Contract (len : ℕ) (es : List (Event δ)) : Transfer δ → Prop :=
  Meets (· = .interrupted) len es

/-- A timeout comes before `len` bytes have moved, and before any other stall that ends a call. -/
def TimeoutFirst (len : ℕ) (es : List (Event δ)) : Prop :=
  ∃ used more, ticks es = used ++ .stall .timeout :: more ∧ Quiet (· = .interrupted) used ∧
    (movedBytes used).length < len

/-- What a plain connection takes again. -/
theorem retries_plain {c : Conn} (h : c.ssl = none) (s : Stall) :
    c.retries s = true ↔ s = .interrupted := by
  simp [Conn.retries, h]

/-- What a TLS connection takes again. -/
theorem retries_tls {c : Conn} {ssl : OpenSsl} (h : c.ssl = some ssl) (s : Stall) :
    c.retries s = true ↔ s = .interrupted ∨ s = .timeout := by
  cases s with
  | interrupted => simp [Conn.retries, h, ssl.interrupted]
  | timeout => simp [Conn.retries, h, ssl.timeout]
  | eof => simp [Conn.retries, h, ssl.eof]
  | error => simp [Conn.retries, h, ssl.error]

/-- Two readings of one schedule: if `us` has no tick of the kind `x`, and is followed where `ts`
is followed by `x`, then `us` is no longer than `ts`. -/
theorem prefix_of_not_mem {ts us vs ws : List (Tick δ)} {x : Tick δ}
    (h : us ++ vs = ts ++ x :: ws) (hx : x ∉ us) : us <+: ts := by
  rcases List.append_eq_append_iff.mp h with ⟨as, h₁, -⟩ | ⟨bs, h₁, h₂⟩
  · exact ⟨as, h₁.symm⟩
  · cases bs with
    | nil => exact ⟨[], by simpa using h₁⟩
    | cons y bs =>
        obtain ⟨rfl, -⟩ := List.cons.inj h₂
        exact absurd (h₁ ▸ List.mem_append_right _ List.mem_cons_self) hx

theorem length_movedBytes_le {us ts : List (Tick δ)} (h : us <+: ts) :
    (movedBytes us).length ≤ (movedBytes ts).length := by
  obtain ⟨vs, rfl⟩ := h
  simp

theorem timeout_not_mem {ts : List (Tick δ)} (h : Quiet (· = .interrupted) ts) :
    Tick.stall .timeout ∉ ts := by
  intro hm
  cases h _ hm

/-- A call that meets the contract ends at the timeout, if that comes first. -/
theorem Contract.at_timeout {len : ℕ} {es : List (Event δ)} {t : Transfer δ}
    (h : Contract len es t) (ht : TimeoutFirst len es) :
    t.status = .failed ∧ ∃ used, ticks es = used ++ .stall .timeout :: ticks t.rest := by
  obtain ⟨ts, more, hes, hts, hlen⟩ := ht
  cases h with
  | done used rest he hq hl hlast =>
      have hp := prefix_of_not_mem (he.symm.trans hes) (timeout_not_mem hq)
      have := length_movedBytes_le hp
      omega
  | failed used s rest he hq hl hs =>
      have hp : used = ts := by
        have h₁ := prefix_of_not_mem (he.symm.trans hes) (timeout_not_mem hq)
        have h₂ : ts <+: used := prefix_of_not_mem (hes.symm.trans he) fun hm => hs (hts _ hm)
        exact h₁.eq_of_length (Nat.le_antisymm h₁.length_le h₂.length_le)
      subst hp
      have e := List.append_cancel_left (he.symm.trans hes)
      obtain ⟨hs, -⟩ := List.cons.inj e
      cases hs
      exact ⟨rfl, used, he⟩
  | waiting hq hl =>
      exact absurd (hes ▸ List.mem_append_right _ List.mem_cons_self) (timeout_not_mem hq)

/-- With TLS a timeout does not end the call. -/
theorem not_at_timeout_of_tls {c : Conn} {ssl : OpenSsl} (hc : c.ssl = some ssl) (len : ℕ)
    (es : List (Event δ)) {ts : List (Tick δ)}
    (hf : (transferAll c len es).status = .failed) :
    ticks es ≠ ts ++ .stall .timeout :: ticks (transferAll c len es).rest := by
  intro he
  have h := transferAll_meets c len es
  generalize transferAll c len es = t at h hf he
  cases h with
  | done => cases hf
  | failed us s rest hes hq hl hs =>
      have e : us ++ [Tick.stall s] = ts ++ [.stall .timeout] :=
        List.append_cancel_right (by simpa using hes.symm.trans he)
      obtain ⟨-, e⟩ := List.append_inj' e rfl
      cases e
      exact hs ((retries_tls hc _).mpr (.inr rfl))
  | waiting => cases hf

/-- What a TLS connection takes again is only interruptions, up to the first timeout. -/
theorem quiet_or_timeout {ts : List (Tick δ)}
    (h : Quiet (fun s => s = .interrupted ∨ s = .timeout) ts) :
    Quiet (· = .interrupted) ts ∨
      ∃ us vs, ts = us ++ .stall .timeout :: vs ∧ Quiet (· = .interrupted) us := by
  by_cases hm : Tick.stall .timeout ∈ ts
  · right
    obtain ⟨us, vs, rfl, hus⟩ := List.eq_append_cons_of_mem hm
    refine ⟨us, vs, rfl, fun s hs => ?_⟩
    rcases h s (List.mem_append_left _ hs) with e | rfl
    · exact e
    · exact absurd hs hus
  · left
    intro s hs
    rcases h s hs with e | rfl
    · exact e
    · exact absurd hs hm

/-- Where no timeout comes first, taking timeouts again makes no difference. -/
theorem Meets.contract {len : ℕ} {es : List (Event δ)} {t : Transfer δ}
    (h : Meets (fun s => s = .interrupted ∨ s = .timeout) len es t)
    (ht : ¬ TimeoutFirst len es) : Contract len es t := by
  cases h with
  | done used rest hes hq hlen hlast =>
      rcases quiet_or_timeout hq with hq | ⟨us, vs, rfl, hus⟩
      · exact .done used rest hes hq hlen hlast
      · refine absurd ⟨us, vs ++ ticks rest, by simp [hes], hus, ?_⟩ ht
        -- the last tick is a byte, and it comes after the timeout
        rcases List.eq_nil_or_concat vs with rfl | ⟨vs, x, rfl⟩
        · exact absurd rfl (hlast us .timeout)
        · cases x with
          | byte d => simp at hlen; omega
          | stall s => exact absurd (by simp) (hlast (us ++ .stall .timeout :: vs) s)
  | failed used s rest hes hq hlen hs =>
      rcases quiet_or_timeout hq with hq | ⟨us, vs, rfl, hus⟩
      · exact .failed used s rest hes hq hlen fun e => hs (.inl e)
      · refine absurd ⟨us, vs ++ .stall s :: ticks rest, by simp [hes], hus, ?_⟩ ht
        simp at hlen
        omega
  | waiting hq hlen =>
      rcases quiet_or_timeout hq with hq | ⟨us, vs, hes, hus⟩
      · exact .waiting hq hlen
      · refine absurd ⟨us, vs, hes, hus, ?_⟩ ht
        simp [hes] at hlen
        omega

/-- A call meets the contract on a plain connection, and with TLS exactly on the schedules where
no timeout comes first. -/
theorem transferAll_contract_iff (c : Conn) (len : ℕ) (es : List (Event δ)) :
    Contract len es (transferAll c len es) ↔ c.ssl = none ∨ ¬ TimeoutFirst len es := by
  have h := transferAll_meets c len es
  cases hc : c.ssl with
  | none =>
      have e : (fun s => c.retries s = true) = (· = .interrupted) :=
        funext fun s => propext (retries_plain hc s)
      rw [e] at h
      simpa using h
  | some ssl =>
      simp only [reduceCtorEq, false_or]
      constructor
      · intro hC ht
        obtain ⟨hf, used, he⟩ := hC.at_timeout ht
        exact not_at_timeout_of_tls hc len es hf he
      · intro ht
        have e : (fun s => c.retries s = true) = fun s => s = .interrupted ∨ s = .timeout :=
          funext fun s => propext (retries_tls hc s)
        rw [e] at h
        exact h.contract ht

/-- The contract of `conn_write_all`: that of the transfer, and the bytes taken are the first of
`buf`. -/
def WriteContract (buf : List UInt8) (es : List (Event Unit))
    (r : Status × List UInt8 × List (Event Unit)) : Prop :=
  ∃ room : List Unit, Contract buf.length es ⟨r.1, room, r.2.2⟩ ∧ r.2.1 = buf.take room.length

theorem Meets.length_moved_le {retried : Stall → Prop} {len : ℕ} {es : List (Event δ)}
    {t : Transfer δ} (h : Meets retried len es t) : t.moved.length ≤ len := by
  cases h with
  | done used rest hes hq hlen hlast => exact Nat.le_of_eq hlen
  | failed used s rest hes hq hlen hs => exact Nat.le_of_lt hlen
  | waiting hq hlen => exact Nat.le_of_lt hlen

theorem writeContract_iff (c : Conn) (buf : List UInt8) (es : List (Event Unit)) :
    WriteContract buf es (connWriteAll c buf es) ↔
      Contract buf.length es (transferAll c buf.length es) := by
  constructor
  · rintro ⟨room, hC, hr⟩
    have h₁ := (transferAll_meets c buf.length es).length_moved_le
    have h₂ := hC.length_moved_le
    have e : room = (transferAll c buf.length es).moved := by
      refine List.ext_getElem ?_ fun _ _ _ => rfl
      simpa [connWriteAll, h₁, h₂] using (congrArg List.length hr).symm
    rwa [e] at hC
  · exact fun hC => ⟨_, hC, rfl⟩

/-- `conn_read_all` and `conn_write_all` meet their one contract on a plain connection, and with
TLS exactly when no timeout comes before the call ends otherwise. -/
theorem wholeTransfer_contract_iff (c : Conn) :
    (∀ len es, Contract len es (connReadAll c len es) ↔
      c.ssl = none ∨ ¬ TimeoutFirst len es) ∧
    (∀ buf es, WriteContract buf es (connWriteAll c buf es) ↔
      c.ssl = none ∨ ¬ TimeoutFirst buf.length es) :=
  ⟨fun len es => transferAll_contract_iff c len es,
    fun buf es => (writeContract_iff c buf es).trans (transferAll_contract_iff c buf.length es)⟩

/-- A TLS peer that stays silent: the call for one byte times out, and neither ends then nor ever
after. -/
theorem tls_silence_breaks_contract :
    ¬ Contract 1 [.stall .timeout] (connReadAll ⟨some .sockets⟩ 1 [.stall .timeout]) ∧
    ∀ n, (connReadAll ⟨some .sockets⟩ 1 (List.replicate n (.stall .timeout))).status =
      .waiting := by
  have hwait : ∀ n, (connReadAll ⟨some .sockets⟩ 1
      (List.replicate n (.stall .timeout))).status = .waiting := by
    intro n
    induction n with
    | zero => simp [connReadAll, transferAll]
    | succ n ih =>
        rw [connReadAll, List.replicate_succ, transferAll]
        exact ih
  refine ⟨fun h => ?_, hwait⟩
  have ht : TimeoutFirst 1 [(.stall .timeout : Event UInt8)] :=
    ⟨[], [], rfl, by simp [Quiet], by simp⟩
  have hw : (connReadAll ⟨some .sockets⟩ 1 [.stall .timeout]).status = .waiting := hwait 1
  rw [(h.at_timeout ht).1] at hw
  cases hw

end UpdateFramework
