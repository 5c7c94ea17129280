import UpdateFramework.Common.Protocol
import UpdateFramework.Common.Transfer

/-!
# Common — framing is a bijection

`encode f` is what `proto_send` puts on the wire for the frame `f`.  A `proto_recv` that ends with
`PROTO_RECV_OK` has consumed exactly the encoding of the frame it reports (`protoRecv_ok`), and
one that finds an encoding on the wire reports that frame (`protoRecv_encode`).  No encoding is a
strict prefix of another (`encode_prefix_free`), because the length stands at a fixed place.

The transport may split the bytes in any way, and stall in the ways the branch of the connection
takes again.
-/

namespace UpdateFramework

open Libc

/-! ### Headers -/

@[simp] theorem ofByte_toByte (t : MsgType) : MsgType.ofByte t.toByte = t := by
  cases t with
  | unknown b h => simp [MsgType.toByte, MsgType.ofByte, h]
  | _ => rfl

theorem toByte_inj {t u : MsgType} (h : t.toByte = u.toByte) : t = u := by
  rw [← ofByte_toByte t, h, ofByte_toByte]

@[simp] theorem toByte_ofByte (b : UInt8) : (MsgType.ofByte b).toByte = b := by
  by_cases h : b = 0 ∨ 14 < b
  · simp [MsgType.ofByte, h, MsgType.toByte]
  · -- the fourteen bytes that have a name
    have hnamed : ∀ n : Fin 15, (MsgType.ofByte (UInt8.ofNat n)).toByte = UInt8.ofNat n := by
      decide
    have hlt : b.toNat < 15 := by
      have h14 : b ≤ 14 := UInt8.not_lt.mp fun hb => h (.inr hb)
      exact Nat.lt_succ_of_le (UInt8.le_iff_toNat_le.mp h14)
    simpa using hnamed ⟨b.toNat, hlt⟩

@[simp] theorem length_putU32Be (n : ℕ) : (putU32Be n).length = 4 := rfl

@[simp] theorem getU32Be_putU32Be {n : ℕ} (h : n < 2 ^ 32) : getU32Be (putU32Be n) = n := by
  simp only [getU32Be, putU32Be, List.getD_cons_zero, List.getD_cons_succ, UInt8.toNat_ofNat']
  omega

/-- Four bytes are the encoding of their value. -/
theorem putU32Be_getU32Be {p : Bytes} (h : p.length = 4) : putU32Be (getU32Be p) = p := by
  obtain ⟨a, b, c, d, rfl⟩ : ∃ a b c d, p = [a, b, c, d] := by
    match p, h with
    | [a, b, c, d], _ => exact ⟨a, b, c, d, rfl⟩
  have ha := a.toNat_lt
  have hb := b.toNat_lt
  have hc := c.toNat_lt
  have hd := d.toNat_lt
  simp only [getU32Be, putU32Be, List.getD_cons_zero, List.getD_cons_succ, List.cons.injEq,
    ← UInt8.toNat_inj, UInt8.toNat_ofNat', and_true]
  refine ⟨?_, ?_, ?_, ?_⟩ <;> omega

theorem getU32Be_lt (p : Bytes) : getU32Be p < 2 ^ 32 := by
  have h : ∀ i, (p.getD i 0).toNat < 256 := fun i => (p.getD i 0).toNat_lt
  have h0 := h 0
  have h1 := h 1
  have h2 := h 2
  have h3 := h 3
  simp only [getU32Be]
  omega

@[simp] theorem length_frameHeader (f : Frame) : (frameHeader f).length = frameHeaderSize := rfl

/-- A frame whose length `payload_len` can hold. -/
def Frame.Sized (f : Frame) : Prop := f.payload.length < 2 ^ 32

/-- A header that is not `PROTO_RECV_BAD` is that of the frame read out of it. -/
theorem frameHeader_of_headerOk {hdr p : Bytes} (hlen : hdr.length = frameHeaderSize)
    (hok : headerOk hdr = true) (hp : p.length = getU32Be (hdr.drop 8)) :
    frameHeader ⟨MsgType.ofByte (hdr.getD 5 0), hdr.getD 6 0, p⟩ = hdr := by
  have hput : putU32Be (getU32Be (hdr.drop 8)) = hdr.drop 8 :=
    putU32Be_getU32Be (by simp [hlen, frameHeaderSize])
  have hten : ∀ i, i < 12 → hdr[i]? = some (hdr.getD i 0) := by
    intro i hi
    have hi : i < hdr.length := by rw [hlen]; exact hi
    simp [List.getD_eq_getElem?_getD, hi]
  simp only [headerOk, Bool.and_eq_true, decide_eq_true_eq] at hok
  obtain ⟨⟨⟨⟨⟨h0, h1⟩, h2⟩, h3⟩, h4⟩, h7⟩ := hok
  rw [frameHeader, toByte_ofByte, hp, hput]
  have htake : hdr.take 8 = [0x55, 0x50, 0x44, 0x54, protoVersion, hdr.getD 5 0,
      hdr.getD 6 0, 0] := by
    simp only [List.take_add_one, hten 0 (by omega), hten 1 (by omega), hten 2 (by omega),
      hten 3 (by omega), hten 4 (by omega), hten 5 (by omega), hten 6 (by omega),
      hten 7 (by omega), h0, h1, h2, h3, h4, h7]
    simp
  rw [← htake, List.take_append_drop]

theorem headerOk_frameHeader (f : Frame) : headerOk (frameHeader f) = true := rfl

theorem getU32Be_frameHeader {f : Frame} (h : f.Sized) :
    getU32Be ((frameHeader f).drop 8) = f.payload.length :=
  getU32Be_putU32Be h

theorem type_frameHeader (f : Frame) : MsgType.ofByte ((frameHeader f).getD 5 0) = f.type :=
  ofByte_toByte f.type

theorem flags_frameHeader (f : Frame) : (frameHeader f).getD 6 0 = f.flags := rfl

/-! ### Encodings -/

/-- What `proto_send` puts on the wire. -/
def encode (f : Frame) : Bytes := frameHeader f ++ f.payload

@[simp] theorem length_encode (f : Frame) :
    (encode f).length = frameHeaderSize + f.payload.length := by
  simp [encode]

/-- An encoding is followed by its own frame only. -/
theorem encode_prefix_free {f g : Frame} (hf : f.Sized) (hg : g.Sized) {more : Bytes}
    (h : encode f ++ more = encode g) : f = g ∧ more = [] := by
  simp only [encode, List.append_assoc] at h
  obtain ⟨hh, hp⟩ := List.append_inj h rfl
  have hlen : f.payload.length = g.payload.length := by
    rw [← getU32Be_frameHeader hf, hh, getU32Be_frameHeader hg]
  obtain ⟨hp, hm⟩ := List.append_inj (hp.trans (List.append_nil _).symm) hlen
  have ht : f.type = g.type := by rw [← type_frameHeader f, hh, type_frameHeader]
  have hfl : f.flags = g.flags := by rw [← flags_frameHeader f, hh, flags_frameHeader]
  refine ⟨?_, hm⟩
  cases f
  cases g
  cases ht
  cases hfl
  cases hp
  rfl

/-! ### One call -/

section Call

variable (c : Conn) {δ : Type}

/-- The stalls the branch of `c` takes again. -/
abbrev Conn.Retried (c : Conn) (s : Stall) : Prop := c.retries s = true

/-- Where the schedule has no other stall and enough bytes, a call moves just its share. -/
theorem Meets.of_quiet {retried : Stall → Prop} {len : ℕ} {es : List (Event δ)} {t : Transfer δ}
    (h : Meets retried len es t) (hq : Quiet retried (ticks es))
    (hlen : len ≤ (movedBytes (ticks es)).length) :
    t.status = .done ∧ movedBytes (ticks es) = t.moved ++ movedBytes (ticks t.rest) ∧
      t.moved.length = len ∧ Quiet retried (ticks t.rest) := by
  cases h with
  | done used rest hes hu hl hlast =>
      refine ⟨rfl, by simp [hes], hl, ?_⟩
      rw [hes] at hq
      exact (quiet_append.mp hq).2
  | failed used s rest hes hu hl hs =>
      exact absurd (hq s (hes ▸ List.mem_append_right _ List.mem_cons_self)) hs
  | waiting hu hl => omega

/-- A call that is done has moved `len` bytes, past stalls taken again. -/
theorem Meets.of_done {retried : Stall → Prop} {len : ℕ} {es : List (Event δ)} {t : Transfer δ}
    (h : Meets retried len es t) (hst : t.status = .done) :
    ∃ used, ticks es = used ++ ticks t.rest ∧ Quiet retried used ∧ movedBytes used = t.moved ∧
      t.moved.length = len := by
  cases h with
  | done used rest hes hu hl hlast => exact ⟨used, hes, hu, rfl, hl⟩
  | failed => cases hst
  | waiting => cases hst

/-- Enough room for a buffer takes all of it. -/
theorem connWriteAll_of_quiet (buf : Bytes) {es : List (Event Unit)}
    (hq : Quiet c.Retried (ticks es)) (hlen : buf.length ≤ (movedBytes (ticks es)).length) :
    ∃ rest, connWriteAll c buf es = (.done, buf, rest) ∧ Quiet c.Retried (ticks rest) ∧
      (movedBytes (ticks es)).length = buf.length + (movedBytes (ticks rest)).length := by
  obtain ⟨hst, hm, hl, hq'⟩ := (transferAll_meets c buf.length es).of_quiet hq hlen
  refine ⟨_, by simp only [connWriteAll, hst, hl, List.take_length], hq', ?_⟩
  have := congrArg List.length hm
  rwa [List.length_append, hl] at this

/-- Enough room for a frame takes its encoding. -/
theorem protoSend_encode {f : Frame} (hs : sendable f = true) {es : List (Event Unit)}
    (hq : Quiet c.Retried (ticks es))
    (hlen : (encode f).length ≤ (movedBytes (ticks es)).length) :
    ∃ rest, protoSend c f es = (.done, encode f, rest) ∧ Quiet c.Retried (ticks rest) ∧
      (movedBytes (ticks es)).length = (encode f).length + (movedBytes (ticks rest)).length := by
  rw [encode, List.length_append] at hlen
  obtain ⟨mid, hhdr, hq', hsum⟩ := connWriteAll_of_quiet c (frameHeader f) hq (by omega)
  by_cases hpos : f.payload.length > 0
  · obtain ⟨rest, hbody, hq₂, hsum₂⟩ :=
      connWriteAll_of_quiet c f.payload hq' (by omega)
    refine ⟨rest, by simp [protoSend, hs, hhdr, hpos, hbody, encode], hq₂, ?_⟩
    rw [encode, List.length_append]
    omega
  · have hnil : f.payload = [] := List.length_eq_zero_iff.mp (by omega)
    refine ⟨mid, by simp [protoSend, hs, hhdr, hnil, encode], hq', ?_⟩
    rw [encode, hnil, List.append_nil]
    exact hsum

/-- A frame a receiver lets through is one a sender lets through. -/
theorem sendable_of_allowed {f : Frame} {dataPayloadCap : ℕ}
    (h : f.payload.length ≤ allowedLen f.type dataPayloadCap) : sendable f = true := by
  simp only [sendable, Bool.or_eq_true, decide_eq_true_eq]
  by_cases ht : f.type = .data
  · exact .inl ht
  · exact .inr (by simpa [allowedLen, ht] using h)

/-- A frame within the limits of a receiver. -/
structure Frame.Fits (f : Frame) (payloadCap dataPayloadCap : ℕ) : Prop where
  sized : f.Sized
  allowed : f.payload.length ≤ allowedLen f.type dataPayloadCap
  room : f.payload.length ≤ payloadCap

instance (f : Frame) (payloadCap dataPayloadCap : ℕ) : Decidable (f.Fits payloadCap dataPayloadCap) :=
  decidable_of_iff (f.payload.length < 2 ^ 32 ∧ f.payload.length ≤ allowedLen f.type dataPayloadCap ∧
      f.payload.length ≤ payloadCap)
    ⟨fun h => ⟨h.1, h.2.1, h.2.2⟩, fun h => ⟨h.sized, h.allowed, h.room⟩⟩

/-- A receiver that finds an encoding on the wire reports the frame, and leaves what follows. -/
theorem protoRecv_encode {f : Frame} {payloadCap dataPayloadCap : ℕ}
    (hf : f.Fits payloadCap dataPayloadCap) {es : List (Event UInt8)} {more : Bytes}
    (hq : Quiet c.Retried (ticks es)) (hes : movedBytes (ticks es) = encode f ++ more) :
    ∃ rest, protoRecv c payloadCap dataPayloadCap es = (some (.ok f), rest) ∧
      Quiet c.Retried (ticks rest) ∧ movedBytes (ticks rest) = more := by
  have hread := transferAll_meets c frameHeaderSize es
  obtain ⟨hst, hm, hl, hq'⟩ := hread.of_quiet hq
    (by rw [hes, List.length_append, length_encode]; omega)
  rw [hes, encode, List.append_assoc] at hm
  generalize ht : transferAll c frameHeaderSize es = t at *
  obtain ⟨hhdr, hbody⟩ := List.append_inj hm (hl ▸ length_frameHeader f)
  have hread₂ := transferAll_meets c f.payload.length t.rest
  obtain ⟨hst₂, hm₂, hl₂, hq₂⟩ := hread₂.of_quiet hq'
    (by rw [← hbody, List.length_append]; omega)
  rw [← hbody] at hm₂
  obtain ⟨hpay, hmore⟩ := List.append_inj hm₂ hl₂.symm
  have hsize : ¬ (f.payload.length > allowedLen f.type dataPayloadCap ∨
      f.payload.length > payloadCap) := by
    have := hf.allowed
    have := hf.room
    omega
  refine ⟨_, ?_, hq₂, hmore.symm⟩
  simp only [protoRecv, connReadAll, ht, hst, ← hhdr, headerOk_frameHeader, type_frameHeader,
    flags_frameHeader, getU32Be_frameHeader hf.sized, Bool.or_eq_true, decide_eq_true_eq, hsize,
    Bool.not_true, Bool.false_eq_true, if_false, hst₂, ← hpay]

/-- A receiver that reports a frame has consumed exactly its encoding, and the frame is within
its limits. -/
theorem protoRecv_ok {f : Frame} {payloadCap dataPayloadCap : ℕ} {es rest : List (Event UInt8)}
    (h : protoRecv c payloadCap dataPayloadCap es = (some (.ok f), rest)) :
    f.Fits payloadCap dataPayloadCap ∧
      ∃ used, ticks es = used ++ ticks rest ∧ Quiet c.Retried used ∧
        movedBytes used = encode f := by
  have hread := transferAll_meets c frameHeaderSize es
  unfold protoRecv connReadAll at h
  obtain ⟨t, ht⟩ : ∃ t, transferAll c frameHeaderSize es = t := ⟨_, rfl⟩
  rw [ht] at h hread
  cases hst : t.status with
  | waiting => simp [hst] at h
  | failed => simp [hst] at h
  | done =>
      obtain ⟨used, hes, hq, hmv, hl⟩ := hread.of_done hst
      simp only [hst] at h
      by_cases hok : headerOk t.moved = true
      swap
      · simp [hok] at h
      simp only [hok, Bool.not_true, Bool.false_eq_true, if_false] at h
      split at h
      · cases h
      next hsize =>
      have hread₂ := transferAll_meets c (getU32Be (t.moved.drop 8)) t.rest
      obtain ⟨u, hu⟩ : ∃ u, transferAll c (getU32Be (t.moved.drop 8)) t.rest = u := ⟨_, rfl⟩
      rw [hu] at h hread₂
      cases hst₂ : u.status with
      | waiting => simp [hst₂] at h
      | failed => simp [hst₂] at h
      | done =>
          obtain ⟨used₂, hes₂, hq₂, hmv₂, hl₂⟩ := hread₂.of_done hst₂
          simp only [hst₂] at h
          cases h
          simp only [Bool.or_eq_true, decide_eq_true_eq, not_or, Nat.not_lt, ← hl₂] at hsize
          refine ⟨⟨?_, hsize.1, hsize.2⟩, used ++ used₂, ?_, quiet_append.mpr ⟨hq, hq₂⟩, ?_⟩
          · exact Nat.lt_of_le_of_lt (Nat.le_of_eq hl₂) (getU32Be_lt _)
          · rw [hes, hes₂, List.append_assoc]
          · rw [movedBytes_append, hmv, hmv₂, encode, frameHeader_of_headerOk hl hok hl₂]

end Call

/-! ### Streams of frames -/

/-- Successive calls of `proto_send`, each ending with `0`: the bytes on the wire. -/
def sendAll (c : Conn) : List Frame → List (Event Unit) → Option (Bytes × List (Event Unit))
  | [], es => some ([], es)
  | f :: fs, es =>
    match protoSend c f es with
    | (.done, wire, es) => (sendAll c fs es).map fun r => (wire ++ r.1, r.2)
    | _ => none

/-- `n` successive calls of `proto_recv`, each ending with `PROTO_RECV_OK`. -/
def recvAll (c : Conn) (payloadCap dataPayloadCap : ℕ) :
    ℕ → List (Event UInt8) → Option (List Frame × List (Event UInt8))
  | 0, es => some ([], es)
  | n + 1, es =>
    match protoRecv c payloadCap dataPayloadCap es with
    | (some (.ok f), es) =>
      (recvAll c payloadCap dataPayloadCap n es).map fun r => (f :: r.1, r.2)
    | _ => none

theorem sendAll_encode (c : Conn) {fs : List Frame} (hfs : ∀ f ∈ fs, sendable f = true)
    {es : List (Event Unit)} (hq : Quiet c.Retried (ticks es))
    (hlen : (fs.flatMap encode).length ≤ (movedBytes (ticks es)).length) :
    ∃ rest, sendAll c fs es = some (fs.flatMap encode, rest) := by
  induction fs generalizing es with
  | nil => exact ⟨es, rfl⟩
  | cons f fs ih =>
      rw [List.flatMap_cons, List.length_append] at hlen
      obtain ⟨rest, hsend, hq', hl⟩ :=
        protoSend_encode c (hfs f List.mem_cons_self) hq (by omega)
      obtain ⟨rest', hall⟩ :=
        ih (fun g hg => hfs g (List.mem_cons_of_mem f hg)) hq' (by omega)
      exact ⟨rest', by simp [sendAll, hsend, hall]⟩

theorem recvAll_encode (c : Conn) {payloadCap dataPayloadCap : ℕ} {fs : List Frame}
    (hfs : ∀ f ∈ fs, f.Fits payloadCap dataPayloadCap) {es : List (Event UInt8)}
    (hq : Quiet c.Retried (ticks es)) (hes : movedBytes (ticks es) = fs.flatMap encode) :
    ∃ rest, recvAll c payloadCap dataPayloadCap fs.length es = some (fs, rest) ∧
      movedBytes (ticks rest) = [] := by
  induction fs generalizing es with
  | nil => exact ⟨es, rfl, hes⟩
  | cons f fs ih =>
      obtain ⟨rest, hrecv, hq', hmore⟩ :=
        protoRecv_encode c (hfs f List.mem_cons_self) hq (by simpa using hes)
      obtain ⟨rest', hall, hnil⟩ := ih (fun g hg => hfs g (List.mem_cons_of_mem f hg)) hq' hmore
      exact ⟨rest', by simp [recvAll, hrecv, hall], hnil⟩

/-- A frame the program sends: a type that has a name, a payload within the limits of the
protocol, and a length that `payload_len` can hold. -/
structure Frame.Valid (f : Frame) (dataPayloadCap : ℕ) : Prop where
  named : 1 ≤ f.type.toByte ∧ f.type.toByte ≤ 14
  sized : f.Sized
  bounded : f.payload.length ≤ allowedLen f.type dataPayloadCap

/-- **Framing is a bijection.**  What is sent is received, frame by frame and without a byte left
over, however the transport splits the bytes; what is received is what was sent; and a strict
prefix of an encoding is not a frame. -/
theorem framing_bijection (payloadCap dataPayloadCap : ℕ) :
    (∀ (fs : List Frame), (∀ f ∈ fs, f.Valid dataPayloadCap ∧ f.payload.length ≤ payloadCap) →
      ∀ (c : Conn) (ws : List (Event Unit)), Quiet c.Retried (ticks ws) →
        (fs.flatMap encode).length ≤ (movedBytes (ticks ws)).length →
      ∃ wire left, sendAll c fs ws = some (wire, left) ∧
        ∀ (d : Conn) (rs : List (Event UInt8)), Quiet d.Retried (ticks rs) →
          movedBytes (ticks rs) = wire →
        ∃ rest, recvAll d payloadCap dataPayloadCap fs.length rs = some (fs, rest) ∧
          movedBytes (ticks rest) = []) ∧
    (∀ (c : Conn) (f : Frame) (es rest : List (Event UInt8)),
      protoRecv c payloadCap dataPayloadCap es = (some (.ok f), rest) →
      ∃ used, ticks es = used ++ ticks rest ∧
        ∀ (d : Conn) (ws : List (Event Unit)), Quiet d.Retried (ticks ws) →
          (movedBytes used).length ≤ (movedBytes (ticks ws)).length →
        ∃ left, protoSend d f ws = (.done, movedBytes used, left)) ∧
    (∀ (c : Conn) (f g : Frame) (es rest : List (Event UInt8)), f.Sized →
      movedBytes (ticks es) <+: encode f → movedBytes (ticks es) ≠ encode f →
      protoRecv c payloadCap dataPayloadCap es ≠ (some (.ok g), rest)) := by
  refine ⟨fun fs hfs c ws hws hlen => ?_, fun c f es rest h => ?_,
    fun c f g es rest hf hp hne h => ?_⟩
  · obtain ⟨left, hsend⟩ := sendAll_encode c (fun f hf => sendable_of_allowed (hfs f hf).1.bounded) hws hlen
    refine ⟨_, left, hsend, fun d rs hrs hwire => ?_⟩
    exact recvAll_encode d (fun f hf => ⟨(hfs f hf).1.sized, (hfs f hf).1.bounded, (hfs f hf).2⟩)
      hrs hwire
  · obtain ⟨hfits, used, hes, -, hmv⟩ := protoRecv_ok c h
    refine ⟨used, hes, fun d ws hws hlen => ?_⟩
    obtain ⟨left, hs, -, -⟩ := protoSend_encode d (sendable_of_allowed hfits.allowed) hws (hmv ▸ hlen)
    exact ⟨left, hmv ▸ hs⟩
  · obtain ⟨hfits, used, hes, -, hmv⟩ := protoRecv_ok c h
    obtain ⟨more, hmore⟩ := hp
    rw [hes, movedBytes_append, hmv, List.append_assoc] at hmore
    obtain ⟨rfl, hnil⟩ := encode_prefix_free hfits.sized hf hmore
    obtain ⟨hnil, -⟩ := List.append_eq_nil_iff.mp hnil
    exact hne (by rw [hes, movedBytes_append, hmv, hnil, List.append_nil])

/-- An empty HELLO and a DATA frame whose payload imitates a header's first byte, over a plain
connection. -/
theorem framing_hello_data :
    ∃ wire left,
      sendAll ⟨none⟩ [⟨.hello, 0, []⟩, ⟨.data, flagLastChunk, [0x55]⟩]
        [.stall .interrupted, .move () (List.replicate 24 ())] = some (wire, left) ∧
      ∀ (d : Conn) (rs : List (Event UInt8)), Quiet d.Retried (ticks rs) →
        movedBytes (ticks rs) = wire →
      ∃ rest, recvAll d 4096 4096 2 rs =
          some ([⟨.hello, 0, []⟩, ⟨.data, flagLastChunk, [0x55]⟩], rest) ∧
        movedBytes (ticks rest) = [] := by
  refine (framing_bijection 4096 4096).1 [⟨.hello, 0, []⟩, ⟨.data, flagLastChunk, [0x55]⟩] ?_
    ⟨none⟩ [.stall .interrupted, .move () (List.replicate 24 ())] ?_ (by decide)
  · intro f hf
    simp only [List.mem_cons, List.not_mem_nil, or_false] at hf
    rcases hf with rfl | rfl
    · exact ⟨⟨by decide, by simp [Frame.Sized], by simp⟩, by simp⟩
    · exact ⟨⟨by decide, by simp [Frame.Sized], by simp [allowedLen]⟩, by simp⟩
  · intro s hs
    simp [ticks] at hs
    subst hs
    rfl

end UpdateFramework
