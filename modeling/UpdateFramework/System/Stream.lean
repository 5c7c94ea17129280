import UpdateFramework.Collections.Chunks
import UpdateFramework.Libc.Streams
import UpdateFramework.System.Offer

/-!
# System — what a stream delivers

`pkg_stream_file` when nothing goes wrong: it sends the file from the offset on, in parts of
`chunk_size` bytes with the last one flagged (`pkgStreamFile_delivers`).  The arithmetic is a
parameter, so that the program can be run on numbers that do not wrap and on 64-bit ones.
-/

namespace UpdateFramework.System

open Collections Libc Process Server

/-! ### The program, in a given arithmetic -/

/-- Subtraction and addition. -/
structure Arithmetic where
  sub : ℕ → ℕ → ℕ
  add : ℕ → ℕ → ℕ

/-- Numbers that do not wrap. -/
def Arithmetic.exact : Arithmetic := ⟨(· - ·), (· + ·)⟩

/-- `unsigned long long` -/
def Arithmetic.u64 : Arithmetic := ⟨fun a b => (a + 2 ^ 64 - b) % 2 ^ 64, fun a b => (a + b) % 2 ^ 64⟩

/-- `streamRound` in the given arithmetic. -/
def streamRoundIn (ar : Arithmetic) (fp : Handle)
    (size chunkSize packetDelayUs pauseHoldTimeoutSec sent : ℕ) : ServerProg (ℕ ⊕ Bool) := do
  if ¬ sent < size then .ret (.inr true)
  else if ¬ (← handlePauseIfRequested pauseHoldTimeoutSec sent) then .ret (.inr false)
  else
    let want := min (ar.sub size sent) chunkSize
    let (buf, ferror) ← file (fread fp want)
    if buf.length = 0 then .ret (.inr false)
    else
      let sent := ar.add sent buf.length
      let flags := if sent = size then flagLastChunk else 0
      if ¬ (← Server.protoSend ⟨.data, flags, buf⟩) then .ret (.inr false)
      else
        statsAdd .bytesSent buf.length
        if packetDelayUs > 0 ∧ sent < size then usleep packetDelayUs
        if buf.length < want ∧ ferror then .ret (.inr false)
        else .ret (.inl sent)

/-- `pkgStreamFile` in the given arithmetic. -/
def pkgStreamFileIn (ar : Arithmetic) (path : Bytes)
    (offset chunkSize packetDelayUs pauseHoldTimeoutSec : ℕ) : ServerProg Bool := do
  match ← pkgFileSize path with
  | none => .ret false
  | some size =>
    if offset > size ∨ chunkSize < minChunkSize ∨ chunkSize > maxChunkSize then .ret false
    else
      match ← file (fopen path .r) with
      | none => .ret false
      | some fp =>
        if ¬ (← file (fseeko fp offset)) then
          let _ ← file (fclose fp)
          .ret false
        else if ¬ (← malloc chunkSize) then
          let _ ← file (fclose fp)
          .ret false
        else
          let rc ← Prog.iterate (size - offset + 1)
            (streamRoundIn ar fp size chunkSize packetDelayUs pauseHoldTimeoutSec) offset
          free
          let _ ← file (fclose fp)
          if rc then
            logMsg .info (ascii "PACKAGE_STREAM complete path=" ++ path ++ ascii " bytes=" ++
              decimal (ar.sub size offset) ++ ascii " offset=" ++ decimal offset ++
              ascii " chunk=" ++ decimal chunkSize ++ ascii " delay_us=" ++ decimal packetDelayUs)
          .ret rc

theorem pkgStreamFileIn_exact : pkgStreamFileIn .exact = pkgStreamFile := rfl

/-- What is computed on the way to `size` does not wrap. -/
structure Arithmetic.ExactTo (ar : Arithmetic) (size : ℕ) : Prop where
  sub : ∀ sent ≤ size, ar.sub size sent = size - sent
  add : ∀ sent n, sent + n ≤ size → ar.add sent n = sent + n

theorem Arithmetic.exact_exactTo (size : ℕ) : Arithmetic.exact.ExactTo size :=
  ⟨fun _ _ => rfl, fun _ _ _ => rfl⟩

theorem Arithmetic.u64_exactTo {size : ℕ} (h : size < 2 ^ 64) : Arithmetic.u64.ExactTo size where
  sub sent hs := by
    rw [u64]
    dsimp only
    omega
  add sent n hn := Nat.mod_eq_of_lt (Nat.lt_of_le_of_lt hn h)

/-! ### Surroundings in which nothing goes wrong -/

structure StreamWorld where
  fs : FileSystem Bytes
  /-- The frames sent. -/
  outs : List Frame
  /-- What has been added to `bytes_sent`. -/
  bytesSent : ℕ

/-- No operation fails, and the peer sends nothing. -/
def streamOk (w : StreamWorld) : (o : ServerOp) → Option (ServerOp.Res o × StreamWorld)
  | .file o => some ((w.fs.ok o).1, { w with fs := (w.fs.ok o).2 })
  | .protoSend f =>
      if sendable f then some (true, { w with outs := w.outs ++ [f] }) else some (false, w)
  | .select _ => some (.timedOut, w)
  | .statsAdd .bytesSent n => some ((), { w with bytesSent := w.bytesSent + n })
  | .malloc _ => some (true, w)
  | .free => some ((), w)
  | .usleep _ => some ((), w)
  | .logMsg _ _ => some ((), w)
  | _ => none

/-- The frames that carry `parts`, the last one flagged. -/
def dataFrames : List Bytes → List Frame
  | [] => []
  | p :: parts => ⟨.data, if parts = [] then flagLastChunk else 0, p⟩ :: dataFrames parts

/-- `w'` is `w` once `frames` have been sent, and their bytes counted. -/
structure Streamed (w w' : StreamWorld) (frames : List Frame) : Prop where
  outs : w'.outs = w.outs ++ frames
  bytesSent : w'.bytesSent = w.bytesSent + (frames.flatMap Frame.payload).length
  disk : w'.fs.disk = w.fs.disk

theorem Streamed.trans {a b c : StreamWorld} {frames frames' : List Frame}
    (h : Streamed a b frames) (k : Streamed b c frames') : Streamed a c (frames ++ frames') where
  outs := by rw [k.outs, h.outs, List.append_assoc]
  bytesSent := by
    rw [k.bytesSent, h.bytesSent, List.flatMap_append, List.length_append, Nat.add_assoc]
  disk := k.disk.trans h.disk

/-! ### The loop -/

variable {w : StreamWorld} {fp : Handle} {size chunkSize : ℕ}

theorem streamRound_done (ar : Arithmetic) (delay hold : ℕ) :
    Prog.eval streamOk (streamRoundIn ar fp size chunkSize delay hold size) w =
      some (.inr true, w) := by
  rw [streamRoundIn, if_pos (Nat.lt_irrefl size)]
  rfl

/-- A round sends the next part, in every arithmetic that does not wrap on the way. -/
theorem streamRound_part {sent : ℕ} {text : Bytes} (hc : 0 < chunkSize)
    (hr : w.fs.Reading fp text) (hne : text ≠ []) (hsize : sent + text.length = size)
    (delay hold : ℕ) :
    ∃ w', (∀ ar : Arithmetic, ar.ExactTo size →
        Prog.eval streamOk (streamRoundIn ar fp size chunkSize delay hold sent) w =
          some (.inl (sent + (text.take chunkSize).length), w')) ∧
      Streamed w w' [⟨.data, if text.drop chunkSize = [] then flagLastChunk else 0,
        text.take chunkSize⟩] ∧
      w'.fs.Reading fp (text.drop chunkSize) := by
  have hpos := List.length_pos_iff.mpr hne
  have hwant : text.take (min text.length chunkSize) = text.take chunkSize := by
    rw [Nat.min_comm, ← List.take_take, List.take_length]
  have hlen : (text.take chunkSize).length = min text.length chunkSize := by
    rw [List.length_take, Nat.min_comm]
  have hlast : sent + (text.take chunkSize).length = size ↔ text.drop chunkSize = [] := by
    rw [List.drop_eq_nil_iff, hlen]
    omega
  have hsend : ∀ flags, sendable ⟨.data, flags, text.take chunkSize⟩ = true := fun _ => rfl
  obtain ⟨fs', hok, hr', hd⟩ := hr.fread (min text.length chunkSize)
  refine ⟨⟨fs', _, _⟩, ?_, ⟨rfl, rfl, hd⟩, ?_⟩
  · intro ar har
    have hsub : ar.sub size sent = text.length := by
      rw [har.sub sent (by omega), ← hsize, Nat.add_sub_cancel_left]
    rw [streamRoundIn, if_neg (by omega)]
    simp only [handlePauseIfRequested, recvControlIfReady, Prog.call_bind, Prog.ret_bind,
      Prog.eval, streamOk, hsub, file_call, file_ret, not_true_eq_false, if_false]
    rw [hok, hwant]
    dsimp only
    rw [if_neg (by rw [hlen]; omega), har.add sent _ (by rw [hlen]; omega)]
    simp only [Prog.eval, streamOk, hsend, hlast, if_true, not_true_eq_false, if_false, and_false,
      Bool.false_eq_true, List.flatMap_singleton]
    split
    · rfl
    · rfl
  · by_cases hle : text.length ≤ chunkSize
    · rwa [Nat.min_eq_left hle, List.drop_length, ← List.drop_eq_nil_iff.mpr hle] at hr'
    · rwa [Nat.min_eq_right (Nat.le_of_not_le hle)] at hr'

/-- The loop sends what is left of the file, in parts. -/
theorem streamRounds_eval {sent : ℕ} {text : Bytes} (hc : 0 < chunkSize)
    (hr : w.fs.Reading fp text) (hsize : sent + text.length = size) {n : ℕ}
    (hn : text.length < n) (delay hold : ℕ) :
    ∃ w', (∀ ar : Arithmetic, ar.ExactTo size → Prog.eval streamOk
        (Prog.iterate n (streamRoundIn ar fp size chunkSize delay hold) sent) w =
          some (true, w')) ∧
      Streamed w w' (dataFrames (cut chunkSize text)) ∧ w'.fs.Reading fp [] := by
  induction text using cutInduction hc generalizing w sent n with
  | nil =>
      obtain ⟨n, rfl⟩ : ∃ k, n = k + 1 := ⟨n - 1, by omega⟩
      obtain rfl : sent = size := hsize
      refine ⟨w, ?_, ⟨?_, ?_, rfl⟩, hr⟩
      · intro ar _
        rw [Prog.iterate, Prog.eval_bind, streamRound_done]
        rfl
      · rw [cut_nil, dataFrames, List.append_nil]
      · rw [cut_nil, dataFrames]
        rfl
  | part text hne ih =>
      obtain ⟨n, rfl⟩ : ∃ k, n = k + 1 := ⟨n - 1, by omega⟩
      obtain ⟨w₁, he₁, hs₁, hr₁⟩ := streamRound_part hc hr hne hsize delay hold
      have hparts : (text.take chunkSize).length + (text.drop chunkSize).length = text.length := by
        rw [← List.length_append, List.take_append_drop]
      have hpos : 0 < (text.take chunkSize).length := by
        rw [List.length_take]
        exact Nat.lt_min.mpr ⟨hc, List.length_pos_iff.mpr hne⟩
      have hsize₁ : sent + (text.take chunkSize).length + (text.drop chunkSize).length = size := by
        rw [Nat.add_assoc, hparts, hsize]
      obtain ⟨w₂, he₂, hs₂, hr₂⟩ := ih hr₁ hsize₁ (show _ < n by omega)
      refine ⟨w₂, ?_, ?_, hr₂⟩
      · intro ar har
        rw [Prog.iterate, Prog.eval_bind, he₁ ar har, Option.bind_some]
        exact he₂ ar har
      · rw [cut_of_ne_nil hc hne, dataFrames]
        simp only [cut_eq_nil hc]
        exact hs₁.trans hs₂

/-! ### The frames -/

theorem dataFrames_payload (parts : List Bytes) :
    (dataFrames parts).map Frame.payload = parts := by
  induction parts with
  | nil => rfl
  | cons p parts ih => rw [dataFrames, List.map_cons, ih]

theorem dataFrames_type {parts : List Bytes} {f : Frame} (h : f ∈ dataFrames parts) :
    f.type = .data := by
  induction parts with
  | nil => exact absurd h List.not_mem_nil
  | cons p parts ih =>
      rcases List.mem_cons.mp h with rfl | h
      · rfl
      · exact ih h

/-- The last frame is flagged, and no other is. -/
theorem dataFrames_flags {parts : List Bytes} {before after : List Frame} {f : Frame}
    (h : dataFrames parts = before ++ f :: after) :
    f.flags = if after = [] then flagLastChunk else 0 := by
  induction parts generalizing before with
  | nil => exact absurd h.symm (List.append_ne_nil_of_right_ne_nil _ (List.cons_ne_nil _ _))
  | cons p parts ih =>
      rw [dataFrames] at h
      cases before with
      | nil =>
          obtain ⟨rfl, rfl⟩ := List.cons.inj h
          cases parts with
          | nil => rfl
          | cons q parts => rfl
      | cons g before => exact ih (List.cons.inj h).2

/-! ### The whole program -/

/-- `pkg_stream_file` sends the file from the offset on. -/
theorem pkgStreamFile_eval {path content : Bytes} {offset : ℕ}
    (hfile : w.fs.disk path = some content) (ho : offset ≤ content.length)
    (hc : minChunkSize ≤ chunkSize ∧ chunkSize ≤ maxChunkSize) (delay hold : ℕ) :
    ∃ w', (∀ ar : Arithmetic, ar.ExactTo content.length →
        Prog.eval streamOk (pkgStreamFileIn ar path offset chunkSize delay hold) w =
          some (true, w')) ∧
      Streamed w w' (dataFrames (cut chunkSize (content.drop offset))) := by
  have hpos : 0 < chunkSize := Nat.lt_of_lt_of_le (by decide) hc.1
  have hsize : offset + (content.drop offset).length = content.length := by
    rw [List.length_drop]
    exact Nat.add_sub_cancel' ho
  obtain ⟨fs₁, fs₂, hopen, hseek, hr₂, hd₂⟩ := FileSystem.fopen_fseeko hfile offset
  obtain ⟨w₃, he₃, hs₃, hr₃⟩ := streamRounds_eval (w := { w with fs := fs₂ }) hpos hr₂ hsize
    (show _ < content.length - offset + 1 by omega) delay hold
  obtain ⟨fs₄, hclose, hd₄⟩ := hr₃.fclose
  refine ⟨{ w₃ with fs := fs₄ }, fun ar har => ?_, ⟨hs₃.outs, hs₃.bytesSent, ?_⟩⟩
  · have hguard : ¬ (offset > content.length ∨ chunkSize < minChunkSize ∨
        chunkSize > maxChunkSize) := by omega
    have hstat : w.fs.ok (.stat path) = (some content.length, w.fs) := by
      simp only [FileSystem.ok, hfile, Option.map_some]
    rw [pkgStreamFileIn, pkgFileSize]
    simp only [file_call, file_ret, Prog.call_bind, Prog.ret_bind, Prog.eval, streamOk, hstat,
      hguard, hopen, hseek, not_true_eq_false, if_false]
    rw [Prog.eval_bind, he₃ ar har]
    simp only [Option.bind_some, Prog.eval, streamOk, hclose, if_true]
  · exact hd₄.trans (hs₃.disk.trans hd₂)

/-- The number an offer advertises does not wrap. -/
theorem advertisedChunks_eq {cfg : ServerConfig} {m : Manifest} (h : m.packageSize < 2 ^ 63) :
    advertisedChunks cfg m = m.packageSize ⌈/⌉ cfg.chunkSize := by
  have hmax : cfg.chunkSize ≤ 1048576 := cfg.chunkSize_range.2
  rw [advertisedChunks, Nat.ceilDiv_eq_add_pred_div, Nat.mod_eq_of_lt (by omega)]

/-- **A stream delivers exactly the file from the offset on.**  The loop ends and returns `0`;
what the `DATA` frames carry is the rest of the file, in non-empty parts of at most `chunk_size`
bytes; the last frame is flagged and no other; `bytes_sent` grows by what was asked for; there are
as many frames as it takes, which from the start is as many as the offer says; and the run is the
same in 64-bit arithmetic. -/
theorem pkgStreamFile_delivers {path content : Bytes} {offset : ℕ}
    (hfile : w.fs.disk path = some content) (hsize : content.length < 2 ^ 63)
    (ho : offset ≤ content.length) (hc : minChunkSize ≤ chunkSize ∧ chunkSize ≤ maxChunkSize)
    (delay hold : ℕ) :
    ∃ w' frames,
      Prog.eval streamOk (pkgStreamFile path offset chunkSize delay hold) w = some (true, w') ∧
      Prog.eval streamOk (pkgStreamFileIn .u64 path offset chunkSize delay hold) w =
        some (true, w') ∧
      w'.outs = w.outs ++ frames ∧
      (∀ f ∈ frames, f.type = .data) ∧
      frames.flatMap Frame.payload = content.drop offset ∧
      (∀ f ∈ frames, f.payload ≠ [] ∧ f.payload.length ≤ chunkSize) ∧
      (∀ before f after, frames = before ++ f :: after →
        f.flags = if after = [] then flagLastChunk else 0) ∧
      w'.bytesSent = w.bytesSent + (content.length - offset) ∧
      frames.length = (content.length - offset) ⌈/⌉ chunkSize ∧
      (offset = 0 → ∀ (cfg : ServerConfig) (m : Manifest), cfg.chunkSize = chunkSize →
        m.packageSize = content.length → advertisedChunks cfg m = frames.length) := by
  have hpos : 0 < chunkSize := Nat.lt_of_lt_of_le (by decide) hc.1
  obtain ⟨w', he, hs⟩ := pkgStreamFile_eval (w := w) hfile ho hc delay hold
  have hpayloads := dataFrames_payload (cut chunkSize (content.drop offset))
  have hflat : (dataFrames (cut chunkSize (content.drop offset))).flatMap Frame.payload =
      content.drop offset := by
    rw [List.flatMap_def, hpayloads, flatten_cut hpos]
  have hcount : (dataFrames (cut chunkSize (content.drop offset))).length =
      (content.length - offset) ⌈/⌉ chunkSize := by
    rw [← List.length_map (f := Frame.payload), hpayloads, length_cut hpos, List.length_drop]
  have hexact := he .exact (Arithmetic.exact_exactTo content.length)
  rw [pkgStreamFileIn_exact] at hexact
  have hu64 := he .u64 (Arithmetic.u64_exactTo (Nat.lt_trans hsize (by decide)))
  refine ⟨w', dataFrames (cut chunkSize (content.drop offset)), hexact, hu64, hs.outs,
    fun f => dataFrames_type, hflat, ?_, fun before f after => dataFrames_flags, ?_, hcount, ?_⟩
  · intro f hf
    have hmem := List.mem_map_of_mem (f := Frame.payload) hf
    rw [hpayloads] at hmem
    exact of_mem_cut hpos hmem
  · rw [hs.bytesSent, hflat, List.length_drop]
  · rintro rfl cfg m rfl hm
    rw [hcount, advertisedChunks_eq (hm ▸ hsize), hm, Nat.sub_zero]

/-- A file longer than a chunk. -/
def longFile : Bytes := List.replicate 5000 7

/-- From its second byte on it goes out in two frames. -/
theorem pkgStreamFile_delivers_long :
    ∃ w' frames,
      Prog.eval streamOk (pkgStreamFile (ascii "p.bin") 1 minChunkSize 0 5)
        ⟨.only (ascii "p.bin") longFile, [], 0⟩ = some (true, w') ∧
      frames.flatMap Frame.payload = List.replicate 4999 7 ∧ w'.outs = frames ∧
      frames.length = 2 ∧ (∀ f ∈ frames, f.payload.length ≤ 4096) ∧ w'.bytesSent = 4999 := by
  have hlen : longFile.length = 5000 := List.length_replicate
  obtain ⟨w', frames, he, -, houts, -, hflat, hparts, -, hsent, hcount, -⟩ :=
    pkgStreamFile_delivers (w := ⟨.only (ascii "p.bin") longFile, [], 0⟩)
      (FileSystem.only_disk (ascii "p.bin") longFile) (by rw [hlen]; decide)
      (show 1 ≤ _ by rw [hlen]; decide)
      (show minChunkSize ≤ minChunkSize ∧ minChunkSize ≤ maxChunkSize by decide) 0 5
  rw [hlen] at hsent hcount
  have hrest : longFile.drop 1 = List.replicate 4999 7 := List.drop_replicate
  exact ⟨w', frames, he, hflat.trans hrest, houts, hcount, fun f hf => (hparts f hf).2, hsent⟩

end UpdateFramework.System
