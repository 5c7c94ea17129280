import Mathlib.Data.List.GetD
import UpdateFramework.Common.Sha256
import UpdateFramework.Fips180.Sha256
import UpdateFramework.Libc.Streams

/-!
# Common — the digest

`sha256.c` computes the function of the standard: `transform_compress` on a block, `update_chunks`
on what is fed in, however it is cut, `final_chunks` on the padding.  `sha256Hex m` is the digest
of `m` in hex text.
-/

namespace UpdateFramework

open Collections Fips180 Libc Process

/-! ### Words -/

theorem rotr_toBitVec (x n : UInt32) (h : 0 < n.toNat ∧ n.toNat < 32) :
    (rotr x n).toBitVec = ROTR n.toNat x.toBitVec := by
  have hn : (n.toBitVec % 32).toNat = n.toNat := Nat.mod_eq_of_lt h.2
  have hsub : ((32 - n).toBitVec % 32).toNat = 32 - n.toNat := by
    have hle : n ≤ 32 := Nat.le_of_lt h.2
    have hs : (32 - n).toNat = 32 - n.toNat := UInt32.toNat_sub_of_le _ _ hle
    refine (Nat.mod_eq_of_lt ?_).trans hs
    rw [UInt32.toNat_toBitVec, hs]
    exact Nat.sub_lt (by decide) h.1
  rw [rotr, ROTR, BitVec.rotateRight_def, Nat.mod_eq_of_lt h.2, UInt32.toBitVec_or,
    UInt32.toBitVec_shiftRight, UInt32.toBitVec_shiftLeft, BitVec.ushiftRight_eq',
    BitVec.shiftLeft_eq', hn, hsub]

/-- The state, as the words of a hash value. -/
def stateWords (v : List UInt32) : Words :=
  let word i := (v.getD i 0).toBitVec
  ⟨word 0, word 1, word 2, word 3, word 4, word 5, word 6, word 7⟩

/-- The initial state is the one of the standard. -/
theorem stateWords_init : stateWords sha256Init.state = initial := by decide +kernel

/-- The constants of the code are the ones of the standard. -/
theorem sha256K_toBitVec : sha256K.map UInt32.toBitVec = primes.map cubeRootBits := by
  decide +kernel

theorem sha256K_getD (t : ℕ) : (sha256K.getD t 0).toBitVec = K t := by
  have hzero : cubeRootBits 0 = UInt32.toBitVec 0 := by decide
  rw [K, ← List.getD_map (f := cubeRootBits), ← sha256K_toBitVec, hzero, List.getD_map]

/-! ### The message schedule -/

/-- `m` holds the first `n` words of the message schedule. -/
structure Scheduled (M : ℕ → Word) (n : ℕ) (m : List UInt32) : Prop where
  length : m.length = n
  word : ∀ t < n, (m.getD t 0).toBitVec = schedule M t

theorem shr_toBitVec (x n : UInt32) (h : n.toNat < 32) :
    (x >>> n).toBitVec = SHR n.toNat x.toBitVec := by
  have hn : (n.toBitVec % 32).toNat = n.toNat := Nat.mod_eq_of_lt h
  rw [UInt32.toBitVec_shiftRight, BitVec.ushiftRight_eq', hn, SHR]

theorem nextWord_toBitVec {M : ℕ → Word} {n : ℕ} {m : List UInt32} (hm : Scheduled M n m)
    (hn : 16 ≤ n) : (nextWord m n).toBitVec = schedule M n := by
  have hword : ∀ k, 0 < k ∧ k ≤ n → (m.getD (n - k) 0).toBitVec = schedule M (n - k) :=
    fun k hk => hm.word _ (Nat.sub_lt (Nat.lt_of_lt_of_le hk.1 hk.2) hk.1)
  rw [schedule, if_neg (Nat.not_lt.mpr hn), nextWord]
  simp only [UInt32.toBitVec_add, UInt32.toBitVec_xor]
  rw [rotr_toBitVec _ 7 (by decide), rotr_toBitVec _ 18 (by decide), shr_toBitVec _ 3 (by decide),
    rotr_toBitVec _ 17 (by decide), rotr_toBitVec _ 19 (by decide), shr_toBitVec _ 10 (by decide),
    hword 2 (by omega), hword 7 (by omega), hword 15 (by omega), hword 16 (by omega)]
  change schedule M (n - 16) + sigma0 (schedule M (n - 15)) + schedule M (n - 7) +
    sigma1 (schedule M (n - 2)) = _
  ac_rfl

theorem Scheduled.next {M : ℕ → Word} {n : ℕ} {m : List UInt32} (hm : Scheduled M n m)
    (hn : 16 ≤ n) : Scheduled M (n + 1) (m ++ [nextWord m n]) where
  length := by rw [List.length_append, hm.length, List.length_singleton]
  word t ht := by
    rcases Nat.lt_succ_iff_lt_or_eq.mp ht with hlt | rfl
    · rw [List.getD_append _ _ _ _ (hm.length ▸ hlt), hm.word t hlt]
    · rw [List.getD_append_right _ _ _ _ (Nat.le_of_eq hm.length), hm.length, Nat.sub_self]
      exact nextWord_toBitVec hm hn

theorem Scheduled.foldl {M : ℕ → Word} {n : ℕ} {m : List UInt32} (hm : Scheduled M n m)
    (hn : 16 ≤ n) (k : ℕ) :
    Scheduled M (n + k) ((List.range' n k).foldl (fun m i => m ++ [nextWord m i]) m) := by
  induction k generalizing n m with
  | zero => exact hm
  | succ k ih =>
      rw [List.range'_succ, List.foldl_cons, ← Nat.add_assoc, Nat.add_right_comm]
      exact ih (hm.next hn) (Nat.le_succ_of_le hn)

/-- Four bytes put together. -/
theorem word_toBitVec (b₀ b₁ b₂ b₃ : UInt8) :
    ((b₀.toUInt32 <<< 24) ||| (b₁.toUInt32 <<< 16) ||| (b₂.toUInt32 <<< 8) |||
      b₃.toUInt32).toBitVec = BitVec.ofNat 32
        (((b₀.toNat * 2 ^ 8 + b₁.toNat) * 2 ^ 8 + b₂.toNat) * 2 ^ 8 + b₃.toNat) := by
  have h₀ := b₀.toNat_lt
  have h₁ := b₁.toNat_lt
  have h₂ := b₂.toNat_lt
  have h₃ := b₃.toNat_lt
  have hor : ∀ (i a b : ℕ), b < 2 ^ i → a * 2 ^ i ||| b = a * 2 ^ i + b := by
    intro i a b h
    rw [Nat.mul_comm, Nat.two_pow_add_eq_or_of_lt h]
  have hhigh : b₀.toNat * 2 ^ 24 + b₁.toNat * 2 ^ 16 =
      (b₀.toNat * 2 ^ 8 + b₁.toNat) * 2 ^ 16 := by ring
  have hlow : (b₀.toNat * 2 ^ 8 + b₁.toNat) * 2 ^ 16 + b₂.toNat * 2 ^ 8 =
      ((b₀.toNat * 2 ^ 8 + b₁.toNat) * 2 ^ 8 + b₂.toNat) * 2 ^ 8 := by ring
  refine BitVec.eq_of_toNat_eq ?_
  rw [BitVec.toNat_ofNat, Nat.mod_eq_of_lt (by omega), UInt32.toNat_toBitVec]
  simp only [UInt32.toNat_or, UInt32.toNat_shiftLeft, UInt8.toNat_toUInt32, Nat.shiftLeft_eq,
    UInt32.reduceToNat, Nat.reduceMod]
  rw [Nat.mod_eq_of_lt (by omega), Nat.mod_eq_of_lt (by omega), Nat.mod_eq_of_lt (by omega)]
  calc b₀.toNat * 2 ^ 24 ||| b₁.toNat * 2 ^ 16 ||| b₂.toNat * 2 ^ 8 ||| b₃.toNat
      = (b₀.toNat * 2 ^ 8 + b₁.toNat) * 2 ^ 16 ||| b₂.toNat * 2 ^ 8 ||| b₃.toNat := by
        rw [hor 24 _ _ (by omega), hhigh]
    _ = ((b₀.toNat * 2 ^ 8 + b₁.toNat) * 2 ^ 8 + b₂.toNat) * 2 ^ 8 ||| b₃.toNat := by
        rw [hor 16 _ _ (by omega), hlow]
    _ = _ := hor 8 _ _ h₃

/-- The words of a block, as the standard reads them off its bits. -/
theorem blockWords_scheduled {block : Bytes} (h : block.length = 64) :
    Scheduled (blockWord (bits block)) 16 (blockWords block) where
  length := by rw [blockWords, List.length_map, List.length_range]
  word t ht := by
    have hle : 4 * t + 4 ≤ block.length := by omega
    rw [schedule, if_pos ht, blockWord_bits hle, blockWords, List.getD_eq_getElem?_getD,
      List.getElem?_map, List.getElem?_range ht, Option.map_some, Option.getD_some, word_toBitVec,
      Nat.mul_comm t]

/-! ### A block -/

theorem stateWords_round {m : List UInt32} {M : ℕ → Word} {t : ℕ}
    (hm : (m.getD t 0).toBitVec = schedule M t) (v : List UInt32) :
    stateWords (sha256Round m v t) = Fips180.round M (stateWords v) t := by
  simp only [stateWords, sha256Round, Fips180.round, List.getD_cons_zero, List.getD_cons_succ,
    UInt32.toBitVec_add, UInt32.toBitVec_xor, UInt32.toBitVec_and, UInt32.toBitVec_not,
    sha256K_getD, hm]
  rw [rotr_toBitVec _ 2 (by decide), rotr_toBitVec _ 13 (by decide), rotr_toBitVec _ 22 (by decide),
    rotr_toBitVec _ 6 (by decide), rotr_toBitVec _ 11 (by decide), rotr_toBitVec _ 25 (by decide)]
  rfl

theorem stateWords_rounds {m : List UInt32} {M : ℕ → Word} {n : ℕ} (hm : Scheduled M n m)
    (ts : List ℕ) (hts : ∀ t ∈ ts, t < n) (v : List UInt32) :
    stateWords (ts.foldl (sha256Round m) v) = ts.foldl (Fips180.round M) (stateWords v) := by
  induction ts generalizing v with
  | nil => rfl
  | cons t ts ih =>
      rw [List.forall_mem_cons] at hts
      rw [List.foldl_cons, ih hts.2, stateWords_round (hm.word t hts.1), List.foldl_cons]

/-- **`sha256_transform` is the computation of the standard on a block.** -/
theorem stateWords_transform {state : List UInt32} {block : Bytes} (hs : state.length = 8)
    (hb : block.length = 64) :
    stateWords (sha256Transform state block) = compress (stateWords state) (bits block) := by
  have hm : Scheduled (blockWord (bits block)) 64 (messageSchedule block) :=
    (blockWords_scheduled hb).foldl (Nat.le_refl 16) 48
  have hrounds := stateWords_rounds hm (List.range 64) (fun t => List.mem_range.mp) state
  have hlen := length_foldl_sha256Round (messageSchedule block) (List.range 64) hs
  rw [sha256Transform, compress, ← hrounds]
  generalize (List.range 64).foldl (sha256Round (messageSchedule block)) state = v at hlen ⊢
  have hadd : ∀ i < 8, ((List.zipWith (· + ·) state v).getD i 0).toBitVec =
      (v.getD i 0).toBitVec + (state.getD i 0).toBitVec := by
    intro i hi
    have hi₁ : i < state.length := hs.symm ▸ hi
    have hi₂ : i < v.length := hlen.symm ▸ hi
    rw [List.getD_eq_getElem?_getD, List.getElem?_zipWith, List.getD_eq_getElem _ _ hi₁,
      List.getD_eq_getElem _ _ hi₂, List.getElem?_eq_getElem hi₁, List.getElem?_eq_getElem hi₂,
      Option.getD_some, UInt32.toBitVec_add, BitVec.add_comm]
  simp only [stateWords, hadd, Nat.reduceLT]

theorem length_foldl_sha256Transform (blocks : List Bytes) {state : List UInt32}
    (h : state.length = 8) : (blocks.foldl sha256Transform state).length = 8 := by
  induction blocks generalizing state with
  | nil => exact h
  | cons block blocks ih => exact ih (length_sha256Transform h block)

/-- The computation over the blocks of a message. -/
theorem stateWords_foldl {blocks : List Bytes} (hb : ∀ block ∈ blocks, block.length = 64)
    {state : List UInt32} (hs : state.length = 8) :
    stateWords (blocks.foldl sha256Transform state) =
      (blocks.map bits).foldl compress (stateWords state) := by
  induction blocks generalizing state with
  | nil => rfl
  | cons block blocks ih =>
      rw [List.forall_mem_cons] at hb
      rw [List.foldl_cons, ih hb.2 (length_sha256Transform hs block), stateWords_transform hs hb.1,
        List.map_cons, List.foldl_cons]

/-! ### What is fed in -/

/-- The work on a full buffer. -/
def transformCount (s : List UInt32 × UInt64) (block : Bytes) : List UInt32 × UInt64 :=
  (sha256Transform s.1 block, s.2 + 512)

theorem sha256Update_absorb (m : Bytes) (s : List UInt32 × UInt64) (data : Bytes) :
    sha256Update ⟨s.1, s.2, data⟩ m =
      ⟨(m.foldl (absorb 64 transformCount) (s, data)).1.1,
        (m.foldl (absorb 64 transformCount) (s, data)).1.2,
        (m.foldl (absorb 64 transformCount) (s, data)).2⟩ := by
  induction m generalizing s data with
  | nil => rfl
  | cons b m ih =>
      rw [sha256Update, List.foldl_cons, List.foldl_cons, absorb, sha256Byte]
      by_cases hfull : (data ++ [b]).length = 64
      · rw [if_pos hfull, if_pos hfull]
        exact ih (transformCount s (data ++ [b])) []
      · rw [if_neg hfull, if_neg hfull]
        exact ih s (data ++ [b])

theorem foldl_transformCount (blocks : List Bytes) (s : List UInt32 × UInt64) :
    blocks.foldl transformCount s =
      (blocks.foldl sha256Transform s.1, s.2 + UInt64.ofNat (512 * blocks.length)) := by
  induction blocks generalizing s with
  | nil =>
      rw [List.foldl_nil, List.foldl_nil, List.length_nil, Nat.mul_zero]
      exact Prod.ext rfl (UInt64.add_zero s.2).symm
  | cons block blocks ih =>
      have hcount : UInt64.ofNat (512 * (blocks.length + 1)) =
          512 + UInt64.ofNat (512 * blocks.length) := by
        rw [Nat.mul_succ, Nat.add_comm, UInt64.ofNat_add]
        rfl
      rw [List.foldl_cons, ih, transformCount, List.foldl_cons, List.length_cons, hcount,
        UInt64.add_assoc]

/-- **What the context holds is a matter of what it was fed, not of how that was cut.** -/
theorem update_chunks (m : Bytes) :
    sha256Update sha256Init m =
      ⟨(chunks 64 m).foldl sha256Transform sha256Init.state,
        UInt64.ofNat (512 * (chunks 64 m).length), remainder 64 m⟩ := by
  have habsorb := foldl_absorb (by decide : 0 < 64) transformCount
    (sha256Init.state, sha256Init.bitLen) (by decide : ([] : Bytes).length < 64) m
  have hupdate := sha256Update_absorb m (sha256Init.state, sha256Init.bitLen) []
  rw [habsorb, foldl_transformCount, List.nil_append] at hupdate
  rw [← UInt64.zero_add (UInt64.ofNat _)]
  exact hupdate

theorem sha256Update_flatten (parts : List Bytes) (ctx : Sha256Ctx) :
    parts.foldl sha256Update ctx = sha256Update ctx parts.flatten := by
  induction parts generalizing ctx with
  | nil => rfl
  | cons part parts ih => rw [List.foldl_cons, ih, List.flatten_cons, sha256Update_append]

/-! ### Padding -/

/-- What `sha256_final` adds after `n` bytes. -/
def padBytes (n : ℕ) : Bytes :=
  0x80 :: (List.replicate ((119 - n % 64) % 64) 0 ++ putU64Be (UInt64.ofNat (n * 8)))

/-- The eight bytes say the length, most significant byte first. -/
theorem bits_putU64Be (v : UInt64) : bits (putU64Be v) = binary 64 v.toNat := by
  have hbyte : ∀ (n : ℕ) (w : UInt64), w.toNat = v.toNat / 2 ^ n →
      binary 8 w.toUInt8.toNat = binary 8 (v.toNat / 2 ^ n) := by
    intro n w hw
    rw [UInt64.toNat_toUInt8, hw, binary_mod 8]
  rw [binary_add 8 56, binary_add 8 48, binary_add 8 40, binary_add 8 32, binary_add 8 24,
    binary_add 8 16, binary_add 8 8, ← hbyte 56 (v >>> 56) (Nat.shiftRight_eq_div_pow _ 56),
    ← hbyte 48 (v >>> 48) (Nat.shiftRight_eq_div_pow _ 48),
    ← hbyte 40 (v >>> 40) (Nat.shiftRight_eq_div_pow _ 40),
    ← hbyte 32 (v >>> 32) (Nat.shiftRight_eq_div_pow _ 32),
    ← hbyte 24 (v >>> 24) (Nat.shiftRight_eq_div_pow _ 24),
    ← hbyte 16 (v >>> 16) (Nat.shiftRight_eq_div_pow _ 16),
    ← hbyte 8 (v >>> 8) (Nat.shiftRight_eq_div_pow _ 8), ← binary_mod 8 v.toNat,
    ← UInt64.toNat_toUInt8]
  rfl

theorem bits_replicate_zero (n : ℕ) :
    bits (List.replicate n 0) = List.replicate (8 * n) false := by
  induction n with
  | zero => rfl
  | succ n ih =>
      have hzero : bits [0] = List.replicate 8 false := by decide
      rw [List.replicate_succ, ← List.singleton_append, bits_append, ih, hzero,
        List.replicate_append_replicate, Nat.mul_succ, Nat.add_comm]

/-- **It is the padding of the standard.** -/
theorem bits_padBytes (m : Bytes) : bits (m ++ padBytes m.length) = pad (bits m) := by
  have hone : bits [0x80] = true :: List.replicate 7 false := by decide
  have hzeros : 7 + 8 * ((119 - m.length % 64) % 64) = zeroBits (bits m).length := by
    rw [zeroBits, length_bits]
    omega
  have hlength : binary 64 (UInt64.ofNat (m.length * 8)).toNat = binary 64 (bits m).length := by
    rw [UInt64.toNat_ofNat', binary_mod, length_bits, Nat.mul_comm]
  rw [bits_append, padBytes, ← List.singleton_append, bits_append, bits_append, hone,
    bits_replicate_zero, bits_putU64Be, hlength, pad, ← hzeros, List.cons_append,
    ← List.append_assoc, List.replicate_append_replicate]

theorem final_chunks {ctx : Sha256Ctx} (h : ctx.data.length < 64) :
    sha256Final ctx =
      ((chunks 64 (ctx.data ++ 0x80 :: (List.replicate ((119 - ctx.data.length) % 64) 0 ++
        putU64Be (ctx.bitLen + UInt64.ofNat (ctx.data.length * 8))))).foldl sha256Transform
          ctx.state).flatMap fun w : UInt32 =>
        [(w >>> 24).toUInt8, (w >>> 16).toUInt8, (w >>> 8).toUInt8, w.toUInt8] := by
  have hdata : (ctx.data ++ [0x80]).length = ctx.data.length + 1 := List.length_append
  have hbitLen : (putU64Be (ctx.bitLen + UInt64.ofNat (ctx.data.length * 8))).length = 8 := rfl
  rw [sha256Final, List.append_cons ctx.data 0x80 (List.replicate _ _ ++ _)]
  dsimp only
  generalize putU64Be (ctx.bitLen + UInt64.ofNat (ctx.data.length * 8)) = bitLen at hbitLen ⊢
  generalize ctx.data ++ [0x80] = data at hdata ⊢
  split
  · next hlate =>
      have hzeros : (119 - ctx.data.length) % 64 = 64 - data.length + 56 := by omega
      have hfull : (data ++ List.replicate (64 - data.length) 0).length = 64 := by
        rw [List.length_append, List.length_replicate]
        omega
      have hlast : (List.replicate 56 0 ++ bitLen).length = 64 := by
        rw [List.length_append, List.length_replicate, hbitLen]
      rw [hzeros, ← List.replicate_append_replicate, List.append_assoc (List.replicate _ _),
        ← List.append_assoc data, chunks_chunk_append (by decide) hfull,
        chunks_one (by decide) hlast, List.foldl_cons, List.foldl_cons, List.foldl_nil]
  · next hearly =>
      have hzeros : (119 - ctx.data.length) % 64 = 56 - data.length := by omega
      have hlast : (data ++ (List.replicate (56 - data.length) 0 ++ bitLen)).length = 64 := by
        rw [List.length_append, List.length_append, List.length_replicate, hbitLen]
        omega
      rw [hzeros, chunks_one (by decide) hlast, List.append_assoc, List.foldl_cons, List.foldl_nil]

/-! ### The digest -/

theorem flatMap_state {state : List UInt32} (h : state.length = 8) :
    (state.flatMap fun w : UInt32 =>
      [(w >>> 24).toUInt8, (w >>> 16).toUInt8, (w >>> 8).toUInt8, w.toUInt8]) =
        (stateWords state).bytes := by
  have hword : ∀ w : UInt32, [(w >>> 24).toUInt8, (w >>> 16).toUInt8, (w >>> 8).toUInt8,
      w.toUInt8] = wordBytes w.toBitVec := by
    intro w
    have hbyte : ∀ (x : UInt32) (n : ℕ), x.toNat = w.toNat / 2 ^ n →
        x.toUInt8 = UInt8.ofNat (w.toNat / 2 ^ n) := by
      intro x n hx
      rw [← hx]
      rfl
    rw [wordBytes, List.map_cons, List.map_cons, List.map_cons, List.map_cons, List.map_nil,
      hbyte (w >>> 24) 24 (Nat.shiftRight_eq_div_pow _ 24),
      hbyte (w >>> 16) 16 (Nat.shiftRight_eq_div_pow _ 16),
      hbyte (w >>> 8) 8 (Nat.shiftRight_eq_div_pow _ 8), hbyte w 0 (Nat.div_one _).symm]
    rfl
  match state, h with
  | [a, b, c, d, e, f, g, k], _ =>
      simp only [hword]
      rfl

/-- **`sha256_final`, after the updates, gives the digest of the standard.** -/
theorem sha256_digest (m : Bytes) : sha256Final (sha256Update sha256Init m) = Fips180.sha256 m := by
  have hrest : (remainder 64 m).length < 64 := length_remainder_lt (by decide) m
  have hlen := length_chunks (by decide : 0 < 64) m
  have hcount : UInt64.ofNat (512 * (chunks 64 m).length) +
      UInt64.ofNat ((remainder 64 m).length * 8) = UInt64.ofNat (m.length * 8) := by
    rw [← UInt64.ofNat_add, ← hlen]
    congr 1
    omega
  have hrest' : (remainder 64 m).length = m.length % 64 := by omega
  have htail : (0x80 : UInt8) :: (List.replicate ((119 - (remainder 64 m).length) % 64) 0 ++
      putU64Be (UInt64.ofNat (m.length * 8))) = padBytes m.length := by
    rw [padBytes, hrest']
  have hinit : sha256Init.state.length = 8 := rfl
  have hblocks : ∀ block ∈ chunks 64 (m ++ padBytes m.length), block.length = 64 :=
    fun _ => length_of_mem_chunks (by decide)
  have hbits : (chunks 64 (m ++ padBytes m.length)).map bits = chunks 512 (pad (bits m)) := by
    rw [← bits_padBytes]
    exact (chunks_flatMap (n := 64) (m := 8) (by decide) (by decide)
      (fun b : UInt8 => length_binary 8 b.toNat) _).symm
  have hwords : stateWords ((chunks 64 (m ++ padBytes m.length)).foldl sha256Transform
      sha256Init.state) = Fips180.hash (bits m) := by
    rw [stateWords_foldl hblocks hinit, stateWords_init, hbits, Fips180.hash]
  rw [update_chunks, final_chunks hrest]
  dsimp only
  rw [hcount, htail, ← List.foldl_append, ← chunks_append (by decide),
    flatMap_state (length_foldl_sha256Transform _ hinit), hwords, Fips180.sha256]

/-! ### Hex text -/

/-- Two hexadecimal digits a byte. -/
def hexText (bytes : Bytes) : Bytes :=
  bytes.flatMap fun b => [b.toNat / 16, b.toNat % 16].map fun n => UInt8.ofNat n.digitChar.toNat

theorem hexDigit_digitChar {n : UInt8} (h : n.toNat < 16) :
    hexDigit n = UInt8.ofNat n.toNat.digitChar.toNat := by
  have hall : ∀ k < 16, (ascii "0123456789abcdef").getD k 0 = UInt8.ofNat (k.digitChar.toNat) := by
    decide
  exact hall _ h

theorem bytesToHex_hexText (bytes : Bytes) : bytesToHex bytes = hexText bytes := by
  refine List.flatMap_congr fun b _ => ?_
  have hlow : ∀ x : UInt8, (x &&& 0x0f).toNat = x.toNat % 16 := fun x =>
    (UInt8.toNat_and x 0x0f).trans (Nat.and_two_pow_sub_one_eq_mod x.toNat 4)
  have hshift : (b >>> 4).toNat = b.toNat / 16 := Nat.shiftRight_eq_div_pow _ 4
  have hlt : b.toNat / 16 < 16 := Nat.div_lt_of_lt_mul b.toNat_lt
  have hhigh : ((b >>> 4) &&& 0x0f).toNat = b.toNat / 16 := by
    rw [hlow, hshift, Nat.mod_eq_of_lt hlt]
  rw [hexDigit_digitChar (hhigh ▸ hlt), hexDigit_digitChar (hlow b ▸ Nat.mod_lt _ (by decide)),
    hhigh, hlow]
  rfl

/-! ### The digest of a file -/

section File

variable {P : Type} [DecidableEq P]

theorem sha256FileRounds_eval {bound : ℕ} {fs : FileSystem P} {fp : Handle} {text : Bytes}
    (hr : fs.Reading fp text) (hb : text.length / 65536 < bound) (ctx : Sha256Ctx) :
    ∃ fs' text', FileSystem.eval (Prog.iterate bound (sha256FileRound fp) ctx) fs =
      some (some (sha256Update ctx text), fs') ∧ fs'.Reading fp text' ∧ fs'.disk = fs.disk := by
  induction bound generalizing fs text ctx with
  | zero => exact absurd hb (Nat.not_lt_zero _)
  | succ bound ih =>
      obtain ⟨fs₁, hok, hr₁, hd₁⟩ := hr.fread 65536
      rw [Prog.iterate, FileSystem.eval_bind, sha256FileRound]
      simp only [Prog.call_bind, Prog.ret_bind, FileSystem.eval_call, hok]
      by_cases hlast : (text.take 65536).length < 65536
      · have hall : text.take 65536 = text := by
          refine List.take_of_length_le ?_
          rw [List.length_take] at hlast
          omega
        rw [if_pos hlast, if_neg (by decide), hall]
        exact ⟨fs₁, _, rfl, hr₁, hd₁⟩
      · have hdrop : (text.drop 65536).length / 65536 < bound := by
          rw [List.length_take] at hlast
          rw [List.length_drop]
          omega
        obtain ⟨fs₂, text₂, he, hr₂, hd₂⟩ := ih hr₁ hdrop (sha256Update ctx (text.take 65536))
        rw [if_neg hlast]
        refine ⟨fs₂, text₂, ?_, hr₂, hd₂.trans hd₁⟩
        rw [← List.take_append_drop 65536 text, sha256Update_append, ← he, List.take_append_drop]
        rfl

/-- The hex text of a file, when nothing fails. -/
theorem sha256FileHex_eval {bound : ℕ} {fs : FileSystem P} {path : P} {m : Bytes}
    (hm : fs.disk path = some m) (hb : m.length / 65536 < bound) :
    ∃ fs', FileSystem.eval (sha256FileHex bound path) fs =
      some (some (hexText (Fips180.sha256 m)), fs') ∧ fs'.disk = fs.disk := by
  obtain ⟨fs₁, hopen, hr₁, hd₁⟩ := FileSystem.fopen_reading hm
  obtain ⟨fs₂, text₂, he, hr₂, hd₂⟩ := sha256FileRounds_eval hr₁ hb sha256Init
  obtain ⟨fs₃, hclose, hd₃⟩ := hr₂.fclose
  refine ⟨fs₃, ?_, hd₃.trans (hd₂.trans hd₁)⟩
  rw [sha256FileHex, ← sha256_digest, ← bytesToHex_hexText]
  simp only [Prog.call_bind, Prog.ret_bind, FileSystem.eval_call, hopen, FileSystem.eval_bind, he,
    Option.bind_some, hclose, FileSystem.eval_ret, Option.map_some]

end File

/-- **SHA-256 is the function of the standard.**  However a message is cut into updates, the digest
is the one of the standard; the hex text of a buffer, and of a file when it can be read, is its
lowercase hexadecimal form.  (The standard is for messages shorter than `2 ^ 64` bits; past that,
the length in the padding is taken modulo `2 ^ 64` in both.) -/
theorem sha256_standard {P : Type} [DecidableEq P] {parts : List Bytes} {m : Bytes}
    (hm : parts.flatten = m) :
    sha256Final (parts.foldl sha256Update sha256Init) = Fips180.sha256 m ∧
      sha256Buffer m = Fips180.sha256 m ∧
      sha256BufferHex m = hexText (Fips180.sha256 m) ∧
      (∀ (fs : FileSystem P) (path : P) (bound : ℕ), fs.disk path = some m →
        m.length / 65536 < bound → ∃ fs', FileSystem.eval (sha256FileHex bound path) fs =
          some (some (hexText (Fips180.sha256 m)), fs')) ∧
      (hexText (Fips180.sha256 m)).length = 64 ∧
      ∀ d ∈ hexText (Fips180.sha256 m), d ∈ ascii "0123456789abcdef" := by
  have hbuffer : sha256Buffer m = Fips180.sha256 m := sha256_digest m
  have hhex : sha256BufferHex m = hexText (Fips180.sha256 m) := by
    rw [sha256BufferHex, hbuffer, bytesToHex_hexText]
  refine ⟨?_, hbuffer, hhex, ?_, ?_, ?_⟩
  · rw [sha256Update_flatten, hm, sha256_digest]
  · intro fs path bound hfile hbound
    obtain ⟨fs', he, -⟩ := sha256FileHex_eval hfile hbound
    exact ⟨fs', he⟩
  · rw [← hhex]
    exact length_sha256BufferHex m
  · intro d hd
    rw [← bytesToHex_hexText] at hd
    exact mem_bytesToHex hd

/-- The digest of `abc`, fed in two parts and from a file. -/
theorem sha256_standard_abc :
    sha256Final ([ascii "a", ascii "bc"].foldl sha256Update sha256Init) =
        Fips180.sha256 (ascii "abc") ∧
      ∃ fs', FileSystem.eval (sha256FileHex 1 (ascii "abc.txt"))
          (.only (ascii "abc.txt") (ascii "abc")) =
        some (some (hexText (Fips180.sha256 (ascii "abc"))), fs') := by
  obtain ⟨hparts, -, -, hfile, -⟩ :=
    sha256_standard (P := Bytes) (show [ascii "a", ascii "bc"].flatten = ascii "abc" by decide)
  exact ⟨hparts, hfile _ _ 1 (FileSystem.only_disk _ _) (by decide)⟩

example : sha256BufferHex (ascii "abc") =
    ascii "ba7816bf8f01cfea414140de5dae2223b00361a396177a9cb410ff61f20015ad" := by
  decide +kernel

end UpdateFramework
