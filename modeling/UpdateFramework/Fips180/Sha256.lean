import Mathlib.Data.Nat.NthRoot.Defs
import Mathlib.Data.Nat.Sqrt
import Mathlib.Tactic.Ring
import UpdateFramework.Collections.Chunks

/-!
# FIPS 180-4 — SHA-256

The hash function of the standard, on strings of bits: its functions on words (4.1.2), constants
(4.2.2 and 5.3.3, computed from the primes they stand for), padding (5.1.1), parsing (5.2.1),
message schedule and rounds (6.2.2).  A byte is eight bits, the most significant first (3.1).
-/

namespace Fips180

open Collections

/-- A word of 32 bits. -/
abbrev Word := BitVec 32

/-! ### Functions on words -/

def ROTR (n : ℕ) (x : Word) : Word := x.rotateRight n

def SHR (n : ℕ) (x : Word) : Word := x >>> n

def Ch (x y z : Word) : Word := (x &&& y) ^^^ (~~~x &&& z)

def Maj (x y z : Word) : Word := (x &&& y) ^^^ (x &&& z) ^^^ (y &&& z)

/-- `Σ₀` -/
def bigSigma0 (x : Word) : Word := ROTR 2 x ^^^ ROTR 13 x ^^^ ROTR 22 x

/-- `Σ₁` -/
def bigSigma1 (x : Word) : Word := ROTR 6 x ^^^ ROTR 11 x ^^^ ROTR 25 x

/-- `σ₀` -/
def sigma0 (x : Word) : Word := ROTR 7 x ^^^ ROTR 18 x ^^^ SHR 3 x

/-- `σ₁` -/
def sigma1 (x : Word) : Word := ROTR 17 x ^^^ ROTR 19 x ^^^ SHR 10 x

/-! ### Constants -/

/-- The first sixty-four primes. -/
def primes : List ℕ :=
  [2, 3, 5, 7, 11, 13, 17, 19, 23, 29, 31, 37, 41, 43, 47, 53, 59, 61, 67, 71, 73, 79, 83, 89, 97,
    101, 103, 107, 109, 113, 127, 131, 137, 139, 149, 151, 157, 163, 167, 173, 179, 181, 191, 193,
    197, 199, 211, 223, 227, 229, 233, 239, 241, 251, 257, 263, 269, 271, 277, 281, 283, 293, 307,
    311]

/-- The first thirty-two bits of the fractional part of the cube root of `p`. -/
def cubeRootBits (p : ℕ) : Word := BitVec.ofNat 32 (Nat.nthRoot 3 (p * 2 ^ 96))

/-- The first thirty-two bits of the fractional part of the square root of `p`. -/
def squareRootBits (p : ℕ) : Word := BitVec.ofNat 32 (Nat.sqrt (p * 2 ^ 64))

/-- `Kₜ` -/
def K (t : ℕ) : Word := cubeRootBits (primes.getD t 0)

/-- The eight working variables, or the eight words of a hash value. -/
structure Words where
  a : Word
  b : Word
  c : Word
  d : Word
  e : Word
  f : Word
  g : Word
  h : Word
  deriving DecidableEq

/-- `H⁽⁰⁾` -/
def initial : Words :=
  let word i := squareRootBits (primes.getD i 0)
  ⟨word 0, word 1, word 2, word 3, word 4, word 5, word 6, word 7⟩

/-! ### Padding and parsing -/

/-- The number of zero bits after the one bit, for a message of `l` bits. -/
def zeroBits (l : ℕ) : ℕ := (447 + 512 - l % 512) % 512

/-- It is the least that makes the length 448 modulo 512. -/
theorem zeroBits_least (l : ℕ) : (l + 1 + zeroBits l) % 512 = 448 ∧
    ∀ k, (l + 1 + k) % 512 = 448 → zeroBits l ≤ k := by
  rw [zeroBits]
  refine ⟨by omega, fun k hk => ?_⟩
  omega

/-- The last `n` bits of a number. -/
def binary (n k : ℕ) : List Bool := (List.range n).map fun i => k.testBit (n - 1 - i)

/-- A message, a one bit, as few zero bits as will do, and the length in 64 bits. -/
def pad (m : List Bool) : List Bool :=
  m ++ true :: (List.replicate (zeroBits m.length) false ++ binary 64 m.length)

def ofBits (bits : List Bool) : ℕ := bits.foldl (fun n b => 2 * n + b.toNat) 0

/-- `Mₜ⁽ⁱ⁾`: the words of a block. -/
def blockWord (block : List Bool) (t : ℕ) : Word :=
  BitVec.ofNat 32 (ofBits ((block.drop (32 * t)).take 32))

/-! ### The computation -/

/-- `Wₜ` -/
def schedule (M : ℕ → Word) (t : ℕ) : Word :=
  if t < 16 then M t
  else sigma1 (schedule M (t - 2)) + schedule M (t - 7) + sigma0 (schedule M (t - 15)) +
    schedule M (t - 16)

def round (M : ℕ → Word) (v : Words) (t : ℕ) : Words :=
  let T₁ := v.h + bigSigma1 v.e + Ch v.e v.f v.g + K t + schedule M t
  let T₂ := bigSigma0 v.a + Maj v.a v.b v.c
  ⟨T₁ + T₂, v.a, v.b, v.c, v.d + T₁, v.e, v.f, v.g⟩

/-- `H⁽ⁱ⁾`, from `H⁽ⁱ⁻¹⁾` and the block. -/
def compress (H : Words) (block : List Bool) : Words :=
  let v := (List.range 64).foldl (round (blockWord block)) H
  ⟨v.a + H.a, v.b + H.b, v.c + H.c, v.d + H.d, v.e + H.e, v.f + H.f, v.g + H.g, v.h + H.h⟩

/-- `H⁽ᴺ⁾` -/
def hash (m : List Bool) : Words := (chunks 512 (pad m)).foldl compress initial

/-! ### Messages and digests of bytes -/

def bits (m : List UInt8) : List Bool := m.flatMap fun b => binary 8 b.toNat

def wordBytes (w : Word) : List UInt8 :=
  [24, 16, 8, 0].map fun s => UInt8.ofNat (w.toNat / 2 ^ s)

def Words.bytes (H : Words) : List UInt8 :=
  [H.a, H.b, H.c, H.d, H.e, H.f, H.g, H.h].flatMap wordBytes

/-- The message digest of a string of bytes. -/
def sha256 (m : List UInt8) : List UInt8 := (hash (bits m)).bytes

/-! ### Numbers and their bits -/

@[simp] theorem binary_zero (k : ℕ) : binary 0 k = [] := rfl

theorem binary_succ (n k : ℕ) : binary (n + 1) k = k.testBit n :: binary n k := by
  rw [binary, List.range_succ_eq_map, List.map_cons, List.map_map, binary]
  congr 1
  refine List.map_congr_left fun i _ => ?_
  rw [Function.comp_apply, Nat.add_sub_cancel, Nat.sub_sub, Nat.add_comm 1 i]

@[simp] theorem length_binary (n k : ℕ) : (binary n k).length = n := by
  rw [binary, List.length_map, List.length_range]

/-- The bits of a number in two parts. -/
theorem binary_add (n n' k : ℕ) : binary (n + n') k = binary n (k / 2 ^ n') ++ binary n' k := by
  induction n with
  | zero => rw [Nat.zero_add, binary_zero, List.nil_append]
  | succ n ih =>
      rw [Nat.add_right_comm, binary_succ, ih, binary_succ, Nat.testBit_div_two_pow,
        List.cons_append]

theorem binary_mod (n k : ℕ) : binary n (k % 2 ^ n) = binary n k := by
  refine List.map_congr_left fun i hi => ?_
  have hlt : n - 1 - i < n := by
    have := List.mem_range.mp hi
    omega
  rw [Nat.testBit_mod_two_pow, decide_eq_true hlt, Bool.true_and]

theorem foldl_ofBits (bs : List Bool) (n : ℕ) :
    bs.foldl (fun n b => 2 * n + b.toNat) n = n * 2 ^ bs.length + ofBits bs := by
  induction bs generalizing n with
  | nil => simp [ofBits]
  | cons b bs ih =>
      rw [ofBits, List.foldl_cons, List.foldl_cons, ih, ih (2 * 0 + _), List.length_cons,
        Nat.pow_succ]
      ring

theorem ofBits_cons (b : Bool) (bs : List Bool) :
    ofBits (b :: bs) = b.toNat * 2 ^ bs.length + ofBits bs := by
  rw [ofBits, List.foldl_cons, foldl_ofBits, Nat.mul_zero, Nat.zero_add]

theorem ofBits_append (bs cs : List Bool) :
    ofBits (bs ++ cs) = ofBits bs * 2 ^ cs.length + ofBits cs := by
  rw [ofBits, List.foldl_append, foldl_ofBits cs]
  rfl

/-- A number is what its bits say. -/
theorem ofBits_binary (n k : ℕ) : ofBits (binary n k) = k % 2 ^ n := by
  induction n with
  | zero => rw [Nat.pow_zero, Nat.mod_one, binary_zero, ofBits, List.foldl_nil]
  | succ n ih =>
      rw [binary_succ, ofBits_cons, length_binary, ih, Nat.toNat_testBit, Nat.pow_succ,
        Nat.mod_mul, Nat.mul_comm, Nat.add_comm]

/-! ### Bits and bytes -/

theorem bits_append (m m' : List UInt8) : bits (m ++ m') = bits m ++ bits m' :=
  List.flatMap_append

theorem length_bits (m : List UInt8) : (bits m).length = 8 * m.length := by
  induction m with
  | nil => rfl
  | cons b m ih =>
      rw [bits, List.flatMap_cons, List.length_append, length_binary, List.length_cons]
      rw [bits] at ih
      omega

/-- A word is four bytes. -/
theorem blockWord_bits {block : List UInt8} {t : ℕ} (ht : 4 * t + 4 ≤ block.length) :
    blockWord (bits block) t = BitVec.ofNat 32
      ((((block.getD (4 * t) 0).toNat * 2 ^ 8 + (block.getD (4 * t + 1) 0).toNat) * 2 ^ 8 +
        (block.getD (4 * t + 2) 0).toNat) * 2 ^ 8 + (block.getD (4 * t + 3) 0).toNat) := by
  have hget : ∀ i < 4, block.getD (4 * t + i) 0 = (block.drop (4 * t)).getD i 0 := by
    intro i _
    rw [List.getD_eq_getElem?_getD, List.getD_eq_getElem?_getD, List.getElem?_drop]
  have hdrop : (bits block).drop (32 * t) = bits (block.drop (4 * t)) := by
    have hlen : (bits (block.take (4 * t))).length = 32 * t := by
      rw [length_bits, List.length_take_of_le (Nat.le_of_add_right_le ht), ← Nat.mul_assoc]
    rw [← List.take_append_drop (4 * t) block, bits_append, List.drop_left' hlen,
      List.take_append_drop]
  have hof : ∀ b : UInt8, ofBits (binary 8 b.toNat) = b.toNat := fun b =>
    (ofBits_binary 8 _).trans (Nat.mod_eq_of_lt b.toNat_lt)
  have hlen : 4 ≤ (block.drop (4 * t)).length := by
    rw [List.length_drop]
    exact Nat.le_sub_of_add_le' ht
  rw [blockWord, hdrop, hget 1 (by decide), hget 2 (by decide), hget 3 (by decide),
    ← Nat.add_zero (4 * t), hget 0 (by decide), Nat.add_zero]
  match block.drop (4 * t), hlen with
  | b₀ :: b₁ :: b₂ :: b₃ :: m, _ =>
      have hword : (bits [b₀, b₁, b₂, b₃]).length = 32 := length_bits _
      rw [show b₀ :: b₁ :: b₂ :: b₃ :: m = [b₀, b₁, b₂, b₃] ++ m from rfl, bits_append,
        List.take_left' hword]
      refine congrArg (BitVec.ofNat 32) ?_
      simp only [bits, List.flatMap_cons, List.flatMap_nil, List.append_nil, ofBits_append,
        List.length_append, length_binary, hof, List.cons_append, List.getD_cons_zero,
        List.getD_cons_succ]
      ring

end Fips180
