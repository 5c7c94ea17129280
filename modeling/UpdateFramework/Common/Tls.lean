import UpdateFramework.Common.Constants
import UpdateFramework.Libc.Lines

/-!
# Common — the peer's identity

`tls_peer_common_name` of `tls.c`.  The text of a name comes from OpenSSL, as a parameter.
-/

namespace UpdateFramework

open Libc

/-- `X509_NAME_get_text_by_NID(subject, NID_commonName, out, out_len)`, for a common name with this
data: the bytes put before the NUL, and the value returned. -/
abbrev NameText := Bytes → ℕ → Bytes × ℤ

/-- What OpenSSL documents: as much of the data as fits before a NUL, and its length. -/
structure NameText.Documented (getText : NameText) : Prop where
  copies : ∀ data outLen, (getText data outLen).1 = data.take (outLen - 1)
  positive : ∀ data outLen, (getText data outLen).1 ≠ [] → 0 < (getText data outLen).2

/-- `X509_NAME_get_text_by_NID`, as its manual describes it. -/
def copyText : NameText := fun data outLen =>
  (data.take (outLen - 1), (data.take (outLen - 1)).length)

theorem copyText_documented : copyText.Documented where
  copies _ _ := rfl
  positive _ _ h := Int.natCast_pos.mpr (List.length_pos_iff.mpr h)

/-- `tls_peer_common_name`, for a peer whose certificate has a common name or not: the C string in
`out`, unless it returns `-1`. -/
def tlsPeerCommonName (getText : NameText) (commonName : Option Bytes) (outLen : ℕ) :
    Option Bytes :=
  if outLen = 0 then none
  else
    match commonName with
    | none => none
    | some data =>
      let out := getText data outLen
      if out.2 > 0 ∧ cstr out.1 ≠ [] then some (cstr (out.1.take (outLen - 1))) else none

/-- A common name as a buffer of `outLen` bytes shows it. -/
def shownName (outLen : ℕ) (data : Bytes) : Bytes := cstr (data.take (outLen - 1))

theorem tlsPeerCommonName_some {getText : NameText} (h : getText.Documented) {data : Bytes}
    {outLen : ℕ} (hpos : 0 < outLen) :
    tlsPeerCommonName getText (some data) outLen =
      if shownName outLen data = [] then none else some (shownName outLen data) := by
  have hne : cstr (data.take (outLen - 1)) ≠ [] → (getText data outLen).1 ≠ [] := by
    intro hc hnil
    rw [h.copies] at hnil
    exact hc (by rw [hnil, cstr, List.takeWhile_nil])
  rw [tlsPeerCommonName, if_neg (Nat.ne_of_gt hpos), shownName]
  dsimp only
  rw [h.copies, List.take_take, Nat.min_self]
  by_cases hc : cstr (data.take (outLen - 1)) = []
  · rw [if_neg fun hx => hx.2 hc, if_pos hc]
  · rw [if_pos ⟨h.positive data outLen (hne hc), hc⟩, if_neg hc]

/-- The whole name is shown exactly when it fits and has no NUL. -/
theorem shownName_eq_iff {outLen : ℕ} (hpos : 0 < outLen) (data : Bytes) :
    shownName outLen data = data ↔ data.length < outLen ∧ 0 ∉ data := by
  constructor
  · intro h
    have hle : (shownName outLen data).length ≤ outLen - 1 :=
      (List.takeWhile_prefix _).length_le.trans (List.length_take_le _ _)
    rw [h] at hle
    refine ⟨Nat.lt_of_le_pred hpos hle, fun h0 => ?_⟩
    rw [← h] at h0
    exact zero_not_mem_cstr _ h0
  · rintro ⟨hlen, h0⟩
    rw [shownName, List.take_of_length_le (Nat.le_sub_one_of_lt hlen), cstr_eq_self h0]

end UpdateFramework
