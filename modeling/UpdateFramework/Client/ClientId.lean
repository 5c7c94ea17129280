import UpdateFramework.Common.Constants
import UpdateFramework.Libc.Blank
import UpdateFramework.Libc.Decimal

/-!
# Client — the client's id

`parse_client_id_input` of `client_main.c`: a number typed by the user becomes `client_` and at
least three digits.  Numbers and ids correspond (`parseClientIdInput_canonical`).
-/

namespace UpdateFramework.Client

open Libc

/-- `trim_line` -/
def trimLine (s : Bytes) : Bytes := strip (cutLine s)

/-- `parse_client_id_input`: the id, unless it returns `-1`.  `NULL` is the empty text. -/
def parseClientIdInput (input : Bytes) : Option Bytes :=
  let line := trimLine (snprintf 128 (cstr input))
  if line = [] then none
  else if ¬ line.all isdigit then none
  else
    let significant := line.dropWhile (· = 48)
    if significant = [] then none
    else
      let sigLen := significant.length
      let paddedLen := if sigLen < 3 then 3 else sigLen
      if (ascii "client_").length + paddedLen ≥ maxIdLen then none
      else
        let number := List.replicate (paddedLen - sigLen) 48 ++ significant
        some (ascii "client_" ++ number)

/-! ### Numbers -/

/-- What the user typed, without what is cut off and trimmed. -/
abbrev typed (input : Bytes) : Bytes := trimLine (cstr input)

/-- A number other than zero, of at most 56 significant digits. -/
structure ClientNumber (line : Bytes) : Prop where
  numeral : Numeral line
  positive : digitsValue line ≠ 0
  short : (significant line).length ≤ 56

/-- A number's decimal form, with at least three digits. -/
def padded (n : ℕ) : Bytes := List.replicate (3 - (decimal n).length) 48 ++ decimal n

/-- The id of a number. -/
def clientIdOf (n : ℕ) : Bytes := ascii "client_" ++ padded n

theorem digitsValue_padded (n : ℕ) : digitsValue (padded n) = n := by
  rw [padded, digitsValue_zeros, digitsValue_decimal]

theorem clientIdOf_injective : Function.Injective clientIdOf := fun m n h => by
  rw [← digitsValue_padded m, List.append_cancel_left h, digitsValue_padded]

theorem length_padded (n : ℕ) : (padded n).length = max 3 (decimal n).length := by
  rw [padded, List.length_append, List.length_replicate]
  omega

/-- A number is parsed to its id, and nothing else is parsed. -/
theorem parseClientIdInput_eq_some {input id : Bytes} (hlen : (cstr input).length ≤ 127) :
    parseClientIdInput input = some id ↔
      ClientNumber (typed input) ∧ id = clientIdOf (digitsValue (typed input)) := by
  have hline : trimLine (snprintf 128 (cstr input)) = typed input :=
    congrArg trimLine (snprintf_of_lt (Nat.lt_succ_of_le hlen))
  have refused (h : ¬ ClientNumber (typed input)) : none = some id ↔
      ClientNumber (typed input) ∧ id = clientIdOf (digitsValue (typed input)) :=
    iff_of_false (fun hn => by cases hn) fun hp => h hp.1
  unfold parseClientIdInput
  rw [hline]
  dsimp only
  split
  · rename_i hempty
    exact refused fun hn => hn.numeral.nonempty hempty
  split
  · rename_i hdigits
    exact refused fun hn => hdigits (List.all_eq_true.mpr hn.numeral.digits)
  rename_i hne hdigits
  have hnumeral : Numeral (typed input) := ⟨hne, List.all_eq_true.mp (not_not.mp hdigits)⟩
  split
  · rename_i hzero
    exact refused fun hn => hn.positive ((significant_eq_nil hnumeral.digits).mp hzero)
  rename_i hsig
  have hpositive : digitsValue (typed input) ≠ 0 :=
    mt (significant_eq_nil hnumeral.digits).mpr hsig
  have hdecimal := significant_eq_decimal hnumeral.digits hsig
  have hpad : ∀ k : ℕ, (if k < 3 then 3 else k) = max 3 k := by
    intro k
    split
    · omega
    · omega
  have hseven : (ascii "client_").length = 7 := rfl
  have hmax : maxIdLen = 64 := rfl
  rw [hpad, hseven, hmax]
  split
  · rename_i hlong
    refine refused fun hn => ?_
    have hshort := hn.short
    rw [significant] at hshort
    omega
  · rename_i hshort
    have hnumber : List.replicate (max 3 (significant (typed input)).length -
        (significant (typed input)).length) 48 ++ significant (typed input) =
          padded (digitsValue (typed input)) := by
      have hzeros : max 3 (significant (typed input)).length - (significant (typed input)).length =
          3 - (significant (typed input)).length := by omega
      rw [padded, ← hdecimal, hzeros]
    have hfits : (significant (typed input)).length ≤ 56 := by
      rw [significant]
      omega
    rw [significant] at hnumber
    rw [Option.some.injEq, clientIdOf, hnumber]
    exact ⟨fun h => ⟨⟨hnumeral, hpositive, hfits⟩, h.symm⟩, fun h => h.2.symm⟩

/-! ### Ids -/

theorem padded_numeral (n : ℕ) : Numeral (padded n) where
  nonempty := List.append_ne_nil_of_right_ne_nil _ (decimal_numeral n).nonempty
  digits d hd := by
    rcases List.mem_append.mp hd with hd | hd
    · rw [List.eq_of_mem_replicate hd]
      rfl
    · exact (decimal_numeral n).digits d hd

theorem cstr_padded (n : ℕ) : cstr (padded n) = padded n := by
  refine List.takeWhile_eq_self_iff.mpr fun d hd => decide_eq_true fun h => ?_
  rw [h] at hd
  exact absurd ((padded_numeral n).digits 0 hd) (by decide)

/-- A padded number is typed as it is. -/
theorem typed_padded (n : ℕ) : typed (padded n) = padded n := by
  have hdigits := (padded_numeral n).digits
  have hcut : cutLine (padded n) = padded n :=
    cutLine_eq_self ⟨fun h => absurd (hdigits 10 h) (by decide),
      fun h => absurd (hdigits 13 h) (by decide)⟩
  rw [typed, cstr_padded, trimLine, hcut]
  exact strip_inked fun d hd => not_isspace_of_isdigit (hdigits d hd)

/-- **Client ids are canonical.**  A text of at most 127 characters is parsed exactly if it is a
number other than zero of at most 56 significant digits, and then to `client_` and the number with
at least three digits, which fits.  Two texts give one id exactly if they are one number, and the
digits of an id give that id again. -/
theorem parseClientIdInput_canonical (input : Bytes) (hlen : (cstr input).length ≤ 127) :
    ((parseClientIdInput input).isSome ↔ ClientNumber (typed input)) ∧
      ∀ id, parseClientIdInput input = some id →
        id = clientIdOf (digitsValue (typed input)) ∧ id.length < maxIdLen ∧
          parseClientIdInput (id.drop (ascii "client_").length) = some id ∧
          ∀ input' id', (cstr input').length ≤ 127 → parseClientIdInput input' = some id' →
            (id = id' ↔ digitsValue (typed input) = digitsValue (typed input')) := by
  have hiff (id : Bytes) : parseClientIdInput input = some id ↔
      ClientNumber (typed input) ∧ id = clientIdOf (digitsValue (typed input)) :=
    parseClientIdInput_eq_some hlen
  refine ⟨⟨fun h => ?_, fun h => ?_⟩, fun id hid => ?_⟩
  · obtain ⟨id, hid⟩ := Option.isSome_iff_exists.mp h
    exact ((hiff id).mp hid).1
  · exact Option.isSome_iff_exists.mpr ⟨_, (hiff _).mpr ⟨h, rfl⟩⟩
  obtain ⟨hnumber, rfl⟩ := (hiff id).mp hid
  obtain ⟨n, hn⟩ : ∃ n, digitsValue (typed input) = n := ⟨_, rfl⟩
  have hshort : (decimal n).length ≤ 56 := by
    have hsig : significant (typed input) ≠ [] :=
      mt (significant_eq_nil hnumber.numeral.digits).mp hnumber.positive
    rw [← hn, ← significant_eq_decimal hnumber.numeral.digits hsig]
    exact hnumber.short
  have hpadded := length_padded n
  rw [hn]
  refine ⟨rfl, ?_, ?_, fun input' id' hlen' hid' => ?_⟩
  · have hmax : maxIdLen = 64 := rfl
    have hseven : (ascii "client_").length = 7 := rfl
    rw [clientIdOf, List.length_append, hseven, hpadded, hmax]
    omega
  · have hdrop : (clientIdOf n).drop (ascii "client_").length = padded n := List.drop_left
    have hcstr : (cstr (padded n)).length ≤ 127 := by
      rw [cstr_padded, hpadded]
      omega
    have hagain : ClientNumber (typed (padded n)) := by
      have hpositive : digitsValue (padded n) ≠ 0 := by
        rw [digitsValue_padded, ← hn]
        exact hnumber.positive
      have hdigits := (padded_numeral n).digits
      rw [typed_padded]
      refine ⟨padded_numeral n, hpositive, ?_⟩
      rw [significant_eq_decimal hdigits (mt (significant_eq_nil hdigits).mp hpositive),
        digitsValue_padded]
      exact hshort
    rw [hdrop]
    refine (parseClientIdInput_eq_some hcstr).mpr ⟨hagain, ?_⟩
    rw [typed_padded, digitsValue_padded]
  · obtain ⟨-, rfl⟩ := (parseClientIdInput_eq_some hlen').mp hid'
    exact clientIdOf_injective.eq_iff

theorem parseClientIdInput_canonical_01 :
    parseClientIdInput (ascii " 01\r\n") = some (ascii "client_001") ∧
      parseClientIdInput (ascii "001") = some (ascii "client_001") := by
  have hid : parseClientIdInput (ascii " 01\r\n") = some (ascii "client_001") := by decide +kernel
  refine ⟨hid, ?_⟩
  exact ((parseClientIdInput_canonical (ascii " 01\r\n") (by decide)).2 _ hid).2.2.1

end UpdateFramework.Client
