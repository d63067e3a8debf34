import OpenHl.Evm.AccountPrecompiles

/-!
# Signed ABI words

`i64_from_be_chunk` takes the sign of a 32-byte word from its 25th byte, the high
byte of the part it keeps, and not from its first.  Where both bytes have the same
high bit it decodes the word and saturates; elsewhere it takes the wrong end of the
range.

`i64FromBeChunk_saturates_iff`: these are exactly the words it decodes as its
comment says, and exactly the positive ones that a deposit never debits.
-/

namespace OpenHl.Evm

open Machine OpenHl.Clob OpenHl.Clearing

/-- The high bits of the first byte and of the 25th byte are equal. -/
def SignsAgree (chunk : List U8) : Prop :=
  128 ≤ (chunk.getD 0 0).val ↔ 128 ≤ (chunk.getD 24 0).val

instance (chunk : List U8) : Decidable (SignsAgree chunk) :=
  inferInstanceAs (Decidable (_ ↔ _))

section Decode

variable {high low : List U8}

theorem getD_of_high (hhigh : high.length = 24) : (high ++ low).getD 24 0 = low.getD 0 0 := by
  rw [List.getD_append_right _ _ _ _ hhigh.le, hhigh]

/-- The high bit of the first byte of a string of some length. -/
theorem signBit_iff {bytes : List U8} {width : ℕ} (hlength : bytes.length = width + 1) :
    128 ≤ (bytes.getD 0 0).val ↔ 128 * 256 ^ width ≤ BigEndian.ofBytes bytes := by
  cases bytes with
  | nil => cases hlength
  | cons byte rest =>
      obtain rfl : rest.length = width := Nat.succ.inj hlength
      exact (BigEndian.le_ofBytes_cons_iff byte rest).symm

/-- Whether the upper bytes extend a sign, as a number. -/
theorem any_ne_signExtension_iff (hhigh : high.length = 24) (negative : Bool) :
    (high.any fun byte => byte ≠ signExtension negative) = true ↔
      BigEndian.ofBytes high ≠ if negative then 256 ^ 24 - 1 else 0 := by
  have hzero := BigEndian.ofBytes_eq_zero_iff high
  have hmax := BigEndian.ofBytes_add_one_eq_iff high
  rw [hhigh] at hmax
  have hall : (high.any fun byte => byte ≠ signExtension negative) = true ↔
      ¬ ∀ byte ∈ high, byte = signExtension negative := by
    simp
  rw [hall, not_iff_not]
  cases negative with
  | false => exact hzero.symm
  | true =>
      rw [signExtension, if_pos rfl, ← hmax]
      simp only [if_true]
      omega

/-- The decoder on numbers: the upper 192 and the lower 64 bits. -/
theorem i64FromBeChunk_val (hhigh : high.length = 24) (hlow : low.length = 8) :
    (i64FromBeChunk (high ++ low)).val =
      if 2 ^ 63 ≤ BigEndian.ofBytes low then
        if BigEndian.ofBytes high = 2 ^ 192 - 1 then (BigEndian.ofBytes low : ℤ) - 2 ^ 64
        else -2 ^ 63
      else if BigEndian.ofBytes high = 0 then (BigEndian.ofBytes low : ℤ)
      else 2 ^ 63 - 1 := by
  have hsign : 128 ≤ ((high ++ low).getD 24 0).val ↔ 2 ^ 63 ≤ BigEndian.ofBytes low := by
    rw [getD_of_high hhigh, signBit_iff hlow]
    norm_num
  have htake : (high ++ low).take 24 = high := List.take_left' hhigh
  have hdrop : ((high ++ low).drop 24).take 8 = low := by
    rw [List.drop_left' hhigh, List.take_of_length_le hlow.le]
  have hread := BigEndian.readI64_val hlow
  rw [BigEndian.toInt, hlow] at hread
  rw [i64FromBeChunk, htake, hdrop]
  by_cases hnegative : 2 ^ 63 ≤ BigEndian.ofBytes low
  · have hany := any_ne_signExtension_iff hhigh true
    simp only [hsign, hnegative, decide_true, hany, if_true]
    split_ifs with hother hmax hmax
    · omega
    · rfl
    · rw [hread, if_neg (by omega)]
      norm_num
    · omega
  · have hany := any_ne_signExtension_iff hhigh false
    simp only [hsign, hnegative, decide_false, hany, if_false, Bool.false_eq_true]
    split_ifs with hother hzero
    · rfl
    · rw [hread, if_pos (by omega)]
    · exact absurd hzero hother

end Decode

/-! ## Saturation -/

section Word

variable {high low : List U8}

theorem halves_lt (hhigh : high.length = 24) (hlow : low.length = 8) :
    BigEndian.ofBytes high < 256 ^ 24 ∧ BigEndian.ofBytes low < 256 ^ 8 := by
  have hhighLt := BigEndian.ofBytes_lt high
  have hlowLt := BigEndian.ofBytes_lt low
  rw [hhigh] at hhighLt
  rw [hlow] at hlowLt
  exact ⟨hhighLt, hlowLt⟩

theorem signsAgree_append_iff (hhigh : high.length = 24) (hlow : low.length = 8) :
    SignsAgree (high ++ low) ↔
      (2 ^ 191 ≤ BigEndian.ofBytes high ↔ 2 ^ 63 ≤ BigEndian.ofBytes low) := by
  have hfirst : (high ++ low).getD 0 0 = high.getD 0 0 :=
    List.getD_append _ _ _ _ (by omega)
  rw [SignsAgree, getD_of_high hhigh, hfirst, signBit_iff hlow, signBit_iff hhigh]
  norm_num

theorem toInt_append (hhigh : high.length = 24) (hlow : low.length = 8) :
    BigEndian.toInt (high ++ low) =
      if BigEndian.ofBytes high < 2 ^ 191 then
        (BigEndian.ofBytes high : ℤ) * 2 ^ 64 + BigEndian.ofBytes low
      else (BigEndian.ofBytes high : ℤ) * 2 ^ 64 + BigEndian.ofBytes low - 2 ^ 256 := by
  obtain ⟨-, hlowLt⟩ := halves_lt hhigh hlow
  rw [BigEndian.toInt, List.length_append, hhigh, hlow, BigEndian.ofBytes_append, hlow]
  split_ifs <;> omega

/-- By the four cases of the two signs: where they agree both ends of the range are the
right ones, and where they differ the decoded value has the other sign. -/
theorem i64FromBeChunk_append_iff (hhigh : high.length = 24) (hlow : low.length = 8) :
    i64FromBeChunk (high ++ low) = I64.saturate (BigEndian.toInt (high ++ low)) ↔
      SignsAgree (high ++ low) := by
  obtain ⟨hhighLt, hlowLt⟩ := halves_lt hhigh hlow
  rw [I64.ext_iff, i64FromBeChunk_val hhigh hlow, I64.saturate_val, toInt_append hhigh hlow,
    signsAgree_append_iff hhigh hlow]
  by_cases hsign : BigEndian.ofBytes high < 2 ^ 191
  · rw [if_pos hsign]
    by_cases hkept : 2 ^ 63 ≤ BigEndian.ofBytes low
    · rw [if_pos hkept]
      split_ifs <;> omega
    · rw [if_neg hkept]
      split_ifs <;> omega
  · rw [if_neg hsign]
    by_cases hkept : 2 ^ 63 ≤ BigEndian.ofBytes low
    · rw [if_pos hkept]
      split_ifs <;> omega
    · rw [if_neg hkept]
      split_ifs <;> omega

theorem signsAgree_of_inI64 (hhigh : high.length = 24) (hlow : low.length = 8)
    (hfits : InI64 (BigEndian.toInt (high ++ low))) : SignsAgree (high ++ low) := by
  obtain ⟨hhighLt, hlowLt⟩ := halves_lt hhigh hlow
  rw [InI64, toInt_append hhigh hlow] at hfits
  rw [signsAgree_append_iff hhigh hlow]
  split_ifs at hfits <;> omega

/-- Where the signs differ a positive value is decoded as the least one. -/
theorem i64FromBeChunk_of_disagree (hhigh : high.length = 24) (hlow : low.length = 8)
    (hpositive : 0 < BigEndian.toInt (high ++ low)) (hsigns : ¬ SignsAgree (high ++ low)) :
    i64FromBeChunk (high ++ low) = I64.minValue := by
  obtain ⟨hhighLt, hlowLt⟩ := halves_lt hhigh hlow
  rw [toInt_append hhigh hlow] at hpositive
  rw [signsAgree_append_iff hhigh hlow] at hsigns
  have hsign : BigEndian.ofBytes high < 2 ^ 191 := by
    by_contra hnegative
    rw [if_neg hnegative] at hpositive
    omega
  have hkept : 2 ^ 63 ≤ BigEndian.ofBytes low := by omega
  rw [I64.ext_iff, i64FromBeChunk_val hhigh hlow, if_pos hkept, if_neg (by omega)]
  rfl

end Word

/-! ## Deposits -/

/-- The collateral of an account, zero if there is none. -/
def collateralOf (state : BridgeState) (account : AccountId) : ℤ :=
  (state.accounts.getOrFlat account).collateral.val

/-- A deposit of an ABI word never lowers the collateral it is made to. -/
def NeverDebits (chunk : List U8) : Prop :=
  ∀ (globals : ProcessGlobals) (state : BridgeState) (account : AccountId),
    collateralOf state account ≤
      collateralOf (depositPrecompile globals state (abiWord account.val ++ chunk)).1 account

theorem collateralOf_depositPrecompile {globals : ProcessGlobals} {chunk : List U8}
    (hinstalled : globals.accountsInstalled = true) (hlength : chunk.length = 32)
    (state : BridgeState) (account : AccountId) :
    collateralOf (depositPrecompile globals state (abiWord account.val ++ chunk)).1 account =
      max (-2 ^ 63) (min (2 ^ 63 - 1)
        (collateralOf state account + (i64FromBeChunk chunk).val)) := by
  have hinput : ¬ (abiWord account.val ++ chunk).length < 64 := by
    simp [hlength]
  have hamount : ((abiWord account.val ++ chunk).drop 32).take 32 = chunk := by
    rw [List.drop_left' (abiWord_length _), List.take_of_length_le hlength.le]
  rw [depositPrecompile, if_neg hinput, List.take_left' (abiWord_length _), hamount]
  simp only [hinstalled, Bool.not_true, Bool.false_eq_true, if_false,
    u64FromBeChunk_abiWord]
  rw [collateralOf, AccountMap.getOrFlat, AccountMap.get?, AccountMap.upsert,
    SortedMap.get?_upsert, if_pos rfl]
  rfl

theorem neverDebits_iff {chunk : List U8} (hlength : chunk.length = 32) :
    NeverDebits chunk ↔ 0 ≤ (i64FromBeChunk chunk).val := by
  constructor
  · intro hnever
    have hdeposit := hnever ProcessGlobals.fresh.installBridge LiveBridge.new.toBridgeState 0
    rw [collateralOf_depositPrecompile rfl hlength] at hdeposit
    have hnothing : collateralOf LiveBridge.new.toBridgeState 0 = 0 := rfl
    omega
  · intro hnonneg globals state account
    cases hinstalled : globals.accountsInstalled with
    | true =>
        have hupper := (state.accounts.getOrFlat account).collateral.upper
        have hlower := (state.accounts.getOrFlat account).collateral.lower
        rw [collateralOf_depositPrecompile hinstalled hlength, collateralOf]
        omega
    | false =>
        rw [depositPrecompile]
        simp [hinstalled, hlength]

/-- A word is decoded to the nearest 64-bit value exactly when its sign is that of the
bytes that are kept, as for every value that fits; and exactly these positive words are
deposited without a debit. -/
theorem i64FromBeChunk_saturates_iff {chunk : List U8} (hlength : chunk.length = 32) :
    ((i64FromBeChunk chunk = I64.saturate (BigEndian.toInt chunk) ∧
        (0 < BigEndian.toInt chunk → NeverDebits chunk)) ↔ SignsAgree chunk) ∧
      (0 < BigEndian.toInt chunk → (NeverDebits chunk ↔ SignsAgree chunk)) ∧
      (InI64 (BigEndian.toInt chunk) → SignsAgree chunk) := by
  have hhigh : (chunk.take 24).length = 24 := by simp [hlength]
  have hlow : (chunk.drop 24).length = 8 := by simp [hlength]
  have hexact := i64FromBeChunk_append_iff hhigh hlow
  have hdisagree := i64FromBeChunk_of_disagree hhigh hlow
  have hfits := signsAgree_of_inI64 hhigh hlow
  rw [List.take_append_drop] at hexact hdisagree hfits
  have hnever : SignsAgree chunk → 0 < BigEndian.toInt chunk → NeverDebits chunk := by
    intro hagree hpositive
    rw [neverDebits_iff hlength, hexact.2 hagree, I64.saturate_val]
    omega
  refine ⟨?_, ?_, hfits⟩
  · rw [hexact, and_iff_left_iff_imp]
    exact hnever
  · intro hpositive
    refine ⟨fun hdebits => ?_, fun hagree => hnever hagree hpositive⟩
    by_contra hsigns
    rw [neverDebits_iff hlength, hdisagree hpositive hsigns, I64.minValue_val] at hdebits
    omega

/-- The largest 64-bit value has both signs positive: it is decoded exactly. -/
theorem i64FromBeChunk_saturates_maxValue :
    i64FromBeChunk (List.replicate 24 0 ++ 127 :: List.replicate 7 255) = I64.maxValue := by
  have hsaturates := (i64FromBeChunk_saturates_iff
    (by decide : (List.replicate 24 0 ++ 127 :: List.replicate 7 255 : List U8).length = 32)).1
  rw [(hsaturates.2 (by decide)).1]
  decide +kernel

/-- One more is decoded as the least value, and its deposit debits an empty account. -/
theorem i64FromBeChunk_twoPow63 :
    let chunk : List U8 := List.replicate 24 0 ++ 128 :: List.replicate 7 0
    BigEndian.toInt chunk = 2 ^ 63 ∧ i64FromBeChunk chunk = I64.minValue ∧
      i64FromBeChunk chunk ≠ I64.saturate (BigEndian.toInt chunk) ∧
      ¬ NeverDebits chunk := by
  intro chunk
  have hdecoded : i64FromBeChunk chunk = I64.minValue := by decide +kernel
  refine ⟨by decide +kernel, hdecoded, by decide +kernel, ?_⟩
  rw [neverDebits_iff rfl, hdecoded, I64.minValue_val]
  omega

end OpenHl.Evm
