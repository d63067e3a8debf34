import OpenHl.Core.Machine

/-!
# Big-endian byte strings

Numerals in base 256, most significant byte first.  `toBytes` writes a fixed
number of bytes and `ofBytes` reads any number of them.  Little-endian strings are the
same bytes in reverse.
-/

namespace BigEndian

open Machine

/-- The low `width` bytes of a number. -/
def toBytes : ℕ → ℕ → List U8
  | 0, _ => []
  | width + 1, value => toBytes width (value / 256) ++ [Fin.ofNat _ value]

def ofBytes (bytes : List U8) : ℕ :=
  bytes.foldl (fun value byte => value * 256 + byte.val) 0

@[simp]
theorem toBytes_length (width value : ℕ) : (toBytes width value).length = width := by
  induction width generalizing value with
  | zero => rfl
  | succ width ih => simp [toBytes, ih]

theorem ofBytes_append_singleton (bytes : List U8) (byte : U8) :
    ofBytes (bytes ++ [byte]) = ofBytes bytes * 256 + byte.val := by
  simp [ofBytes]

theorem ofBytes_toBytes (width value : ℕ) :
    ofBytes (toBytes width value) = value % 256 ^ width := by
  induction width generalizing value with
  | zero => simp [toBytes, ofBytes, Nat.mod_one]
  | succ width ih =>
      have hbyte : (Fin.ofNat (2 ^ 8) value).val = value % 256 := rfl
      rw [toBytes, ofBytes_append_singleton, ih, hbyte, pow_succ', Nat.mod_mul,
        Nat.mul_comm, Nat.add_comm]

theorem ofBytes_append (high low : List U8) :
    ofBytes (high ++ low) = ofBytes high * 256 ^ low.length + ofBytes low := by
  induction low using List.reverseRecOn with
  | nil => simp [ofBytes]
  | append_singleton low byte ih =>
      rw [← List.append_assoc, ofBytes_append_singleton, ih, ofBytes_append_singleton,
        List.length_append, List.length_singleton, pow_succ 256]
      ring

theorem ofBytes_cons (byte : U8) (rest : List U8) :
    ofBytes (byte :: rest) = byte.val * 256 ^ rest.length + ofBytes rest := by
  have happend := ofBytes_append [byte] rest
  simpa [ofBytes] using happend

theorem ofBytes_lt (bytes : List U8) : ofBytes bytes < 256 ^ bytes.length := by
  induction bytes with
  | nil => simp [ofBytes]
  | cons byte rest ih =>
      have hbyte : byte.val * 256 ^ rest.length ≤ 255 * 256 ^ rest.length :=
        Nat.mul_le_mul_right _ (by omega)
      rw [ofBytes_cons, List.length_cons, pow_succ 256]
      omega

theorem ofBytes_eq_zero_iff (bytes : List U8) :
    ofBytes bytes = 0 ↔ ∀ byte ∈ bytes, byte = 0 := by
  induction bytes with
  | nil => simp [ofBytes]
  | cons byte rest ih =>
      rw [ofBytes_cons, List.forall_mem_cons, ← ih, Nat.add_eq_zero_iff, Nat.mul_eq_zero,
        or_iff_left (by positivity), Fin.ext_iff]
      rfl

theorem ofBytes_add_one_eq_iff (bytes : List U8) :
    ofBytes bytes + 1 = 256 ^ bytes.length ↔ ∀ byte ∈ bytes, byte = 255 := by
  induction bytes with
  | nil => simp [ofBytes]
  | cons byte rest ih =>
      have hrest := ofBytes_lt rest
      rw [ofBytes_cons, List.forall_mem_cons, ← ih, List.length_cons, pow_succ 256, Fin.ext_iff]
      change _ ↔ byte.val = 255 ∧ _
      constructor
      · intro hmax
        have hbyte : byte.val = 255 := by
          by_contra hne
          have hless : byte.val * 256 ^ rest.length ≤ 254 * 256 ^ rest.length :=
            Nat.mul_le_mul_right _ (by omega)
          omega
        rw [hbyte] at hmax
        exact ⟨hbyte, by omega⟩
      · rintro ⟨hbyte, hmax⟩
        rw [hbyte]
        omega

/-- The high bit of the first byte is that of the number. -/
theorem le_ofBytes_cons_iff (byte : U8) (rest : List U8) :
    128 * 256 ^ rest.length ≤ ofBytes (byte :: rest) ↔ 128 ≤ byte.val := by
  have hrest := ofBytes_lt rest
  rw [ofBytes_cons]
  constructor
  · intro hle
    by_contra hless
    have hbyte : byte.val * 256 ^ rest.length ≤ 127 * 256 ^ rest.length :=
      Nat.mul_le_mul_right _ (by omega)
    omega
  · intro hbyte
    have hle := Nat.mul_le_mul_right (256 ^ rest.length) hbyte
    omega

/-- Bytes of one width tell the numbers of that width apart. -/
theorem toBytes_inj {width left right : ℕ} (hleft : left < 256 ^ width)
    (hright : right < 256 ^ width) (heq : toBytes width left = toBytes width right) :
    left = right := by
  have hread := congrArg ofBytes heq
  rwa [ofBytes_toBytes, ofBytes_toBytes, Nat.mod_eq_of_lt hleft,
    Nat.mod_eq_of_lt hright] at hread

/-- Read an unsigned 64-bit word, keeping its low 64 bits. -/
def readU64 (bytes : List U8) : U64 := Fin.ofNat _ (ofBytes bytes)

@[simp]
theorem readU64_toBytes (word : U64) : readU64 (toBytes 8 word.val) = word := by
  have hword := word.isLt
  apply Fin.ext
  rw [readU64, ofBytes_toBytes]
  simp only [Fin.ofNat]
  omega

/-- The first byte holds the most significant digit. -/
theorem toBytes_succ_getD_zero (width value : ℕ) (default : U8) :
    (toBytes (width + 1) value).getD 0 default = Fin.ofNat _ (value / 256 ^ width) := by
  induction width generalizing value with
  | zero => simp [toBytes]
  | succ width ih =>
      rw [toBytes, List.getD_append _ _ _ _ (by simp), ih, Nat.div_div_eq_div_mul,
        ← pow_succ']

/-! ## Two's complement -/

/-- The unsigned word with the same bits. -/
def bitsOf (value : I64) : U64 := ⟨(value.val % 2 ^ 64).toNat, by omega⟩

/-- Read a signed 64-bit word: its high bit counts negatively. -/
def readI64 (bytes : List U8) : I64 :=
  let word := readU64 bytes
  .saturate (if word.val < 2 ^ 63 then word.val else (word.val : ℤ) - 2 ^ 64)

theorem bitsOf_val (value : I64) : ((bitsOf value).val : ℤ) = value.val % 2 ^ 64 := by
  change ((value.val % 2 ^ 64).toNat : ℤ) = value.val % 2 ^ 64
  omega

@[simp]
theorem readI64_toBytes (value : I64) :
    readI64 (toBytes 8 (bitsOf value).val) = value := by
  have hlower := value.lower
  have hupper := value.upper
  have hbits := bitsOf_val value
  rw [readI64, readU64_toBytes]
  apply I64.ext
  rw [I64.saturate_val]
  split_ifs with hhigh
  · omega
  · omega

/-- The two's-complement value of a byte string. -/
def toInt (bytes : List U8) : ℤ :=
  if 2 * ofBytes bytes < 256 ^ bytes.length then ofBytes bytes
  else (ofBytes bytes : ℤ) - 256 ^ bytes.length

theorem readI64_val {bytes : List U8} (hlength : bytes.length = 8) :
    (readI64 bytes).val = toInt bytes := by
  have hword := ofBytes_lt bytes
  rw [hlength] at hword
  have hread : (readU64 bytes).val = ofBytes bytes := by
    rw [readU64]
    exact Nat.mod_eq_of_lt (by omega)
  rw [readI64, toInt, hread, hlength, I64.saturate_val]
  split_ifs <;> omega

/-- The high byte carries the sign. -/
theorem signByte_toBytes (value : I64) (default : U8) :
    128 ≤ ((toBytes 8 (bitsOf value).val).getD 0 default).val ↔ value.val < 0 := by
  have hlower := value.lower
  have hupper := value.upper
  have hbits := bitsOf_val value
  have hbyte : ((toBytes 8 (bitsOf value).val).getD 0 default).val =
      (bitsOf value).val / 256 ^ 7 % 256 := by
    rw [toBytes_succ_getD_zero]
    rfl
  rw [hbyte]
  omega

end BigEndian

namespace LittleEndian

open Machine

/-- The low `width` bytes of a number, least significant byte first. -/
def toBytes (width value : ℕ) : List U8 := (BigEndian.toBytes width value).reverse

@[simp]
theorem toBytes_length (width value : ℕ) : (toBytes width value).length = width := by
  simp [toBytes]

theorem toBytes_inj {width left right : ℕ} (hleft : left < 256 ^ width)
    (hright : right < 256 ^ width) (heq : toBytes width left = toBytes width right) :
    left = right :=
  BigEndian.toBytes_inj hleft hright (List.reverse_injective heq)

end LittleEndian
