import Mathlib

/-!
# Fixed-width integers with saturating arithmetic

Unsigned words are `Fin` types, so a value outside its width cannot be built.
Signed 64-bit words carry their range as two fields.  Arithmetic that widens
is done in `ℤ`; it returns to a word only through one of the saturating casts
below, and every saturating operation is the exact integer operation followed
by such a cast.  A proof about exact arithmetic therefore needs one fact per
operation: the exact result was in range.
-/

namespace Machine

universe v

instance neZeroU8 : NeZero (2 ^ 8) := ⟨by norm_num⟩

instance neZeroU32 : NeZero (2 ^ 32) := ⟨by norm_num⟩

instance neZeroU64 : NeZero (2 ^ 64) := ⟨by norm_num⟩

abbrev U8 := Fin (2 ^ 8)
abbrev U32 := Fin (2 ^ 32)
abbrev U64 := Fin (2 ^ 64)

/-- Signed 64-bit words. -/
@[ext]
structure I64 where
  val : ℤ
  lower : -2 ^ 63 ≤ val
  upper : val < 2 ^ 63
  deriving DecidableEq

/-- The exact integers a signed 64-bit word can hold. -/
def InI64 (value : ℤ) : Prop := -2 ^ 63 ≤ value ∧ value < 2 ^ 63

instance (value : ℤ) : Decidable (InI64 value) :=
  inferInstanceAs (Decidable (_ ∧ _))

/-- The exact integers a signed 128-bit word can hold. -/
def InI128 (value : ℤ) : Prop := -2 ^ 127 ≤ value ∧ value < 2 ^ 127

instance (value : ℤ) : Decidable (InI128 value) :=
  inferInstanceAs (Decidable (_ ∧ _))

/-! ## Signed 64-bit words -/

namespace I64

/-- The nearest signed 64-bit word. -/
def saturate (value : ℤ) : I64 where
  val := max (-2 ^ 63) (min (2 ^ 63 - 1) value)
  lower := le_max_left _ _
  upper := by omega

instance (n : ℕ) : OfNat I64 n := ⟨saturate n⟩

instance : Neg I64 := ⟨fun word => saturate (-word.val)⟩

instance : Inhabited I64 := ⟨0⟩

def maxValue : I64 := ⟨2 ^ 63 - 1, by norm_num, by norm_num⟩

def minValue : I64 := ⟨-2 ^ 63, by norm_num, by norm_num⟩

def saturatingAdd (left right : I64) : I64 := saturate (left.val + right.val)

def saturatingSub (left right : I64) : I64 := saturate (left.val - right.val)

theorem inI64 (word : I64) : InI64 word.val := ⟨word.lower, word.upper⟩

theorem saturate_val (value : ℤ) :
    (saturate value).val = max (-2 ^ 63) (min (2 ^ 63 - 1) value) := rfl

/-- A saturating cast is exact precisely on the representable range. -/
theorem saturate_val_eq_iff (value : ℤ) :
    (saturate value).val = value ↔ InI64 value := by
  rw [saturate_val, InI64]
  omega

theorem saturate_val_of_inI64 {value : ℤ} (hrange : InI64 value) :
    (saturate value).val = value :=
  (saturate_val_eq_iff value).2 hrange

@[simp]
theorem saturate_val_self (word : I64) : saturate word.val = word :=
  I64.ext (saturate_val_of_inI64 word.inI64)

@[simp]
theorem zero_val : (0 : I64).val = 0 := rfl

@[simp]
theorem maxValue_val : maxValue.val = 2 ^ 63 - 1 := rfl

@[simp]
theorem minValue_val : minValue.val = -2 ^ 63 := rfl

theorem saturatingAdd_val (left right : I64) :
    (saturatingAdd left right).val =
      max (-2 ^ 63) (min (2 ^ 63 - 1) (left.val + right.val)) := rfl

theorem saturatingSub_val (left right : I64) :
    (saturatingSub left right).val =
      max (-2 ^ 63) (min (2 ^ 63 - 1) (left.val - right.val)) := rfl

@[simp]
theorem saturatingAdd_zero (word : I64) : saturatingAdd word 0 = word := by
  simp [saturatingAdd]

theorem saturatingAdd_val_of_inI64 {left right : I64}
    (hrange : InI64 (left.val + right.val)) :
    (saturatingAdd left right).val = left.val + right.val :=
  saturate_val_of_inI64 hrange

theorem saturatingSub_val_of_inI64 {left right : I64}
    (hrange : InI64 (left.val - right.val)) :
    (saturatingSub left right).val = left.val - right.val :=
  saturate_val_of_inI64 hrange

/-- Two saturating additions in a row are exact when both exact sums fit. -/
theorem saturatingAdd_saturatingAdd_val_eq_iff (start first second : I64) :
    ((start.saturatingAdd first).saturatingAdd second).val =
        start.val + first.val + second.val ↔
      InI64 (start.val + first.val) ∧
        InI64 (start.val + first.val + second.val) := by
  have hlower := second.lower
  have hupper := second.upper
  rw [saturatingAdd_val, saturatingAdd_val, InI64, InI64]
  omega

/-- Absolute value as an unsigned word; the least signed word maps to `2^63`,
which only the unsigned type can hold. -/
def unsignedAbs (word : I64) : U64 :=
  ⟨word.val.natAbs, by
    have hlower := word.lower
    have hupper := word.upper
    omega⟩

@[simp]
theorem unsignedAbs_val (word : I64) :
    (word.unsignedAbs : ℕ) = word.val.natAbs := rfl

end I64

/-! ## Signed 128-bit intermediates -/

/-- The saturating cast of an exact intermediate to 128 bits. -/
def saturateI128 (value : ℤ) : ℤ :=
  max (-2 ^ 127) (min (2 ^ 127 - 1) value)

theorem saturateI128_of_inI128 {value : ℤ} (hrange : InI128 value) :
    saturateI128 value = value := by
  obtain ⟨hlower, hupper⟩ := hrange
  rw [saturateI128]
  omega

/-- Saturating to 128 bits on the way to 64 bits changes nothing. -/
@[simp]
theorem saturate_saturateI128 (value : ℤ) :
    I64.saturate (saturateI128 value) = I64.saturate value := by
  apply I64.ext
  rw [I64.saturate_val, I64.saturate_val, saturateI128]
  omega

/-! ## Operations that can fail -/

/-- Arithmetic that the source does not saturate stops on overflow. -/
inductive Fault where
  | overflow
  deriving DecidableEq, Repr

abbrev Checked (α : Type*) := Except Fault α

theorem ok_bind {ε : Type*} {α β : Type v} (value : α) (next : α → Except ε β) :
    (Except.ok value >>= next) = next value := rfl

/-- A sequence of two fallible computations succeeds when both do. -/
theorem bind_eq_ok {ε : Type*} {α β : Type v} {first : Except ε α}
    {next : α → Except ε β} {result : β} :
    (first >>= next) = .ok result ↔
      ∃ value, first = .ok value ∧ next value = .ok result := by
  cases first with
  | error failure => simp [bind, Except.bind]
  | ok value => simp [bind, Except.bind]

theorem toOption_map {ε α β : Type*} (computation : Except ε α) (image : α → β) :
    (computation.map image).toOption = computation.toOption.map image := by
  cases computation <;> rfl

theorem map_injective {ε α β : Type*} {image : α → β}
    (himage : Function.Injective image) :
    Function.Injective (Except.map image : Except ε α → Except ε β) := by
  intro left right hsame
  cases left with
  | error failure =>
      cases right with
      | error other => exact congrArg Except.error (Except.error.inj hsame)
      | ok other => cases hsame
  | ok result =>
      cases right with
      | error other => cases hsame
      | ok other => exact congrArg Except.ok (himage (Except.ok.inj hsame))

/-- A computation whose result has a known image succeeds. -/
theorem exists_ok_of_map_toOption {ε α β : Type*} {computation : Except ε α}
    {image : α → β} {value : β}
    (hmap : computation.toOption.map image = some value) :
    ∃ result, computation = .ok result ∧ image result = value := by
  cases computation with
  | error failure => cases hmap
  | ok result => exact ⟨result, rfl, Option.some.inj hmap⟩

/-- Negation of a 128-bit intermediate, which fails on the least word. -/
def negI128 (value : ℤ) : Checked ℤ :=
  if value = -2 ^ 127 then .error .overflow else .ok (-value)

/-- Absolute value of a word, which fails on the least word. -/
def I64.abs (word : I64) : Checked I64 :=
  if word = I64.minValue then .error .overflow else .ok (.saturate |word.val|)

/-! ## Unsigned 64-bit words -/

namespace U64

def maxValue : U64 := ⟨2 ^ 64 - 1, by norm_num⟩

theorem val_sub_of_le {left right : U64} (hle : right ≤ left) :
    ((left - right : U64) : ℕ) = left - right :=
  Fin.sub_val_of_le hle

@[simp]
theorem val_sub_min_left (left right : U64) :
    ((left - min left right : U64) : ℕ) = left - right := by
  rw [val_sub_of_le (min_le_left left right), Fin.coe_min]
  omega

@[simp]
theorem val_sub_min_right (left right : U64) :
    ((right - min left right : U64) : ℕ) = right - left := by
  rw [val_sub_of_le (min_le_right left right), Fin.coe_min]
  omega

theorem eq_zero_iff_val (word : U64) : word = 0 ↔ (word : ℕ) = 0 := Fin.ext_iff

/-- The nearest unsigned 64-bit word. -/
def saturate (value : ℤ) : U64 :=
  ⟨(max 0 (min (2 ^ 64 - 1) value)).toNat, by omega⟩

theorem saturate_val_of_range {value : ℤ} (hlower : 0 ≤ value)
    (hupper : value < 2 ^ 64) : ((saturate value : ℕ) : ℤ) = value := by
  change ((max 0 (min (2 ^ 64 - 1) value)).toNat : ℤ) = value
  omega

@[simp]
theorem saturate_val (word : U64) : saturate (word.val : ℤ) = word := by
  apply Fin.ext
  have hexact := saturate_val_of_range (Int.natCast_nonneg word.val)
    (by exact_mod_cast word.isLt)
  exact_mod_cast hexact

/-- Saturating multiplication. -/
def saturatingMul (left right : U64) : U64 :=
  saturate ((left : ℤ) * (right : ℤ))

/-- Saturating subtraction, which for unsigned words is truncated. -/
def saturatingSub (left right : U64) : U64 :=
  ⟨left.val - right.val, by omega⟩

/-- Saturating addition. -/
def saturatingAdd (left right : U64) : U64 :=
  saturate ((left : ℤ) + (right : ℤ))

theorem saturatingAdd_val_of_lt {left right : U64}
    (hrange : left.val + right.val < 2 ^ 64) :
    (saturatingAdd left right).val = left.val + right.val := by
  have hexact := saturate_val_of_range (by positivity : (0 : ℤ) ≤ left.val + right.val)
    (by exact_mod_cast hrange)
  rw [saturatingAdd]
  exact_mod_cast hexact

/-! An addition that overflows stops in a build with overflow checks and wraps around in
one without. -/

inductive OverflowChecks where
  | on
  | off
  deriving DecidableEq, Repr

def add (checks : OverflowChecks) (left right : U64) : Checked U64 :=
  match checks with
  | .on => if left.val + right.val < 2 ^ 64 then .ok (left + right) else .error .overflow
  | .off => .ok (left + right)

def sum (checks : OverflowChecks) (words : List U64) : Checked U64 :=
  words.foldlM (add checks) 0

theorem add_of_lt (checks : OverflowChecks) {left right : U64}
    (hrange : left.val + right.val < 2 ^ 64) :
    add checks left right = .ok (left + right) := by
  cases checks with
  | on => exact if_pos hrange
  | off => rfl

/-- Only a build with overflow checks stops, exactly on a sum that is no word. -/
theorem add_eq_error_iff {checks : OverflowChecks} {left right : U64} {fault : Fault} :
    add checks left right = .error fault ↔
      checks = .on ∧ ¬ left.val + right.val < 2 ^ 64 := by
  cases checks with
  | off =>
      constructor
      · intro hadd
        cases hadd
      · rintro ⟨hchecks, -⟩
        cases hchecks
  | on =>
      rw [add]
      split_ifs with hrange
      · constructor
        · intro hadd
          cases hadd
        · rintro ⟨-, hlarge⟩
          exact absurd hrange hlarge
      · cases fault
        exact ⟨fun _ => ⟨rfl, hrange⟩, fun _ => rfl⟩

theorem foldlM_add_exact (checks : OverflowChecks) (words : List U64) {start : U64}
    (hrange : start.val + (words.map Fin.val).sum < 2 ^ 64) :
    ∃ total, words.foldlM (add checks) start = .ok total ∧
      total.val = start.val + (words.map Fin.val).sum := by
  induction words generalizing start with
  | nil => exact ⟨start, rfl, rfl⟩
  | cons word words ih =>
      rw [List.map_cons, List.sum_cons, ← Nat.add_assoc] at hrange ⊢
      have hnext : (start + word).val = start.val + word.val :=
        Fin.val_add_eq_of_add_lt (by omega)
      rw [List.foldlM_cons, add_of_lt checks (by omega), ok_bind, ← hnext]
      exact ih (by rwa [hnext])

/-- A sum is exact in either build precisely if it is a word. -/
theorem sum_exact_iff (checks : OverflowChecks) (words : List U64) :
    (∃ total, sum checks words = .ok total ∧ total.val = (words.map Fin.val).sum) ↔
      (words.map Fin.val).sum < 2 ^ 64 := by
  have hzero : (0 : U64).val = 0 := rfl
  constructor
  · rintro ⟨total, -, hexact⟩
    exact hexact ▸ total.isLt
  · intro hrange
    obtain ⟨total, htotal, hexact⟩ := @foldlM_add_exact checks words 0
      (by rwa [hzero, zero_add])
    rw [hzero, zero_add] at hexact
    exact ⟨total, htotal, hexact⟩

/-- Conversion to a signed word, `none` when the value does not fit. -/
def toI64? (word : U64) : Option I64 :=
  if hfits : (word : ℕ) < 2 ^ 63 then
    some ⟨word, by omega, by exact_mod_cast hfits⟩
  else none

end U64

end Machine
