import Mathlib.Data.List.Lex
import Mathlib.Tactic.NormNum
import Mathlib.Tactic.Positivity

/-!
# Byte slices and fixed-width big-endian keys

A byte slice is either nil or a finite byte string. Comparison with `equal` ignores the difference
between nil and empty, while a test against nil does not; both views are kept because programs mix
them. Fixed-width big-endian encodings are compared as byte strings: on one width the encoding is
strictly monotone, and a shorter string of zero bytes is below every longer encoding.
-/

namespace FinalityGadget.Bytes

/-- The numeric order of bytes, over the comparison the core library already fixes. -/
instance linearOrderUInt8 : LinearOrder UInt8 where
  le_refl := UInt8.le_refl
  le_trans _ _ _ := UInt8.le_trans
  le_antisymm _ _ := UInt8.le_antisymm
  le_total := UInt8.le_total
  lt_iff_le_not_ge a b := by
    rw [UInt8.lt_iff_toNat_lt, UInt8.le_iff_toNat_le, UInt8.le_iff_toNat_le]
    omega
  toDecidableLE := inferInstance
  toDecidableEq := inferInstance

instance linearOrderUInt64 : LinearOrder UInt64 where
  le_refl := UInt64.le_refl
  le_trans _ _ _ := UInt64.le_trans
  le_antisymm _ _ := UInt64.le_antisymm
  le_total := UInt64.le_total
  lt_iff_le_not_ge a b := by
    rw [UInt64.lt_iff_toNat_lt, UInt64.le_iff_toNat_le, UInt64.le_iff_toNat_le]
    omega
  toDecidableLE := inferInstance
  toDecidableEq := inferInstance

/-- A byte slice: `none` is nil, `some []` is empty and not nil. -/
abbrev Slice := Option (List UInt8)

namespace Slice

/-- The bytes of a slice; nil has none. -/
def bytes (slice : Slice) : List UInt8 := slice.getD []

/-- Byte-wise equality, for which nil and empty coincide. -/
def equal (left right : Slice) : Bool := left.bytes == right.bytes

@[simp] theorem equal_iff {left right : Slice} :
    left.equal right = true ↔ left.bytes = right.bytes := by
  simp [equal]

end Slice

/-- The `width` low bytes of `value`, most significant first. -/
def bigEndian : ℕ → ℕ → List UInt8
  | 0, _ => []
  | width + 1, value =>
    UInt8.ofNat (value / 256 ^ width) :: bigEndian width (value % 256 ^ width)

@[simp] theorem length_bigEndian (width value : ℕ) : (bigEndian width value).length = width := by
  induction width generalizing value with
  | zero => rfl
  | succ width ih => simp [bigEndian, ih]

/-- On one width the byte-string order is the numeric order. -/
theorem bigEndian_lt_bigEndian {width left right : ℕ} (hlt : left < right)
    (hright : right < 256 ^ width) : bigEndian width left < bigEndian width right := by
  induction width generalizing left right with
  | zero =>
    rw [pow_zero] at hright
    omega
  | succ width ih =>
    have hpos : 0 < 256 ^ width := by positivity
    have hdigit : right / 256 ^ width < 256 := by
      rw [Nat.div_lt_iff_lt_mul hpos, mul_comm]
      simpa [pow_succ] using hright
    have hle : left / 256 ^ width ≤ right / 256 ^ width := Nat.div_le_div_right hlt.le
    rw [bigEndian, bigEndian, List.cons_lt_cons_iff]
    rcases hle.lt_or_eq with hhead | hhead
    · left
      rw [UInt8.lt_iff_toNat_lt, UInt8.toNat_ofNat', UInt8.toNat_ofNat',
        Nat.mod_eq_of_lt (hhead.trans hdigit), Nat.mod_eq_of_lt hdigit]
      exact hhead
    · right
      refine ⟨by rw [hhead], ih ?_ (Nat.mod_lt _ hpos)⟩
      have hl := Nat.div_add_mod left (256 ^ width)
      have hr := Nat.div_add_mod right (256 ^ width)
      rw [hhead] at hl
      omega

theorem bigEndian_injective {width left right : ℕ} (hleft : left < 256 ^ width)
    (hright : right < 256 ^ width) (h : bigEndian width left = bigEndian width right) :
    left = right := by
  rcases Nat.lt_trichotomy left right with hlt | heq | hlt
  · exact absurd h (bigEndian_lt_bigEndian hlt hright).ne
  · exact heq
  · exact absurd h (bigEndian_lt_bigEndian hlt hleft).ne'

/-- A string of zero bytes is below every string of a greater length. -/
theorem replicate_zero_lt {count : ℕ} {key : List UInt8} (hlen : count < key.length) :
    List.replicate count (0 : UInt8) < key := by
  induction count generalizing key with
  | zero =>
    cases key with
    | nil => simp at hlen
    | cons byte rest => simp
  | succ count ih =>
    cases key with
    | nil => simp at hlen
    | cons byte rest =>
      rw [List.replicate_succ, List.cons_lt_cons_iff]
      rcases (UInt8.zero_le (a := byte)).lt_or_eq with hbyte | hbyte
      · exact Or.inl hbyte
      · exact Or.inr ⟨hbyte, ih (by simpa using hlen)⟩

/-- The eight-byte big-endian key of a 64-bit number. -/
def uint64ToBytes (value : UInt64) : List UInt8 := bigEndian 8 value.toNat

/-- The four-byte big-endian key of a 32-bit number. -/
def uint32ToBytes (value : UInt32) : List UInt8 := bigEndian 4 value.toNat

/-- The number a big-endian byte string denotes, reduced to 64 bits. -/
def bytesToUint64 (key : List UInt8) : UInt64 :=
  UInt64.ofNat (key.foldl (fun value byte ↦ value * 256 + byte.toNat) 0)

@[simp] theorem length_uint64ToBytes (value : UInt64) : (uint64ToBytes value).length = 8 :=
  length_bigEndian 8 _

@[simp] theorem length_uint32ToBytes (value : UInt32) : (uint32ToBytes value).length = 4 :=
  length_bigEndian 4 _

theorem toNat_lt_keySpace (value : UInt64) : value.toNat < 256 ^ 8 := by
  have h := value.toNat_lt
  norm_num
  exact h

theorem uint64ToBytes_lt {left right : UInt64} :
    uint64ToBytes left < uint64ToBytes right ↔ left < right := by
  rw [UInt64.lt_iff_toNat_lt]
  constructor
  · intro h
    by_contra hle
    rcases (Nat.le_of_not_lt hle).lt_or_eq with hlt | heq
    · exact absurd (h.trans (bigEndian_lt_bigEndian hlt (toNat_lt_keySpace left))) (lt_irrefl _)
    · rw [uint64ToBytes, uint64ToBytes, heq] at h
      exact absurd h (lt_irrefl _)
  · intro h
    exact bigEndian_lt_bigEndian h (toNat_lt_keySpace right)

@[simp] theorem uint64ToBytes_inj {left right : UInt64} :
    uint64ToBytes left = uint64ToBytes right ↔ left = right := by
  constructor
  · intro h
    exact UInt64.toNat_inj.mp
      (bigEndian_injective (toNat_lt_keySpace left) (toNat_lt_keySpace right) h)
  · rintro rfl
    rfl

theorem foldl_bigEndian {width value : ℕ} (h : value < 256 ^ width) (high : ℕ) :
    (bigEndian width value).foldl (fun value byte ↦ value * 256 + byte.toNat) high =
      high * 256 ^ width + value := by
  induction width generalizing value high with
  | zero =>
    rw [pow_zero] at h
    simp [bigEndian]
    omega
  | succ width ih =>
    have hpos : 0 < 256 ^ width := by positivity
    have hdigit : value / 256 ^ width < 256 := by
      rw [Nat.div_lt_iff_lt_mul hpos, mul_comm]
      simpa [pow_succ] using h
    have hvalue := Nat.div_add_mod value (256 ^ width)
    rw [bigEndian, List.foldl_cons, ih (Nat.mod_lt _ hpos), UInt8.toNat_ofNat',
      Nat.mod_eq_of_lt hdigit, pow_succ]
    calc (high * 256 + value / 256 ^ width) * 256 ^ width + value % 256 ^ width
        = high * 256 * 256 ^ width + (value / 256 ^ width * 256 ^ width + value % 256 ^ width) := by
          rw [Nat.add_mul, Nat.add_assoc]
      _ = high * (256 ^ width * 256) + value := by
          rw [Nat.mul_assoc, Nat.mul_comm 256, Nat.mul_comm (value / 256 ^ width), hvalue]

/-- A key read back is the number it was made from. -/
@[simp] theorem bytesToUint64_uint64ToBytes (value : UInt64) :
    bytesToUint64 (uint64ToBytes value) = value := by
  rw [bytesToUint64, uint64ToBytes, foldl_bigEndian (toNat_lt_keySpace value)]
  simp

/-- The four-byte zero key sorts before every eight-byte key. -/
theorem uint32ToBytes_zero_lt (value : UInt64) : uint32ToBytes 0 < uint64ToBytes value := by
  have hlt : List.replicate 4 (0 : UInt8) < uint64ToBytes value := replicate_zero_lt (by simp)
  exact hlt

theorem uint32ToBytes_ne_uint64ToBytes (left : UInt32) (right : UInt64) :
    uint32ToBytes left ≠ uint64ToBytes right := by
  intro h
  have hlen := congrArg List.length h
  simp at hlen

end FinalityGadget.Bytes
