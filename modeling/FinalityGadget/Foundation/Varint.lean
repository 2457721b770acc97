import Mathlib.Tactic.Ring
import FinalityGadget.Foundation.Reader

/-!
# Variable-length numbers

A number is written in groups of seven bits, the lowest first, one group a byte; every byte but the
last has its top bit set. The writer fills a buffer of a fixed size, and the reader takes at most
ten bytes from a stream. The groups do not overlap, so a number is the sum of its shifted groups.
-/

namespace FinalityGadget.Varint

open Fallible

/-- The bytes are the groups of the number. Leading groups may be zero. -/
inductive Spells : List UInt8 → ℕ → Prop
  | last {byte : UInt8} (hlast : byte < 0x80) : Spells [byte] byte.toNat
  | more {byte : UInt8} {bytes : List UInt8} {n : ℕ} (hmore : ¬byte < 0x80)
      (hrest : Spells bytes n) : Spells (byte :: bytes) (byte.toNat % 128 + 128 * n)

/-- Write a number into a buffer; `none` when it does not fit. -/
def putUvarint : ℕ → ℕ → Option (List UInt8)
  | 0, _ => none
  | size + 1, n =>
    if n < 0x80 then some [n.toUInt8]
    else (putUvarint size (n / 128)).map fun bytes ↦ (n % 128 + 128).toUInt8 :: bytes

def maxVarintLen64 : ℕ := 10

def overflow : ReadError := .other "binary: varint overflows a 64-bit integer"

/-- The loop of `readUvarint` with `left` bytes to go, in front of group `i`. -/
def readGroups : ℕ → ℕ → ℕ → EStateM ReadError Reader ℕ
  | 0, _, _ => throw overflow
  | left + 1, i, n => do
    let byte ← tryCatch Reader.readByte fun err ↦
      throw (if 0 < i ∧ err = .eof then .unexpectedEOF else err)
    if byte < 0x80 then do
      ensure (¬(i = maxVarintLen64 - 1 ∧ 1 < byte)) overflow
      return n + byte.toNat * 128 ^ i
    else readGroups left (i + 1) (n + byte.toNat % 128 * 128 ^ i)

def readUvarint : EStateM ReadError Reader ℕ := readGroups maxVarintLen64 0 0

/-! ## The groups of a number -/

theorem Spells.ne_nil {bytes : List UInt8} {n : ℕ} (h : Spells bytes n) : bytes ≠ [] := by
  cases h <;> simp

/-- The last group is recognised without looking at what follows. -/
theorem Spells.unique {first second rest rest' : List UInt8} {m n : ℕ} (h : Spells first m)
    (h' : Spells second n) (heq : first ++ rest = second ++ rest') :
    first = second ∧ m = n ∧ rest = rest' := by
  induction h generalizing second n with
  | @last byte hlast =>
    cases h' with
    | @last byte' hlast' =>
      obtain ⟨rfl, hrest⟩ := List.cons.inj heq
      exact ⟨rfl, rfl, hrest⟩
    | @more byte' bytes' n' hmore' hrest' =>
      obtain ⟨rfl, -⟩ := List.cons.inj heq
      exact absurd hlast hmore'
  | @more byte bytes m hmore hrest ih =>
    cases h' with
    | @last byte' hlast' =>
      obtain ⟨rfl, -⟩ := List.cons.inj heq
      exact absurd hlast' hmore
    | @more byte' bytes' n' hmore' hrest' =>
      obtain ⟨rfl, htail⟩ := List.cons.inj heq
      obtain ⟨rfl, rfl, hrest⟩ := ih hrest' htail
      exact ⟨rfl, rfl, hrest⟩

theorem toNat_toUInt8 {n : ℕ} (h : n < 256) : n.toUInt8.toNat = n := by
  rw [Nat.toUInt8, UInt8.toNat_ofNat', Nat.mod_eq_of_lt h]

theorem spells_small {n : ℕ} (h : n < 0x80) : Spells [n.toUInt8] n := by
  have hbyte : n.toUInt8.toNat = n := toNat_toUInt8 (by omega)
  have hlast : n.toUInt8 < 0x80 := by
    rw [UInt8.lt_iff_toNat_lt, hbyte]
    exact h
  have hspells := Spells.last hlast
  rwa [hbyte] at hspells

theorem putUvarint_spells {size n : ℕ} (h : n < 128 ^ (size + 1)) :
    ∃ bytes, putUvarint (size + 1) n = some bytes ∧ Spells bytes n ∧ bytes.length ≤ size + 1 := by
  induction size generalizing n with
  | zero => exact ⟨[n.toUInt8], if_pos h, spells_small h, le_rfl⟩
  | succ size ih =>
    by_cases hsmall : n < 0x80
    · exact ⟨[n.toUInt8], if_pos hsmall, spells_small hsmall, Nat.le_add_left 1 _⟩
    · have hquotient : n / 128 < 128 ^ (size + 1) := Nat.div_lt_of_lt_mul (by rwa [← pow_succ'])
      obtain ⟨bytes, hput, hspells, hlength⟩ := ih hquotient
      have hbyte := toNat_toUInt8 (show n % 128 + 128 < 256 by omega)
      have hmore : ¬(n % 128 + 128).toUInt8 < 0x80 := by
        rw [UInt8.lt_iff_toNat_lt, hbyte]
        exact Nat.not_lt.mpr (Nat.le_add_left 128 _)
      refine ⟨(n % 128 + 128).toUInt8 :: bytes, ?_, ?_, Nat.succ_le_succ hlength⟩
      · rw [putUvarint, if_neg hsmall, hput]
        rfl
      · have hspells := Spells.more hmore hspells
        rwa [hbyte, Nat.add_mod_right, Nat.mod_mod, Nat.mod_add_div] at hspells

/-- A number that was written is spelled by its bytes. -/
theorem spells_of_putUvarint {size n : ℕ} {bytes : List UInt8}
    (h : putUvarint size n = some bytes) : Spells bytes n := by
  induction size generalizing n bytes with
  | zero => cases h
  | succ size ih =>
    rw [putUvarint] at h
    split at h
    · rename_i hsmall
      cases h
      exact spells_small hsmall
    · obtain ⟨rest, hput, rfl⟩ := Option.map_eq_some_iff.mp h
      have hbyte := toNat_toUInt8 (show n % 128 + 128 < 256 by omega)
      have hmore : ¬(n % 128 + 128).toUInt8 < 0x80 := by
        rw [UInt8.lt_iff_toNat_lt, hbyte]
        exact Nat.not_lt.mpr (Nat.le_add_left 128 _)
      have hspells := Spells.more hmore (ih hput)
      rwa [hbyte, Nat.add_mod_right, Nat.mod_mod, Nat.mod_add_div] at hspells

/-! ## Reading -/

/-- A number is read with the bytes that spell it, and the end of the input is reported only in
front of the first byte. -/
inductive GroupsExit (r : Reader) (left i n : ℕ) : EStateM.Result ReadError Reader ℕ → Prop
  | read {bytes : List UInt8} {m : ℕ} {after : Reader} (hreads : r.Reads bytes after)
      (hspells : Spells bytes m) (hlength : bytes.length ≤ left) :
      GroupsExit r left i n (.ok (n + m * 128 ^ i) after)
  | failed {err : ReadError} {after : Reader}
      (heof : err = .eof → i = 0 ∧ r.content = [] ∧ r.ending = .eof) :
      GroupsExit r left i n (.error err after)

theorem readGroups_spec (left i n : ℕ) (r : Reader) :
    GroupsExit r left i n ((readGroups left i n).run r) := by
  induction left generalizing i n r with
  | zero => exact .failed fun h ↦ by cases h
  | succ left ih =>
    rw [readGroups]
    have hbyte := r.readByte_spec
    refine exec_tryCatch ?_ ?_
    · intro err after hrun
      rw [hrun] at hbyte
      cases hbyte with
      | ended hempty =>
        -- behind the first group the end of the input is reported as an unexpected one
        refine .failed fun heof ↦ ?_
        by_cases hcut : 0 < i ∧ r.ending = .eof
        · rw [if_pos hcut] at heof
          cases heof
        · rw [if_neg hcut] at heof
          exact ⟨by grind, hempty, heof⟩
    · intro byte after hrun
      rw [hrun] at hbyte
      cases hbyte with
      | read hreads =>
        refine exec_ite ?_ ?_
        · intro hlast
          refine exec_ensure ?_ ?_
          · intro _
            exact .failed fun h ↦ by cases h
          · intro _
            exact .read hreads (.last hlast) (Nat.le_add_left 1 left)
        · intro hmore
          have hrest := ih (i + 1) (n + byte.toNat % 128 * 128 ^ i) after
          generalize (readGroups left (i + 1) (n + byte.toNat % 128 * 128 ^ i)).run after = result
            at hrest ⊢
          cases hrest with
          | @read bytes m final hreads' hspells hlength =>
            have hsum : n + byte.toNat % 128 * 128 ^ i + m * 128 ^ (i + 1) =
                n + (byte.toNat % 128 + 128 * m) * 128 ^ i := by ring
            rw [hsum]
            exact .read (hreads.trans hreads') (.more hmore hspells) (Nat.succ_le_succ hlength)
          | failed heof => exact .failed fun h ↦ absurd (heof h).1 (Nat.succ_ne_zero i)

theorem readUvarint_of_empty {r : Reader} (hempty : r.content = []) :
    ∃ after, readUvarint.run r = .error r.ending after := by
  have hbyte := r.readByte_spec
  have hrun : ∃ after, Reader.readByte.run r = .error r.ending after := by
    generalize Reader.readByte.run r = result at hbyte ⊢
    cases hbyte with
    | read hreads =>
      rw [hreads.1] at hempty
      cases hempty
    | ended _ => exact ⟨r, rfl⟩
  obtain ⟨after, hrun⟩ := hrun
  refine ⟨after, ?_⟩
  rw [readUvarint, maxVarintLen64, readGroups, EStateM.run_bind, run_tryCatch, hrun]
  simp only [Nat.lt_irrefl, false_and, if_false]
  rfl

theorem readGroups_of_spells {bytes rest : List UInt8} {m : ℕ} (hspells : Spells bytes m)
    {left i n : ℕ} {r : Reader} (hcontent : r.content = bytes ++ rest)
    (hlength : bytes.length ≤ left) (hleft : i + left = maxVarintLen64)
    (hfits : n + m * 128 ^ i < 2 ^ 64) :
    ∃ after, (readGroups left i n).run r = .ok (n + m * 128 ^ i) after ∧ r.Reads bytes after := by
  induction hspells generalizing left i n r with
  | @last byte hlast =>
    obtain ⟨left, rfl⟩ := Nat.exists_eq_add_of_le' (show 1 ≤ left from hlength)
    obtain ⟨after, hrun, hreads⟩ := Reader.readByte_of_content hcontent
    -- a tenth group above 1 would not fit into 64 bits
    have hfit : ¬(i = maxVarintLen64 - 1 ∧ 1 < byte) := by
      rintro ⟨rfl, hbig⟩
      rw [UInt8.lt_iff_toNat_lt] at hbig
      have hbig : 2 ≤ byte.toNat := hbig
      rw [maxVarintLen64] at hfits
      omega
    refine ⟨after, ?_, hreads⟩
    rw [readGroups, EStateM.run_bind, run_tryCatch, hrun]
    simp only [if_pos hlast, EStateM.run_bind, run_ensure, if_pos hfit, EStateM.run_pure]
  | @more byte bytes m hmore hspells ih =>
    obtain ⟨left, rfl⟩ := Nat.exists_eq_add_of_le' ((Nat.le_add_left 1 _).trans hlength)
    obtain ⟨middle, hrun, hreads⟩ := Reader.readByte_of_content hcontent
    have hsum : n + byte.toNat % 128 * 128 ^ i + m * 128 ^ (i + 1) =
        n + (byte.toNat % 128 + 128 * m) * 128 ^ i := by ring
    have hnext : middle.content = bytes ++ rest := by
      have heq : byte :: middle.content = byte :: (bytes ++ rest) := hreads.1.symm.trans hcontent
      exact (List.cons.inj heq).2
    obtain ⟨after, hafter, hreads'⟩ := ih hnext (Nat.le_of_succ_le_succ hlength)
      (show i + 1 + left = maxVarintLen64 by omega) (hsum.symm ▸ hfits)
    refine ⟨after, ?_, hreads.trans hreads'⟩
    rw [readGroups, EStateM.run_bind, run_tryCatch, hrun]
    simp only [if_neg hmore]
    rw [hafter, hsum]

end FinalityGadget.Varint
