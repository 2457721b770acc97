import FinalityGadget.Foundation.Bytes

/-!
# Hexadecimal and decimal text

Byte strings are written as two hexadecimal digits a byte. Decoding accepts both cases, reports the
first byte that is not a digit and only then an odd length. Unsigned decimal numbers are read from
the left, without sign, blank or separator, up to the first digit with which they do not fit into 64
bits.
-/

namespace FinalityGadget.Text

/-- The hexadecimal digit of a value below sixteen, with `first` standing for ten. -/
def hexDigit (first : Char) (value : ℕ) : Char :=
  if value < 10 then Char.ofNat ('0'.toNat + value) else Char.ofNat (first.toNat + (value - 10))

/-- Two digits a byte, most significant digit first. -/
def hexDigits (first : Char) (data : List UInt8) : List Char :=
  data.flatMap fun byte ↦ [hexDigit first (byte.toNat / 16), hexDigit first (byte.toNat % 16)]

/-- Lowercase hexadecimal text, as `hex.EncodeToString` writes it. -/
def hexEncode (data : List UInt8) : String := String.ofList (hexDigits 'a' data)

/-- Uppercase hexadecimal text, as the `%X` verb prints a byte slice. -/
def hexUpper (slice : Bytes.Slice) : String := String.ofList (hexDigits 'A' slice.bytes)

/-- The value of a hexadecimal digit in either case. -/
def hexValue (digit : Char) : Option ℕ :=
  if '0' ≤ digit ∧ digit ≤ '9' then some (digit.toNat - '0'.toNat)
  else if 'a' ≤ digit ∧ digit ≤ 'f' then some (digit.toNat - 'a'.toNat + 10)
  else if 'A' ≤ digit ∧ digit ≤ 'F' then some (digit.toNat - 'A'.toNat + 10)
  else none

/-- The byte as the `%#U` verb prints it: the code point, and the character if it is printable. -/
def codePoint (byte : UInt8) : String :=
  let printable := 0x20 ≤ byte ∧ byte ≤ 0x7e ∨ 0xa1 ≤ byte ∧ byte ≠ 0xad
  s!"U+00{hexUpper (some [byte])}" ++ if printable then s!" '{Char.ofNat byte.toNat}'" else ""

/-- The error for a character that is not a digit, which names its first byte. -/
def invalidByte (digit : Char) : String :=
  s!"encoding/hex: invalid byte: {codePoint ((String.utf8EncodeChar digit).headD 0)}"

/-- Decode pairs of digits from the left. -/
def hexDecodeDigits : List Char → Except String (List UInt8)
  | [] => .ok []
  | [digit] =>
    match hexValue digit with
    | none => .error (invalidByte digit)
    | some _ => .error "encoding/hex: odd length hex string"
  | high :: low :: rest =>
    match hexValue high, hexValue low with
    | none, _ => .error (invalidByte high)
    | _, none => .error (invalidByte low)
    | some highValue, some lowValue =>
      (hexDecodeDigits rest).map (UInt8.ofNat (16 * highValue + lowValue) :: ·)

/-- The bytes of a hexadecimal text, as `hex.DecodeString` reads it; never nil. -/
def hexDecode (text : String) : Except String (List UInt8) := hexDecodeDigits text.toList

theorem hexValue_hexDigit : ∀ value < 16, hexValue (hexDigit 'a' value) = some value := by
  decide

theorem hexDecodeDigits_hexDigits (data : List UInt8) :
    hexDecodeDigits (hexDigits 'a' data) = .ok data := by
  induction data with
  | nil => rfl
  | cons byte rest ih =>
    have hhigh := hexValue_hexDigit (byte.toNat / 16) (by have := byte.toNat_lt; omega)
    have hlow := hexValue_hexDigit (byte.toNat % 16) (by omega)
    have hbyte : UInt8.ofNat (16 * (byte.toNat / 16) + byte.toNat % 16) = byte := by
      rw [Nat.div_add_mod, UInt8.ofNat_toNat]
    rw [hexDigits] at ih ⊢
    simp only [List.flatMap_cons, List.cons_append, List.nil_append, hexDecodeDigits, hhigh, hlow,
      ih, hbyte]
    rfl

/-- Decoding inverts encoding. -/
@[simp]
theorem hexDecode_hexEncode (data : List UInt8) : hexDecode (hexEncode data) = .ok data := by
  rw [hexDecode, hexEncode, String.toList_ofList]
  exact hexDecodeDigits_hexDigits data

/-- Accumulate decimal digits, with the reason if there is no number. -/
def decimalDigits (value : ℕ) : List Char → Except String ℕ
  | [] => .ok value
  | digit :: rest =>
    if '0' ≤ digit ∧ digit ≤ '9' then
      let next := 10 * value + (digit.toNat - '0'.toNat)
      if next < 2 ^ 64 then decimalDigits next rest else .error "value out of range"
    else .error "invalid syntax"

/-- An unsigned decimal number of at most 64 bits, as `strconv.ParseUint` reads it in base ten. -/
def parseUint64 (text : String) : Except String UInt64 :=
  let value := if text.isEmpty then .error "invalid syntax" else decimalDigits 0 text.toList
  match value with
  | .ok value => .ok (UInt64.ofNat value)
  | .error err => .error s!"strconv.ParseUint: parsing {text.quote}: {err}"

end FinalityGadget.Text
