import Mathlib.Data.List.Basic

/-! How a machine lays out its 32-bit `int` in memory. Programs that copy
structures of integers to a stream depend on it; two ends that share it agree. -/

namespace RpcLoop.Foundation

/-- Four bytes for each 32-bit integer, from which it is read back. -/
structure IntLayout where
  encode : Int32 → List UInt8
  decode : List UInt8 → Int32
  length_encode : ∀ value, (encode value).length = 4
  decode_encode : ∀ value, decode (encode value) = value

namespace IntLayout

def littleEndianEncode (value : Int32) : List UInt8 :=
  let word := value.toUInt32.toNat
  [UInt8.ofNat word, UInt8.ofNat (word / 256), UInt8.ofNat (word / 65536),
    UInt8.ofNat (word / 16777216)]

def littleEndianDecode : List UInt8 → Int32
  | [first, second, third, fourth] =>
    (UInt32.ofNat (first.toNat + 256 * second.toNat + 65536 * third.toNat +
      16777216 * fourth.toNat)).toInt32
  | _ => 0

private theorem littleEndian_decode_encode (value : Int32) :
    littleEndianDecode (littleEndianEncode value) = value := by
  have bound := value.toUInt32.toNat_lt
  have word : (UInt8.ofNat value.toUInt32.toNat).toNat +
      256 * (UInt8.ofNat (value.toUInt32.toNat / 256)).toNat +
      65536 * (UInt8.ofNat (value.toUInt32.toNat / 65536)).toNat +
      16777216 * (UInt8.ofNat (value.toUInt32.toNat / 16777216)).toNat = value.toUInt32.toNat := by
    simp only [UInt8.toNat_ofNat']
    omega
  simp only [littleEndianEncode, littleEndianDecode, word, UInt32.ofNat_toNat]
  rfl

/-- The layout of the machines the program was written for. -/
def littleEndian : IntLayout where
  encode := littleEndianEncode
  decode := littleEndianDecode
  length_encode _ := rfl
  decode_encode := littleEndian_decode_encode

end IntLayout

end RpcLoop.Foundation
