import Fr8012haLock.Common.Crc8
import Fr8012haLock.Lib.CrcPolynomial

/-!
# The CRC-8 as a remainder

What the loop over the table computes is the CRC with the polynomial `x ^ 8 + x ^ 5 + x ^ 4 + 1`: the remainder of the
message, its bits in the order in which they are sent, moved up by eight places (`crc8_eq_remainder`).
-/

namespace Fr8012haLock.Common

open Crc Polynomial

/-- The table belongs to `x ^ 8 + x ^ 5 + x ^ 4 + 1`. -/
theorem generator_crc8Poly : generator crc8Poly = X ^ 8 + X ^ 5 + X ^ 4 + 1 := by
  have hbits : bits 8 crc8Poly = [false, false, true, true, false, false, false, true] := by decide
  rw [generator, hbits]
  simp
  ring

/-- **The CRC of the code is the CRC of its polynomial.**  For every list of bytes it is what a register of eight zero
bits holds after the bits of the bytes, lowest first, were fed one by one; that is the remainder of these bits on
division by `x ^ 8 + x ^ 5 + x ^ 4 + 1`.  Bytes with their own CRC behind them have the CRC zero. -/
theorem crc8_eq_remainder (data : List UInt8) :
    (appCommCheckCrc8 data data.length).toBitVec = feedAll crc8Poly 0 (wireBits data) ∧
      toPoly (bits 8 (appCommCheckCrc8 data data.length).toBitVec) =
        (toPoly (wireBits data) * X ^ 8) %ₘ (X ^ 8 + X ^ 5 + X ^ 4 + 1) ∧
      appCommCheckCrc8 (data ++ [appCommCheckCrc8 data data.length]) (data.length + 1) = 0 := by
  refine ⟨crc8_toBitVec data, ?_, ?_⟩
  · rw [crc8_toBitVec, toPoly_feedAll, generator_crc8Poly]
  · have hlen : data.length + 1 = (data ++ [appCommCheckCrc8 data data.length]).length := by simp
    apply UInt8.toBitVec_inj.mp
    rw [hlen, crc8_toBitVec]
    exact (crc8_eq_last_iff data _).mp rfl

example : appCommCheckCrc8 [0x31, 0x32, 0x33, 0x34, 0x35, 0x36, 0x37, 0x38, 0x39] 9 = 0xA1 := by decide

end Fr8012haLock.Common
