import Fr8012haLock.Common.AppCommon
import Fr8012haLock.Lib.Crc

/-!
# What the CRC-8 detects

The table of `app_comm_check_crc8` is that of the reflected polynomial `0x8C`, so the loop over the bytes feeds their
bits, each byte lowest bit first (`crc8_toBitVec`).  Bytes that end with their own CRC leave nothing in the register
(`crc8_eq_last_iff`); two such lists of bytes do not differ in an odd number of bits, nor in bits that lie within eight
consecutive ones (`error_detected`).
-/

namespace Fr8012haLock.Common

open Crc

/-- The polynomial of the table, `x ^ 8 + x ^ 5 + x ^ 4 + 1` with the lowest bit first. -/
def crc8Poly : BitVec 8 := 0x8C#8

/-- The bits of a list of bytes in the order in which they are sent, the lowest bit of a byte first. -/
def wireBits (data : List UInt8) : List Bool := data.flatMap fun b => bits 8 b.toBitVec

@[simp] theorem wireBits_cons (b : UInt8) (data : List UInt8) :
    wireBits (b :: data) = bits 8 b.toBitVec ++ wireBits data := rfl

theorem wireBits_append (a b : List UInt8) : wireBits (a ++ b) = wireBits a ++ wireBits b := by
  simp [wireBits]

theorem length_wireBits (data : List UInt8) : (wireBits data).length = 8 * data.length := by
  induction data with
  | nil => rfl
  | cons b data ih =>
    rw [wireBits_cons, List.length_append, ih, List.length_cons]
    simp [bits]
    omega

theorem crc8Table_eq : ∀ i < 256, (crc8Table.getD i 0).toUInt8.toBitVec =
    feedAll crc8Poly (BitVec.ofNat 8 i) (List.replicate 8 false) := by
  decide +kernel

theorem crc8Step_toBitVec (c b : UInt8) :
    (crc8Step c b).toBitVec = feedAll crc8Poly c.toBitVec (bits 8 b.toBitVec) := by
  have hd : b.toBitVec >>> 8 = 0 := BitVec.ushiftRight_eq_zero le_rfl
  rw [crc8Step, crc8Table_eq _ (UInt8.toNat_lt _), feedAll_bits crc8Poly hd]
  congr 1
  simp

/-- **The loop feeds the bits of the bytes**, as they are sent. -/
theorem crc8_toBitVec (data : List UInt8) :
    (appCommCheckCrc8 data data.length).toBitVec = feedAll crc8Poly 0 (wireBits data) := by
  have key : ∀ c : UInt8, (data.foldl crc8Step c).toBitVec = feedAll crc8Poly c.toBitVec (wireBits data) := by
    intro c
    induction data generalizing c with
    | nil => rfl
    | cons b data ih => rw [List.foldl_cons, ih, crc8Step_toBitVec, wireBits_cons, feedAll_append]
  rw [appCommCheckCrc8, List.take_length]
  exact key 0

/-- Bytes with their CRC behind them leave nothing in the register, and only those do. -/
theorem crc8_eq_last_iff (data : List UInt8) (x : UInt8) :
    appCommCheckCrc8 data data.length = x ↔ feedAll crc8Poly 0 (wireBits (data ++ [x])) = 0 := by
  have hx : x.toBitVec >>> 8 = 0 := BitVec.ushiftRight_eq_zero le_rfl
  rw [wireBits_append, feedAll_append, ← crc8_toBitVec]
  show _ ↔ feedAll crc8Poly _ (bits 8 x.toBitVec ++ []) = 0
  rw [List.append_nil, feedAll_bits crc8Poly hx]
  constructor
  · rintro rfl
    rw [BitVec.xor_self]
    exact feedAll_zero_replicate crc8Poly 8
  · intro h
    have h0 := feedAll_replicate_eq_zero (by decide) h
    exact UInt8.toBitVec_inj.mp (BitVec.xor_eq_zero_iff.mp h0)

/-! ### Errors -/

/-- The bits in which two lists of bytes differ. -/
def wireDiff (b c : List UInt8) : List Bool := List.zipWith (· ^^ ·) (wireBits b) (wireBits c)

/-- Bytes differ in an odd number of bits. -/
def OddError (b c : List UInt8) : Prop := (wireDiff b c).count true % 2 = 1

instance (b c : List UInt8) : Decidable (OddError b c) := by unfold OddError; infer_instance

/-- Bytes differ, and only in bits among eight consecutive ones. -/
def BurstError (b c : List UInt8) : Prop :=
  (∃ i, (wireDiff b c).getD i false = true) ∧
    ∃ s, ∀ i, (wireDiff b c).getD i false = true → s ≤ i ∧ i < s + 8

/-- **The CRC detects errors of the two kinds**: at most one of the two lists of bytes ends with its CRC. -/
theorem error_detected {b c : List UInt8} (hl : c.length = b.length) (herr : OddError b c ∨ BurstError b c)
    (hb : feedAll crc8Poly 0 (wireBits b) = 0) : feedAll crc8Poly 0 (wireBits c) ≠ 0 := by
  intro hc
  have hlen : (wireBits b).length = (wireBits c).length := by rw [length_wireBits, length_wireBits, hl]
  have hdiff : feedAll crc8Poly 0 (wireDiff b c) = 0 := by
    have := feedAll_zipWith crc8Poly hlen 0 0
    rwa [hb, hc, BitVec.xor_self] at this
  rcases herr with hodd | ⟨hne, s, hin⟩
  · have hpar := parity_feedAll (p := crc8Poly) (by decide) 0 (wireDiff b c)
    rw [hdiff, (parity_eq_odd_count _).mpr hodd] at hpar
    exact absurd hpar (by decide)
  · exact feedAll_burst (p := crc8Poly) (by decide) hin hne hdiff

end Fr8012haLock.Common
