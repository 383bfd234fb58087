import Mathlib.Data.UInt
import Mathlib.Tactic.Common

/-!
# Numbers in little-endian bytes

`value` is the number that bytes stand for, least significant byte first, and `bytes w n` the `w` bytes of a number.
Bytes and numbers below `256 ^ w` are in bijection (`bytes_value`, `value_inj`).
-/

namespace Fr8012haLock.LittleEndian

/-- The number a list of bytes stands for. -/
def value : List UInt8 → ℕ
  | [] => 0
  | b :: bs => b.toNat + 256 * value bs

/-- The `w` lowest bytes of a number. -/
def bytes : ℕ → ℕ → List UInt8
  | 0, _ => []
  | w + 1, n => UInt8.ofNat n :: bytes w (n / 256)

@[simp] theorem length_bytes (w n : ℕ) : (bytes w n).length = w := by
  induction w generalizing n with
  | zero => rfl
  | succ w ih => simp [bytes, ih]

theorem value_lt (bs : List UInt8) : value bs < 256 ^ bs.length := by
  induction bs with
  | nil => simp [value]
  | cons b bs ih =>
    have := b.toNat_lt
    rw [value, List.length_cons, Nat.pow_succ]
    omega

theorem bytes_value (bs : List UInt8) : bytes bs.length (value bs) = bs := by
  induction bs with
  | nil => rfl
  | cons b bs ih =>
    have hb := b.toNat_lt
    have hdiv : (b.toNat + 256 * value bs) / 256 = value bs := by omega
    have hmod : UInt8.ofNat (b.toNat + 256 * value bs) = b := by
      apply UInt8.toNat_inj.mp
      rw [UInt8.toNat_ofNat']
      omega
    rw [List.length_cons, value, bytes, hdiv, hmod, ih]

theorem value_inj {bs cs : List UInt8} (hl : bs.length = cs.length) : value bs = value cs ↔ bs = cs := by
  constructor
  · intro h
    rw [← bytes_value bs, ← bytes_value cs, hl, h]
  · intro h
    rw [h]

end Fr8012haLock.LittleEndian
