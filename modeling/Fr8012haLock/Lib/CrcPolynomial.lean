import Fr8012haLock.Lib.Crc
import Mathlib.Algebra.Polynomial.Div
import Mathlib.Algebra.CharP.Two
import Mathlib.Algebra.Field.ZMod
import Mathlib.Tactic.LinearCombination

/-!
# Cyclic redundancy checks as division of polynomials

Bits are the coefficients of a polynomial over the field of two elements, the first bit that of the highest power.  The
register of `Crc.feed` holds a remainder: to feed a bit is to multiply by `X`, to add the bit `w` places up, and to
subtract the generator where the power `X ^ w` comes up (`toPoly_feed`).  So the register behind a message is the
remainder of the message, moved up by `w` places, on division by the generator (`toPoly_feedAll`).
-/

namespace Fr8012haLock.Crc

open Polynomial

/-- The polynomial that has the bits as its coefficients, the first bit as that of the highest power. -/
noncomputable def toPoly : List Bool → (ZMod 2)[X]
  | [] => 0
  | b :: bs => (if b then X ^ bs.length else 0) + toPoly bs

variable {w : ℕ} (p : BitVec w)

/-- The generator whose lower coefficients are in `p`. -/
noncomputable def generator : (ZMod 2)[X] := X ^ w + toPoly (bits w p)

@[simp] theorem toPoly_nil : toPoly [] = 0 := rfl

@[simp] theorem toPoly_cons (b : Bool) (bs : List Bool) :
    toPoly (b :: bs) = (if b then X ^ bs.length else 0) + toPoly bs := rfl

theorem length_bits (n : ℕ) (c : BitVec w) : (bits n c).length = n := by simp [bits]

theorem degree_toPoly (bs : List Bool) : (toPoly bs).degree < bs.length := by
  induction bs with
  | nil => simp
  | cons b bs ih =>
    have hlt : (bs.length : WithBot ℕ) < (b :: bs).length := by
      rw [List.length_cons]
      exact_mod_cast Nat.lt_succ_self _
    refine (degree_add_le _ _).trans_lt (max_lt ?_ (ih.trans hlt))
    cases b with
    | false => simp
    | true =>
      rw [if_pos rfl, degree_X_pow]
      exact hlt

theorem toPoly_concat (bs : List Bool) (b : Bool) : toPoly (bs ++ [b]) = toPoly bs * X + if b then 1 else 0 := by
  induction bs with
  | nil => simp
  | cons a bs ih =>
    rw [List.cons_append, toPoly_cons, ih, toPoly_cons, List.length_append, List.length_singleton]
    cases a with
    | false => simp
    | true => simp [pow_succ, add_mul, add_assoc]

theorem toPoly_bits_xor (n : ℕ) (c d : BitVec w) :
    toPoly (bits n (c ^^^ d)) = toPoly (bits n c) + toPoly (bits n d) := by
  induction n generalizing c d with
  | zero => simp [bits]
  | succ n ih =>
    rw [bits_succ, bits_succ, bits_succ, toPoly_cons, toPoly_cons, toPoly_cons, BitVec.ushiftRight_xor_distrib, ih,
      BitVec.getLsbD_xor, length_bits, length_bits, length_bits]
    have htwo : (X ^ n : (ZMod 2)[X]) + X ^ n = 0 := CharTwo.add_self_eq_zero _
    cases c.getLsbD 0 <;> cases d.getLsbD 0
    · simp
    · simp only [Bool.false_xor, if_true, Bool.false_eq_true, if_false]
      ring
    · simp only [Bool.xor_false, if_true, Bool.false_eq_true, if_false]
      ring
    · simp only [Bool.xor_self, if_true, Bool.false_eq_true, if_false]
      linear_combination -htwo

theorem toPoly_bits_ushiftRight (c : BitVec w) :
    (if c.getLsbD 0 then X ^ w else 0) + toPoly (bits w (c >>> 1)) = toPoly (bits w c) * X := by
  have hlast : bits (w + 1) c = bits w c ++ [false] := by
    rw [bits, List.range_succ, List.map_append, List.map_singleton, BitVec.getLsbD_of_ge c w le_rfl]
    rfl
  have hcons := toPoly_cons (c.getLsbD 0) (bits w (c >>> 1))
  rw [← bits_succ, hlast, toPoly_concat, length_bits] at hcons
  simpa using hcons.symm

theorem toPoly_bits_zero (n : ℕ) : toPoly (bits n (0#w)) = 0 := by
  induction n with
  | zero => rfl
  | succ n ih => simpa [bits_succ] using ih

/-- **A bit fed**, on the polynomials. -/
theorem toPoly_feed (c : BitVec w) (b : Bool) :
    toPoly (bits w (feed p c b)) = toPoly (bits w c) * X + (if b then X ^ w else 0) +
      if c.getLsbD 0 ^^ b then generator p else 0 := by
  have hshift := toPoly_bits_ushiftRight c
  have hz := toPoly_bits_zero (w := w) w
  have htwo : (X ^ w : (ZMod 2)[X]) + X ^ w = 0 := CharTwo.add_self_eq_zero _
  rw [feed, toPoly_bits_xor, ← hshift, generator]
  cases c.getLsbD 0 <;> cases b
  · simp [hz]
  · simp only [Bool.false_xor, if_true, Bool.false_eq_true, if_false]
    linear_combination -htwo
  · simp only [Bool.xor_false, if_true, Bool.false_eq_true, if_false]
    linear_combination -htwo
  · simp only [Bool.xor_self, if_true, Bool.false_eq_true, if_false, hz]
    linear_combination -htwo

/-- A message fed changes the register as the message changes a remainder. -/
theorem generator_dvd_feedAll (c : BitVec w) (bs : List Bool) :
    generator p ∣ toPoly (bits w c) * X ^ bs.length + toPoly bs * X ^ w - toPoly (bits w (feedAll p c bs)) := by
  induction bs generalizing c with
  | nil => simp
  | cons b bs ih =>
    have hfeed := toPoly_feed p c b
    have hstep : generator p ∣ toPoly (bits w c) * X + (if b then X ^ w else 0) - toPoly (bits w (feed p c b)) := by
      rw [hfeed, sub_add_cancel_left, dvd_neg]
      split
      · exact dvd_rfl
      · exact dvd_zero _
    have hsum := (ih (feed p c b)).add (hstep.mul_right (X ^ bs.length))
    rw [feedAll_cons, toPoly_cons, List.length_cons]
    convert hsum using 1
    cases b
    · simp only [Bool.false_eq_true, if_false]
      ring
    · simp only [if_true]
      ring

theorem generator_monic : (generator p).Monic := by
  apply monic_X_pow_add
  have := degree_toPoly (bits w p)
  rwa [length_bits] at this

theorem degree_generator : (generator p).degree = w := by
  have hlt := degree_toPoly (bits w p)
  rw [length_bits] at hlt
  rw [generator, degree_add_eq_left_of_degree_lt (by rwa [degree_X_pow]), degree_X_pow]

/-- **The register behind a message is its remainder.** -/
theorem toPoly_feedAll (bs : List Bool) :
    toPoly (bits w (feedAll p 0 bs)) = (toPoly bs * X ^ w) %ₘ generator p := by
  have hdvd := generator_dvd_feedAll p 0 bs
  have hz : toPoly (bits w (0 : BitVec w)) = 0 := toPoly_bits_zero w
  rw [hz, zero_mul, zero_add] at hdvd
  have hdeg : (toPoly (bits w (feedAll p 0 bs))).degree < (generator p).degree := by
    have := degree_toPoly (bits w (feedAll p 0 bs))
    rwa [length_bits, ← degree_generator p] at this
  rw [modByMonic_eq_of_dvd_sub (generator_monic p) hdvd]
  exact ((modByMonic_eq_self_iff (generator_monic p)).mpr hdeg).symm

end Fr8012haLock.Crc
