import Mathlib.Data.List.Basic
import Mathlib.Tactic.Common

/-!
# Cyclic redundancy checks, bit by bit

A register of `w` bits into which bits are fed one by one, the lowest bit of the register going out first, with the
reflected polynomial `p`.  Feeding is linear (`feedAll_zipWith`), so the check of two messages that both pass vanishes
on their difference.  It does not vanish on a difference with an odd number of ones if the polynomial has an odd number
of them (`parity_feedAll`), nor on one that lies within `w` consecutive bits if the polynomial has its highest bit set
(`feedAll_burst`).
-/

namespace Fr8012haLock.Crc

variable {w : ℕ} (p : BitVec w)

/-- One bit goes into the register. -/
def feed (c : BitVec w) (b : Bool) : BitVec w := (c >>> 1) ^^^ (if c.getLsbD 0 ^^ b then p else 0#w)

/-- A number of bits go into the register. -/
def feedAll (c : BitVec w) (bs : List Bool) : BitVec w := bs.foldl (feed p) c

/-- The lowest `n` bits, lowest first. -/
def bits (n : ℕ) (c : BitVec w) : List Bool := (List.range n).map c.getLsbD

/-- Whether the number of ones is odd. -/
def parity (bs : List Bool) : Bool := bs.foldr (· ^^ ·) false

@[simp] theorem feedAll_nil (c : BitVec w) : feedAll p c [] = c := rfl

@[simp] theorem feedAll_cons (c : BitVec w) (b : Bool) (bs : List Bool) :
    feedAll p c (b :: bs) = feedAll p (feed p c b) bs := rfl

theorem feedAll_append (c : BitVec w) (bs cs : List Bool) :
    feedAll p c (bs ++ cs) = feedAll p (feedAll p c bs) cs := List.foldl_append

theorem getLsbD_feed (c : BitVec w) (b : Bool) (i : ℕ) :
    (feed p c b).getLsbD i = (c.getLsbD (i + 1) ^^ ((c.getLsbD 0 ^^ b) && p.getLsbD i)) := by
  unfold feed
  rw [BitVec.getLsbD_xor, BitVec.getLsbD_ushiftRight, Nat.add_comm 1 i]
  cases c.getLsbD 0 ^^ b <;> simp

/-! ### Linearity -/

theorem feed_xor (c d : BitVec w) (a b : Bool) : feed p (c ^^^ d) (a ^^ b) = feed p c a ^^^ feed p d b := by
  apply BitVec.eq_of_getLsbD_eq
  intro i _
  simp only [BitVec.getLsbD_xor, getLsbD_feed]
  cases c.getLsbD (i + 1) <;> cases d.getLsbD (i + 1) <;> cases c.getLsbD 0 <;> cases d.getLsbD 0 <;>
    cases a <;> cases b <;> simp

/-- **Feeding is linear.** -/
theorem feedAll_zipWith {as bs : List Bool} (h : as.length = bs.length) (c d : BitVec w) :
    feedAll p (c ^^^ d) (List.zipWith (· ^^ ·) as bs) = feedAll p c as ^^^ feedAll p d bs := by
  induction as generalizing bs c d with
  | nil =>
    rw [List.length_eq_zero_iff.mp h.symm]
    rfl
  | cons a as ih =>
    cases bs with
    | nil => cases h
    | cons b bs =>
      rw [List.zipWith_cons_cons, feedAll_cons, feed_xor, ih (by simpa using h)]
      rfl

@[simp] theorem feed_zero : feed p 0 false = 0 := by simp [feed]

theorem feedAll_zero_replicate (n : ℕ) : feedAll p 0 (List.replicate n false) = 0 := by
  induction n with
  | zero => rfl
  | succ n ih => rw [List.replicate_succ, feedAll_cons, feed_zero, ih]

theorem bits_succ (n : ℕ) (c : BitVec w) : bits (n + 1) c = c.getLsbD 0 :: bits n (c >>> 1) := by
  rw [bits, List.range_succ_eq_map, List.map_cons, List.map_map, bits]
  congr 1
  apply List.map_congr_left
  intro i _
  simp [Nat.add_comm]

/-- Bits can be added to the register all at once, and the register be shifted behind them. -/
theorem feedAll_bits {n : ℕ} {d : BitVec w} (hd : d >>> n = 0) (c : BitVec w) :
    feedAll p c (bits n d) = feedAll p (c ^^^ d) (List.replicate n false) := by
  induction n generalizing c d with
  | zero =>
    rw [BitVec.ushiftRight_zero] at hd
    simp [hd, bits]
  | succ n ih =>
    have hstep : feed p c (d.getLsbD 0) ^^^ (d >>> 1) = feed p (c ^^^ d) false := by
      apply BitVec.eq_of_getLsbD_eq
      intro i _
      simp only [BitVec.getLsbD_xor, getLsbD_feed, BitVec.getLsbD_ushiftRight, Nat.add_comm 1 i]
      cases c.getLsbD (i + 1) <;> cases d.getLsbD (i + 1) <;> simp
    rw [bits_succ, feedAll_cons, ih (by rw [← BitVec.shiftRight_add, Nat.add_comm 1 n, hd]), hstep,
      List.replicate_succ, feedAll_cons]

/-! ### Parity -/

theorem parity_append (as bs : List Bool) : parity (as ++ bs) = (parity as ^^ parity bs) := by
  induction as with
  | nil => simp [parity]
  | cons a as ih =>
    show (a ^^ parity (as ++ bs)) = ((a ^^ parity as) ^^ parity bs)
    rw [ih, Bool.xor_assoc]

theorem parity_eq_odd_count (bs : List Bool) : parity bs = true ↔ bs.count true % 2 = 1 := by
  induction bs with
  | nil => simp [parity]
  | cons b bs ih =>
    show (b ^^ parity bs) = true ↔ _
    cases b with
    | false => simpa using ih
    | true =>
      rw [Bool.true_xor, List.count_cons_self, Bool.not_eq_true', ← Bool.not_eq_true, ih]
      omega

theorem parity_bits_xor (n : ℕ) (c d : BitVec w) :
    parity (bits n (c ^^^ d)) = (parity (bits n c) ^^ parity (bits n d)) := by
  induction n generalizing c d with
  | zero => rfl
  | succ n ih =>
    simp only [bits_succ, BitVec.ushiftRight_xor_distrib]
    show ((c ^^^ d).getLsbD 0 ^^ parity (bits n _)) = ((_ ^^ parity (bits n _)) ^^ (_ ^^ parity (bits n _)))
    rw [ih, BitVec.getLsbD_xor]
    cases c.getLsbD 0 <;> cases d.getLsbD 0 <;> simp

theorem parity_bits_ushiftRight (c : BitVec w) : (c.getLsbD 0 ^^ parity (bits w (c >>> 1))) = parity (bits w c) := by
  have h : parity (bits (w + 1) c) = parity (bits w c) := by
    rw [bits, List.range_succ, List.map_append, parity_append]
    simp [parity, bits]
  rw [← h, bits_succ]
  rfl

theorem parity_bits_zero (n : ℕ) : parity (bits n (0#w)) = false := by
  induction n with
  | zero => rfl
  | succ n ih => simpa [bits_succ, parity] using ih

variable {p}

theorem parity_feed (hp : parity (bits w p) = true) (c : BitVec w) (b : Bool) :
    parity (bits w (feed p c b)) = (parity (bits w c) ^^ b) := by
  have hs := parity_bits_ushiftRight c
  have hz := parity_bits_zero (w := w) w
  rw [feed, parity_bits_xor]
  cases hc : c.getLsbD 0 <;> cases b <;> simp_all

/-- **The register has the parity of the bits fed**, if the polynomial has an odd number of ones. -/
theorem parity_feedAll (hp : parity (bits w p) = true) (c : BitVec w) (bs : List Bool) :
    parity (bits w (feedAll p c bs)) = (parity (bits w c) ^^ parity bs) := by
  induction bs generalizing c with
  | nil => simp [parity]
  | cons b bs ih =>
    rw [feedAll_cons, ih, parity_feed hp, Bool.xor_assoc]
    rfl

/-! ### Bursts -/

/-- At most `w` bits clear the register only if they are what it holds. -/
theorem feedAll_eq_zero (hp : p.msb = true) {c : BitVec w} {bs : List Bool} (hl : bs.length ≤ w)
    (h : feedAll p c bs = 0) (i : ℕ) : c.getLsbD i = bs.getD i false := by
  induction bs generalizing c i with
  | nil =>
    rw [feedAll_nil] at h
    simp [h]
  | cons b bs ih =>
    rw [List.length_cons] at hl
    have hbits := ih (by omega) h
    -- the highest bit shows whether the polynomial was added
    have hlow : c.getLsbD 0 = b := by
      have htop := hbits (w - 1)
      rw [getLsbD_feed, BitVec.getLsbD_of_ge _ _ (by omega), ← BitVec.msb_eq_getLsbD_last, hp,
        List.getD_eq_getElem?_getD, List.getElem?_eq_none (by omega)] at htop
      simpa using htop
    cases i with
    | zero => exact hlow
    | succ i =>
      have := hbits i
      rw [getLsbD_feed, hlow] at this
      simpa using this

theorem feedAll_replicate_eq_zero (hp : p.msb = true) {c : BitVec w} {n : ℕ}
    (h : feedAll p c (List.replicate n false) = 0) : c = 0 := by
  have hw : 0 < w := by
    rcases Nat.eq_zero_or_pos w with rfl | hw
    · simp [BitVec.msb] at hp
    · exact hw
  induction n generalizing c with
  | zero => exact h
  | succ n ih =>
    rw [List.replicate_succ, feedAll_cons] at h
    have h1 := feedAll_eq_zero hp (show [false].length ≤ w from hw) (ih h)
    apply BitVec.eq_of_getLsbD_eq
    intro i _
    rw [h1]
    cases i <;> simp

/-- **Bursts are detected**: ones within `w` consecutive bits leave something in the register. -/
theorem feedAll_burst (hp : p.msb = true) {e : List Bool} {s : ℕ}
    (hin : ∀ i, e.getD i false = true → s ≤ i ∧ i < s + w) (hne : ∃ i, e.getD i false = true) :
    feedAll p 0 e ≠ 0 := by
  intro h
  have hfalse : ∀ i, ¬ (s ≤ i ∧ i < s + w) → e.getD i false = false := fun i hi =>
    Bool.eq_false_iff.mpr fun ht => hi (hin i ht)
  have hrep : ∀ l : List Bool, (∀ i, l.getD i false = false) → l = List.replicate l.length false := by
    intro l hl
    apply List.eq_replicate_of_mem
    intro b hb
    obtain ⟨i, hi, rfl⟩ := List.getElem_of_mem hb
    simpa [List.getD_eq_getElem?_getD, hi] using hl i
  -- the bits in front of the burst, the burst, and those behind it
  have hfront : e.take s = List.replicate (e.take s).length false := by
    apply hrep
    intro i
    rcases Nat.lt_or_ge i s with hi | hi
    · simpa [List.getD_eq_getElem?_getD, List.getElem?_take, hi] using hfalse i (by omega)
    · rw [List.getD_eq_getElem?_getD, List.getElem?_eq_none (Nat.le_trans (List.length_take_le _ _) hi)]
      rfl
  have hback : (e.drop s).drop w = List.replicate ((e.drop s).drop w).length false := by
    apply hrep
    intro i
    simpa [List.getD_eq_getElem?_getD, Nat.add_assoc] using hfalse (s + (w + i)) (by omega)
  rw [← List.take_append_drop s e, ← List.take_append_drop w (e.drop s), feedAll_append, feedAll_append, hfront,
    hback, feedAll_zero_replicate] at h
  have hwin := feedAll_eq_zero hp (List.length_take_le _ _) (feedAll_replicate_eq_zero hp h)
  obtain ⟨i, hi⟩ := hne
  obtain ⟨hs, hsw⟩ := hin i hi
  have := hwin (i - s)
  rw [List.getD_eq_getElem?_getD, List.getElem?_take_of_lt (by omega), List.getElem?_drop, Nat.add_sub_cancel' hs,
    ← List.getD_eq_getElem?_getD, hi] at this
  simp at this

end Fr8012haLock.Crc
