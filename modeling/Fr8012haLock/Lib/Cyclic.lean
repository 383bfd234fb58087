import Mathlib.Data.List.Basic
import Mathlib.Tactic.Common

/-!
# Reading and writing a list in a circle

* `memcpy dst off src` — the list `dst` with `src` copied over it from the index `off` on;
* `window buf start n` — the `n` entries met from the index `start` on, going round the end of `buf`;
* `wrapCopy buf start src` — `src` copied in a circle from `start` on, as the two copies of which the second
  starts over at the index `0`.

An index may rest at `buf.length`, where the next entry met is the one at `0`.  The main facts are that a window
moves on with its start (`drop_window`), and that a circular copy just behind a window makes the window longer by
the entries copied (`window_wrapCopy`).
-/

namespace Fr8012haLock.Cyclic

variable {α : Type*}

/-- `dst` with `src` copied over it from the index `off` on. -/
def memcpy (dst : List α) (off : ℕ) (src : List α) : List α :=
  dst.take off ++ src ++ dst.drop (off + src.length)

/-- The `n` entries of `buf` met from the index `start` on, going round its end. -/
def window (buf : List α) (start n : ℕ) : List α := (buf.drop start ++ buf).take n

/-- `src` copied into `buf` from the index `start` on, what does not fit before the end going to the front. -/
def wrapCopy (buf : List α) (start : ℕ) (src : List α) : List α :=
  memcpy (memcpy buf start (src.take (buf.length - start))) 0 (src.drop (buf.length - start))

/-! ### Copies -/

@[simp] theorem memcpy_nil (dst : List α) (off : ℕ) : memcpy dst off [] = dst := by simp [memcpy]

@[simp] theorem memcpy_zero (dst src : List α) : memcpy dst 0 src = src ++ dst.drop src.length := by
  simp [memcpy]

theorem length_memcpy {dst src : List α} {off : ℕ} (h : off + src.length ≤ dst.length) :
    (memcpy dst off src).length = dst.length := by
  simp [memcpy]
  omega

theorem memcpy_getElem? {dst src : List α} {off : ℕ} (h : off + src.length ≤ dst.length) (j : ℕ) :
    (memcpy dst off src)[j]? = if off ≤ j ∧ j < off + src.length then src[j - off]? else dst[j]? := by
  have ht : (dst.take off).length = off := by simp; omega
  unfold memcpy
  rw [List.append_assoc]
  rcases Nat.lt_or_ge j off with hj | hj
  · rw [List.getElem?_append_left (by omega), List.getElem?_take_of_lt hj, if_neg (by omega)]
  · rw [List.getElem?_append_right (by omega), ht]
    rcases Nat.lt_or_ge j (off + src.length) with hs | hs
    · rw [List.getElem?_append_left (by omega), if_pos ⟨hj, hs⟩]
    · rw [List.getElem?_append_right (by omega), List.getElem?_drop, if_neg (by omega)]
      congr 1
      omega

theorem memcpy_memcpy {dst a b : List α} {off : ℕ} (h : off + a.length + b.length ≤ dst.length) :
    memcpy (memcpy dst off a) (off + a.length) b = memcpy dst off (a ++ b) := by
  apply List.ext_getElem?
  intro j
  rw [memcpy_getElem? (by rw [length_memcpy (by omega)]; omega), memcpy_getElem? (by omega),
    memcpy_getElem? (by simp; omega)]
  simp only [List.length_append]
  by_cases ha : off ≤ j ∧ j < off + a.length
  · rw [if_neg (by omega), if_pos ha, if_pos (by omega), List.getElem?_append_left (by omega)]
  · by_cases hb : off + a.length ≤ j ∧ j < off + a.length + b.length
    · rw [if_pos hb, if_pos (by omega), List.getElem?_append_right (by omega)]
      congr 1
      omega
    · rw [if_neg hb, if_neg ha, if_neg (by omega)]

theorem memcpy_front {dst a b : List α} (h : a.length + b.length ≤ dst.length) :
    memcpy (memcpy dst 0 a) a.length b = a ++ b ++ dst.drop (a.length + b.length) := by
  have := memcpy_memcpy (show 0 + a.length + b.length ≤ dst.length by omega)
  rw [Nat.zero_add] at this
  rw [this, memcpy_zero, List.length_append]

theorem length_wrapCopy {buf src : List α} {start : ℕ} (hs : start ≤ buf.length)
    (hl : src.length ≤ buf.length) : (wrapCopy buf start src).length = buf.length := by
  unfold wrapCopy
  have h1 : (memcpy buf start (src.take (buf.length - start))).length = buf.length :=
    length_memcpy (by simp; omega)
  rw [length_memcpy (by rw [h1]; simp; omega), h1]

theorem wrapCopy_getElem? {buf src : List α} {start : ℕ} (hs : start ≤ buf.length)
    (hl : src.length ≤ buf.length) (j : ℕ) :
    (wrapCopy buf start src)[j]? =
      if j + buf.length < start + src.length then src[j + buf.length - start]?
      else if start ≤ j ∧ j < buf.length ∧ j < start + src.length then src[j - start]? else buf[j]? := by
  have h1 : start + (src.take (buf.length - start)).length ≤ buf.length := by simp; omega
  have h2 : 0 + (src.drop (buf.length - start)).length ≤
      (memcpy buf start (src.take (buf.length - start))).length := by
    rw [length_memcpy h1]; simp; omega
  unfold wrapCopy
  rw [memcpy_getElem? h2, memcpy_getElem? h1, List.getElem?_drop]
  simp only [List.length_take, List.length_drop, Nat.zero_add, Nat.zero_le, true_and]
  by_cases hw : j + buf.length < start + src.length
  · rw [if_pos (by omega), if_pos hw]
    congr 1
    omega
  · rw [if_neg (by omega), if_neg hw]
    by_cases hj : start ≤ j ∧ j < buf.length ∧ j < start + src.length
    · rw [if_pos (by omega), if_pos hj, List.getElem?_take_of_lt (by omega)]
    · rw [if_neg (by omega), if_neg hj]

/-! ### Windows -/

@[simp] theorem window_zero (buf : List α) (start : ℕ) : window buf start 0 = [] := by simp [window]

theorem length_window {buf : List α} {start n : ℕ} (hn : n ≤ buf.length) :
    (window buf start n).length = n := by
  simp [window]
  omega

theorem window_getElem? {buf : List α} {start n i : ℕ} (h : start ≤ buf.length) (hi : i < n) :
    (window buf start n)[i]? =
      if start + i < buf.length then buf[start + i]? else buf[start + i - buf.length]? := by
  unfold window
  rw [List.getElem?_take_of_lt hi]
  split
  · rw [List.getElem?_append_left (by simp; omega), List.getElem?_drop]
  · rw [List.getElem?_append_right (by simp; omega)]
    congr 1
    simp
    omega

theorem take_window (buf : List α) (start : ℕ) {k n : ℕ} (h : k ≤ n) :
    (window buf start n).take k = window buf start k := by
  simp [window, List.take_take, Nat.min_eq_left h]

theorem window_eq_append {buf : List α} (start : ℕ) (n : ℕ) :
    window buf start n = (buf.drop start).take n ++ buf.take (n - (buf.length - start)) := by
  simp [window, List.take_append]

/-- What is left of a window behind its first `k` entries is the window that starts `k` places on. -/
theorem drop_window {buf : List α} {start start' k n : ℕ} (hn : n ≤ buf.length)
    (hs : start ≤ buf.length) (hs' : start' ≤ buf.length) (hk : k ≤ n)
    (h : start' = start + k ∨ start' + buf.length = start + k) :
    (window buf start n).drop k = window buf start' (n - k) := by
  apply List.ext_getElem?
  intro i
  rw [List.getElem?_drop]
  by_cases hi : k + i < n
  · rw [window_getElem? hs hi, window_getElem? hs' (by omega)]
    rcases h with h | h
    · split <;> split <;> first | omega | (congr 1; omega)
    · rw [if_neg (by omega), if_pos (by omega)]
      congr 1
      omega
  · have h1 : (window buf start n).length = n := length_window hn
    have h2 : (window buf start' (n - k)).length = n - k := length_window (by omega)
    rw [List.getElem?_eq_none (by omega), List.getElem?_eq_none (by omega)]

/-- A circular copy that starts where a window ends makes the window longer by what is copied, as long as the
two together go round at most once. -/
theorem window_wrapCopy {buf src : List α} {start stop n : ℕ} (hs : start ≤ buf.length)
    (he : stop ≤ buf.length) (h : stop = start + n ∨ stop + buf.length = start + n)
    (hn : n + src.length ≤ buf.length) :
    window (wrapCopy buf stop src) start (n + src.length) = window buf start n ++ src := by
  have hlen : (wrapCopy buf stop src).length = buf.length := length_wrapCopy he (by omega)
  have hwin : (window buf start n).length = n := length_window (by omega)
  apply List.ext_getElem?
  intro i
  by_cases hi : i < n + src.length
  · rw [window_getElem? (by omega) hi, hlen]
    by_cases hin : i < n
    · rw [List.getElem?_append_left (by omega), window_getElem? hs hin]
      -- an entry of the old window: no copied index meets it
      split
      · rw [wrapCopy_getElem? he (by omega), if_neg (by omega), if_neg (by omega)]
      · rw [wrapCopy_getElem? he (by omega), if_neg (by omega), if_neg (by omega)]
    · rw [List.getElem?_append_right (by omega), hwin]
      split
      · rcases h with h | h
        · rw [wrapCopy_getElem? he (by omega), if_neg (by omega), if_pos (by omega)]
          congr 1
          omega
        · omega
      · rw [wrapCopy_getElem? he (by omega)]
        rcases h with h | h
        · rw [if_pos (by omega)]
          congr 1
          omega
        · rw [if_neg (by omega), if_pos (by omega)]
          congr 1
          omega
  · rw [List.getElem?_eq_none (by rw [length_window (by omega)]; omega),
      List.getElem?_eq_none (by rw [List.length_append, hwin]; omega)]

end Fr8012haLock.Cyclic
