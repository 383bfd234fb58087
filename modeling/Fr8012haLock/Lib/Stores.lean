import Fr8012haLock.Lib.Cyclic

/-!
# Stores, one by one

Code that writes through a pointer makes a list of stores, each an index and what is stored there.  `storeAll buf ss`
makes the stores in a list, where those behind its end are lost; `Within n ss` says that none is at the index `n` or
behind.  The stores of a `memcpy` are `copyAt`.
-/

namespace Fr8012haLock.Stores

open Cyclic

variable {α : Type*}

/-- The stores made in `buf`. -/
def storeAll (buf : List α) (ss : List (ℕ × α)) : List α := ss.foldl (fun buf s => buf.set s.1 s.2) buf

/-- The stores that copy `src` to the index `off`. -/
def copyAt : ℕ → List α → List (ℕ × α)
  | _, [] => []
  | off, a :: src => (off, a) :: copyAt (off + 1) src

/-- All stores are at indices below `n`. -/
def Within (n : ℕ) (ss : List (ℕ × α)) : Prop := ∀ s ∈ ss, s.1 < n

instance (n : ℕ) (ss : List (ℕ × α)) : Decidable (Within n ss) := inferInstanceAs (Decidable (∀ s ∈ ss, s.1 < n))

variable {buf src : List α} {ss ts : List (ℕ × α)} {off n i : ℕ}

@[simp] theorem storeAll_nil (buf : List α) : storeAll buf [] = buf := rfl

theorem storeAll_append (buf : List α) (ss ts : List (ℕ × α)) :
    storeAll buf (ss ++ ts) = storeAll (storeAll buf ss) ts := List.foldl_append ..

@[simp] theorem length_storeAll (buf : List α) (ss : List (ℕ × α)) : (storeAll buf ss).length = buf.length := by
  induction ss generalizing buf with
  | nil => rfl
  | cons s ss ih => exact (ih _).trans List.length_set

theorem storeAll_getElem?_of_ne (h : ∀ s ∈ ss, s.1 ≠ i) : (storeAll buf ss)[i]? = buf[i]? := by
  induction ss generalizing buf with
  | nil => rfl
  | cons s ss ih =>
    have hs : (storeAll (buf.set s.1 s.2) ss)[i]? = (buf.set s.1 s.2)[i]? :=
      ih fun t ht => h t (List.mem_cons_of_mem s ht)
    rw [storeAll, List.foldl_cons]
    exact hs.trans (List.getElem?_set_ne (h s List.mem_cons_self))

@[simp] theorem copyAt_nil (off : ℕ) : copyAt off ([] : List α) = [] := rfl

theorem le_of_mem_copyAt {s : ℕ × α} (h : s ∈ copyAt off src) : off ≤ s.1 ∧ s.1 < off + src.length := by
  induction src generalizing off with
  | nil => cases h
  | cons a src ih =>
    rw [List.length_cons]
    rcases List.mem_cons.mp h with rfl | h
    · exact ⟨Nat.le_refl _, by omega⟩
    · have := ih h
      omega

theorem within_copyAt (h : off + src.length ≤ n) : Within n (copyAt off src) :=
  fun _ hs => Nat.lt_of_lt_of_le (le_of_mem_copyAt hs).2 h

theorem mem_copyAt (off : ℕ) (h : i < src.length) : ∃ a, (off + i, a) ∈ copyAt off src := by
  induction src generalizing off i with
  | nil => exact absurd h (Nat.not_lt_zero i)
  | cons b src ih =>
    cases i with
    | zero => exact ⟨b, List.mem_cons_self⟩
    | succ i =>
      obtain ⟨a, ha⟩ := ih (off + 1) (Nat.lt_of_succ_lt_succ h)
      refine ⟨a, List.mem_cons_of_mem _ ?_⟩
      rwa [Nat.add_right_comm] at ha

theorem within_copyAt_iff (hne : src ≠ []) : Within n (copyAt off src) ↔ off + src.length ≤ n := by
  constructor
  · intro h
    have hpos := List.length_pos_of_ne_nil hne
    obtain ⟨a, ha⟩ := mem_copyAt off (show src.length - 1 < src.length by omega)
    have hlast : off + (src.length - 1) < n := h _ ha
    omega
  · exact within_copyAt

theorem within_nil : Within n ([] : List (ℕ × α)) := List.forall_mem_nil _

theorem within_append : Within n (ss ++ ts) ↔ Within n ss ∧ Within n ts := List.forall_mem_append

theorem storeAll_copyAt (h : off + src.length ≤ buf.length) : storeAll buf (copyAt off src) = memcpy buf off src := by
  induction src generalizing buf off with
  | nil => rw [copyAt_nil, storeAll_nil, memcpy_nil]
  | cons a src ih =>
    rw [List.length_cons] at h
    have hset : storeAll (buf.set off a) (copyAt (off + 1) src) = memcpy (buf.set off a) (off + 1) src :=
      ih (by rw [List.length_set]; omega)
    have htake : (buf.set off a).take (off + 1) = buf.take off ++ [a] := by
      rw [List.take_add_one, List.take_set_of_le (Nat.le_refl off), List.getElem?_set_self (by omega)]
      rfl
    rw [copyAt, storeAll, List.foldl_cons]
    refine hset.trans ?_
    rw [memcpy, htake, List.drop_set_of_lt (by omega), memcpy, List.length_cons, Nat.add_right_comm, Nat.add_assoc,
      List.append_assoc (buf.take off)]
    rfl

end Fr8012haLock.Stores
