import Fr8012haLock.Buffer.Defs
import Mathlib.Tactic.Common

/-!
# What the ring calls do, in natural numbers

`RingBuffer.Wf` is what every call keeps: both indices at most `size`, and a storage of `size` bytes.  For such a
ring the unread bytes are a `Cyclic.window` of the storage, and each call has one lemma that says what it does to
them:

* a write that fits appends its bytes (`RingBuffer.Wf.unread_write`), unless it fills the ring from a read index other
  than `0`;
* a read takes the first bytes (`RingBuffer.Wf.peek`, `RingBuffer.Wf.consume`);
* a skip drops the first bytes (`RingBuffer.Wf.skip`), unless it drops all of them with the write index at `size`.
-/

namespace Fr8012haLock.Buffer

open Cyclic

/-- What every call keeps of a ring. -/
structure RingBuffer.Wf (rb : RingBuffer) : Prop where
  size_pos : 0 < rb.size.toNat
  write_le : rb.writeIdx.toNat ≤ rb.size.toNat
  read_le : rb.readIdx.toNat ≤ rb.size.toNat
  buffer_length : rb.buffer.length = rb.size.toNat

/-- `ring_buffer_valid_size` as a number. -/
def RingBuffer.valid (rb : RingBuffer) : ℕ := (ringBufferValidSize rb).toNat

/-- `ring_buffer_free_size` as a number. -/
def RingBuffer.free (rb : RingBuffer) : ℕ := (ringBufferFreeSize rb).toNat

/-- The unread bytes: as many as `ring_buffer_valid_size` says, from the read index on and round the end. -/
def RingBuffer.unread (rb : RingBuffer) : List UInt8 := window rb.buffer rb.readIdx.toNat rb.valid

theorem ringBufferValidSize_lt {rb : RingBuffer} {n : UInt32} : ringBufferValidSize rb < n ↔ rb.valid < n.toNat :=
  UInt32.lt_iff_toNat_lt

theorem ringBufferInit_wf {size : UInt32} (h : 0 < size.toNat) (mem : Vector UInt8 size.toNat) :
    (ringBufferInit size mem).Wf := ⟨h, by simp [ringBufferInit], by simp [ringBufferInit], by simp [ringBufferInit]⟩

section Sizes

variable {rb : RingBuffer} (h : rb.Wf)
include h

theorem RingBuffer.Wf.valid_eq : rb.valid =
    if rb.readIdx.toNat ≤ rb.writeIdx.toNat then rb.writeIdx.toNat - rb.readIdx.toNat
    else rb.size.toNat + rb.writeIdx.toNat - rb.readIdx.toNat := by
  have h1 := h.write_le
  have h2 := h.read_le
  have hs := rb.size.toNat_lt
  unfold RingBuffer.valid ringBufferValidSize
  simp only [ge_iff_le, UInt32.le_iff_toNat_le]
  split
  · rw [UInt32.toNat_sub]
    omega
  · rw [UInt32.toNat_sub, UInt32.toNat_add]
    omega

theorem RingBuffer.Wf.valid_le : rb.valid ≤ rb.size.toNat := by
  have h1 := h.write_le
  have h2 := h.read_le
  rw [h.valid_eq]
  split <;> omega

theorem RingBuffer.Wf.free_eq : rb.free = rb.size.toNat - rb.valid := by
  have h1 := h.valid_le
  have hs := rb.size.toNat_lt
  unfold RingBuffer.valid at *
  unfold RingBuffer.free ringBufferFreeSize
  rw [UInt32.toNat_sub]
  omega

theorem RingBuffer.Wf.length_unread : rb.unread.length = rb.valid :=
  length_window (by rw [h.buffer_length]; exact h.valid_le)

/-- Where the unread bytes end. -/
theorem RingBuffer.Wf.write_eq : rb.writeIdx.toNat = rb.readIdx.toNat + rb.valid ∨
    rb.writeIdx.toNat + rb.size.toNat = rb.readIdx.toNat + rb.valid := by
  have h1 := h.write_le
  have h2 := h.read_le
  rw [h.valid_eq]
  split <;> omega

theorem RingBuffer.Wf.read_add_valid_lt : rb.readIdx.toNat + rb.valid < 2 * rb.size.toNat := by
  have h1 := h.write_le
  have h2 := h.read_le
  have hp := h.size_pos
  rw [h.valid_eq]
  split <;> omega

end Sizes

theorem splitAtEnd_fst (endLeft n : UInt32) : (splitAtEnd endLeft n).1.toNat = min n.toNat endLeft.toNat := by
  unfold splitAtEnd
  simp only [ge_iff_le, UInt32.le_iff_toNat_le]
  split <;> simp <;> omega

theorem splitAtEnd_snd (endLeft n : UInt32) : (splitAtEnd endLeft n).2.toNat = n.toNat - endLeft.toNat := by
  unfold splitAtEnd
  simp only [ge_iff_le, UInt32.le_iff_toNat_le]
  split
  · simp; omega
  · rw [UInt32.toNat_sub]
    have := n.toNat_lt
    have := endLeft.toNat_lt
    omega

theorem splitAtEnd_sub {size idx n : UInt32} (h : idx.toNat ≤ size.toNat) :
    (splitAtEnd (size - idx) n).1.toNat = min n.toNat (size.toNat - idx.toNat) ∧
      (splitAtEnd (size - idx) n).2.toNat = n.toNat - (size.toNat - idx.toNat) := by
  have hend : (size - idx).toNat = size.toNat - idx.toNat := UInt32.toNat_sub_of_le _ _ h
  rw [splitAtEnd_fst, splitAtEnd_snd, hend]
  exact ⟨rfl, rfl⟩

theorem split_pieces (l : List UInt8) (endLeft n : UInt32) :
    (l.take n.toNat).take endLeft.toNat = l.take (splitAtEnd endLeft n).1.toNat ∧
    (l.take n.toNat).drop endLeft.toNat =
      (l.drop (splitAtEnd endLeft n).1.toNat).take (splitAtEnd endLeft n).2.toNat := by
  rw [splitAtEnd_fst, splitAtEnd_snd]
  refine ⟨by rw [List.take_take, Nat.min_comm], ?_⟩
  rw [List.drop_take]
  rcases Nat.le_total endLeft.toNat n.toNat with hle | hle
  · rw [Nat.min_eq_right hle]
  · rw [Nat.sub_eq_zero_of_le hle, List.take_zero, List.take_zero]

theorem toNat_eq_zero {x : UInt32} : x.toNat = 0 ↔ x = 0 := by
  rw [← UInt32.toNat_inj]
  rfl

/-! ### Writes -/

section Write

variable {rb : RingBuffer} {writeData : List UInt8} {writeSize : UInt32}

theorem write_of_free_lt (hn : rb.free < writeSize.toNat) : ringBufferWrite rb writeData writeSize = rb := by
  unfold ringBufferWrite
  rw [if_pos]
  exact UInt32.lt_iff_toNat_lt.mpr hn

theorem RingBuffer.Wf.write_accepted (h : rb.Wf) (writeData : List UInt8) (hn : writeSize.toNat ≤ rb.free) :
    (ringBufferWrite rb writeData writeSize).size = rb.size ∧
    (ringBufferWrite rb writeData writeSize).readIdx = rb.readIdx ∧
    (ringBufferWrite rb writeData writeSize).buffer =
      wrapCopy rb.buffer rb.writeIdx.toNat (writeData.take writeSize.toNat) ∧
    (ringBufferWrite rb writeData writeSize).writeIdx.toNat =
      if rb.writeIdx.toNat + writeSize.toNat ≤ rb.size.toNat then rb.writeIdx.toNat + writeSize.toNat
      else rb.writeIdx.toNat + writeSize.toNat - rb.size.toNat := by
  have h1 := h.write_le
  have hs := rb.size.toNat_lt
  have hend : (rb.size - rb.writeIdx).toNat = rb.size.toNat - rb.writeIdx.toNat := UInt32.toNat_sub_of_le _ _ h1
  obtain ⟨hf, hl⟩ := splitAtEnd_sub (n := writeSize) h1
  obtain ⟨htake, hdrop⟩ := split_pieces writeData (rb.size - rb.writeIdx) writeSize
  rw [hend] at htake hdrop
  have hnot : ¬ ringBufferFreeSize rb < writeSize := by
    rw [UInt32.lt_iff_toNat_lt]
    exact Nat.not_lt.mpr hn
  simp only [ringBufferWrite, if_neg hnot, wrapCopy, h.buffer_length, htake, hdrop]
  generalize splitAtEnd (rb.size - rb.writeIdx) writeSize = p at hf hl ⊢
  obtain ⟨sizeFirst, sizeLeft⟩ := p
  simp only at hf hl ⊢
  -- an empty copy is no copy, so the two guards change nothing but the write index
  by_cases hF : sizeFirst = 0 <;> by_cases hL : sizeLeft = 0
  · subst hF hL
    simp at hf hl ⊢
    split <;> omega
  · have := mt toNat_eq_zero.mp hL
    subst hF
    simp [hL] at hf hl ⊢
    split <;> omega
  · have := mt toNat_eq_zero.mp hF
    subst hL
    simp [hF, UInt32.toNat_add] at hf hl ⊢
    split <;> omega
  · have := mt toNat_eq_zero.mp hF
    have := mt toNat_eq_zero.mp hL
    simp [hF, hL] at hf hl ⊢
    split <;> omega

theorem RingBuffer.Wf.write (h : rb.Wf) (hd : writeSize.toNat ≤ writeData.length) :
    (ringBufferWrite rb writeData writeSize).Wf := by
  rcases Nat.lt_or_ge rb.free writeSize.toNat with hn | hn
  · rwa [write_of_free_lt hn]
  · obtain ⟨e1, e2, e3, e4⟩ := h.write_accepted writeData hn
    have h1 := h.write_le
    have hv := h.valid_le
    rw [h.free_eq] at hn
    refine ⟨e1 ▸ h.size_pos, ?_, e2 ▸ e1 ▸ h.read_le, ?_⟩
    · rw [e4, e1]
      split <;> omega
    · have hlen : (writeData.take writeSize.toNat).length = writeSize.toNat := by simp; omega
      rw [e3, e1, length_wrapCopy (by rw [h.buffer_length]; exact h1) (by rw [hlen, h.buffer_length]; omega),
        h.buffer_length]

/-- **How many bytes are unread after a write that is accepted**: none if it fills the ring from a read index other
than `0`, otherwise those of the write more than before. -/
theorem RingBuffer.Wf.valid_write (h : rb.Wf) (hd : writeSize.toNat ≤ writeData.length)
    (hn : writeSize.toNat ≤ rb.free) :
    (ringBufferWrite rb writeData writeSize).valid =
      if 0 < writeSize.toNat ∧ writeSize.toNat = rb.free ∧ 0 < rb.readIdx.toNat then 0
      else rb.valid + writeSize.toNat := by
  obtain ⟨e1, e2, -, e4⟩ := h.write_accepted writeData hn
  have h1 := h.write_le
  have h2 := h.read_le
  have hw := h.write hd
  rw [hw.valid_eq, e1, e2, e4, h.free_eq, h.valid_eq]
  rw [h.free_eq, h.valid_eq] at hn
  split at hn <;> split <;> split <;> split <;> omega

/-- **A write appends its bytes** to the unread ones. -/
theorem RingBuffer.Wf.unread_write (h : rb.Wf) (hd : writeSize.toNat ≤ writeData.length)
    (hn : writeSize.toNat ≤ rb.free) (hz : writeSize.toNat < rb.free ∨ rb.readIdx.toNat = 0) :
    (ringBufferWrite rb writeData writeSize).unread = rb.unread ++ writeData.take writeSize.toNat := by
  obtain ⟨e1, e2, e3, e4⟩ := h.write_accepted writeData hn
  have hlen : (writeData.take writeSize.toNat).length = writeSize.toNat := by simp; omega
  have hv := h.valid_le
  have hval := h.valid_write hd hn
  rw [if_neg (by omega)] at hval
  rw [h.free_eq] at hn
  unfold RingBuffer.unread
  have hbuf := h.buffer_length
  have hread : rb.readIdx.toNat ≤ rb.buffer.length := hbuf ▸ h.read_le
  have hwrite : rb.writeIdx.toNat ≤ rb.buffer.length := hbuf ▸ h.write_le
  have hfit : rb.valid + (writeData.take writeSize.toNat).length ≤ rb.buffer.length := by omega
  have := window_wrapCopy hread hwrite (hbuf ▸ h.write_eq) hfit
  rw [hval, e2, e3]
  rwa [hlen] at this

end Write

/-! ### Reads -/

section Read

variable {rb : RingBuffer} {readData : List UInt8} {off : ℕ} {readSize : UInt32} {updateIdx : UInt8}

theorem read_of_valid_lt (hn : rb.valid < readSize.toNat) :
    ringBufferRead rb readData off readSize updateIdx = (rb, readData) := by
  unfold ringBufferRead
  rw [if_pos]
  exact ringBufferValidSize_lt.mpr hn

/-- The read index, and nothing else, is replaced. -/
def RingBuffer.setReadIdx (rb : RingBuffer) (i : UInt32) : RingBuffer := { rb with readIdx := i }

theorem RingBuffer.Wf.read_accepted (h : rb.Wf) (updateIdx : UInt8) (hn : readSize.toNat ≤ rb.valid)
    (hoff : off + readSize.toNat ≤ readData.length) :
    ∃ i : UInt32, ringBufferRead rb readData off readSize updateIdx =
        (rb.setReadIdx i, memcpy readData off (rb.unread.take readSize.toNat)) ∧
      i.toNat = if updateIdx = 0 then rb.readIdx.toNat
        else if rb.readIdx.toNat + readSize.toNat ≤ rb.size.toNat then rb.readIdx.toNat + readSize.toNat
        else rb.readIdx.toNat + readSize.toNat - rb.size.toNat := by
  have h1 := h.read_le
  have hs := rb.size.toNat_lt
  have hv := h.valid_le
  have hbuf := h.buffer_length
  obtain ⟨hf, hl⟩ := splitAtEnd_sub (n := readSize) h1
  have hnot : ¬ ringBufferValidSize rb < readSize := by
    rw [ringBufferValidSize_lt]
    exact Nat.not_lt.mpr hn
  have hdata : rb.unread.take readSize.toNat =
      (rb.buffer.drop rb.readIdx.toNat).take (splitAtEnd (rb.size - rb.readIdx) readSize).1.toNat ++
        rb.buffer.take (splitAtEnd (rb.size - rb.readIdx) readSize).2.toNat := by
    unfold RingBuffer.unread
    rw [take_window _ _ hn, window_eq_append, hbuf, hl, hf]
    congr 1
    rw [List.take_eq_take_iff, List.length_drop]
    omega
  simp only [ringBufferRead, if_neg hnot, hdata]
  generalize splitAtEnd (rb.size - rb.readIdx) readSize = p at hf hl ⊢
  obtain ⟨sizeFirst, sizeLeft⟩ := p
  simp only at hf hl ⊢
  have hfirst : ((rb.buffer.drop rb.readIdx.toNat).take sizeFirst.toNat).length = sizeFirst.toNat := by
    simp; omega
  have hfit : off + ((rb.buffer.drop rb.readIdx.toNat).take sizeFirst.toNat).length +
      (rb.buffer.take sizeLeft.toNat).length ≤ readData.length := by
    rw [hfirst]
    simp
    omega
  have hboth := memcpy_memcpy hfit
  rw [hfirst] at hboth
  rw [← hboth]
  -- an empty copy is no copy, so the two guards decide on the read index only
  by_cases hU : updateIdx = 0
  · refine ⟨rb.readIdx, ?_, by rw [if_pos hU]⟩
    by_cases hF : sizeFirst = 0 <;> by_cases hL : sizeLeft = 0 <;> simp [hF, hL, hU, RingBuffer.setReadIdx]
  · rw [if_neg hU]
    by_cases hL : sizeLeft = 0
    · refine ⟨rb.readIdx + sizeFirst, ?_, ?_⟩
      · by_cases hF : sizeFirst = 0 <;> simp [hF, hL, hU, RingBuffer.setReadIdx]
      · subst hL
        simp [UInt32.toNat_add] at hl ⊢
        split <;> omega
    · have := mt toNat_eq_zero.mp hL
      refine ⟨sizeLeft, ?_, by split <;> omega⟩
      by_cases hF : sizeFirst = 0 <;> simp [hF, hL, hU, RingBuffer.setReadIdx]

/-! ### Moving the read index -/

/-- **Where the read index may go**: to a place `k` bytes on, in the circle, the ring stays well formed and its first
`k` unread bytes are gone — unless the write index rests at `size` and the read index at `0`, which makes an empty
ring look full. -/
theorem RingBuffer.Wf.setReadIdx (h : rb.Wf) {i : UInt32} {k : ℕ} (hk : k ≤ rb.valid) (hi : i.toNat ≤ rb.size.toNat)
    (hik : i.toNat = rb.readIdx.toNat + k ∨ i.toNat + rb.size.toNat = rb.readIdx.toNat + k)
    (hfull : rb.writeIdx.toNat = rb.size.toNat → k = rb.valid → i.toNat ≠ 0) :
    (rb.setReadIdx i).Wf ∧ (rb.setReadIdx i).valid = rb.valid - k ∧
      (rb.setReadIdx i).unread = rb.unread.drop k := by
  have hw : (rb.setReadIdx i).Wf := ⟨h.size_pos, h.write_le, hi, h.buffer_length⟩
  have h1 := h.write_le
  have h2 := h.read_le
  have hp := h.size_pos
  have hbuf := h.buffer_length
  have hval : (rb.setReadIdx i).valid = rb.valid - k := by
    have hv := h.valid_eq
    rw [hw.valid_eq]
    show (if i.toNat ≤ rb.writeIdx.toNat then rb.writeIdx.toNat - i.toNat
      else rb.size.toNat + rb.writeIdx.toNat - i.toNat) = _
    split at hv <;> split <;> omega
  refine ⟨hw, hval, ?_⟩
  unfold RingBuffer.unread
  rw [hval]
  exact (drop_window (hbuf ▸ h.valid_le) (hbuf ▸ h2) (hbuf ▸ hi) hk (hbuf ▸ hik)).symm

theorem RingBuffer.Wf.peek (h : rb.Wf) (hn : readSize.toNat ≤ rb.valid)
    (hoff : off + readSize.toNat ≤ readData.length) :
    ringBufferRead rb readData off readSize 0 = (rb, memcpy readData off (rb.unread.take readSize.toNat)) := by
  obtain ⟨i, hr, hi⟩ := h.read_accepted 0 hn hoff
  rw [if_pos rfl, UInt32.toNat_inj] at hi
  rw [hr, hi]
  rfl

theorem RingBuffer.Wf.consume (h : rb.Wf) (hu : updateIdx ≠ 0) (hn : readSize.toNat ≤ rb.valid)
    (hoff : off + readSize.toNat ≤ readData.length) :
    ∃ i : UInt32, ringBufferRead rb readData off readSize updateIdx =
        (rb.setReadIdx i, memcpy readData off (rb.unread.take readSize.toNat)) ∧
      (rb.setReadIdx i).Wf ∧ (rb.setReadIdx i).valid = rb.valid - readSize.toNat ∧
      (rb.setReadIdx i).unread = rb.unread.drop readSize.toNat := by
  obtain ⟨i, hr, hi⟩ := h.read_accepted updateIdx hn hoff
  rw [if_neg hu] at hi
  have h1 := h.read_le
  have hv := h.valid_le
  have hp := h.size_pos
  have hw := h.write_eq
  refine ⟨i, hr, h.setReadIdx hn ?_ ?_ ?_⟩
  · split at hi <;> omega
  · split at hi <;> omega
  · intro hend hall
    split at hi <;> omega

theorem RingBuffer.Wf.skip_idx (h : rb.Wf) {k : UInt8} (hk : k.toNat ≤ rb.valid)
    (hover : rb.readIdx.toNat + k.toNat < 2 ^ 32) :
    (ringBufferUpdateReadIdx rb k).readIdx.toNat =
      if rb.readIdx.toNat + k.toNat < rb.size.toNat then rb.readIdx.toNat + k.toNat
      else rb.readIdx.toNat + k.toNat - rb.size.toNat := by
  have hlt := h.read_add_valid_lt
  simp only [ringBufferUpdateReadIdx, UInt32.toNat_mod, UInt32.toNat_add, UInt8.toNat_toUInt32,
    Nat.mod_eq_of_lt hover]
  split
  · rw [Nat.mod_eq_of_lt (by omega)]
  · rw [Nat.mod_eq_sub_mod (by omega), Nat.mod_eq_of_lt (by omega)]

/-- **A skip drops the first unread bytes**, unless it drops all of them while the write index rests at `size`. -/
theorem RingBuffer.Wf.skip (h : rb.Wf) {k : UInt8} (hk : k.toNat ≤ rb.valid)
    (hover : rb.readIdx.toNat + k.toNat < 2 ^ 32)
    (hend : rb.writeIdx.toNat = rb.size.toNat → k.toNat ≠ rb.valid) :
    (ringBufferUpdateReadIdx rb k).Wf ∧ (ringBufferUpdateReadIdx rb k).valid = rb.valid - k.toNat ∧
      (ringBufferUpdateReadIdx rb k).unread = rb.unread.drop k.toNat := by
  have hi := h.skip_idx hk hover
  have h1 := h.read_le
  have hv := h.valid_le
  have hp := h.size_pos
  refine h.setReadIdx hk ?_ ?_ ?_
  · show (ringBufferUpdateReadIdx rb k).readIdx.toNat ≤ _
    split at hi <;> omega
  · show (ringBufferUpdateReadIdx rb k).readIdx.toNat = _ ∨ (ringBufferUpdateReadIdx rb k).readIdx.toNat + _ = _
    split at hi <;> omega
  · intro he ha
    exact absurd ha (hend he)

end Read

/-! ### Every call -/

theorem RingBuffer.Wf.updateReadIdx {rb : RingBuffer} (h : rb.Wf) (k : UInt8) : (ringBufferUpdateReadIdx rb k).Wf := by
  refine ⟨h.size_pos, h.write_le, ?_, h.buffer_length⟩
  simp only [ringBufferUpdateReadIdx, UInt32.toNat_mod]
  exact (Nat.mod_lt _ h.size_pos).le

theorem RingBuffer.Wf.read {rb : RingBuffer} (h : rb.Wf) {readData : List UInt8} {off : ℕ} {n : UInt32} {u : UInt8}
    (hoff : off + n.toNat ≤ readData.length) : (ringBufferRead rb readData off n u).1.Wf := by
  rcases Nat.lt_or_ge rb.valid n.toNat with hn | hn
  · rwa [read_of_valid_lt hn]
  · by_cases hu : u = 0
    · rwa [hu, h.peek hn hoff]
    · obtain ⟨i, hr, hw, -⟩ := h.consume hu hn hoff
      rwa [hr]

theorem RingBuffer.Wf.exec {rb : RingBuffer} (h : rb.Wf) (op : RingOp) : (op.exec rb).1.Wf := by
  cases op with
  | write c => exact h.write (by simp)
  | read d n u fits => exact h.read (by simpa using fits)
  | updateReadIdx k => exact h.updateReadIdx k

/-- Every ring reached from `ring_buffer_init` is well formed. -/
theorem RingBuffer.Wf.execAll {rb : RingBuffer} (h : rb.Wf) (ops : List RingOp) : (execAll rb ops).Wf :=
  List.foldlRecOn ops _ h fun _ hb op _ => hb.exec op

@[simp] theorem size_write (rb : RingBuffer) (d : List UInt8) (n : UInt32) :
    (ringBufferWrite rb d n).size = rb.size := by
  unfold ringBufferWrite
  generalize splitAtEnd (rb.size - rb.writeIdx) n = p
  dsimp only
  split_ifs <;> rfl

@[simp] theorem size_updateReadIdx (rb : RingBuffer) (k : UInt8) : (ringBufferUpdateReadIdx rb k).size = rb.size := rfl

@[simp] theorem size_read (rb : RingBuffer) (d : List UInt8) (off : ℕ) (n : UInt32) (u : UInt8) :
    (ringBufferRead rb d off n u).1.size = rb.size := by
  unfold ringBufferRead
  generalize splitAtEnd (rb.size - rb.readIdx) n = p
  dsimp only
  split_ifs <;> rfl

@[simp] theorem size_exec (rb : RingBuffer) (op : RingOp) : (op.exec rb).1.size = rb.size := by
  cases op with
  | write c => exact size_write rb c.1 c.size
  | read d n u fits => exact size_read rb d 0 n u
  | updateReadIdx k => rfl

@[simp] theorem size_execAll (rb : RingBuffer) (ops : List RingOp) : (execAll rb ops).size = rb.size :=
  List.foldlRecOn (motive := fun r : RingBuffer => r.size = rb.size) ops _ rfl fun r h op _ => (size_exec r op).trans h

end Fr8012haLock.Buffer
