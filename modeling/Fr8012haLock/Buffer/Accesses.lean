import Fr8012haLock.Buffer.Spec

/-!
# Where the ring is accessed

A write or a read is at most two copies.  `ringBufferWriteCopies` and `ringBufferReadCopies` are the `memcpy`s that the
two functions call, with their arguments; to make them is what the functions do (`buffer_write`, `readData_read`).  In
every state that calls can reach they stay inside the storage, and the two of one call do not overlap
(`ring_accesses_in_range`).
-/

namespace Fr8012haLock.Buffer

open Cyclic

/-- The arguments of a `memcpy` between the storage of a ring and an array of the caller: where it begins in both, and
how many bytes it copies. -/
structure Copy where
  storage : ℕ
  array : ℕ
  size : ℕ
  deriving DecidableEq, Repr

/-- The indices of the storage that a copy accesses. -/
def Copy.storageIndices (c : Copy) : List ℕ := List.range' c.storage c.size

/-- The indices of the array that a copy accesses. -/
def Copy.arrayIndices (c : Copy) : List ℕ := List.range' c.array c.size

/-- The copies of `n` bytes between the storage from `idx` on and an array from `off` on, unless fewer bytes are
`available`. -/
def ringCopies (size available idx : UInt32) (off : ℕ) (n : UInt32) : List Copy :=
  let endLeft := size - idx
  if available < n then []
  else
    let (sizeFirst, sizeLeft) := splitAtEnd endLeft n
    (if sizeFirst ≠ 0 then [⟨idx.toNat, off, sizeFirst.toNat⟩] else []) ++
      if sizeLeft ≠ 0 then [⟨0, off + sizeFirst.toNat, sizeLeft.toNat⟩] else []

/-- The copies of `ring_buffer_write`, from `write_data`. -/
def ringBufferWriteCopies (rb : RingBuffer) (writeSize : UInt32) : List Copy :=
  ringCopies rb.size (ringBufferFreeSize rb) rb.writeIdx 0 writeSize

/-- The copies of `ring_buffer_read`, into the array that `read_data` points into at `off`. -/
def ringBufferReadCopies (rb : RingBuffer) (off : ℕ) (readSize : UInt32) : List Copy :=
  ringCopies rb.size (ringBufferValidSize rb) rb.readIdx off readSize

example : ringBufferReadCopies ⟨4, 1, 3, [0, 0, 0, 0]⟩ 7 2 = [⟨3, 7, 1⟩, ⟨0, 8, 1⟩] := by decide

/-- A copy into the storage. -/
def Copy.intoStorage (c : Copy) (array buffer : List UInt8) : List UInt8 :=
  memcpy buffer c.storage ((array.drop c.array).take c.size)

/-- A copy out of the storage. -/
def Copy.intoArray (c : Copy) (buffer array : List UInt8) : List UInt8 :=
  memcpy array c.array ((buffer.drop c.storage).take c.size)

/-- **A write makes its copies**, one after the other. -/
theorem buffer_write (rb : RingBuffer) (writeData : List UInt8) (writeSize : UInt32) :
    (ringBufferWrite rb writeData writeSize).buffer =
      (ringBufferWriteCopies rb writeSize).foldl (fun buffer c => c.intoStorage writeData buffer) rb.buffer := by
  simp only [ringBufferWrite, ringBufferWriteCopies, ringCopies]
  generalize splitAtEnd (rb.size - rb.writeIdx) writeSize = p
  obtain ⟨sizeFirst, sizeLeft⟩ := p
  split
  · rfl
  · by_cases hF : sizeFirst = 0 <;> by_cases hL : sizeLeft = 0 <;> simp [hF, hL, Copy.intoStorage]

theorem readData_read (rb : RingBuffer) (readData : List UInt8) (off : ℕ) (readSize : UInt32) (updateIdx : UInt8) :
    (ringBufferRead rb readData off readSize updateIdx).2 =
      (ringBufferReadCopies rb off readSize).foldl (fun array c => c.intoArray rb.buffer array) readData := by
  simp only [ringBufferRead, ringBufferReadCopies, ringCopies]
  generalize splitAtEnd (rb.size - rb.readIdx) readSize = p
  obtain ⟨sizeFirst, sizeLeft⟩ := p
  split
  · rfl
  · by_cases hF : sizeFirst = 0 <;> by_cases hL : sizeLeft = 0 <;> by_cases hu : updateIdx = 0 <;>
      simp [hF, hL, hu, Copy.intoArray]

/-! ### Bounds -/

section

variable {size available idx n : UInt32} {off : ℕ} {c : Copy}

theorem mem_ringCopies (hidx : idx.toNat ≤ size.toNat) (hc : c ∈ ringCopies size available idx off n) :
    n.toNat ≤ available.toNat ∧
      (c = ⟨idx.toNat, off, min n.toNat (size.toNat - idx.toNat)⟩ ∨
        c = ⟨0, off + (size.toNat - idx.toNat), n.toNat - (size.toNat - idx.toNat)⟩ ∧
          size.toNat - idx.toNat < n.toNat) := by
  obtain ⟨hf, hl⟩ := splitAtEnd_sub (n := n) hidx
  simp only [ringCopies] at hc
  generalize splitAtEnd (size - idx) n = p at hc hf hl
  split at hc
  · cases hc
  · rename_i hn
    rw [UInt32.lt_iff_toNat_lt, Nat.not_lt] at hn
    refine ⟨hn, ?_⟩
    rcases List.mem_append.mp hc with hc | hc
    · split at hc
      · left
        rw [List.mem_singleton.mp hc, hf]
      · cases hc
    · split at hc
      · rename_i hne
        have hpos := mt toNat_eq_zero.mp hne
        right
        rw [List.mem_singleton.mp hc, hf, hl, Nat.min_eq_right (by omega)]
        exact ⟨rfl, by omega⟩
      · cases hc

theorem array_of_mem_ringCopies (hidx : idx.toNat ≤ size.toNat) (hc : c ∈ ringCopies size available idx off n) :
    off ≤ c.array ∧ c.array + c.size ≤ off + n.toNat := by
  obtain ⟨-, rfl | ⟨rfl, hlt⟩⟩ := mem_ringCopies hidx hc
  · dsimp only
    omega
  · dsimp only
    omega

/-- Copies that stay inside a storage of `N` bytes, and do not overlap in it. -/
structure Apart (N : ℕ) (cs : List Copy) : Prop where
  inside : ∀ c ∈ cs, ∀ i ∈ c.storageIndices, i < N
  disjoint : cs.Pairwise fun c c' => c.storageIndices.Disjoint c'.storageIndices

/-- **The copies of a call are apart**, if the index and the bytes available are at most the size. -/
theorem apart_ringCopies (hidx : idx.toNat ≤ size.toNat) (hav : available.toNat ≤ size.toNat) :
    Apart size.toNat (ringCopies size available idx off n) where
  inside := by
    intro c hc i hi
    rw [Copy.storageIndices, List.mem_range'_1] at hi
    obtain ⟨hn, rfl | ⟨rfl, hlt⟩⟩ := mem_ringCopies hidx hc
    · dsimp only at hi
      omega
    · dsimp only at hi
      omega
  disjoint := by
    have hl := (splitAtEnd_sub (n := n) hidx).2
    simp only [ringCopies]
    generalize splitAtEnd (size - idx) n = p at hl
    split
    · exact List.Pairwise.nil
    · rename_i hn
      rw [UInt32.lt_iff_toNat_lt, Nat.not_lt] at hn
      refine List.pairwise_append.mpr ⟨?_, ?_, ?_⟩
      · split <;> simp
      · split <;> simp
      · -- the second copy ends before the first begins
        intro c hc c' hc' i hi hi'
        split at hc
        · split at hc'
          · rw [List.mem_singleton.mp hc, Copy.storageIndices, List.mem_range'_1] at hi
            rw [List.mem_singleton.mp hc', Copy.storageIndices, List.mem_range'_1] at hi'
            dsimp only at hi hi'
            omega
          · cases hc'
        · cases hc

end

/-- **The ring is accessed in range.**  In every state that calls on a ring of any size can reach, both indices are at
most the size, as many bytes are unread and free as the ring has, and the copies of a write and of a read of any size
stay inside the storage, where those of one call do not overlap. -/
theorem ring_accesses_in_range (cap : UInt32) (hcap : 0 < cap.toNat) (mem : Vector UInt8 cap.toNat)
    (ops : List RingOp) :
    let rb := execAll (ringBufferInit cap mem) ops
    rb.writeIdx ≤ cap ∧ rb.readIdx ≤ cap ∧ ringBufferValidSize rb ≤ cap ∧
      (ringBufferFreeSize rb).toNat + (ringBufferValidSize rb).toNat = cap.toNat ∧
      ∀ n off, Apart cap.toNat (ringBufferWriteCopies rb n) ∧ Apart cap.toNat (ringBufferReadCopies rb off n) := by
  intro rb
  have h : rb.Wf := (ringBufferInit_wf hcap mem).execAll ops
  have hsize : rb.size = cap := size_execAll ..
  have hvalid : (ringBufferValidSize rb).toNat ≤ rb.size.toNat := h.valid_le
  have hfree : (ringBufferFreeSize rb).toNat = rb.size.toNat - (ringBufferValidSize rb).toNat := h.free_eq
  rw [← hsize]
  refine ⟨UInt32.le_iff_toNat_le.mpr h.write_le, UInt32.le_iff_toNat_le.mpr h.read_le,
    UInt32.le_iff_toNat_le.mpr hvalid, by omega, ?_⟩
  intro n off
  exact ⟨apart_ringCopies h.write_le (by omega), apart_ringCopies h.read_le hvalid⟩

/-- A ring of four, after a skip of more bytes than are unread: its indices are out of order. -/
theorem ring_accesses_in_range_four :
    let rb := execAll (ringBufferInit 4 ⟨#[0, 0, 0, 0], rfl⟩) [.write ⟨[1, 2], by decide⟩, .updateReadIdx 3]
    rb.writeIdx ≤ 4 ∧ rb.readIdx ≤ 4 ∧ ringBufferValidSize rb ≤ 4 ∧
      (ringBufferFreeSize rb).toNat + (ringBufferValidSize rb).toNat = 4 ∧
      ∀ n off, Apart 4 (ringBufferWriteCopies rb n) ∧ Apart 4 (ringBufferReadCopies rb off n) :=
  ring_accesses_in_range 4 (by decide) ⟨#[0, 0, 0, 0], rfl⟩ [.write ⟨[1, 2], by decide⟩, .updateReadIdx 3]

end Fr8012haLock.Buffer
