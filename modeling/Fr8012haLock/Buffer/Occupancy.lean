import Fr8012haLock.Buffer.Queue

/-!
# Where the occupancy of the ring goes wrong

`write_idx = read_idx` stands for the empty ring, and `write_idx = size`, `read_idx = 0` for the full one.  Two calls
reach the wrong one of the two: a write that fills the ring from a read index other than `0` ends with equal indices
(`valid_write_iff`), and a skip of everything with the write index at `size` reduces the read index to `0`
(`skip_agrees_iff`).
-/

namespace Fr8012haLock.Buffer

/-- **A write that is accepted counts its bytes exactly when** it has none, leaves a byte free, or the read index
is `0`.  This is so in every state that calls on the ring can reach. -/
theorem valid_write_iff (cap : UInt32) (hcap : 0 < cap.toNat) (mem : Vector UInt8 cap.toNat) (ops : List RingOp)
    (c : Chunk) (hn : c.size.toNat ≤ (execAll (ringBufferInit cap mem) ops).free) :
    let rb := execAll (ringBufferInit cap mem) ops
    let rb' := ringBufferWrite rb c.1 c.size
    (rb'.valid = rb.valid + c.1.length ∧ rb'.free = rb.free - c.1.length) ↔
      c.1.length = 0 ∨ c.1.length < rb.free ∨ rb.readIdx = 0 := by
  intro rb rb'
  have h : rb.Wf := (ringBufferInit_wf hcap mem).execAll ops
  have hw : rb'.Wf := h.write (by simp)
  have hv : rb'.valid = _ := h.valid_write (show c.size.toNat ≤ c.1.length by simp) hn
  have hz : rb.readIdx = 0 ↔ rb.readIdx.toNat = 0 := toNat_eq_zero.symm
  have hle := h.valid_le
  have hsize : rb'.size = rb.size := size_write ..
  rw [hw.free_eq, hsize, hv, hz]
  change c.size.toNat ≤ rb.free at hn
  have hfree := h.free_eq
  have hlen := c.size_toNat
  split <;> omega

/-- Two bytes written and read, and the ring of four filled from there: the four bytes are gone. -/
theorem full_ring_looks_empty :
    let rb := execAll (ringBufferInit 4 ⟨#[0, 0, 0, 0], rfl⟩)
      [.write ⟨[1, 2], by decide⟩, .read [0, 0] 2 1 (by decide)]
    let rb' := ringBufferWrite rb [3, 4, 5, 6] 4
    rb.valid = 0 ∧ rb.free = 4 ∧ rb'.valid = 0 ∧ rb'.free = 4 := by
  decide

theorem valid_write_iff_four :
    let rb := execAll (ringBufferInit 4 ⟨#[0, 0, 0, 0], rfl⟩) [.write ⟨[1, 2], by decide⟩]
    let rb' := ringBufferWrite rb [3, 4] 2
    (rb'.valid = rb.valid + 2 ∧ rb'.free = rb.free - 2) ↔ 2 = 0 ∨ 2 < rb.free ∨ rb.readIdx = 0 :=
  valid_write_iff 4 (by decide) ⟨#[0, 0, 0, 0], rfl⟩ [.write ⟨[1, 2], by decide⟩] ⟨[3, 4], by decide⟩ (by decide)

theorem RingBuffer.Wf.skip_idx_wrapped {rb : RingBuffer} (h : rb.Wf) {k : UInt8}
    (hover : 2 ^ 32 ≤ rb.readIdx.toNat + k.toNat) :
    (ringBufferUpdateReadIdx rb k).readIdx.toNat = rb.readIdx.toNat + k.toNat - 2 ^ 32 := by
  have h1 := h.read_le
  have hN := rb.size.toNat_lt
  have hk8 := k.toNat_lt
  have hmod : (rb.readIdx.toNat + k.toNat) % 2 ^ 32 = rb.readIdx.toNat + k.toNat - 2 ^ 32 := by omega
  simp only [ringBufferUpdateReadIdx, UInt32.toNat_mod, UInt32.toNat_add, UInt8.toNat_toUInt32, hmod]
  exact Nat.mod_eq_of_lt (by omega)

theorem RingBuffer.Wf.valid_updateReadIdx {rb : RingBuffer} (h : rb.Wf) (k : UInt8) :
    (ringBufferUpdateReadIdx rb k).valid =
      if (ringBufferUpdateReadIdx rb k).readIdx.toNat ≤ rb.writeIdx.toNat
      then rb.writeIdx.toNat - (ringBufferUpdateReadIdx rb k).readIdx.toNat
      else rb.size.toNat + rb.writeIdx.toNat - (ringBufferUpdateReadIdx rb k).readIdx.toNat :=
  (h.updateReadIdx k).valid_eq

/-- A skip of everything with the write index at `size` takes the read index to `0`: all of the ring is unread. -/
theorem RingBuffer.Wf.valid_skip_end {rb : RingBuffer} (h : rb.Wf) {k : UInt8} (hk : k.toNat = rb.valid)
    (hover : rb.readIdx.toNat + k.toNat < 2 ^ 32) (hend : rb.writeIdx.toNat = rb.size.toNat) :
    (ringBufferUpdateReadIdx rb k).valid = rb.size.toNat := by
  have h1 := h.read_le
  have hv := h.valid_eq
  rw [if_pos (by omega)] at hv
  have hi := h.skip_idx hk.le hover
  rw [if_neg (by omega)] at hi
  rw [h.valid_updateReadIdx, if_pos (by omega)]
  omega

theorem RingBuffer.Wf.valid_skip_iff {rb : RingBuffer} (h : rb.Wf) {k : UInt8} (hk0 : 1 ≤ k.toNat)
    (hk : k.toNat ≤ rb.valid) :
    (ringBufferUpdateReadIdx rb k).valid = rb.valid - k.toNat ↔
      ¬ (rb.writeIdx = rb.size ∧ k.toNat = rb.valid) ∧ rb.readIdx.toNat + k.toNat < 2 ^ 32 := by
  have h1 := h.read_le
  have h2 := h.write_le
  have hp := h.size_pos
  have hve := h.valid_eq
  have hidx : rb.writeIdx = rb.size ↔ rb.writeIdx.toNat = rb.size.toNat := UInt32.toNat_inj.symm
  rw [hidx]
  constructor
  · intro hval
    rcases Nat.lt_or_ge (rb.readIdx.toNat + k.toNat) (2 ^ 32) with hover | hover
    · refine ⟨?_, hover⟩
      rintro ⟨hwe, hall⟩
      rw [h.valid_skip_end hall hover hwe] at hval
      omega
    · -- the wrapped read index is too small
      have hsv := h.valid_updateReadIdx k
      rw [hval, h.skip_idx_wrapped hover] at hsv
      have hN := rb.size.toNat_lt
      split at hve <;> split at hsv <;> omega
  · rintro ⟨hend, hover⟩
    exact (h.skip hk hover fun hwe hall => hend ⟨hwe, hall⟩).2.1

/-- **Skipping agrees with reading exactly when** the skip does not drop everything with the write index at `size`,
and the read index does not wrap in 32 bits.  This is so in every state that calls on the ring can reach. -/
theorem skip_agrees_iff (cap : UInt32) (hcap : 0 < cap.toNat) (mem : Vector UInt8 cap.toNat) (ops : List RingOp)
    (k : UInt8) (hk0 : 1 ≤ k.toNat) (hk : k.toNat ≤ (execAll (ringBufferInit cap mem) ops).valid)
    (out : List UInt8) (hout : k.toNat ≤ out.length) :
    let rb := execAll (ringBufferInit cap mem) ops
    let skipped := ringBufferUpdateReadIdx rb k
    let consumed := (ringBufferRead rb out 0 k.toUInt32 1).1
    (skipped.valid = consumed.valid ∧ skipped.free = consumed.free ∧ skipped.unread = consumed.unread) ↔
      ¬ (rb.writeIdx = rb.size ∧ k.toNat = rb.valid) ∧ rb.readIdx.toNat + k.toNat < 2 ^ 32 := by
  intro rb skipped consumed
  have h : rb.Wf := (ringBufferInit_wf hcap mem).execAll ops
  change k.toNat ≤ rb.valid at hk
  have hks : k.toUInt32.toNat = k.toNat := UInt8.toNat_toUInt32 k
  obtain ⟨i, hr, hcw, hcv, hcu⟩ := h.consume (show (1 : UInt8) ≠ 0 by decide)
    (show k.toUInt32.toNat ≤ rb.valid by omega) (show 0 + k.toUInt32.toNat ≤ out.length by omega)
  have hc : consumed = rb.setReadIdx i := by
    show (ringBufferRead rb out 0 k.toUInt32 1).1 = _
    rw [hr]
  rw [hks] at hcv hcu
  rw [← h.valid_skip_iff hk0 hk, hc, hcv, hcu]
  constructor
  · rintro ⟨hval, -, -⟩
    exact hval
  · intro hval
    obtain ⟨hend, hover⟩ := (h.valid_skip_iff hk0 hk).mp hval
    refine ⟨hval, ?_, (h.skip hk hover fun hwe hall => hend ⟨UInt32.toNat_inj.mp hwe, hall⟩).2.2⟩
    have hsize : skipped.size = (rb.setReadIdx i).size := size_updateReadIdx ..
    rw [(h.updateReadIdx k).free_eq, hcw.free_eq, hcv, hval, hsize]

theorem skip_agrees_iff_four :
    let rb := execAll (ringBufferInit 4 ⟨#[0, 0, 0, 0], rfl⟩) [.write ⟨[1, 2, 3], by decide⟩]
    let skipped := ringBufferUpdateReadIdx rb 2
    let consumed := (ringBufferRead rb [0, 0] 0 2 1).1
    (skipped.valid = consumed.valid ∧ skipped.free = consumed.free ∧ skipped.unread = consumed.unread) ↔
      ¬ (rb.writeIdx = rb.size ∧ 2 = rb.valid) ∧ rb.readIdx.toNat + 2 < 2 ^ 32 :=
  skip_agrees_iff 4 (by decide) ⟨#[0, 0, 0, 0], rfl⟩ [.write ⟨[1, 2, 3], by decide⟩] 2 (by decide) (by decide)
    [0, 0] (by decide)

/-- Two bytes at the end of a ring of four: skipping them leaves four unread bytes, reading them none. -/
theorem skipped_ring_looks_full :
    let rb := execAll (ringBufferInit 4 ⟨#[0, 0, 0, 0], rfl⟩)
      [.write ⟨[1, 2, 3], by decide⟩, .read [0, 0] 2 1 (by decide), .write ⟨[4], by decide⟩]
    rb.valid = 2 ∧ (ringBufferUpdateReadIdx rb 2).valid = 4 ∧ (ringBufferRead rb [0, 0] 0 2 1).1.valid = 0 := by
  decide

end Fr8012haLock.Buffer
