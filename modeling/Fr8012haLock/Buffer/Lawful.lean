import Fr8012haLock.Buffer.Queue

/-!
# What the parsers rely on

`LawfulRing` is the part of the behaviour of a ring that the two protocol parsers use: it reports how many bytes are
unread, hands out the first of them, and drops them.  The queue of bytes satisfies it.  The ring buffer does so too
if its indices are far from `2 ^ 32`, except that a skip must not drop everything while the write index rests at
`size` (`AtEnd`).
-/

namespace Fr8012haLock.Buffer

open Cyclic

/-- A ring that keeps unread bytes, and hands them out in order. -/
class LawfulRing (R : Type) extends ByteRing R where
  Wf : R → Prop
  unread : R → List UInt8
  /-- The state in which a skip of everything goes wrong. -/
  AtEnd : R → Prop
  validSize_toNat : ∀ {r : R}, Wf r → (validSize r).toNat = (unread r).length
  peek : ∀ {r : R} {d : List UInt8} {off : ℕ} {n : UInt32}, Wf r → n.toNat ≤ (unread r).length →
    off + n.toNat ≤ d.length → read r d off n 0 = (r, memcpy d off ((unread r).take n.toNat))
  consume : ∀ {r : R} {d : List UInt8} {off : ℕ} {n : UInt32} {u : UInt8}, Wf r → u ≠ 0 →
    n.toNat ≤ (unread r).length → off + n.toNat ≤ d.length →
    ∃ r', read r d off n u = (r', memcpy d off ((unread r).take n.toNat)) ∧ Wf r' ∧
      unread r' = (unread r).drop n.toNat
  skip : ∀ {r : R} {k : UInt8}, Wf r → k.toNat ≤ (unread r).length → (AtEnd r → k.toNat ≠ (unread r).length) →
    Wf (updateReadIdx r k) ∧ unread (updateReadIdx r k) = (unread r).drop k.toNat ∧
      (AtEnd (updateReadIdx r k) ↔ AtEnd r)
  write_wf : ∀ {r : R} {d : List UInt8} {n : UInt32}, Wf r → n.toNat ≤ d.length → Wf (write r d n)
  skip_wf : ∀ {r : R} (k : UInt8), Wf r → Wf (updateReadIdx r k)

/-- The indices of the ring are so far from `2 ^ 32` that no skip wraps in 32 bits. -/
def RingBuffer.Small (rb : RingBuffer) : Prop := rb.size.toNat + 255 < 2 ^ 32

instance : LawfulRing RingBuffer where
  Wf rb := rb.Wf ∧ rb.Small
  unread := RingBuffer.unread
  AtEnd rb := rb.writeIdx = rb.size
  validSize_toNat h := h.1.length_unread.symm
  peek h hn hoff := h.1.peek (h.1.length_unread ▸ hn) hoff
  consume h hu hn hoff := by
    obtain ⟨i, hr, hw, -, hun⟩ := h.1.consume hu (h.1.length_unread ▸ hn) hoff
    exact ⟨_, hr, ⟨hw, h.2⟩, hun⟩
  skip := by
    intro rb k h hk hend
    rw [h.1.length_unread] at hk hend
    have h1 := h.1.read_le
    have h2 : rb.size.toNat + 255 < 2 ^ 32 := h.2
    have hk8 := k.toNat_lt
    obtain ⟨hw, -, hun⟩ := h.1.skip hk (by omega) fun he => hend (UInt32.toNat_inj.mp he)
    exact ⟨⟨hw, h.2⟩, hun, Iff.rfl⟩
  write_wf := by
    intro rb d n h hn
    refine ⟨h.1.write hn, ?_⟩
    have hsize : (ringBufferWrite rb d n).size = rb.size := size_write rb d n
    exact (congrArg (fun m : UInt32 => m.toNat + 255 < 2 ^ 32) hsize).mpr h.2
  skip_wf k h := ⟨h.1.updateReadIdx k, h.2⟩

theorem lawful_execAll {cap : UInt32} (hcap : 0 < cap.toNat) (hsmall : cap.toNat + 255 < 2 ^ 32)
    (mem : Vector UInt8 cap.toNat) (ops : List RingOp) :
    LawfulRing.Wf (execAll (ringBufferInit cap mem) ops) := by
  refine ⟨(ringBufferInit_wf hcap mem).execAll ops, ?_⟩
  unfold RingBuffer.Small
  rw [size_execAll]
  exact hsmall

instance {cap : UInt32} : LawfulRing (ByteQueue cap) where
  Wf _ := True
  unread := ByteQueue.bytes
  AtEnd _ := False
  validSize_toNat := by
    intro q _
    have := q.fits
    have := cap.toNat_lt
    show (UInt32.ofNat q.bytes.length).toNat = _
    rw [UInt32.toNat_ofNat']
    omega
  peek := by
    intro q d off n _ hn _
    show ByteQueue.read q d off n 0 = _
    simp [ByteQueue.read, hn]
  consume := by
    intro q d off n u _ hu hn _
    refine ⟨q.drop n.toNat, ?_, trivial, rfl⟩
    show ByteQueue.read q d off n u = _
    simp [ByteQueue.read, hn, hu]
  skip _ _ _ := ⟨trivial, rfl, Iff.rfl⟩
  write_wf _ _ := trivial
  skip_wf _ _ := trivial

/-! ### A ring and the queue it represents -/

section Represents

variable {cap : UInt32} {rb : RingBuffer} {q : ByteQueue cap}

theorem Represents.lawful (h : Represents rb q) (hsmall : cap.toNat + 255 < 2 ^ 32) : LawfulRing.Wf rb := by
  refine ⟨h.wf, ?_⟩
  unfold RingBuffer.Small
  rwa [h.size]

theorem Represents.validSize_eq (h : Represents rb q) : ByteRing.validSize rb = ByteRing.validSize q := by
  apply UInt32.toNat_inj.mp
  rw [LawfulRing.validSize_toNat (r := q) trivial]
  exact h.valid

/-- A skip drops the same bytes of both, unless it drops all of them while the write index rests at `size`. -/
theorem Represents.skip (h : Represents rb q) (hsmall : cap.toNat + 255 < 2 ^ 32) {k : UInt8}
    (hk : k.toNat ≤ q.bytes.length) (hend : rb.writeIdx = rb.size → k.toNat ≠ q.bytes.length) :
    Represents (ringBufferUpdateReadIdx rb k) (ByteRing.updateReadIdx q k) := by
  have hq : LawfulRing.unread rb = q.bytes := h.unread
  rw [← hq] at hk hend
  obtain ⟨hw, hun, -⟩ := LawfulRing.skip (h.lawful hsmall) hk hend
  rw [hq] at hun
  exact ⟨hw.1, h.size, hun⟩

end Represents

end Fr8012haLock.Buffer
