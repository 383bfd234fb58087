import Fr8012haLock.Buffer.Spec
import Fr8012haLock.Lib.Runs

/-!
# The ring buffer as a queue of bytes

`ByteQueue cap` is what a ring of `cap` bytes is for: a first-in first-out queue of at most so many bytes, with the
ring's own calls.  `ring_refines_queue` is the refinement: as long as every accepted write leaves a byte free, the
ring and the queue report the same sizes and hand out the same bytes, wherever the indices are.
-/

namespace Fr8012haLock.Buffer

open Cyclic Runs

/-- A first-in first-out queue of at most `cap` bytes. -/
structure ByteQueue (cap : UInt32) where
  bytes : List UInt8
  fits : bytes.length ≤ cap.toNat

namespace ByteQueue

variable {cap : UInt32}

@[ext] theorem ext {q₁ q₂ : ByteQueue cap} (h : q₁.bytes = q₂.bytes) : q₁ = q₂ := by
  cases q₁
  cases q₂
  simpa using h

/-- The empty queue. -/
def empty (cap : UInt32) : ByteQueue cap := ⟨[], Nat.zero_le _⟩

/-- The room that is left. -/
def room (q : ByteQueue cap) : ℕ := cap.toNat - q.bytes.length

/-- A write appends its bytes if there is room for all of them. -/
def write (q : ByteQueue cap) (writeData : List UInt8) (writeSize : UInt32) : ByteQueue cap :=
  if h : writeSize.toNat ≤ q.room then
    ⟨q.bytes ++ writeData.take writeSize.toNat, by
      have := q.fits
      unfold room at h
      simp
      omega⟩
  else q

/-- The first bytes are gone. -/
def drop (q : ByteQueue cap) (n : ℕ) : ByteQueue cap := ⟨q.bytes.drop n, by have := q.fits; simp; omega⟩

/-- A read of no more bytes than there are copies the first of them, and removes them if it is asked to. -/
def read (q : ByteQueue cap) (readData : List UInt8) (off : ℕ) (readSize : UInt32) (updateIdx : UInt8) :
    ByteQueue cap × List UInt8 :=
  if readSize.toNat ≤ q.bytes.length then
    (if updateIdx ≠ 0 then q.drop readSize.toNat else q, memcpy readData off (q.bytes.take readSize.toNat))
  else (q, readData)

instance : ByteRing (ByteQueue cap) where
  validSize q := UInt32.ofNat q.bytes.length
  freeSize q := UInt32.ofNat q.room
  write := write
  read := read
  updateReadIdx q k := q.drop k.toNat

theorem toNat_freeSize (q : ByteQueue cap) : (ByteRing.freeSize q).toNat = q.room := by
  have := cap.toNat_lt
  have hroom : q.room ≤ cap.toNat := Nat.sub_le _ _
  show (UInt32.ofNat q.room).toNat = _
  rw [UInt32.toNat_ofNat']
  omega

theorem bytes_write {q : ByteQueue cap} {writeData : List UInt8} {writeSize : UInt32} :
    (q.write writeData writeSize).bytes =
      if writeSize.toNat ≤ q.room then q.bytes ++ writeData.take writeSize.toNat else q.bytes := by
  unfold write
  split <;> rfl

end ByteQueue

/-! ### The refinement -/

/-- A call on a ring, as a step of a run. -/
def ringStep {R : Type} [ByteRing R] (r : R) (op : RingOp) : Option R := some (op.exec r).1

/-- A write that is accepted leaves a byte free. -/
def LeavesByteFree (rb : RingBuffer) (c : Chunk) : Prop := c.size.toNat ≤ rb.free → c.size.toNat < rb.free

instance (rb : RingBuffer) (c : Chunk) : Decidable (LeavesByteFree rb c) := by
  unfold LeavesByteFree; infer_instance

/-- The calls under which a ring is a queue: writes, which leave a byte free if they are accepted, and reads. -/
def QueueUse (rb : RingBuffer) : RingOp → Prop
  | .write c => LeavesByteFree rb c
  | .read .. => True
  | .updateReadIdx _ => False

instance : ∀ (rb : RingBuffer) (op : RingOp), Decidable (QueueUse rb op)
  | rb, .write c => inferInstanceAs (Decidable (LeavesByteFree rb c))
  | _, .read .. => isTrue trivial
  | _, .updateReadIdx _ => isFalse id

/-- The ring holds the bytes of the queue. -/
structure Represents {cap : UInt32} (rb : RingBuffer) (q : ByteQueue cap) : Prop where
  wf : rb.Wf
  size : rb.size = cap
  unread : rb.unread = q.bytes

section Represents

variable {cap : UInt32} {rb : RingBuffer} {q : ByteQueue cap}

theorem represents_init (hcap : 0 < cap.toNat) (mem : Vector UInt8 cap.toNat) :
    Represents (ringBufferInit cap mem) (ByteQueue.empty cap) := by
  have hw := ringBufferInit_wf hcap mem
  refine ⟨hw, rfl, ?_⟩
  have hv : (ringBufferInit cap mem).valid = 0 := by rw [hw.valid_eq]; rfl
  unfold RingBuffer.unread
  rw [hv, window_zero]
  rfl

theorem Represents.valid (h : Represents rb q) : rb.valid = q.bytes.length := by
  rw [← h.unread, h.wf.length_unread]

theorem Represents.free (h : Represents rb q) : rb.free = q.room := by
  rw [h.wf.free_eq, h.valid, h.size]
  rfl

theorem Represents.write (h : Represents rb q) {c : Chunk} (hc : LeavesByteFree rb c) :
    Represents (ringBufferWrite rb c.1 c.size) (q.write c.1 c.size) := by
  refine ⟨h.wf.write (by simp), by rw [size_write, h.size], ?_⟩
  rw [ByteQueue.bytes_write, ← h.free]
  split
  · rename_i hn
    rw [h.wf.unread_write (by simp) hn (Or.inl (hc hn)), h.unread]
  · rename_i hn
    rw [write_of_free_lt (by omega), h.unread]

theorem Represents.read (h : Represents rb q) {d : List UInt8} {off : ℕ} {n : UInt32} {u : UInt8}
    (hoff : off + n.toNat ≤ d.length) :
    Represents (ringBufferRead rb d off n u).1 (q.read d off n u).1 ∧
      (ringBufferRead rb d off n u).2 = (q.read d off n u).2 := by
  unfold ByteQueue.read
  rw [← h.valid, ← h.unread]
  split
  · rename_i hn
    by_cases hu : u = 0
    · rw [hu, h.wf.peek hn hoff]
      exact ⟨by simpa using h, rfl⟩
    · obtain ⟨i, hr, hw, -, hun⟩ := h.wf.consume hu hn hoff
      rw [hr, if_pos hu]
      exact ⟨⟨hw, h.size, by rw [hun, h.unread]; rfl⟩, rfl⟩
  · rename_i hn
    rw [read_of_valid_lt (by omega)]
    exact ⟨h, rfl⟩

theorem Represents.exec (h : Represents rb q) {op : RingOp} (hop : QueueUse rb op) :
    Represents (op.exec rb).1 (op.exec q).1 ∧ (op.exec rb).2 = (op.exec q).2 := by
  cases op with
  | write c => exact ⟨h.write hop, rfl⟩
  | read d n u fits => exact h.read (by simpa using fits)
  | updateReadIdx k => exact hop.elim

theorem Represents.execAll (h : Represents rb q) {ops : List RingOp} (ha : Admits ringStep QueueUse rb ops) :
    Represents (execAll rb ops) (execAll q ops) := by
  induction ops generalizing rb q with
  | nil => exact h
  | cons op ops ih => exact ih (h.exec ha.1).1 (ha.2 _ rfl)

end Represents

/-- **The ring is a queue.**  After any sequence of writes and reads in which every accepted write leaves a byte
free, the ring reports the sizes of the queue that went through the same calls; the next such call hands out what
the queue does, and a read of more than there is changes neither the ring nor the output buffer. -/
theorem ring_refines_queue (cap : UInt32) (hcap : 0 < cap.toNat) (mem : Vector UInt8 cap.toNat) (ops : List RingOp)
    (ha : Admits ringStep QueueUse (ringBufferInit cap mem) ops) :
    let rb := execAll (ringBufferInit cap mem) ops
    let q := execAll (ByteQueue.empty cap) ops
    rb.valid = q.bytes.length ∧ rb.free = cap.toNat - q.bytes.length ∧ rb.unread = q.bytes ∧
      (∀ op, QueueUse rb op → (op.exec rb).2 = (op.exec q).2) ∧
      ∀ d n u fits, q.bytes.length < n.toNat → (RingOp.read d n u fits).exec rb = (rb, d) := by
  intro rb q
  have h : Represents rb q := (represents_init hcap mem).execAll ha
  refine ⟨h.valid, h.free, h.unread, fun op hop => (h.exec hop).2, ?_⟩
  intro d n u fits hn
  exact read_of_valid_lt (h.valid ▸ hn)

/-- Five bytes through a ring of four: the second write goes round the end. -/
theorem ring_refines_queue_wrapping :
    (execAll (ringBufferInit 4 ⟨#[0, 0, 0, 0], rfl⟩)
      [.write ⟨[1, 2, 3], by decide⟩, .read [0, 0] 2 1 (by decide), .write ⟨[4, 5], by decide⟩]).unread =
    (execAll (ByteQueue.empty 4)
      [.write ⟨[1, 2, 3], by decide⟩, .read [0, 0] 2 1 (by decide), .write ⟨[4, 5], by decide⟩]).bytes :=
  (ring_refines_queue 4 (by decide) ⟨#[0, 0, 0, 0], rfl⟩ _ (by decide)).2.2.1

end Fr8012haLock.Buffer
