import Fr8012haLock.Buffer.Accesses
import Fr8012haLock.Receive.Interrupt

/-!
# A parser on a ring that anything may have happened to

Before any ring operation of a call the ring is replaced by any other of its size with indices in bounds.  What the
parser knows of the head it has saved (`Guarded`) does not depend on the ring; so whatever it reads, it stays inside
`recv_data` (`Guarded.disturbAll`, `Guarded.inside`).
-/

namespace Fr8012haLock.Receive

open Cyclic Buffer Runs

/-- A ring of a given size, with any bytes and with any indices in bounds. -/
def BoundedRing (size : UInt32) : Type := { rb : RingBuffer // rb.Wf ∧ rb.size = size }

/-- What happens to a parser: its ring is replaced, or it goes on by a ring operation. -/
inductive Disturbance (size : UInt32) where
  | ring (rb : BoundedRing size)
  | advance

/-- What a ring operation of a call, and what follows it up to the next one, access in `recv_data`: the copies of
`ring_buffer_read`, the bytes that are read, and where the payload that is handed on begins, with its size. -/
structure Accesses where
  copies : List Copy
  loads : List ℕ
  payload : Option (ℕ × ℕ)

/-- All accesses are inside an array of `n` bytes, and the payload is no larger than allowed. -/
structure Accesses.Inside (n : ℕ) (a : Accesses) : Prop where
  copies : ∀ c ∈ a.copies, ∀ i ∈ c.arrayIndices, i < n
  loads : ∀ i ∈ a.loads, i < n
  payload : ∀ p ∈ a.payload, p.2 ≤ maxPayloadSize ∧ p.1 + p.2 ≤ n

variable {Head : Type} (P : Protocol Head)

/-- The size of `recv_data`. -/
def Protocol.recvDataSize : ℕ := P.headSize.toNat + maxPayloadSize + 1

/-- One event. -/
def Micro.disturb {size : UInt32} (m : Micro RingBuffer Head) : Disturbance size → Micro RingBuffer Head
  | .ring rb => { m with state := { m.state with ring := rb.1 } }
  | .advance => advance P m

/-- A number of events. -/
def Micro.disturbAll {size : UInt32} (m : Micro RingBuffer Head) (es : List (Disturbance size)) :
    Micro RingBuffer Head := es.foldl (Micro.disturb P) m

/-- What the next step of a parser accesses.  The sizes are added as the code adds them, in 32 bits. -/
def Micro.accesses (m : Micro RingBuffer Head) : Accesses :=
  let s := m.state
  match m.place with
  | .headRead _ => ⟨ringBufferReadCopies s.ring 0 P.headSize, List.range P.headSize.toNat, none⟩
  | .skipHead _ => ⟨[], List.range P.headSize.toNat, none⟩
  | .bodyRead =>
    let size := P.payloadSize s.statics.head
    ⟨ringBufferReadCopies s.ring P.headSize.toNat (size + 1),
      (P.headSize + size).toNat :: List.range (P.headSize + size).toNat,
      (takeBody P s.ring s.statics).2.2.map fun _ => (P.headSize.toNat, size.toNat)⟩
  | _ => ⟨[], [], none⟩

/-- What a parser has made sure of at a place: `read_step` is `0` or `1`, and a head that is saved, or is about to be,
has passed the test. -/
def AtGuard (s : Statics Head) : Place → Prop
  | .idle => s.readStep = 0 ∨ s.readStep = 1 ∧ P.checkHead s.head = true
  | .headCheck recvData => s.readStep = 0 ∧ recvData.length = P.recvDataSize
  | .headRead recvData => s.readStep = 0 ∧ recvData.length = P.recvDataSize
  | .skipByte recvData => s.readStep = 0 ∧ recvData.length = P.recvDataSize
  | .skipHead recvData =>
    s.readStep = 0 ∧ recvData.length = P.recvDataSize ∧ P.checkHead (P.ofBytes recvData) = true
  | .bodyCheck => s.readStep = 1 ∧ P.checkHead s.head = true
  | .bodyRead => s.readStep = 1 ∧ P.checkHead s.head = true

/-- The invariant of a parser on any ring. -/
structure Guarded (m : Micro RingBuffer Head) : Prop where
  ring : m.state.ring.Wf
  place : AtGuard P m.state.statics m.place

/-- A head is as large as it says, and one that passes the test has a payload that fits. -/
structure Bounded : Prop where
  headSize_lt : P.headSize.toNat < 256
  length_toBytes : ∀ head, (P.toBytes head).length = P.headSize.toNat
  payload_le : ∀ head, P.checkHead head = true → (P.payloadSize head).toNat ≤ maxPayloadSize

section

variable {P} {s : Statics Head} {p : Place} {m : Micro RingBuffer Head}

/-- Wherever the parser is, `read_step` is `0`, or it is `1` and the head that is saved has passed the test. -/
theorem AtGuard.step (h : AtGuard P s p) : s.readStep = 0 ∨ s.readStep = 1 ∧ P.checkHead s.head = true := by
  cases p with
  | idle => exact h
  | headCheck d => exact Or.inl h.1
  | headRead d => exact Or.inl h.1
  | skipByte d => exact Or.inl h.1
  | skipHead d => exact Or.inl h.1
  | bodyCheck => exact Or.inr h
  | bodyRead => exact Or.inr h

theorem length_read {rb : RingBuffer} (h : rb.Wf) {readData : List UInt8} {off : ℕ} {n : UInt32} (u : UInt8)
    (hoff : off + n.toNat ≤ readData.length) :
    (ringBufferRead rb readData off n u).2.length = readData.length := by
  rw [readData_read]
  refine List.foldlRecOn (motive := fun d : List UInt8 => d.length = readData.length) _ _ rfl ?_
  intro d hd c hc
  have := array_of_mem_ringCopies h.read_le hc
  rw [Copy.intoArray, length_memcpy (by rw [List.length_take]; omega), hd]

theorem length_recvData : P.recvData.length = P.recvDataSize := List.length_replicate

/-! ### Every step keeps the guard -/

theorem atGuard_headRead {rb : RingBuffer} (h : rb.Wf) {d : List UInt8} (hp : AtGuard P s (.headRead d)) :
    AtGuard P s (afterRead P (ringBufferRead rb d 0 P.headSize 0).2) := by
  obtain ⟨hs, hd⟩ := hp
  have hsize : P.recvDataSize = P.headSize.toNat + maxPayloadSize + 1 := rfl
  have hlen : (ringBufferRead rb d 0 P.headSize 0).2.length = d.length := length_read h 0 (by omega)
  rw [hd] at hlen
  unfold afterRead
  split
  · rename_i hc
    exact ⟨hs, hlen, hc⟩
  · exact ⟨hs, hlen⟩

section

variable (hP : Bounded P)
include hP

theorem Bounded.toNat_size {head : Head} (hc : P.checkHead head = true) :
    (P.payloadSize head + 1).toNat = (P.payloadSize head).toNat + 1 ∧
      (P.headSize + P.payloadSize head).toNat = P.headSize.toNat + (P.payloadSize head).toNat := by
  have hlt := hP.headSize_lt
  have hle := hP.payload_le head hc
  have hmax : maxPayloadSize = 256 := rfl
  constructor
  · exact toNat_size_add_one hle
  · rw [UInt32.toNat_add]
    omega

theorem Bounded.takeBody_wf {rb : RingBuffer} (hw : rb.Wf) (hc : P.checkHead s.head = true) :
    (takeBody P rb s).1.Wf := by
  have hle := hP.payload_le s.head hc
  have hsize : P.recvDataSize = P.headSize.toNat + maxPayloadSize + 1 := rfl
  have hhead := hP.length_toBytes s.head
  have hrecv := length_recvData (P := P)
  refine hw.read ?_
  rw [(hP.toNat_size hc).1, length_memcpy (by omega)]
  omega

/-- **A ring operation keeps the guard.** -/
theorem Guarded.advance (h : Guarded P m) : Guarded P (advance P m) := by
  obtain ⟨⟨rb, s, calls⟩, place⟩ := m
  obtain ⟨hw, hp⟩ := h
  have hw : rb.Wf := hw
  cases place with
  | idle =>
    rcases hp with hs | ⟨hs, hc⟩
    · have hs : s.readStep = 0 := hs
      simp only [Receive.advance, if_pos hs]
      exact ⟨hw, hs, length_recvData⟩
    · have hs : s.readStep = 1 := hs
      have hs0 : s.readStep ≠ 0 := by
        rw [hs]
        decide
      simp only [Receive.advance, if_neg hs0, if_pos hs]
      exact ⟨hw, hs, hc⟩
  | headCheck d =>
    simp only [Receive.advance]
    split
    · exact ⟨hw, Or.inl hp.1⟩
    · exact ⟨hw, hp⟩
  | headRead d =>
    have hsize : P.recvDataSize = P.headSize.toNat + maxPayloadSize + 1 := rfl
    have hd : d.length = P.recvDataSize := hp.2
    have hr : (ringBufferRead rb d 0 P.headSize 0).1.Wf := hw.read (by omega)
    exact ⟨hr, atGuard_headRead hw hp⟩
  | skipByte d => exact ⟨hw.updateReadIdx 1, hp⟩
  | skipHead d =>
    obtain ⟨hs, -, hc⟩ := hp
    have hs : s.readStep = 0 := hs
    refine ⟨hw.updateReadIdx _, Or.inr ⟨?_, hc⟩⟩
    show s.readStep + 1 = 1
    rw [hs]
    rfl
  | bodyCheck =>
    simp only [Receive.advance]
    split
    · exact ⟨hw, Or.inr hp⟩
    · exact ⟨hw, hp⟩
  | bodyRead => exact ⟨hP.takeBody_wf hw hp.2, Or.inl rfl⟩

/-- **Nor does it matter what the ring is.** -/
theorem Guarded.disturb {size : UInt32} (h : Guarded P m) (e : Disturbance size) : Guarded P (m.disturb P e) := by
  cases e with
  | ring rb => exact ⟨rb.2.1, h.place⟩
  | advance => exact h.advance hP

theorem Guarded.disturbAll {size : UInt32} (h : Guarded P m) (es : List (Disturbance size)) :
    Guarded P (m.disturbAll P es) :=
  List.foldlRecOn es _ h fun _ hm e _ => hm.disturb hP e

/-- **A guarded parser stays inside `recv_data`.** -/
theorem Guarded.inside (h : Guarded P m) : (m.accesses P).Inside P.recvDataSize := by
  obtain ⟨⟨rb, s, calls⟩, place⟩ := m
  obtain ⟨hw, hp⟩ := h
  have hw : rb.Wf := hw
  have hsize : P.recvDataSize = P.headSize.toNat + maxPayloadSize + 1 := rfl
  have hcopies : ∀ off n, off + n.toNat ≤ P.recvDataSize →
      ∀ c ∈ ringBufferReadCopies rb off n, ∀ i ∈ c.arrayIndices, i < P.recvDataSize := by
    intro off n hoff c hc i hi
    have := array_of_mem_ringCopies hw.read_le hc
    rw [Copy.arrayIndices, List.mem_range'_1] at hi
    omega
  have hhead : ∀ i ∈ List.range P.headSize.toNat, i < P.recvDataSize := by
    intro i hi
    have := List.mem_range.mp hi
    omega
  cases place with
  | headRead d => exact ⟨hcopies 0 P.headSize (by omega), hhead, by simp [Micro.accesses]⟩
  | skipHead d => exact ⟨by simp [Micro.accesses], hhead, by simp [Micro.accesses]⟩
  | bodyRead =>
    have hc : P.checkHead s.head = true := hp.2
    have hle := hP.payload_le s.head hc
    obtain ⟨hbody, hend⟩ := hP.toNat_size hc
    refine ⟨hcopies P.headSize.toNat (P.payloadSize s.head + 1) (by omega), ?_, ?_⟩
    · intro i hi
      change i ∈ (P.headSize + P.payloadSize s.head).toNat :: List.range (P.headSize + P.payloadSize s.head).toNat at hi
      rw [hend] at hi
      rcases List.mem_cons.mp hi with rfl | hi
      · omega
      · have := List.mem_range.mp hi
        omega
    · intro p hpay
      obtain ⟨call, -, rfl⟩ := Option.map_eq_some_iff.mp (Option.mem_def.mp hpay)
      have hfits : P.headSize.toNat + (P.payloadSize s.head).toNat ≤ P.recvDataSize := by omega
      exact ⟨hle, hfits⟩
  | idle | headCheck d | skipByte d | bodyCheck =>
    exact ⟨by simp [Micro.accesses], by simp [Micro.accesses], by simp [Micro.accesses]⟩

end

end

/-! ### On its own ring -/

/-- The next ring operation stays inside a storage of `n` bytes, in which its copies do not overlap, and inside
`recv_data`. -/
structure Micro.InPlace (n : ℕ) (m : Micro RingBuffer Head) : Prop where
  storage : Apart n (m.accesses P).copies
  recvData : (m.accesses P).Inside P.recvDataSize

/-- A write of `size` bytes stays inside a storage of `n` bytes, in which its copies do not overlap, and inside the array
written. -/
structure WriteInPlace (n : ℕ) (rb : RingBuffer) (size : UInt32) : Prop where
  storage : Apart n (ringBufferWriteCopies rb size)
  array : ∀ c ∈ ringBufferWriteCopies rb size, ∀ i ∈ c.arrayIndices, i < size.toNat

section

variable {P} {n : ℕ} {m m' : Micro RingBuffer Head}

theorem writeInPlace {rb : RingBuffer} (h : rb.Wf) (hn : rb.size.toNat = n) (size : UInt32) : WriteInPlace n rb size := by
  have hvalid : rb.valid ≤ rb.size.toNat := h.valid_le
  have hfree : (ringBufferFreeSize rb).toNat = rb.size.toNat - rb.valid := h.free_eq
  refine ⟨hn ▸ apart_ringCopies h.write_le (by omega), ?_⟩
  intro c hc i hi
  have := array_of_mem_ringCopies h.write_le hc
  rw [Copy.arrayIndices, List.mem_range'_1] at hi
  omega

theorem Guarded.inPlace (hP : Bounded P) (h : Guarded P m) (hn : m.state.ring.size.toNat = n) : m.InPlace P n := by
  refine ⟨?_, h.inside hP⟩
  have hvalid : (ringBufferValidSize m.state.ring).toNat ≤ m.state.ring.size.toNat := h.ring.valid_le
  have hread : ∀ off size, Apart n (ringBufferReadCopies m.state.ring off size) :=
    fun _ _ => hn ▸ apart_ringCopies h.ring.read_le hvalid
  have hnil : Apart n [] := ⟨by simp, List.Pairwise.nil⟩
  obtain ⟨s, place⟩ := m
  cases place with
  | headRead d => exact hread 0 P.headSize
  | bodyRead => exact hread _ _
  | idle | headCheck d | skipByte d | skipHead d | bodyCheck => exact hnil

theorem size_advance (m : Micro RingBuffer Head) : (Receive.advance P m).state.ring.size = m.state.ring.size := by
  obtain ⟨s, place⟩ := m
  cases place with
  | headRead d => exact size_read ..
  | bodyRead => exact size_read ..
  | skipByte d | skipHead d => exact size_updateReadIdx ..
  | idle | headCheck d | bodyCheck =>
    simp only [Receive.advance]
    split_ifs <;> rfl

/-- **The guard is kept as long as the parser is left alone**, and so is the size of the ring. -/
theorem Guarded.reaches (hP : Bounded P) (h : Guarded P m) (hr : Reaches P m m') :
    Guarded P m' ∧ m'.state.ring.size = m.state.ring.size := by
  obtain ⟨k, hk⟩ := hr
  induction k generalizing m with
  | zero =>
    cases hk
    exact ⟨h, rfl⟩
  | succ k ih =>
    rw [List.replicate_succ, run_cons (show Micro.step P m .advance = some (Receive.advance P m) from rfl)] at hk
    obtain ⟨hg, hsize⟩ := ih (h.advance hP) hk
    exact ⟨hg, hsize.trans (size_advance m)⟩

end

end Fr8012haLock.Receive
