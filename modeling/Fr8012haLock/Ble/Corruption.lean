import Fr8012haLock.Ble.Reception
import Fr8012haLock.Common.Crc8

/-!
# Corrupted frames

A frame that differs from a valid one in an odd number of bits, or in bits among eight consecutive ones, with the same
length and the same first three bytes, is consumed and not dispatched (`corrupted_not_dispatched`).
-/

namespace Fr8012haLock.Ble

open Cyclic Buffer Common Crc Receive Runs

theorem Frame.exists_head_body (f : Frame) {c : List UInt8} (hl : c.length = f.bytes.length)
    (h3 : c.take 3 = f.bytes.take 3) :
    ∃ h data x, c = h ++ (data ++ [x]) ∧ h.length = 6 ∧ bleFraming.isHead h = true ∧
      (h.getD 2 0).toNat = data.length := by
  rw [f.length_bytes] at hl
  have hhead : (c.take 6).take 3 = [0xA4, 0xA3, UInt8.ofNat f.payload.length] := by
    rw [List.take_take]
    exact h3
  obtain ⟨a, b, len, rand, keyOnce, cmd, hh⟩ := exists_of_length_six (h := c.take 6) (by simp; omega)
  have hlast : (c.drop 6).dropLast ++ [(c.drop 6).getLast (List.ne_nil_of_length_pos (by simp; omega))] = c.drop 6 :=
    List.dropLast_append_getLast _
  rw [hh] at hhead
  simp only [List.take_succ_cons, List.take_zero, List.cons.injEq, and_true] at hhead
  obtain ⟨rfl, rfl, rfl⟩ := hhead
  refine ⟨c.take 6, _, _, by rw [hlast, List.take_append_drop], by simp; omega, ?_, ?_⟩
  · rw [hh]
    simp [bleFraming]
  · rw [hh]
    show (UInt8.ofNat f.payload.length).toNat = _
    rw [f.toNat_len]
    simp
    omega

/-- A head and a body are dispatched only if they leave nothing in the register of the CRC. -/
theorem bleFraming_emit_eq_none {h data : List UInt8} {x : UInt8} (hl : h.length = 6)
    (hn : (h.getD 2 0).toNat = data.length) (hcrc : feedAll crc8Poly 0 (wireBits (h ++ (data ++ [x]))) ≠ 0) :
    bleFraming.emit h (data ++ [x]) = none := by
  have hlen : (h ++ data).length = 6 + data.length := by rw [List.length_append, hl]
  simp only [bleFraming, hn]
  rw [← List.append_assoc, appCommCheckCrc8_append hlen.ge, ← hlen, List.getD_append_right _ _ _ _ le_rfl,
    Nat.sub_self, List.getD_cons_zero, if_neg]
  rw [crc8_eq_last_iff, List.append_assoc]
  exact hcrc

theorem Frame.feedAll_bytes (f : Frame) : feedAll crc8Poly 0 (wireBits f.bytes) = 0 := by
  rw [Frame.bytes, ← List.append_assoc, ← crc8_eq_last_iff]

/-- **A corrupted frame is not dispatched.**  Whatever was done with the ring before, if its unread bytes are those of
a valid frame up to an error of one of the two kinds behind the first three bytes, and the parser searches for a head,
then two calls of it dispatch nothing, and leave the ring empty and the parser searching for a head. -/
theorem corrupted_not_dispatched (mem : Vector UInt8 bleBufferSize.toNat) (ops : List RingOp)
    (s : State RingBuffer BleProHead) (hring : s.ring = execAll (ringBufferInit bleBufferSize mem) ops)
    (hidle : s.statics.readStep = 0) (b : Frame) (hl : s.ring.unread.length = b.bytes.length)
    (h3 : s.ring.unread.take 3 = b.bytes.take 3)
    (herr : OddError b.bytes s.ring.unread ∨ BurstError b.bytes s.ring.unread) :
    ∃ s', run bleStep s [.process, .process] = some s' ∧ s'.calls = s.calls ∧ s'.ring.valid = 0 ∧
      s'.ring.unread = [] ∧ s'.statics.readStep = 0 := by
  obtain ⟨h, data, x, hc, hh6, hhead, hn⟩ := b.exists_head_body hl h3
  have hcrc := error_detected hl herr b.feedAll_bytes
  have ht : Tracks bleProtocol bleFraming s.ring s.statics ⟨none, s.ring.unread⟩ :=
    ⟨hring ▸ lawful_execAll (by decide) (by decide) mem ops, rfl, Or.inl ⟨hidle, rfl⟩⟩
  rw [hc] at ht hcrc
  -- the head is at the front, so it is not all that is unread
  have hnotlast : HeadNotLast bleFraming s.ring s.statics := by
    intro _ _ hlast
    rw [ht.queue] at hlast
    have := hlast.2 0 (by simp; omega)
    exact this ((bleFraming.headAt_append hh6).mpr hhead)
  obtain ⟨r₁, s₁, hp₁, ht₁⟩ := ht.process ble_implements hnotlast
  rw [bleFraming.poll_head hh6 hhead] at hp₁ ht₁
  obtain ⟨r₂, s₂, hp₂, ht₂⟩ := ht₁.process ble_implements ht₁.headNotLast_of_body
  have hbody : (data ++ [x]).length = bleFraming.bodySize h := by
    rw [List.length_append, ← hn]
    rfl
  have hpoll := bleFraming.poll_body hbody []
  rw [List.append_nil, bleFraming_emit_eq_none hh6 hn hcrc] at hpoll
  rw [hpoll] at hp₂ ht₂
  have hrun : run bleStep s [.process, .process] = some ⟨r₂, s₂, s.calls⟩ := by
    rw [run_cons (State.step_process hp₁), run_cons (State.step_process hp₂)]
    simp [run]
  have hempty : r₂.unread = [] := ht₂.queue
  have hvalid := ht₂.wf.1.length_unread
  rw [hempty] at hvalid
  exact ⟨_, hrun, rfl, hvalid.symm, hempty, ht₂.readStep_iff.mpr rfl⟩

/-- The opening instruction, with a bit of its command byte flipped on the way. -/
def flippedCommand : State RingBuffer BleProHead where
  ring := execAll (ringBufferInit bleBufferSize (Vector.replicate 512 0))
    [.write ⟨[0xA4, 0xA3, 0, 242, 0, 4, 0], by decide⟩]
  statics := bleStatics
  calls := []

theorem corrupted_not_dispatched_flipped :
    ∃ s', run bleStep flippedCommand [.process, .process] = some s' ∧ s'.calls = [] ∧ s'.ring.valid = 0 ∧
      s'.ring.unread = [] ∧ s'.statics.readStep = 0 :=
  corrupted_not_dispatched (Vector.replicate 512 0) _ flippedCommand rfl rfl ⟨242, 0, 5, [], by decide⟩
    (by decide +kernel) (by decide +kernel) (Or.inl (by decide +kernel))

end Fr8012haLock.Ble
