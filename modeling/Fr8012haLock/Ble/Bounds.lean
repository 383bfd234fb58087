import Fr8012haLock.Ble.Service
import Fr8012haLock.Receive.Bounds

/-!
# What a sender can make the BLE parser access

The stack calls no callback while `ble_protocol_process` runs, so that the parser is alone with its ring from the begin
of a call to its end.  Between two calls it keeps the guard, whatever the callbacks bring (`guarded_step`).
-/

namespace Fr8012haLock.Ble

open Buffer Receive Runs

theorem ble_bounded : Bounded bleProtocol where
  headSize_lt := by decide
  length_toBytes head := by
    show (LittleEndian.bytes 2 head.stx.toNat ++ [head.len, head.rand, head.keyOnce, head.cmd]).length = 6
    simp
  payload_le head hc := by
    show head.len.toUInt32.toNat ≤ maxPayloadSize
    rw [UInt8.toNat_toUInt32]
    exact (of_decide_eq_true hc).2

section

variable {s s' : State RingBuffer BleProHead} {d d' : Device RingBuffer}

theorem guarded_bleStep (h : Guarded bleProtocol ⟨s, .idle⟩) {e : Event} (hs : bleStep s e = some s') :
    Guarded bleProtocol ⟨s', .idle⟩ ∧ s'.ring.size = s.ring.size := by
  cases e with
  | write bytes =>
    cases hs
    have hw : s.ring.Wf := h.ring
    have hlen : (UInt32.ofNat bytes.length).toNat ≤ bytes.length := by
      rw [UInt32.toNat_ofNat']
      exact Nat.mod_le ..
    exact ⟨⟨hw.write hlen, h.place⟩, size_write ..⟩
  | process => exact h.reaches ble_bounded (call_reaches hs)

/-- **An event of the device keeps the guard**, and the size of the ring. -/
theorem guarded_step (h : Guarded bleProtocol ⟨d.parser, .idle⟩) {e : DeviceEvent} (hs : d.step e = some d') :
    Guarded bleProtocol ⟨d'.parser, .idle⟩ ∧ d'.parser.ring.size = d.parser.ring.size := by
  have hp : run bleStep d.parser e.received = some d'.parser := by
    rw [← Device.step_parser, hs, Option.map_some]
  rcases received_cases e with he | ⟨e', he⟩
  · rw [he] at hp
    have hsame : d.parser = d'.parser := Option.some.inj hp
    rw [← hsame]
    exact ⟨h, rfl⟩
  · rw [he, run, Option.bind_eq_some_iff] at hp
    obtain ⟨p, hp, hp'⟩ := hp
    cases hp'
    exact guarded_bleStep h hp

end

end Fr8012haLock.Ble
