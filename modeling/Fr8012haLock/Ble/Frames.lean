import Fr8012haLock.Ble.Defs

/-!
# The framing of the BLE protocol

`bleFraming` is the protocol as a framing of byte streams, stated on the bytes themselves: a head starts with
`A4 A3`, its third byte is the length of the payload, its last byte the command.  `ble_implements` connects it with
what the code knows of the protocol.  A `Frame` is a valid frame with what it emits (`isFrame_bytes`).
-/

namespace Fr8012haLock.Ble

open Cyclic Buffer Common Receive

/-- The frames of the protocol in a stream of bytes. -/
def bleFraming : Framing UInt8 Call where
  headSize := 6
  isHead h := h.getD 0 0 = 0xA4 ∧ h.getD 1 0 = 0xA3
  bodySize h := (h.getD 2 0).toNat + 1
  emit h b :=
    let n := (h.getD 2 0).toNat
    if appCommCheckCrc8 (h ++ b) (6 + n) = b.getD n 0 then some (h.getD 5 0, b.take n) else none
  headSize_pos := by decide
  bodySize_pos _ := Nat.succ_pos _

@[simp] theorem headSize_bleFraming : bleFraming.headSize = 6 := rfl

theorem exists_of_length_six {h : List UInt8} (hl : h.length = 6) :
    ∃ a b len rand keyOnce cmd, h = [a, b, len, rand, keyOnce, cmd] := by
  match h, hl with
  | [a, b, len, rand, keyOnce, cmd], _ => exact ⟨a, b, len, rand, keyOnce, cmd, rfl⟩

theorem ofBytes_stx (a b : UInt8) (t : List UInt8) :
    (BleProHead.ofBytes (a :: b :: t)).stx.toNat = LittleEndian.value [a, b] := by
  have h := LittleEndian.value_lt [a, b]
  simp only [List.length_cons, List.length_nil] at h
  rw [BleProHead.ofBytes, List.take_succ_cons, List.take_succ_cons, List.take_zero, UInt16.toNat_ofNat']
  omega

theorem appCommCheckCrc8_append {d : List UInt8} {n : ℕ} (h : n ≤ d.length) (t : List UInt8) :
    appCommCheckCrc8 (d ++ t) n = appCommCheckCrc8 d n := by
  rw [appCommCheckCrc8, List.take_append_of_le_length h, appCommCheckCrc8]

/-- **The code knows the protocol that the framing states.** -/
theorem ble_implements : Implements bleProtocol bleFraming where
  headSize := rfl
  headSize_ge := by decide
  headSize_lt := by decide
  toBytes_ofBytes h hl := by
    obtain ⟨a, b, len, rand, keyOnce, cmd, rfl⟩ := exists_of_length_six hl
    show LittleEndian.bytes 2 (BleProHead.ofBytes _).stx.toNat ++ [len, rand, keyOnce, cmd] = _
    have hstx : LittleEndian.bytes 2 (LittleEndian.value [a, b]) = [a, b] := LittleEndian.bytes_value [a, b]
    rw [ofBytes_stx, hstx]
    rfl
  ofBytes_append h t hl := by
    obtain ⟨a, b, len, rand, keyOnce, cmd, rfl⟩ := exists_of_length_six hl
    rfl
  checkHead h hl := by
    obtain ⟨a, b, len, rand, keyOnce, cmd, rfl⟩ := exists_of_length_six hl
    have hlen := len.toNat_lt
    have hmax : len.toNat ≤ maxPayloadSize := by unfold maxPayloadSize; omega
    have hstx : (BleProHead.ofBytes [a, b, len, rand, keyOnce, cmd]).stx = bleProHeadStx ↔ a = 0xA4 ∧ b = 0xA3 := by
      rw [← UInt16.toNat_inj, ofBytes_stx]
      exact (LittleEndian.value_inj (show [a, b].length = [(0xA4 : UInt8), 0xA3].length from rfl)).trans (by simp)
    exact decide_eq_decide.mpr ((and_iff_left hmax).trans hstx)
  bodySize h hl _ := by
    obtain ⟨a, b, len, rand, keyOnce, cmd, rfl⟩ := exists_of_length_six hl
    exact congrArg (· + 1) (UInt8.toNat_toUInt32 len)
  payload_le h hl _ := by
    obtain ⟨a, b, len, rand, keyOnce, cmd, rfl⟩ := exists_of_length_six hl
    have hlen := len.toNat_lt
    show len.toUInt32.toNat ≤ 256
    rw [UInt8.toNat_toUInt32]
    omega
  checksum_append d t n hn := appCommCheckCrc8_append hn t
  emit h b hl _ _ := by
    obtain ⟨a, b', len, rand, keyOnce, cmd, rfl⟩ := exists_of_length_six hl
    have hsize : (bleProtocol.payloadSize (bleProtocol.ofBytes [a, b', len, rand, keyOnce, cmd])).toNat =
        len.toNat := UInt8.toNat_toUInt32 len
    rw [hsize]
    rfl

theorem bleFraming_size_le (h : List UInt8) : bleFraming.headSize + bleFraming.bodySize h ≤ 262 := by
  have := (h.getD 2 0).toNat_lt
  show 6 + ((h.getD 2 0).toNat + 1) ≤ 262
  omega

theorem bleFraming_headAt {s : List UInt8} :
    bleFraming.HeadAt s ↔ 6 ≤ s.length ∧ s.getD 0 0 = 0xA4 ∧ s.getD 1 0 = 0xA3 := by
  simp [Framing.HeadAt, bleFraming]

/-! ### Whole frames -/

/-- A valid frame, up to the bytes that follow from the others. -/
structure Frame where
  rand : UInt8
  keyOnce : UInt8
  cmd : UInt8
  payload : List UInt8
  fits : payload.length ≤ 255

namespace Frame

/-- The head of a frame. -/
def head (f : Frame) : List UInt8 := [0xA4, 0xA3, UInt8.ofNat f.payload.length, f.rand, f.keyOnce, f.cmd]

/-- The bytes of a frame: its head, its payload, and the CRC-8 of both. -/
def bytes (f : Frame) : List UInt8 :=
  f.head ++ (f.payload ++ [appCommCheckCrc8 (f.head ++ f.payload) (f.head ++ f.payload).length])

/-- The command of a frame, as it is dispatched. -/
def call (f : Frame) : Call := (f.cmd, f.payload)

@[simp] theorem length_head (f : Frame) : f.head.length = 6 := rfl

theorem toNat_len (f : Frame) : (UInt8.ofNat f.payload.length).toNat = f.payload.length := by
  have := f.fits
  rw [UInt8.toNat_ofNat']
  omega

theorem length_bytes (f : Frame) : f.bytes.length = 6 + (f.payload.length + 1) := by simp [bytes]

end Frame

/-- **A valid frame is a frame of the framing**, and emits its command. -/
theorem isFrame_bytes (f : Frame) : bleFraming.IsFrame f.bytes f.call := by
  have hn : (f.head.getD 2 0).toNat = f.payload.length := f.toNat_len
  have hlen : (f.head ++ f.payload).length = 6 + f.payload.length := List.length_append
  refine ⟨_, _, rfl, rfl, by simp [bleFraming, Frame.head], ?_, ?_⟩
  · show _ = (f.head.getD 2 0).toNat + 1
    rw [hn, List.length_append]
    rfl
  · simp only [bleFraming, hn, hlen]
    rw [← List.append_assoc, appCommCheckCrc8_append hlen.ge, List.getD_append_right _ _ _ _ le_rfl, Nat.sub_self,
      List.getD_cons_zero, if_pos rfl, List.take_left]
    rfl

end Fr8012haLock.Ble
