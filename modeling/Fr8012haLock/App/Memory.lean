import Fr8012haLock.App.Commands
import Fr8012haLock.Ble.Bounds
import Fr8012haLock.Uart.Bounds

/-!
# What the firmware accesses

Whatever arrives over the air and over the wire, and in whatever order things happen, every event of the firmware
accesses the storage of the two rings, the arrays `recv_data` of the two parsers and the data it is handed only where
they are (`firmware_stays_inside`).  Here nothing is asked of the sizes: the rings may be filled to the last byte, and
may lose what they hold.
-/

namespace Fr8012haLock.App

open LinkedList Buffer Receive Ble Uart Runs

/-- What an event is about to access is where it belongs: the interrupt writes one byte after another, the callback the
data of a message, and the processor makes a ring operation of `uart_protocol_process` or all those of
`ble_protocol_process`. -/
def InPlace (f : Firmware) : FirmwareEvent → Prop
  | .interrupt intId fifo => ∀ before b after, (UartEvent.interrupt intId fifo).bytes = before ++ b :: after →
      WriteInPlace 512 (before.foldl (fun rb data => ringWrite rb [data]) f.uart.state.ring) 1
  | .gatt msg => ∀ data ∈ msg.msgData,
      WriteInPlace 512 f.ble.parser.ring msg.msgLen.toUInt32 ∧ data.length = msg.msgLen.toUInt32.toNat
  | .advance => (f.isInUart = true → f.uart.InPlace uartProtocol 512) ∧
      (f.callsBle = true → ∀ m, Reaches bleProtocol ⟨f.ble.parser, .idle⟩ m → m.InPlace bleProtocol 512)
  | _ => True

/-- Both parsers keep their guard, on rings of 512 bytes. -/
structure BothGuarded (f : Firmware) : Prop where
  uart : Guarded uartProtocol f.uart
  uartSize : f.uart.state.ring.size = uartBufferSize
  ble : Guarded bleProtocol ⟨f.ble.parser, .idle⟩
  bleSize : f.ble.parser.ring.size = bleBufferSize

theorem wf_foldl_write {rb : RingBuffer} (h : rb.Wf) (bytes : List UInt8) :
    (bytes.foldl (fun rb data => ringWrite rb [data]) rb).Wf ∧
      (bytes.foldl (fun rb data => ringWrite rb [data]) rb).size = rb.size := by
  induction bytes generalizing rb with
  | nil => exact ⟨h, rfl⟩
  | cons b bytes ih =>
    have hone : (1 : UInt32).toNat ≤ [b].length := Nat.le_refl 1
    have hb : (ringWrite rb [b]).Wf := h.write hone
    obtain ⟨hw, hsize⟩ := ih hb
    exact ⟨hw, hsize.trans (size_write ..)⟩

section

variable {f f' : Firmware} {e : FirmwareEvent}

theorem BothGuarded.interrupted (h : BothGuarded f) (intId : UInt8) (fifo : List UInt8) :
    BothGuarded { f with uart := interrupted f.uart intId fifo } := by
  have hring : (Uart.interrupted f.uart intId fifo).state.ring =
      (UartEvent.interrupt intId fifo).bytes.foldl (fun rb data => ringWrite rb [data]) f.uart.state.ring := by
    simp only [Uart.interrupted, uart1IsrRam, UartEvent.bytes]
    split_ifs <;> rfl
  obtain ⟨hw, hsize⟩ := wf_foldl_write h.uart.ring (UartEvent.interrupt intId fifo).bytes
  exact ⟨⟨hring ▸ hw, h.uart.place⟩, (congrArg RingBuffer.size hring).trans (hsize.trans h.uartSize), h.ble, h.bleSize⟩

theorem BothGuarded.device (h : BothGuarded f) {ble : Device RingBuffer} {e : DeviceEvent}
    (hs : f.ble.step e = some ble) :
    Guarded bleProtocol ⟨ble.parser, .idle⟩ ∧ ble.parser.ring.size = bleBufferSize := by
  obtain ⟨hg, hsize⟩ := guarded_step h.ble hs
  exact ⟨hg, hsize.trans h.bleSize⟩

theorem BothGuarded.step (h : BothGuarded f) (hs : f.step e = some f') : BothGuarded f' := by
  cases e with
  | interrupt intId fifo =>
    cases hs
    exact h.interrupted intId fifo
  | gatt msg =>
    rw [Firmware.step] at hs
    obtain ⟨ble, hble, rfl⟩ := Option.map_eq_some_iff.mp hs
    obtain ⟨hg, hsize⟩ := h.device hble
    exact ⟨h.uart, h.uartSize, hg, hsize⟩
  | gap e =>
    rw [Firmware.step] at hs
    obtain ⟨ble, hble, rfl⟩ := Option.map_eq_some_iff.mp hs
    obtain ⟨hg, hsize⟩ := h.device hble
    exact ⟨h.uart, h.uartSize, hg, hsize⟩
  | loop ms =>
    cases hs
    unfold appLoop
    dsimp only
    split
    · exact ⟨h.uart, h.uartSize, h.ble, h.bleSize⟩
    · exact ⟨h.uart, h.uartSize, h.ble, h.bleSize⟩
  | advance =>
    obtain ⟨hu, hb⟩ := advance_parts hs
    have huart : Guarded uartProtocol f'.uart ∧ f'.uart.state.ring.size = uartBufferSize := by
      rcases hu with hu | ⟨-, hu⟩
      · rw [hu]
        exact ⟨h.uart, h.uartSize⟩
      · rw [hu]
        exact ⟨h.uart.advance uart_bounded, (size_advance f.uart).trans h.uartSize⟩
    have hble : Guarded bleProtocol ⟨f'.ble.parser, .idle⟩ ∧ f'.ble.parser.ring.size = bleBufferSize := by
      rcases hb with hb | ⟨-, hb⟩
      · rw [hb]
        exact ⟨h.ble, h.bleSize⟩
      · exact h.device hb
    exact ⟨huart.1, huart.2, hble.1, hble.2⟩

/-- **What guarded parsers access is in place.** -/
theorem BothGuarded.inPlace (h : BothGuarded f) (e : FirmwareEvent) : InPlace f e := by
  have huart : f.uart.state.ring.size.toNat = 512 := congrArg UInt32.toNat h.uartSize
  have hble : f.ble.parser.ring.size.toNat = 512 := congrArg UInt32.toNat h.bleSize
  cases e with
  | interrupt intId fifo =>
    rintro before b after -
    obtain ⟨hw, hsize⟩ := wf_foldl_write h.uart.ring before
    exact writeInPlace hw ((congrArg UInt32.toNat hsize).trans huart) 1
  | gatt msg =>
    rintro data hdata
    refine ⟨writeInPlace h.ble.ring hble _, ?_⟩
    rw [msg.fits data hdata, UInt16.toNat_toUInt32]
  | advance =>
    constructor
    · intro _
      exact h.uart.inPlace uart_bounded huart
    · intro _ m hm
      obtain ⟨hg, hsize⟩ := h.ble.reaches ble_bounded hm
      exact hg.inPlace ble_bounded ((congrArg UInt32.toNat hsize).trans hble)
  | gap e | loop ms => trivial

end

/-- **The firmware stays inside its memory.**  From `app_init` on, let the UART interrupt, the callbacks of the stack,
`app_loop` and the steps of the processor come in any order, with any bytes and any sizes.  What each event accesses is
in place: the copies of `ring_buffer_write` and `ring_buffer_read` are inside the 512 bytes of their ring, where those of
one call do not overlap; those of a write read what the caller has; and what a parser reads, sums up and hands on is
inside its `recv_data`. -/
theorem firmware_stays_inside (memUart : Vector UInt8 uartBufferSize.toNat) (memBle : Vector UInt8 bleBufferSize.toNat) :
    ∃ f, appInit memUart memBle = .ok f ∧ ∀ es, Admits Firmware.step InPlace f es := by
  obtain ⟨a, b, c, s, hinit⟩ := stands_init
  obtain ⟨f, hf, -, -, huart, hble, -⟩ := hinit memUart memBle
  have h0 : BothGuarded f := by
    refine ⟨?_, ?_, ?_, ?_⟩
    · rw [huart]
      exact ⟨ringBufferInit_wf (by decide) memUart, Or.inl rfl⟩
    · rw [huart]
      rfl
    · rw [hble]
      exact ⟨ringBufferInit_wf (by decide) memBle, Or.inl rfl⟩
    · rw [hble]
      rfl
  have hplace : ∀ f e, BothGuarded f → InPlace f e := by
    intro f e h
    exact h.inPlace e
  have hstep : ∀ f e f', BothGuarded f → f.step e = some f' → BothGuarded f' := by
    intro f e f' h hs
    exact h.step hs
  exact ⟨f, hf, admits_of_invariant hplace hstep h0⟩

end Fr8012haLock.App
