import Fr8012haLock.App.Composition
import Fr8012haLock.Ble.Sessions

/-!
# The commands the firmware executes

Over any run of the whole firmware the two command streams stay apart, and each is what was received: the commands
executed for the UART are a prefix of the decoding of the bytes the device took from its FIFO, and the functions called
for BLE are those of a prefix of the decoding of the bytes written over the air (`firmware_commands`).
-/

namespace Fr8012haLock.App

open LinkedList Buffer Common Receive Tasks Ble Uart Runs

/-! ### What an event does to the two parsers -/

/-- The bytes that an event takes from the FIFO of the UART. -/
def FirmwareEvent.uartBytes : FirmwareEvent → List UInt8
  | .interrupt intId fifo => (UartEvent.interrupt intId fifo).bytes
  | _ => []

/-- The bytes that an event writes over the air. -/
def FirmwareEvent.bleBytes : FirmwareEvent → List UInt8
  | .gatt msg => written (DeviceEvent.gatt msg).received
  | _ => []

/-- The processor is in front of the visit that calls `ble_protocol_process`. -/
def Firmware.callsBle (f : Firmware) : Bool :=
  match f.position with
  | .visiting (some temp) =>
    (f.tasks.store.heap.cell temp).any fun task => task.val.taskProcess = bleProtocolProcessAddr
  | _ => false

/-- The processor is in `uart_protocol_process`. -/
def Firmware.isInUart (f : Firmware) : Bool :=
  match f.position with
  | .inUart _ => true
  | _ => false

theorem moveOn_parts {f f' : Firmware} {temp : ℕ} (h : moveOn f temp = some f') : f'.uart = f.uart ∧ f'.ble = f.ble := by
  obtain ⟨task, -, rfl⟩ := Option.map_eq_some_iff.mp h
  exact ⟨rfl, rfl⟩

/-- **The processor goes on in one parser at most.** -/
theorem advance_parts {f f' : Firmware} (h : advance f = some f') :
    (f'.uart = f.uart ∨ f.isInUart = true ∧ f'.uart = Receive.advance uartProtocol f.uart) ∧
      (f'.ble = f.ble ∨ f.callsBle = true ∧ f.ble.step .process = some f'.ble) := by
  unfold advance at h
  unfold Firmware.isInUart Firmware.callsBle
  cases hpos : f.position with
  | between =>
    rw [hpos] at h
    cases h
    exact ⟨Or.inl rfl, Or.inl rfl⟩
  | inUart temp =>
    rw [hpos] at h
    simp only at h
    split at h
    · obtain ⟨hu, hb⟩ := moveOn_parts h
      exact ⟨Or.inr ⟨rfl, hu⟩, Or.inl hb⟩
    · cases h
      exact ⟨Or.inr ⟨rfl, rfl⟩, Or.inl rfl⟩
  | visiting temp =>
    rw [hpos] at h
    cases temp with
    | none =>
      cases h
      exact ⟨Or.inl rfl, Or.inl rfl⟩
    | some temp =>
      obtain ⟨task, htask, h⟩ := Option.bind_eq_some_iff.mp h
      simp only [htask, Option.any_some, decide_eq_true_eq]
      split at h
      · unfold callTask at h
        split_ifs at h with huart hble
        · cases h
          exact ⟨Or.inl rfl, Or.inl rfl⟩
        · obtain ⟨ble, hstep, h⟩ := Option.bind_eq_some_iff.mp h
          obtain ⟨hu, hb⟩ := moveOn_parts h
          exact ⟨Or.inl hu, Or.inr ⟨hble, by rw [hb]; exact hstep⟩⟩
        · obtain ⟨hu, hb⟩ := moveOn_parts h
          exact ⟨Or.inl hu, Or.inl hb⟩
      · obtain ⟨hu, hb⟩ := moveOn_parts h
        exact ⟨Or.inl hu, Or.inl hb⟩

/-! ### Both command streams -/

/-- Scheduled events under which both rings are queues: an interrupt brings fewer bytes than are free, a write over the
air too, and no parser skips a head that is all that is unread while its write index is 512. -/
def Sound (f : Firmware) (e : FirmwareEvent) : Prop :=
  Scheduled f e ∧
    match e with
    | .interrupt intId fifo => UartSafe f.uart (.interrupt intId fifo)
    | .gatt msg => DeviceSafe f.ble (.gatt msg)
    | .advance => (f.isInUart = true → UartSafe f.uart .advance) ∧ (f.callsBle = true → DeviceSafe f.ble .process)
    | _ => True

instance : ∀ (f : Firmware) (e : FirmwareEvent), Decidable (Sound f e)
  | f, .interrupt intId fifo =>
    inferInstanceAs (Decidable (Scheduled f (.interrupt intId fifo) ∧ UartSafe f.uart (.interrupt intId fifo)))
  | f, .gatt msg => inferInstanceAs (Decidable (Scheduled f (.gatt msg) ∧ DeviceSafe f.ble (.gatt msg)))
  | f, .gap e => inferInstanceAs (Decidable (Scheduled f (.gap e) ∧ True))
  | f, .loop ms => inferInstanceAs (Decidable (Scheduled f (.loop ms) ∧ True))
  | f, .advance => inferInstanceAs (Decidable (Scheduled f .advance ∧ (f.isInUart = true → UartSafe f.uart .advance) ∧
      (f.callsBle = true → DeviceSafe f.ble .process)))

/-- The two parsers are where their receivers are that were fed the bytes of the events `es`. -/
structure Receives (es : List FirmwareEvent) (f : Firmware) : Prop where
  uart : ∃ (n : Micro (ByteQueue uartBufferSize) UartProHead) (ts : List Interleaving), Mirrors f.uart n ∧
    Tends uartProtocol uartFraming ts n ∧ received ts = es.flatMap FirmwareEvent.uartBytes
  ble : Follows bleProtocol bleFraming [.write (es.flatMap FirmwareEvent.bleBytes)] f.ble.parser

theorem follows_congr {s : State RingBuffer BleProHead} {es es' : List Event} (hw : written es = written es')
    (h : Follows bleProtocol bleFraming es s) : Follows bleProtocol bleFraming es' s := by
  obtain ⟨rc, ht, hdec⟩ := h
  exact ⟨rc, ht, by rwa [hw] at hdec⟩

theorem follows_device {bytes : List UInt8} {d d' : Device RingBuffer} {e : DeviceEvent} (hs : d.step e = some d')
    (hsafe : DeviceSafe d e) (h : Follows bleProtocol bleFraming [.write bytes] d.parser) :
    Follows bleProtocol bleFraming [.write (bytes ++ written e.received)] d'.parser := by
  have hp : run bleStep d.parser e.received = some d'.parser := by
    rw [← Device.step_parser, hs, Option.map_some]
  rcases received_cases e with he | ⟨e', he⟩
  · rw [he] at hp ⊢
    rw [← Option.some.inj hp]
    refine follows_congr ?_ h
    simp [written]
  · rw [he] at hp ⊢
    obtain ⟨p, hs', hf⟩ := h.step ble_implements ((hsafe e' (by simp [he])).faithful h.wf)
    rw [run_cons hs'] at hp
    rw [← Option.some.inj hp]
    refine follows_congr ?_ hf
    rw [written_append, written_write, written_write]

theorem Receives.quiet {es : List FirmwareEvent} {f f' : Firmware} {e : FirmwareEvent} (h : Receives es f)
    (huart : f'.uart = f.uart) (hble : f'.ble.parser = f.ble.parser) (hu : e.uartBytes = []) (hb : e.bleBytes = []) :
    Receives (es ++ [e]) f' := by
  constructor
  · simpa [huart, hu] using h.uart
  · simpa [hble, hb] using h.ble

/-- **One event keeps both parsers with their receivers.** -/
theorem Receives.step {es : List FirmwareEvent} {f f' : Firmware} {e : FirmwareEvent} (h : Receives es f)
    (hok : Sound f e) (hs : f.step e = some f') : Receives (es ++ [e]) f' := by
  cases e with
  | loop ms =>
    cases hs
    have hparts : (appLoop f ms).uart = f.uart ∧ (appLoop f ms).ble = f.ble := by
      unfold appLoop
      dsimp only
      split <;> exact ⟨rfl, rfl⟩
    exact h.quiet hparts.1 (congrArg Device.parser hparts.2) rfl rfl
  | gap e =>
    cases hs
    exact h.quiet rfl rfl rfl rfl
  | gatt msg =>
    have hmap : (f.ble.step (.gatt msg)).map (fun ble => { f with ble := ble }) = some f' := hs
    obtain ⟨ble, hble, rfl⟩ := Option.map_eq_some_iff.mp hmap
    constructor
    · simpa [FirmwareEvent.uartBytes] using h.uart
    · have := follows_device hble hok.2 h.ble
      simpa [FirmwareEvent.bleBytes] using this
  | interrupt intId fifo =>
    cases hs
    obtain ⟨n, ts, hm, ht, hrec⟩ := h.uart
    obtain ⟨m', n', hm', -, hmir, ht'⟩ := mirrors_step hm ht (e := .interrupt intId fifo) hok.2
    cases hm'
    constructor
    · refine ⟨n', _, hmir, ht', ?_⟩
      rw [received_append, hrec, UartEvent.interleavings, received_map_receive]
      simp [FirmwareEvent.uartBytes]
    · simpa [FirmwareEvent.bleBytes] using h.ble
  | advance =>
    obtain ⟨huart, hble⟩ := advance_parts hs
    constructor
    · rcases huart with hu | ⟨hin, hu⟩
      · simpa [hu, FirmwareEvent.uartBytes] using h.uart
      · obtain ⟨n, ts, hm, ht, hrec⟩ := h.uart
        obtain ⟨m', n', hm', -, hmir, ht'⟩ := mirrors_step hm ht (e := .advance) (hok.2.1 hin)
        cases hm'
        refine ⟨n', _, hu ▸ hmir, ht', ?_⟩
        rw [received_append, hrec, UartEvent.interleavings, received_advance]
        simp [FirmwareEvent.uartBytes]
    · rcases hble with hb | ⟨hcalls, hb⟩
      · simpa [hb, FirmwareEvent.bleBytes] using h.ble
      · have := follows_device hb (hok.2.2 hcalls) h.ble
        simpa [FirmwareEvent.bleBytes, DeviceEvent.received] using this

theorem receives_init {memUart : Vector UInt8 uartBufferSize.toNat} {memBle : Vector UInt8 bleBufferSize.toNat}
    {f : Firmware} (hu : f.uart = uartProtocolInit memUart) (hb : f.ble = deviceInit memBle) : Receives [] f := by
  constructor
  · rw [hu]
    exact ⟨_, [], mirrors_init memUart, tends_init, rfl⟩
  · rw [hb]
    exact follows_congr rfl (follows_init memBle)

/-- A parser that waits for bytes does not search the last head. -/
theorem headNotLast_of_waits {R Head : Type} [LawfulRing R] {P : Protocol Head} {F : Framing UInt8 Call}
    (hI : Implements P F) {s : State R Head} (hw : LawfulRing.Wf s.ring) (h : Waits P s) :
    HeadNotLast F s.ring s.statics := by
  intro hs0 _ hlast
  rcases h with ⟨-, hlen⟩ | ⟨hs1, -⟩
  · rw [validSize_lt hw, hI.headSize] at hlen
    have := hlast.1.1
    rw [List.length_drop] at this
    omega
  · rw [hs0] at hs1
    exact absurd hs1 (by decide)

/-- **What the two parsers have handed on.** -/
theorem Receives.calls {es : List FirmwareEvent} {f : Firmware} (h : Receives es f) :
    (f.uart.state.calls <+: uartFraming.decode (es.flatMap FirmwareEvent.uartBytes) ∧
      (Waits uartProtocol f.uart.state →
        f.uart.state.calls = uartFraming.decode (es.flatMap FirmwareEvent.uartBytes))) ∧
      f.ble.parser.calls <+: bleFraming.decode (es.flatMap FirmwareEvent.bleBytes) ∧
      (Waits bleProtocol f.ble.parser → f.ble.parser.calls = bleFraming.decode (es.flatMap FirmwareEvent.bleBytes)) := by
  obtain ⟨⟨n, ts, hm, ht, hrec⟩, hble⟩ := h
  refine ⟨hrec ▸ hm.calls_prefix uart_implements ht, ?_, ?_⟩
  · simpa using hble.calls_prefix
  · intro hwait
    have := hble.settled ble_implements (headNotLast_of_waits ble_implements hble.wf hwait) hwait.settled
    simpa using this

/-- **Both command streams at once.**  In every scheduled run of the firmware in which both rings are queues, the
commands executed for the UART are a prefix of the decoding of the bytes taken from its FIFO; the commands handed to
`ble_protocol_cmd_func` are one of the decoding of the bytes written over the air, so that the functions of the table
are called in the order and with the payloads sent.  A parser that waits for bytes has handed on everything. -/
theorem firmware_commands (memUart : Vector UInt8 uartBufferSize.toNat) (memBle : Vector UInt8 bleBufferSize.toNat) :
    ∃ f₀, appInit memUart memBle = .ok f₀ ∧ ∀ es, Admits Firmware.step Sound f₀ es →
      ∃ f, run Firmware.step f₀ es = some f ∧
        f.uart.state.calls <+: uartFraming.decode (es.flatMap FirmwareEvent.uartBytes) ∧
        CmdFun.called f.ble.parser.calls <+: CmdFun.called (bleFraming.decode (es.flatMap FirmwareEvent.bleBytes)) ∧
        (Waits uartProtocol f.uart.state →
          f.uart.state.calls = uartFraming.decode (es.flatMap FirmwareEvent.uartBytes)) ∧
        (Waits bleProtocol f.ble.parser →
          f.ble.parser.calls = bleFraming.decode (es.flatMap FirmwareEvent.bleBytes)) := by
  obtain ⟨a, b, c, s, hboot⟩ := stands_init
  obtain ⟨f₀, hinit, -, -, hu, hb, h0⟩ := hboot memUart memBle
  refine ⟨f₀, hinit, ?_⟩
  intro es ha
  have hstep : ∀ (past : List FirmwareEvent) (f : Firmware) (e : FirmwareEvent),
      (Receives past f ∧ ∃ v, Stands a b c (deviceInit memBle) v f) → Sound f e →
      ∃ f', f.step e = some f' ∧ Receives (past ++ [e]) f' ∧ ∃ v, Stands a b c (deviceInit memBle) v f' := by
    rintro past f e ⟨hrec, v, hstands⟩ hok
    obtain ⟨f', hs, hstands'⟩ := hstands.step hok.1
    exact ⟨f', hs, hrec.step hok hs, _, hstands'⟩
  obtain ⟨f, hr, hrec, -⟩ := run_keeps hstep [] ⟨receives_init hu hb, _, h0⟩ ha
  obtain ⟨⟨hupre, hu⟩, hbpre, hb⟩ := hrec.calls
  exact ⟨f, hr, hupre, CmdFun.called_prefix hbpre, hu, hb⟩

theorem firmware_commands_two : ∃ f₀ f, appInit (Vector.replicate 512 0) (Vector.replicate 512 0) = .ok f₀ ∧
    run Firmware.step f₀ (twoPasses [0x55]) = some f ∧
    f.uart.state.calls <+: uartFraming.decode ((twoPasses [0x55]).flatMap FirmwareEvent.uartBytes) ∧
    CmdFun.called f.ble.parser.calls <+:
      CmdFun.called (bleFraming.decode ((twoPasses [0x55]).flatMap FirmwareEvent.bleBytes)) ∧
    (Waits uartProtocol f.uart.state →
      f.uart.state.calls = uartFraming.decode ((twoPasses [0x55]).flatMap FirmwareEvent.uartBytes)) ∧
    (Waits bleProtocol f.ble.parser →
      f.ble.parser.calls = bleFraming.decode ((twoPasses [0x55]).flatMap FirmwareEvent.bleBytes)) := by
  obtain ⟨f₀, hinit, h⟩ := firmware_commands (Vector.replicate 512 0) (Vector.replicate 512 0)
  have ha : Admits Firmware.step Sound f₀ (twoPasses [0x55]) := by
    cases hinit
    decide +kernel
  obtain ⟨f, h⟩ := h _ ha
  exact ⟨f₀, f, hinit, h⟩

end Fr8012haLock.App
