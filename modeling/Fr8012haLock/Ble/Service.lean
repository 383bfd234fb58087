import Fr8012haLock.Ble.Reception
import Fr8012haLock.Receive.Alike

/-!
# The BLE service (`ble_service.c`)

The two callbacks that the BLE stack calls, the GAP event callback and the GATT message handler, with the static
variables they keep and the calls they make into the stack.  What reaches the parser is `DeviceEvent.received`: the
data of every write request, whatever attribute it is for, and nothing of what happens to the link
(`Device.step_parser`).
-/

namespace Fr8012haLock.Ble

open Cyclic Buffer Receive Runs

/-- `ble_state_e` -/
inductive BleState where
  | disconnect
  | connected
  deriving DecidableEq, Repr

/-- `GATT_INDEX_E`, the attributes of the service. -/
inductive GattIndex where
  | service
  | char1Declaration
  | char1Value
  | char1Cfg
  | char1UserDescription
  | char2Declaration
  | char2Value
  | char2Cfg
  | char2UserDescription
  deriving DecidableEq, Repr

/-- `gatt_msg_evt_t`, as far as the handler tells the events apart. -/
inductive GattMsgEvt where
  | readReq
  | writeReq
  | other
  deriving DecidableEq, Repr

/-- `gatt_msg_t`; `msgData` is `none` for a null pointer, and else has the length the message says. -/
structure GattMsg where
  msgEvt : GattMsgEvt
  connIdx : UInt8
  attIdx : GattIndex
  msgLen : UInt16
  msgData : Option (List UInt8)
  fits : ∀ d ∈ msgData, d.length = msgLen.toNat

/-- `gap_event_t`, as far as the callback tells the events apart.  The index of the link is at the same place in all
members of the union `param`. -/
inductive GapEvent where
  | advEnd
  | allSvcAdded
  | slaveConnect (conidx : UInt8)
  | disconnect (conidx : UInt8)
  | other

/-- Calls into the stack; `startAdvertising` stands for the calls that set up advertising as well. -/
inductive StackCall where
  | startAdvertising
  | connParamUpdate (conidx : UInt8) (minIntv maxIntv slaveLatency supervisionTimeout : UInt16)
  deriving DecidableEq, Repr

/-- The static variables about the link. -/
structure Link where
  advStatus : UInt8
  phoneLinkConidx : UInt8
  bleConnState : BleState
  deriving DecidableEq, Repr

/-- The static variables before any event. -/
def initialLink : Link := ⟨0, 0xff, .disconnect⟩

/-- `ble_service_adv_start` -/
def bleServiceAdvStart (l : Link) (force : UInt8) : Link × List StackCall :=
  if l.advStatus = 1 ∧ force = 0 then (l, []) else ({ l with advStatus := 1 }, [.startAdvertising])

/-- `ble_gap_event_callback` -/
def bleGapEventCallback (l : Link) : GapEvent → Link × List StackCall
  | .advEnd => (l, [])
  | .allSvcAdded => bleServiceAdvStart l 0
  | .slaveConnect conidx =>
    ({ l with phoneLinkConidx := conidx, bleConnState := .connected }, [.connParamUpdate conidx 20 50 0 300])
  | .disconnect conidx =>
    if l.phoneLinkConidx = conidx then
      bleServiceAdvStart { l with phoneLinkConidx := 0xff, bleConnState := .disconnect } 1
    else (l, [])
  | .other => (l, [])

section Handler

variable {R : Type} [ByteRing R]

/-- `ble_service_write_callback` -/
def bleServiceWriteCallback (rb : R) (writeBuf : Option (List UInt8)) (len : UInt16) (_attIdx : GattIndex) : R :=
  match writeBuf with
  | none => rb
  | some buf => ByteRing.write rb buf len.toUInt32

/-- `ble_service_msg_handle`; the read callback it calls does nothing. -/
def bleServiceMsgHandle (l : Link) (rb : R) (msg : GattMsg) : Link × R × UInt16 :=
  match msg.msgEvt with
  | .readReq => (l, rb, msg.msgLen)
  | .writeReq =>
    let l := if msg.attIdx = .char1Cfg then { l with bleConnState := .connected, phoneLinkConidx := msg.connIdx } else l
    (l, bleServiceWriteCallback rb msg.msgData msg.msgLen msg.attIdx, msg.msgLen)
  | .other => (l, rb, msg.msgLen)

/-- The device, as far as BLE is concerned. -/
structure Device (R : Type) where
  link : Link
  parser : State R BleProHead
  stackCalls : List StackCall

/-- What happens to the device. -/
inductive DeviceEvent where
  | gatt (msg : GattMsg)
  | gap (e : GapEvent)
  | process

/-- One event; `none` when the parser does not return. -/
def Device.step (d : Device R) : DeviceEvent → Option (Device R)
  | .gatt msg =>
    let (link, rb, _) := bleServiceMsgHandle d.link d.parser.ring msg
    some { d with link := link, parser := { d.parser with ring := rb } }
  | .gap e =>
    let (link, calls) := bleGapEventCallback d.link e
    some { d with link := link, stackCalls := d.stackCalls ++ calls }
  | .process => (bleStep d.parser .process).map fun p => { d with parser := p }

end Handler

/-- The device after `ble_protocol_init`. -/
def deviceInit (mem : Vector UInt8 bleBufferSize.toNat) : Device RingBuffer := ⟨initialLink, bleProtocolInit mem, []⟩

/-! ### What reaches the parser -/

/-- What an event is for the parser. -/
def DeviceEvent.received : DeviceEvent → List Event
  | .gatt msg =>
    match msg.msgEvt, msg.msgData with
    | .writeReq, some buf => [.write buf]
    | _, _ => []
  | .gap _ => []
  | .process => [.process]

theorem received_cases (e : DeviceEvent) : e.received = [] ∨ ∃ e', e.received = [e'] := by
  cases e with
  | gatt msg =>
    unfold DeviceEvent.received
    dsimp only
    split
    · exact Or.inr ⟨_, rfl⟩
    · exact Or.inl rfl
  | gap e => exact Or.inl rfl
  | process => exact Or.inr ⟨_, rfl⟩

theorem GattMsg.size_eq (msg : GattMsg) {buf : List UInt8} (h : msg.msgData = some buf) :
    msg.msgLen.toUInt32 = UInt32.ofNat buf.length := by
  apply UInt32.toNat_inj.mp
  have hfit := msg.fits buf h
  have hlt := msg.msgLen.toNat_lt
  rw [UInt16.toNat_toUInt32, UInt32.toNat_ofNat']
  omega

/-- **The parser sees what an event is for it, and nothing else.** -/
theorem Device.step_parser {R : Type} [ByteRing R] (d : Device R) (e : DeviceEvent) :
    (d.step e).map Device.parser = run bleStep d.parser e.received := by
  cases e with
  | gatt msg =>
    obtain ⟨evt, connIdx, attIdx, len, data, fits⟩ := msg
    cases evt with
    | writeReq =>
      cases data with
      | none => rfl
      | some buf =>
        show some { d.parser with ring := ByteRing.write d.parser.ring buf len.toUInt32 } = some _
        rw [GattMsg.size_eq ⟨.writeReq, connIdx, attIdx, len, some buf, fits⟩ rfl]
        rfl
    | readReq => rfl
    | other => rfl
  | gap e => rfl
  | process =>
    show ((bleStep d.parser .process).map _).map _ = (bleStep d.parser .process).bind some
    cases bleStep d.parser .process <;> rfl

theorem Device.step_of_parser {R : Type} [ByteRing R] {d : Device R} {e : DeviceEvent} {p : State R BleProHead}
    (h : run bleStep d.parser e.received = some p) : ∃ d', d.step e = some d' ∧ d'.parser = p := by
  rw [← Device.step_parser] at h
  exact Option.map_eq_some_iff.mp h

theorem Device.step_lawful {d : Device RingBuffer} (hl : Lawful bleProtocol bleFraming d.parser) (e : DeviceEvent) :
    ∃ d', d.step e = some d' ∧ Lawful bleProtocol bleFraming d'.parser := by
  have hp : ∃ p, run bleStep d.parser e.received = some p ∧ Lawful bleProtocol bleFraming p := by
    rcases received_cases e with he | ⟨e', he⟩
    · exact ⟨d.parser, by rw [he]; rfl, hl⟩
    · obtain ⟨p, hp, hlp⟩ := hl.step ble_implements e'
      exact ⟨p, by rw [he, run_cons hp]; rfl, hlp⟩
  obtain ⟨p, hp, hlp⟩ := hp
  obtain ⟨d', hd, rfl⟩ := Device.step_of_parser hp
  exact ⟨d', hd, hlp⟩

theorem lawful_init (mem : Vector UInt8 bleBufferSize.toNat) : Lawful bleProtocol bleFraming (bleProtocolInit mem) := by
  obtain ⟨rc, ht, -⟩ := follows_init mem
  exact ⟨rc, ht⟩

/-- **Every event leaves the parser lawful**, so that the device never hangs. -/
theorem device_lawful (mem : Vector UInt8 bleBufferSize.toNat) (es : List DeviceEvent) :
    ∃ d, run Device.step (deviceInit mem) es = some d ∧ Lawful bleProtocol bleFraming d.parser := by
  have hstep : ∀ (past : List DeviceEvent) (d : Device RingBuffer) (e : DeviceEvent),
      Lawful bleProtocol bleFraming d.parser → True →
      ∃ d', d.step e = some d' ∧ Lawful bleProtocol bleFraming d'.parser := by
    intro past d e hl _
    exact Device.step_lawful hl e
  have h0 : Lawful bleProtocol bleFraming (deviceInit mem).parser := lawful_init mem
  have h := run_keeps hstep [] h0 (admits_of_forall (fun _ _ => trivial) _ es)
  exact h

end Fr8012haLock.Ble
