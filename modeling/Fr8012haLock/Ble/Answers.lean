import Fr8012haLock.Ble.Link
import Fr8012haLock.Ble.RoundTrip

/-!
# What the lock answers (`ble_service_write_data`)

`ble_pro_response` hands its frame to `ble_service_write_data`, which makes it a notification for the link in
`phone_link_conidx`.  The functions of the commands, from which it would be called, are empty yet, so that an answer may
come here at any time.  Whatever the stack reports in between, no answer is lost while there is a phone, and what comes
over a link decodes to the answers given while the link was the phone's (`answers_received`).
-/

namespace Fr8012haLock.Ble

open Buffer Receive Runs

/-- `gatt_ntf_t` -/
structure GattNtf where
  conidx : UInt8
  svcId : UInt8
  attIdx : GattIndex
  pData : List UInt8
  dataLen : UInt16

/-- `ble_service_write_data`: what it returns, and the notification it hands to the stack; `data` is `none` for a null
pointer. -/
def bleServiceWriteData (gattServiceId : UInt8) (l : Link) (data : Option (List UInt8)) (size : UInt32) :
    UInt8 × Option GattNtf :=
  match data with
  | none => (1, none)
  | some pData =>
    if size = 0 then (1, none) else (0, some ⟨l.phoneLinkConidx, gattServiceId, .char1Value, pData, size.toUInt16⟩)

/-- What a notification sends. -/
def GattNtf.bytes (ntf : GattNtf) : List UInt8 := ntf.pData.take ntf.dataLen.toNat

/-- A notification, and the links that are live when it is handed to the stack. -/
structure Sent where
  ntf : GattNtf
  live : Finset UInt8

/-- The stack and the device, with what the device has sent. -/
structure Lock where
  system : System RingBuffer
  sent : List Sent

/-- What happens: the stack reports an event, or the lock answers. -/
inductive LockEvent where
  | stack (e : DeviceEvent) (goesOn : Bool)
  | respond (c : Command)

/-- One event. -/
def Lock.step (gattServiceId : UInt8) (k : Lock) : LockEvent → Option Lock
  | .stack e goesOn => (k.system.step (e, goesOn)).map fun system => { k with system := system }
  | .respond c =>
    let (response, size) := bleProResponse c.cmd c.payload (UInt32.ofNat c.payload.length)
    let (_, ntf) := bleServiceWriteData gattServiceId k.system.device.link (some response) size
    some { k with sent := k.sent ++ (ntf.map fun ntf => ⟨ntf, k.system.live⟩).toList }

/-- What is assumed of the stack; the lock may always answer. -/
def LockOk (k : Lock) : LockEvent → Prop
  | .stack e goesOn => StackOk k.system (e, goesOn)
  | .respond _ => True

instance : ∀ (k : Lock) (x : LockEvent), Decidable (LockOk k x)
  | k, .stack e goesOn => inferInstanceAs (Decidable (StackOk k.system (e, goesOn)))
  | _, .respond _ => isTrue trivial

/-- Nothing has been sent. -/
def lockInit (mem : Vector UInt8 bleBufferSize.toNat) : Lock := ⟨systemInit mem, []⟩

/-- What comes over a link: the notifications of the first characteristic that were for the link, while it was live. -/
def overLink (gattServiceId conidx : UInt8) (sent : List Sent) : List UInt8 :=
  (sent.filter fun x => x.ntf.conidx = conidx ∧ x.ntf.svcId = gattServiceId ∧ x.ntf.attIdx = .char1Value ∧
    conidx ∈ x.live).flatMap fun x => x.ntf.bytes

/-! ### Whom the answers are for -/

/-- The phone's link is the last one that came up or subscribed, unless it has gone down. -/
def phoneAfter (phone : Option UInt8) : DeviceEvent → Option UInt8
  | .gap (.slaveConnect conidx) => some conidx
  | .gap (.disconnect conidx) => if phone = some conidx then none else phone
  | .gatt msg => if msg.msgEvt = .writeReq ∧ msg.attIdx = .char1Cfg then some msg.connIdx else phone
  | _ => phone

/-- The phone's link, and the answers given, each with the link that was the phone's. -/
structure Answers where
  phone : Option UInt8
  given : List (Option UInt8 × Command)

def Answers.step (a : Answers) : LockEvent → Answers
  | .stack e _ => { a with phone := phoneAfter a.phone e }
  | .respond c => { a with given := a.given ++ [(a.phone, c)] }

/-- The answers of a run. -/
def answers (xs : List LockEvent) : Answers := xs.foldl Answers.step ⟨none, []⟩

theorem answers_concat (xs : List LockEvent) (x : LockEvent) : answers (xs ++ [x]) = (answers xs).step x :=
  List.foldl_concat ..

/-- The answers given while a link was the phone's. -/
def answersTo (conidx : UInt8) (given : List (Option UInt8 × Command)) : List Command :=
  (given.filter fun a => a.1 = some conidx).map Prod.snd

section

variable (gattServiceId : UInt8)

/-- A notification carries an answer to the link that was the phone's. -/
structure Carries (x : Sent) (a : Option UInt8 × Command) : Prop where
  conidx : x.ntf.conidx = a.1.getD 0xff
  svcId : x.ntf.svcId = gattServiceId
  attIdx : x.ntf.attIdx = .char1Value
  bytes : x.ntf.bytes = enc a.2
  phone_live : ∀ c, a.1 = some c → c ∈ x.live
  live_ne : 0xff ∉ x.live

variable {gattServiceId}

theorem Carries.over_iff {x : Sent} {a : Option UInt8 × Command} (h : Carries gattServiceId x a) (conidx : UInt8) :
    (x.ntf.conidx = conidx ∧ x.ntf.svcId = gattServiceId ∧ x.ntf.attIdx = .char1Value ∧ conidx ∈ x.live) ↔
      a.1 = some conidx := by
  rw [h.conidx]
  constructor
  · rintro ⟨hc, -, -, hlive⟩
    cases ha : a.1 with
    | none =>
      have hff : 0xff = conidx := by rwa [ha] at hc
      exact absurd (hff ▸ hlive) h.live_ne
    | some c =>
      rw [ha] at hc
      exact congrArg some hc
  · intro ha
    refine ⟨?_, h.svcId, h.attIdx, h.phone_live conidx ha⟩
    rw [ha]
    rfl

theorem overLink_eq {sent : List Sent} {given : List (Option UInt8 × Command)}
    (h : List.Forall₂ (Carries gattServiceId) sent given) (conidx : UInt8) :
    overLink gattServiceId conidx sent = Framing.stream ((answersTo conidx given).map fun c => (enc c, c.call)) := by
  induction h with
  | nil => rfl
  | @cons x a sent given hx h ih =>
    by_cases ha : a.1 = some conidx
    · have hover := (hx.over_iff conidx).mpr ha
      rw [overLink, List.filter_cons_of_pos (by simpa using hover), List.flatMap_cons, answersTo,
        List.filter_cons_of_pos (by simpa using ha), List.map_cons, List.map_cons, Framing.stream_cons, hx.bytes]
      exact congrArg (enc a.2 ++ ·) ih
    · have hover := mt (hx.over_iff conidx).mp ha
      rw [overLink, List.filter_cons_of_neg (by simpa using hover), answersTo,
        List.filter_cons_of_neg (by simpa using ha)]
      exact ih

/-- **The notification of an answer.** -/
theorem bleServiceWriteData_response (gattServiceId : UInt8) (l : Link) (c : Command) : ∃ ntf,
    bleServiceWriteData gattServiceId l
        (some (bleProResponse c.cmd c.payload (UInt32.ofNat c.payload.length)).1)
        (bleProResponse c.cmd c.payload (UInt32.ofNat c.payload.length)).2 = (0, some ntf) ∧
      ntf.conidx = l.phoneLinkConidx ∧ ntf.svcId = gattServiceId ∧ ntf.attIdx = .char1Value ∧ ntf.bytes = enc c := by
  have hfit := c.fits
  have hsize : (bleProResponse c.cmd c.payload (UInt32.ofNat c.payload.length)).2.toNat = 7 + c.payload.length := by
    have hidx := c.toNat_idx
    rw [List.length_append, c.frame.length_head] at hidx
    rw [bleProResponse, UInt32.toNat_add, hidx]
    show (_ + 1) % _ = _
    omega
  have hne : (bleProResponse c.cmd c.payload (UInt32.ofNat c.payload.length)).2 ≠ 0 := by
    intro h0
    rw [h0] at hsize
    have : (0 : UInt32).toNat = 0 := rfl
    omega
  refine ⟨_, if_neg hne, rfl, rfl, rfl, ?_⟩
  rw [GattNtf.bytes, enc]
  congr 1
  rw [UInt32.toNat_toUInt16, hsize]
  omega

/-- The code keeps the phone's link in `phone_link_conidx`, or `0xff`. -/
theorem phoneAfter_spec {s : System RingBuffer} (h : Linked s.device.link s.live s.advertising s.svcAdded)
    {phone : Option UInt8} (hp : s.device.link.phoneLinkConidx = phone.getD 0xff) (hne : phone ≠ some 0xff)
    {e : DeviceEvent} {goesOn : Bool} (hok : StackOk s (e, goesOn)) :
    (e.onLink s.device.link).1.phoneLinkConidx = (phoneAfter phone e).getD 0xff ∧ phoneAfter phone e ≠ some 0xff := by
  have hkeep : s.device.link.phoneLinkConidx = phone.getD 0xff ∧ phone ≠ some 0xff := ⟨hp, hne⟩
  cases e with
  | process => exact hkeep
  | gatt msg =>
    have hlive : msg.connIdx ∈ s.live := hok
    rw [DeviceEvent.onLink, phoneAfter]
    by_cases hcfg : msg.msgEvt = .writeReq ∧ msg.attIdx = .char1Cfg
    · rw [if_pos hcfg, if_pos hcfg]
      refine ⟨rfl, ?_⟩
      intro hff
      exact h.live_ne (Option.some.inj hff ▸ hlive)
    · rw [if_neg hcfg, if_neg hcfg]
      exact hkeep
  | gap e =>
    cases e with
    | advEnd | other => exact hkeep
    | allSvcAdded =>
      refine ⟨?_, hne⟩
      show (bleServiceAdvStart s.device.link 0).1.phoneLinkConidx = _
      rw [bleServiceAdvStart]
      split_ifs <;> exact hp
    | slaveConnect conidx =>
      obtain ⟨-, -, hc⟩ := hok
      refine ⟨rfl, ?_⟩
      intro hff
      exact hc (Option.some.inj hff)
    | disconnect conidx =>
      have hc : conidx ≠ 0xff := by
        rintro rfl
        exact h.live_ne hok
      -- an index for no phone is not that of the link that goes down
      have hiff : s.device.link.phoneLinkConidx = conidx ↔ phone = some conidx := by
        rw [hp]
        cases phone with
        | none => exact iff_of_false hc.symm (Option.some_ne_none conidx).symm
        | some c => exact Option.some_inj.symm
      rw [DeviceEvent.onLink, bleGapEventCallback, phoneAfter]
      by_cases hphone : phone = some conidx
      · rw [if_pos (hiff.mpr hphone), if_pos hphone, bleServiceAdvStart_eq _ _ (Or.inl (by decide))]
        exact ⟨rfl, (Option.some_ne_none _).symm⟩
      · rw [if_neg (mt hiff.mp hphone), if_neg hphone]
        exact hkeep

/-- The parser is lawful, the link is kept, it is the phone's, and the notifications carry the answers. -/
structure Answering (gattServiceId : UInt8) (xs : List LockEvent) (k : Lock) : Prop where
  lawful : Lawful bleProtocol bleFraming k.system.device.parser
  linked : Linked k.system.device.link k.system.live k.system.advertising k.system.svcAdded
  phone : k.system.device.link.phoneLinkConidx = (answers xs).phone.getD 0xff
  phone_ne : (answers xs).phone ≠ some 0xff
  sent : List.Forall₂ (Carries gattServiceId) k.sent (answers xs).given

/-- **One event.** -/
theorem Answering.step {xs : List LockEvent} {k : Lock} (h : Answering gattServiceId xs k) {x : LockEvent}
    (hok : LockOk k x) : ∃ k', k.step gattServiceId x = some k' ∧ Answering gattServiceId (xs ++ [x]) k' := by
  cases x with
  | stack e goesOn =>
    obtain ⟨s, hs, hl, hlinked⟩ := System.step_linked h.lawful h.linked hok
    obtain ⟨hphone, hne⟩ := phoneAfter_spec h.linked h.phone h.phone_ne hok
    obtain ⟨d, hd, rfl⟩ := Option.map_eq_some_iff.mp hs
    obtain ⟨hlink, -⟩ := Device.step_link hd
    refine ⟨_, by rw [Lock.step, hs]; rfl, hl, hlinked, ?_, ?_, ?_⟩
    · rw [answers_concat]
      show d.link.phoneLinkConidx = _
      rw [hlink]
      exact hphone
    · rw [answers_concat]
      exact hne
    · rw [answers_concat]
      exact h.sent
  | respond c =>
    obtain ⟨ntf, hntf, hconidx, hsvc, hatt, hbytes⟩ :=
      bleServiceWriteData_response gattServiceId k.system.device.link c
    refine ⟨{ k with sent := k.sent ++ [⟨ntf, k.system.live⟩] }, ?_, h.lawful, h.linked, ?_, ?_, ?_⟩
    · rw [Lock.step]
      dsimp only
      rw [hntf]
      rfl
    · rw [answers_concat]
      exact h.phone
    · rw [answers_concat]
      exact h.phone_ne
    · rw [answers_concat]
      refine List.rel_append h.sent (List.Forall₂.cons ?_ List.Forall₂.nil)
      refine ⟨hconidx.trans h.phone, hsvc, hatt, hbytes, ?_, h.linked.live_ne⟩
      intro conidx hc
      have hphone : (answers xs).phone = some conidx := hc
      have hp : k.system.device.link.phoneLinkConidx = conidx := by
        rw [h.phone, hphone]
        rfl
      show conidx ∈ k.system.live
      rw [← hp]
      refine h.linked.phone_live.resolve_left ?_
      intro hff
      refine h.phone_ne ?_
      rw [hphone, ← hp, hff]

end

/-- **No answer is lost while there is a phone.**  Whatever the stack reports, as long as its indices are right, and
whatever the lock answers at any time in between, what comes over a link decodes to the answers that were given while
the link was the phone's, in order, each once. -/
theorem answers_received (gattServiceId : UInt8) (mem : Vector UInt8 bleBufferSize.toNat) (xs : List LockEvent)
    (hok : Admits (Lock.step gattServiceId) LockOk (lockInit mem) xs) :
    ∃ k, run (Lock.step gattServiceId) (lockInit mem) xs = some k ∧
      ∀ conidx, bleFraming.decode (overLink gattServiceId conidx k.sent) =
        (answersTo conidx (answers xs).given).map Command.call := by
  have hinit : Answering gattServiceId [] (lockInit mem) := by
    refine ⟨lawful_init mem, linked_init, rfl, ?_, List.Forall₂.nil⟩
    intro h
    cases h
  have hstep : ∀ (past : List LockEvent) (k : Lock) (x : LockEvent), Answering gattServiceId past k → LockOk k x →
      ∃ k', k.step gattServiceId x = some k' ∧ Answering gattServiceId (past ++ [x]) k' := by
    intro past k x h hx
    exact h.step hx
  obtain ⟨k, hr, h⟩ := run_keeps hstep [] hinit hok
  rw [List.nil_append] at h
  refine ⟨k, hr, ?_⟩
  intro conidx
  have hframes : bleFraming.AreFrames ((answersTo conidx (answers xs).given).map fun c => (enc c, c.call)) := by
    intro p hp
    obtain ⟨c, -, rfl⟩ := List.mem_map.mp hp
    exact isFrame_enc c
  rw [overLink_eq h.sent, bleFraming.decode_stream hframes, List.map_map]
  rfl

/-- Two links: an answer before there is any, one to each, and one when the second is down and the first, still live, is
not the phone's. -/
def fourAnswers : List LockEvent :=
  [.stack (.gap .allSvcAdded) false, .respond ⟨0x10, [], by decide⟩, .stack (.gap (.slaveConnect 0)) true,
    .respond ⟨0x05, [0xA4, 0xA3], by decide⟩, .stack (.gap (.slaveConnect 1)) false,
    .respond ⟨0x31, [7, 8, 9], by decide⟩, .stack (.gap (.disconnect 1)) false, .respond ⟨0x05, [], by decide⟩]

theorem answers_received_four : ∃ k, run (Lock.step 0) (lockInit (Vector.replicate 512 0)) fourAnswers = some k ∧
    ∀ conidx, bleFraming.decode (overLink 0 conidx k.sent) =
      (answersTo conidx (answers fourAnswers).given).map Command.call :=
  answers_received 0 (Vector.replicate 512 0) fourAnswers (by decide +kernel)

end Fr8012haLock.Ble
