import Fr8012haLock.Ble.Service
import Mathlib.Data.Finset.Insert
import Mathlib.Tactic.Common

/-!
# The link to the phone

`System` puts the BLE stack beside the device: the links that are live, and whether the lock can be found.  Only
`GAP_EVT_DISCONNECT` of the link in `phone_link_conidx` starts advertising again, and a connection may end advertising
without `adv_status` being told.  What holds all the same is `Linked`: the phone's link is a live one, or there is none
and the lock is advertising (`link_kept`).
-/

namespace Fr8012haLock.Ble

open Buffer Receive Runs

variable {R : Type}

/-- What an event does to the static variables about the link, and the calls into the stack. -/
def DeviceEvent.onLink (l : Link) : DeviceEvent → Link × List StackCall
  | .gatt msg =>
    (if msg.msgEvt = .writeReq ∧ msg.attIdx = .char1Cfg then
      { l with bleConnState := .connected, phoneLinkConidx := msg.connIdx } else l, [])
  | .gap e => bleGapEventCallback l e
  | .process => (l, [])

theorem Device.step_link [ByteRing R] {d d' : Device R} {e : DeviceEvent} (h : d.step e = some d') :
    d'.link = (e.onLink d.link).1 ∧ d'.stackCalls = d.stackCalls ++ (e.onLink d.link).2 := by
  cases e with
  | gatt msg =>
    cases h
    obtain ⟨evt, connIdx, attIdx, len, data, fits⟩ := msg
    refine ⟨?_, (List.append_nil _).symm⟩
    cases evt with
    | writeReq => simp [DeviceEvent.onLink]
    | readReq => rfl
    | other => rfl
  | gap e =>
    cases h
    exact ⟨rfl, rfl⟩
  | process =>
    obtain ⟨p, -, rfl⟩ := Option.map_eq_some_iff.mp h
    exact ⟨rfl, (List.append_nil _).symm⟩

/-! ### The stack beside the device -/

/-- The device, the links that are live, whether the lock is advertising, and whether `GAP_EVT_ALL_SVC_ADDED` has been
reported. -/
structure System (R : Type) where
  device : Device R
  live : Finset UInt8
  advertising : Bool
  svcAdded : Bool

/-- What the stack does before it reports an event; `goesOn` says whether advertising goes on when a link comes up. -/
def System.report (s : System R) (goesOn : Bool) : DeviceEvent → System R
  | .gap .allSvcAdded => { s with svcAdded := true }
  | .gap (.slaveConnect conidx) =>
    { s with live := insert conidx s.live, advertising := s.advertising && goesOn }
  | .gap (.disconnect conidx) => { s with live := s.live.erase conidx }
  | _ => s

/-- An event: the stack reports it, the device handles it, and the stack does what the device has called for. -/
def System.step [ByteRing R] (s : System R) (x : DeviceEvent × Bool) : Option (System R) :=
  (s.device.step x.1).map fun d =>
    let s' := s.report x.2 x.1
    let calls := d.stackCalls.drop s.device.stackCalls.length
    { s' with device := d, advertising := s'.advertising || decide (.startAdvertising ∈ calls) }

/-- What is assumed of the stack: a link comes up under an index that is not live and not `0xff`, and not before
`GAP_EVT_ALL_SVC_ADDED`; links that go down, and messages, have indices that are live. -/
def StackOk (s : System R) (x : DeviceEvent × Bool) : Prop :=
  match x.1 with
  | .gap (.slaveConnect conidx) => s.svcAdded = true ∧ conidx ∉ s.live ∧ conidx ≠ 0xff
  | .gap (.disconnect conidx) => conidx ∈ s.live
  | .gatt msg => msg.connIdx ∈ s.live
  | _ => True

instance : ∀ (s : System R) (x : DeviceEvent × Bool), Decidable (StackOk s x)
  | s, (.gap (.slaveConnect conidx), _) =>
    inferInstanceAs (Decidable (s.svcAdded = true ∧ conidx ∉ s.live ∧ conidx ≠ 0xff))
  | s, (.gap (.disconnect conidx), _) => inferInstanceAs (Decidable (conidx ∈ s.live))
  | s, (.gatt msg, _) => inferInstanceAs (Decidable (msg.connIdx ∈ s.live))
  | _, (.gap .allSvcAdded, _) => isTrue trivial
  | _, (.gap .advEnd, _) => isTrue trivial
  | _, (.gap .other, _) => isTrue trivial
  | _, (.process, _) => isTrue trivial

/-- The device after `ble_protocol_init`, and no link. -/
def systemInit (mem : Vector UInt8 bleBufferSize.toNat) : System RingBuffer := ⟨deviceInit mem, ∅, false, false⟩

/-! ### The invariant -/

/-- The phone's link is a live one, or there is none and the lock is advertising. -/
structure Linked (l : Link) (live : Finset UInt8) (advertising svcAdded : Bool) : Prop where
  state_iff : l.bleConnState = .connected ↔ l.phoneLinkConidx ≠ 0xff
  phone_live : l.phoneLinkConidx = 0xff ∨ l.phoneLinkConidx ∈ live
  live_ne : 0xff ∉ live
  advertises : svcAdded = true → l.phoneLinkConidx = 0xff → advertising = true
  silent : svcAdded = false → l.advStatus ≠ 1 ∧ live = ∅

theorem linked_init : Linked initialLink ∅ false false := by
  refine ⟨by simp [initialLink], Or.inl rfl, Finset.notMem_empty _, ?_, ?_⟩
  · intro h
    cases h
  · intro _
    exact ⟨by simp [initialLink], rfl⟩

section

variable {l : Link} {live : Finset UInt8} {advertising svcAdded : Bool}

theorem bleServiceAdvStart_eq (l : Link) (force : UInt8) (h : force ≠ 0 ∨ l.advStatus ≠ 1) :
    bleServiceAdvStart l force = ({ l with advStatus := 1 }, [.startAdvertising]) := by
  refine if_neg ?_
  rintro ⟨hstatus, hforce⟩
  exact h.elim (fun h => h hforce) fun h => h hstatus

theorem Linked.added (h : Linked l live advertising svcAdded) {conidx : UInt8} (hc : conidx ∈ live) :
    svcAdded = true := by
  by_contra hs
  have hempty := (h.silent (Bool.eq_false_iff.mpr hs)).2
  rw [hempty] at hc
  exact absurd hc (Finset.notMem_empty conidx)

theorem linked_connected (l : Link) {conidx : UInt8} (hc : conidx ∈ live) (hne : 0xff ∉ live) (hs : svcAdded = true) :
    Linked { l with bleConnState := .connected, phoneLinkConidx := conidx } live advertising svcAdded := by
  have hff : conidx ≠ 0xff := fun h => hne (h ▸ hc)
  refine ⟨iff_of_true rfl hff, Or.inr hc, hne, fun _ h => absurd h hff, ?_⟩
  intro h
  rw [hs] at h
  cases h

/-- **An event keeps the link.** -/
theorem Linked.event {s : System R} (h : Linked s.device.link s.live s.advertising s.svcAdded) (e : DeviceEvent)
    (goesOn : Bool) (hok : StackOk s (e, goesOn)) :
    Linked (e.onLink s.device.link).1 (s.report goesOn e).live
      ((s.report goesOn e).advertising || decide (.startAdvertising ∈ (e.onLink s.device.link).2))
      (s.report goesOn e).svcAdded := by
  have hsame : Linked s.device.link s.live (s.advertising || false) s.svcAdded := by rwa [Bool.or_false]
  cases e with
  | gatt msg =>
    have hlive : msg.connIdx ∈ s.live := hok
    rw [DeviceEvent.onLink]
    by_cases hcfg : msg.msgEvt = .writeReq ∧ msg.attIdx = .char1Cfg
    · rw [if_pos hcfg]
      exact linked_connected _ hlive h.live_ne (h.added hlive)
    · rw [if_neg hcfg]
      exact hsame
  | process => exact hsame
  | gap e =>
    cases e with
    | advEnd => exact hsame
    | other => exact hsame
    | allSvcAdded =>
      show Linked (bleServiceAdvStart s.device.link 0).1 s.live
        (s.advertising || decide (.startAdvertising ∈ (bleServiceAdvStart s.device.link 0).2)) true
      by_cases hst : s.device.link.advStatus = 1
      · have hs : s.svcAdded = true := by
          by_contra hs
          exact (h.silent (Bool.eq_false_iff.mpr hs)).1 hst
        rw [bleServiceAdvStart, if_pos ⟨hst, rfl⟩]
        rwa [hs] at hsame
      · rw [bleServiceAdvStart_eq _ _ (Or.inr hst)]
        exact ⟨h.state_iff, h.phone_live, h.live_ne, fun _ _ => by simp, fun h => by cases h⟩
    | slaveConnect conidx =>
      obtain ⟨hs, -, hne⟩ := hok
      refine linked_connected _ (Finset.mem_insert_self ..) ?_ hs
      show 0xff ∉ insert conidx s.live
      rw [Finset.mem_insert, not_or]
      exact ⟨hne.symm, h.live_ne⟩
    | disconnect conidx =>
      have hlive : conidx ∈ s.live := hok
      have hs := h.added hlive
      have hne' : 0xff ∉ s.live.erase conidx := fun hm => h.live_ne (Finset.mem_of_mem_erase hm)
      show Linked (bleGapEventCallback s.device.link (.disconnect conidx)).1 (s.live.erase conidx)
        (s.advertising || decide (.startAdvertising ∈ (bleGapEventCallback s.device.link (.disconnect conidx)).2))
        s.svcAdded
      rw [bleGapEventCallback]
      by_cases hphone : s.device.link.phoneLinkConidx = conidx
      · rw [if_pos hphone, bleServiceAdvStart_eq _ _ (Or.inl (by decide))]
        refine ⟨by simp, Or.inl rfl, hne', fun _ _ => by simp, ?_⟩
        intro h
        rw [hs] at h
        cases h
      · rw [if_neg hphone]
        refine ⟨h.state_iff, ?_, hne', ?_, ?_⟩
        · exact h.phone_live.imp_right fun hm => Finset.mem_erase.mpr ⟨hphone, hm⟩
        · exact hsame.advertises
        · intro h
          rw [hs] at h
          cases h

end

theorem System.step_linked {s : System RingBuffer} (hl : Lawful bleProtocol bleFraming s.device.parser)
    (h : Linked s.device.link s.live s.advertising s.svcAdded) {x : DeviceEvent × Bool} (hok : StackOk s x) :
    ∃ s', s.step x = some s' ∧ Lawful bleProtocol bleFraming s'.device.parser ∧
      Linked s'.device.link s'.live s'.advertising s'.svcAdded := by
  obtain ⟨e, goesOn⟩ := x
  obtain ⟨d, hd, hl'⟩ := Device.step_lawful hl e
  obtain ⟨hlink, hcalls⟩ := Device.step_link hd
  refine ⟨_, by rw [System.step, hd]; rfl, hl', ?_⟩
  have := h.event e goesOn hok
  rw [← hlink] at this
  dsimp only
  rwa [hcalls, List.drop_left]

/-- **The phone and the lock's visibility are never lost.**  Whatever the stack reports, in any order and with any
number of links, as long as its indices are right: the state says that the phone is connected exactly when there is an
index for it; this is the index of a live link; and once the services are added, the lock is advertising while no link
is live. -/
theorem link_kept (mem : Vector UInt8 bleBufferSize.toNat) (xs : List (DeviceEvent × Bool))
    (hok : Admits System.step StackOk (systemInit mem) xs) :
    ∃ s, run System.step (systemInit mem) xs = some s ∧
      (s.device.link.bleConnState = .connected ↔ s.device.link.phoneLinkConidx ≠ 0xff) ∧
      (s.device.link.phoneLinkConidx = 0xff ∨ s.device.link.phoneLinkConidx ∈ s.live) ∧
      (s.svcAdded = true → s.live = ∅ → s.advertising = true) := by
  have hstep : ∀ (past : List (DeviceEvent × Bool)) (s : System RingBuffer) (x : DeviceEvent × Bool),
      (Lawful bleProtocol bleFraming s.device.parser ∧ Linked s.device.link s.live s.advertising s.svcAdded) →
      StackOk s x → ∃ s', s.step x = some s' ∧ (Lawful bleProtocol bleFraming s'.device.parser ∧
        Linked s'.device.link s'.live s'.advertising s'.svcAdded) := by
    intro past s x h hx
    exact System.step_linked h.1 h.2 hx
  obtain ⟨s, hr, -, h⟩ := run_keeps hstep [] ⟨lawful_init mem, linked_init⟩ hok
  refine ⟨s, hr, h.state_iff, h.phone_live, ?_⟩
  intro hs hempty
  refine h.advertises hs (h.phone_live.resolve_right ?_)
  rw [hempty]
  exact Finset.notMem_empty _

/-- Two links at once.  Advertising goes on when the second comes up; the first subscribes, the second goes down and is
not the phone's any more, and then the first. -/
def twoLinks : List (DeviceEvent × Bool) :=
  [(.gap .allSvcAdded, false), (.gap (.slaveConnect 0), true), (.gap (.slaveConnect 1), false),
    (.gatt ⟨.writeReq, 0, .char1Cfg, 2, some [1, 0], by decide⟩, false), (.gap (.disconnect 1), false),
    (.gap (.disconnect 0), false)]

theorem link_kept_two : ∃ s, run System.step (systemInit (Vector.replicate 512 0)) twoLinks = some s ∧
    (s.device.link.bleConnState = .connected ↔ s.device.link.phoneLinkConidx ≠ 0xff) ∧
    (s.device.link.phoneLinkConidx = 0xff ∨ s.device.link.phoneLinkConidx ∈ s.live) ∧
    (s.svcAdded = true → s.live = ∅ → s.advertising = true) :=
  link_kept (Vector.replicate 512 0) twoLinks (by decide +kernel)

end Fr8012haLock.Ble
