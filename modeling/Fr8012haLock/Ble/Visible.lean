import Fr8012haLock.Ble.Advertising
import Fr8012haLock.Ble.Link

/-!
# What a scan finds

`ble_service_init` makes up what the lock advertises, from its name and its address, and `ble_service_adv_start` hands it
to the stack in front of every start (`GapCall`).  So whenever no link is live, a scan finds the lock, and reads its name
and its address (`lock_found`).
-/

namespace Fr8012haLock.Ble

open Buffer Receive Runs

/-! ### The service -/

/-- `ble_service_t` -/
structure BleService where
  advData : List UInt8
  advLen : UInt16
  rspData : List UInt8
  rspLen : UInt16
  devData : List UInt8
  devLen : UInt8
  advIntv : UInt16

/-- `name` of `ble_service_init`, "Cabinet Lock" without the zero at its end. -/
def lockName : List UInt8 := [0x43, 0x61, 0x62, 0x69, 0x6e, 0x65, 0x74, 0x20, 0x4c, 0x6f, 0x63, 0x6b]

def nameAd : AdStructure := ⟨0x09, lockName, 12, rfl⟩

/-- The structure with the address. -/
def addressAd (addr : Vector UInt8 6) : AdStructure := ⟨0xff, addr.toList ++ [0, 0], 8, by simp⟩

/-- `ble_service_init`, as far as `ble_service` is concerned, with the address that `gap_address_get` finds; `none` when
`ble_adv_append` does not return or stores behind its buffer. -/
def bleServiceInit (addr : Vector UInt8 6) : Option BleService := do
  let (advData, advDataLen) ← advStep advInit nameAd
  let (advResp, advRespLen) ← advStep advInit nameAd
  let devName := lockName ++ List.replicate (advDataSizeMax - lockName.length) 0
  let (advData, advDataLen) ← advStep (advData, advDataLen) (addressAd addr)
  some ⟨advData, advDataLen.toUInt16, advResp, advRespLen.toUInt16, devName, 12, 1600⟩

/-- `gap_adv_param_t`, the fields that `ble_service_adv_start` does not leave zero or sets to a name. -/
structure GapAdvParam where
  advMode : UInt8
  discMode : UInt8
  advAddrType : UInt8
  advChnlMap : UInt8
  advFiltPolicy : UInt8
  advIntvMin : UInt16
  advIntvMax : UInt16
  deriving DecidableEq, Repr

/-- The calls by which advertising is set up and started; the data are as long as their sizes say. -/
inductive GapCall where
  | setAdvertisingParam (advParam : GapAdvParam)
  | setAdvertisingData (data : List UInt8)
  | setAdvertisingRspData (data : List UInt8)
  | startAdvertising (duration : UInt16)

/-- The parameters of `ble_service_adv_start`: `GAP_ADV_MODE_UNDIRECT`, `GAP_ADV_DISC_MODE_GEN_DISC`,
`GAP_ADDR_TYPE_PUBLIC`, `GAP_ADV_CHAN_ALL`, `GAP_ADV_ALLOW_SCAN_ANY_CON_ANY`, and the interval. -/
def BleService.advParam (service : BleService) : GapAdvParam :=
  ⟨0x01, 0, 0x00, 0x07, 0x00, service.advIntv, service.advIntv⟩

/-- The calls of `ble_service_adv_start` that `StackCall.startAdvertising` stands for. -/
def BleService.gapCalls (service : BleService) : StackCall → List GapCall
  | .startAdvertising => [.setAdvertisingParam service.advParam,
      .setAdvertisingData (service.advData.take service.advLen.toNat),
      .setAdvertisingRspData (service.rspData.take service.rspLen.toNat), .startAdvertising 0]
  | .connParamUpdate .. => []

/-! ### The air -/

/-- What the stack sends when it advertises, and answers to a scan request. -/
structure Air where
  param : Option GapAdvParam
  data : List UInt8
  rspData : List UInt8

/-- A call. -/
def Air.exec (air : Air) : GapCall → Air
  | .setAdvertisingParam advParam => { air with param := some advParam }
  | .setAdvertisingData data => { air with data := data }
  | .setAdvertisingRspData data => { air with rspData := data }
  | .startAdvertising _ => air

/-- The stack and the device, with what is on the air. -/
structure Station where
  system : System RingBuffer
  air : Air

/-- An event, and the calls of the device. -/
def Station.step (service : BleService) (s : Station) (x : DeviceEvent × Bool) : Option Station :=
  (s.system.step x).map fun system =>
    let calls := system.device.stackCalls.drop s.system.device.stackCalls.length
    ⟨system, (calls.flatMap service.gapCalls).foldl Air.exec s.air⟩

/-- Nothing has been handed to the stack. -/
def stationInit (mem : Vector UInt8 bleBufferSize.toNat) : Station := ⟨systemInit mem, ⟨none, [], []⟩⟩

/-- The structures in what is received, as type and data: a length, which counts the type, the type and the data, as
long as there are any. -/
def scan : ℕ → List UInt8 → List (UInt8 × List UInt8)
  | fuel + 1, len :: type :: rest =>
    if len = 0 then [] else (type, rest.take (len.toNat - 1)) :: scan fuel (rest.drop (len.toNat - 1))
  | _, _ => []

/-- What a scanner makes of the bytes it receives. -/
def scanned (data : List UInt8) : List (UInt8 × List UInt8) := scan data.length data

/-! ### What the service advertises -/

section

variable {ads : List AdStructure} {ad : AdStructure}

theorem advStep_fits (ret : UInt8) (h : occupied (ads ++ [ad]) ≤ advDataSizeMax) :
    ∃ ret' : UInt8, advStep (advData ads, ret) ad = some (advData (ads ++ [ad]), ret') ∧
      ret'.toNat = occupied (ads ++ [ad]) := by
  have hocc := occupied_concat ads ad
  have hne : ad.dataSize ≠ 255 := ne_of_occupied_le h ad (by simp)
  have hads : occupied ads ≤ advDataSizeMax := by omega
  obtain ⟨ret', stores, hr, hw, hif⟩ := bleAdvAppend_of_ne hads hne
  rw [if_pos (by omega)] at hif
  obtain ⟨hbuf, hret⟩ := hif
  refine ⟨ret', ?_, hret⟩
  rw [advStep, hr]
  dsimp only
  rw [if_pos hw, hbuf]

theorem scan_bytes (h : ad.dataSize ≠ 255) (fuel : ℕ) (rest : List UInt8) :
    scan (fuel + 1) (ad.bytes ++ rest) = (ad.type, ad.data) :: scan fuel rest := by
  have hlt := ad.dataSize.toNat_lt
  have hne : ad.dataSize.toNat ≠ 255 := by
    intro he
    exact h (UInt8.toNat_inj.mp he)
  have hlen := ad.toNat_len (by omega)
  have hzero : ad.dataSize + 1 ≠ 0 := by
    intro h0
    rw [h0] at hlen
    exact absurd hlen (by simp)
  show (if ad.dataSize + 1 = 0 then [] else (ad.type, (ad.data ++ rest).take ((ad.dataSize + 1).toNat - 1)) ::
    scan fuel ((ad.data ++ rest).drop ((ad.dataSize + 1).toNat - 1))) = _
  rw [if_neg hzero, hlen, Nat.add_sub_cancel, List.take_left' ad.fits, List.drop_left' ad.fits]

theorem scan_flatMap (hads : ∀ ad ∈ ads, ad.dataSize ≠ 255) {fuel : ℕ} (hf : ads.length ≤ fuel) :
    scan fuel (ads.flatMap AdStructure.bytes) = ads.map fun ad => (ad.type, ad.data) := by
  induction ads generalizing fuel with
  | nil => cases fuel <;> rfl
  | cons ad ads ih =>
    obtain ⟨fuel, rfl⟩ : ∃ n, fuel = n + 1 := ⟨fuel - 1, by simp at hf; omega⟩
    have hrest := ih (fun a ha => hads a (List.mem_cons_of_mem ad ha)) (Nat.le_of_succ_le_succ hf)
    rw [List.flatMap_cons, scan_bytes (hads ad List.mem_cons_self), hrest, List.map_cons]

/-- **What is advertised can be read**: of the buffer as many bytes are handed over as the structures occupy. -/
theorem scanned_take (h : occupied ads ≤ advDataSizeMax) :
    scanned ((advData ads).take (occupied ads)) = ads.map fun ad => (ad.type, ad.data) := by
  have hdata : (advData ads).take (occupied ads) = ads.flatMap AdStructure.bytes :=
    List.take_left' (length_flatMap_bytes ads)
  have htwo := two_mul_length_le ads
  rw [scanned, hdata]
  refine scan_flatMap (ne_of_occupied_le h) ?_
  rw [length_flatMap_bytes]
  omega

end

/-- What is found of a service: the name and the address, the name in answer to a request, and once a second. -/
structure Finds (addr : Vector UInt8 6) (air : Air) : Prop where
  data : scanned air.data = [(0x09, lockName), (0xff, addr.toList ++ [0, 0])]
  rspData : scanned air.rspData = [(0x09, lockName)]
  param : air.param = some ⟨0x01, 0, 0x00, 0x07, 0x00, 1600, 1600⟩

/-- **`ble_service_init` returns**, and what the calls of `ble_service_adv_start` then put on the air finds the lock. -/
theorem bleServiceInit_finds (addr : Vector UInt8 6) : ∃ service, bleServiceInit addr = some service ∧
    ∀ air : Air, Finds addr ((service.gapCalls .startAdvertising).foldl Air.exec air) := by
  have hname : occupied ([] ++ [nameAd]) ≤ advDataSizeMax := by decide
  have hboth : occupied ([nameAd] ++ [addressAd addr]) ≤ advDataSizeMax := by
    have hocc := occupied_concat [nameAd] (addressAd addr)
    have hsize : (addressAd addr).dataSize.toNat = 8 := rfl
    have hfirst : occupied [nameAd] = 14 := rfl
    have hmax : advDataSizeMax = 31 := rfl
    omega
  obtain ⟨r₁, h₁, hr₁⟩ := advStep_fits 0 hname
  obtain ⟨r₂, h₂, hr₂⟩ := advStep_fits r₁ hboth
  have hinit : advInit = (advData [], 0) := rfl
  refine ⟨⟨advData ([nameAd] ++ [addressAd addr]), r₂.toUInt16, advData [nameAd], r₁.toUInt16,
    lockName ++ List.replicate (advDataSizeMax - lockName.length) 0, 12, 1600⟩, ?_, ?_⟩
  · rw [bleServiceInit, hinit, h₁]
    simp only [List.nil_append, Option.bind_eq_bind, Option.bind_some, h₂]
  · intro air
    refine ⟨?_, ?_, rfl⟩
    · show scanned ((advData ([nameAd] ++ [addressAd addr])).take r₂.toUInt16.toNat) = _
      rw [UInt8.toNat_toUInt16, hr₂, scanned_take hboth]
      rfl
    · show scanned ((advData [nameAd]).take r₁.toUInt16.toNat) = _
      rw [UInt8.toNat_toUInt16, hr₁]
      exact scanned_take hname

/-! ### Runs -/

section

variable {addr : Vector UInt8 6} {service : BleService}

/-- What is on the air changes with a start of advertising only. -/
theorem finds_exec (hservice : ∀ air : Air, Finds addr ((service.gapCalls .startAdvertising).foldl Air.exec air))
    (calls : List StackCall) {air : Air} (h : .startAdvertising ∈ calls ∨ Finds addr air) :
    Finds addr ((calls.flatMap service.gapCalls).foldl Air.exec air) := by
  induction calls generalizing air with
  | nil => exact h.resolve_left List.not_mem_nil
  | cons call calls ih =>
    rw [List.flatMap_cons, List.foldl_append]
    cases call with
    | startAdvertising => exact ih (Or.inr (hservice air))
    | connParamUpdate conidx minIntv maxIntv slaveLatency supervisionTimeout =>
      refine ih (h.imp_left ?_)
      intro hmem
      exact (List.mem_cons.mp hmem).resolve_left StackCall.noConfusion

theorem advertising_of_report {s : System RingBuffer} {goesOn : Bool} {e : DeviceEvent}
    (h : (s.report goesOn e).advertising = true) : s.advertising = true := by
  cases e with
  | gatt msg => exact h
  | process => exact h
  | gap e =>
    cases e with
    | slaveConnect conidx => exact (Bool.and_eq_true_iff.mp h).1
    | advEnd | allSvcAdded | disconnect conidx | other => exact h

/-- The stack and the device keep what holds of the link, and what is advertised finds the lock. -/
structure Shown (addr : Vector UInt8 6) (s : Station) : Prop where
  lawful : Lawful bleProtocol bleFraming s.system.device.parser
  linked : Linked s.system.device.link s.system.live s.system.advertising s.system.svcAdded
  finds : s.system.advertising = true → Finds addr s.air

theorem admits_station {s : Station} {xs : List (DeviceEvent × Bool)} (h : Admits System.step StackOk s.system xs) :
    Admits (Station.step service) (fun s x => StackOk s.system x) s xs := by
  induction xs generalizing s with
  | nil => trivial
  | cons x xs ih =>
    refine ⟨h.1, ?_⟩
    intro s' hs'
    obtain ⟨system, hs, rfl⟩ := Option.map_eq_some_iff.mp hs'
    exact ih (h.2 system hs)

theorem Shown.step (hservice : ∀ air : Air, Finds addr ((service.gapCalls .startAdvertising).foldl Air.exec air))
    {s : Station} (h : Shown addr s) {x : DeviceEvent × Bool} (hok : StackOk s.system x) :
    ∃ s', s.step service x = some s' ∧ Shown addr s' := by
  obtain ⟨system, hs, hl, hlinked⟩ := System.step_linked h.lawful h.linked hok
  refine ⟨_, by rw [Station.step, hs]; rfl, hl, hlinked, ?_⟩
  intro hadv
  obtain ⟨d, -, rfl⟩ := Option.map_eq_some_iff.mp hs
  refine finds_exec hservice _ ?_
  rcases Bool.or_eq_true_iff.mp hadv with hadv | hstart
  · exact Or.inr (h.finds (advertising_of_report hadv))
  · exact Or.inl (of_decide_eq_true hstart)

end

/-- **Whenever no link is live, a scan finds the lock.**  Whatever the address, `ble_service_init` makes up what is
advertised, and whatever the stack then reports, in any order and with any number of links, as long as its indices are
right: once the services are added and while no link is live, the lock is advertising, and who reads what it sends finds
its name and its address, and its name again in answer to a request. -/
theorem lock_found (addr : Vector UInt8 6) (mem : Vector UInt8 bleBufferSize.toNat) :
    ∃ service, bleServiceInit addr = some service ∧ ∀ xs, Admits System.step StackOk (systemInit mem) xs →
      ∃ s, run (Station.step service) (stationInit mem) xs = some s ∧
        (s.system.svcAdded = true → s.system.live = ∅ → s.system.advertising = true) ∧
        (s.system.advertising = true → Finds addr s.air) := by
  obtain ⟨service, hinit, hservice⟩ := bleServiceInit_finds addr
  refine ⟨service, hinit, ?_⟩
  intro xs hok
  have hshown : Shown addr (stationInit mem) := by
    refine ⟨lawful_init mem, linked_init, ?_⟩
    intro h
    cases h
  have hstep : ∀ (past : List (DeviceEvent × Bool)) (s : Station) (x : DeviceEvent × Bool), Shown addr s →
      StackOk s.system x → ∃ s', s.step service x = some s' ∧ Shown addr s' := by
    intro past s x h hx
    exact h.step hservice hx
  obtain ⟨s, hr, h⟩ := run_keeps hstep [] hshown (admits_station hok)
  refine ⟨s, hr, ?_, h.finds⟩
  intro hs hempty
  refine h.linked.advertises hs (h.linked.phone_live.resolve_right ?_)
  rw [hempty]
  exact Finset.notMem_empty _

theorem lock_found_two : ∃ service, bleServiceInit #v[1, 0, 3, 4, 5, 0xC0] = some service ∧
    ∃ s, run (Station.step service) (stationInit (Vector.replicate 512 0)) twoLinks = some s ∧
      (s.system.svcAdded = true → s.system.live = ∅ → s.system.advertising = true) ∧
      (s.system.advertising = true → Finds #v[1, 0, 3, 4, 5, 0xC0] s.air) := by
  obtain ⟨service, hinit, h⟩ := lock_found #v[1, 0, 3, 4, 5, 0xC0] (Vector.replicate 512 0)
  exact ⟨service, hinit, h twoLinks (by decide +kernel)⟩

end Fr8012haLock.Ble
