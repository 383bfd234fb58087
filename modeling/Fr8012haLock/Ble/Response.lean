import Fr8012haLock.Ble.Defs
import Fr8012haLock.Lib.Stores

/-!
# The stores of `ble_pro_response`

The array `response` has 256 bytes, as many as the largest payload of a frame and fewer than the largest frame.  Head,
payload and checksum stay inside it up to a payload of 249 bytes (`response_within_iff`).
-/

namespace Fr8012haLock.Ble

open Cyclic Buffer Common Receive Stores

/-- The stores that `ble_pro_response` makes through `response`, in order; `behind` is what lies behind the array. -/
def bleProResponseStores (cmd : UInt8) (payload : List UInt8) (size : UInt32) (behind : List UInt8) :
    List (ℕ × UInt8) :=
  let head : BleProHead := ⟨bleProHeadStx, size.toUInt8, 0, 0, cmd⟩
  let crc8Idx := bleHeadSize + size
  let stores := copyAt 0 head.toBytes ++ copyAt bleHeadSize.toNat (payload.take size.toNat)
  let response := storeAll (List.replicate 256 0 ++ behind) stores
  stores ++ [(crc8Idx.toNat, appCommCheckCrc8 response (bleHeadSize + size).toNat)]

section

variable (cmd : UInt8) {payload : List UInt8} (behind : List UInt8)

theorem toNat_size (hp : payload.length ≤ 255) : (UInt32.ofNat payload.length).toNat = payload.length := by
  rw [UInt32.toNat_ofNat']
  omega

theorem toNat_crc8Idx (hp : payload.length ≤ 255) :
    (bleHeadSize + UInt32.ofNat payload.length).toNat = 6 + payload.length := by
  rw [UInt32.toNat_add, toNat_size hp]
  show (6 + _) % _ = _
  omega

theorem length_toBytes (head : BleProHead) : head.toBytes.length = 6 := by
  rw [BleProHead.toBytes, List.length_append, LittleEndian.length_bytes]
  rfl

theorem bleProResponseStores_eq (hp : payload.length ≤ 255) : ∃ crc,
    bleProResponseStores cmd payload (UInt32.ofNat payload.length) behind =
      copyAt 0 (BleProHead.toBytes ⟨bleProHeadStx, (UInt32.ofNat payload.length).toUInt8, 0, 0, cmd⟩) ++
        copyAt 6 payload ++ [(6 + payload.length, crc)] := by
  refine ⟨appCommCheckCrc8 (storeAll (List.replicate 256 0 ++ behind)
    (copyAt 0 (BleProHead.toBytes ⟨bleProHeadStx, (UInt32.ofNat payload.length).toUInt8, 0, 0, cmd⟩) ++
      copyAt 6 payload)) (6 + payload.length), ?_⟩
  rw [bleProResponseStores, toNat_crc8Idx hp, toNat_size hp, List.take_length]
  rfl

theorem bleProResponse_eq_storeAll (hp : payload.length ≤ 249) :
    (bleProResponse cmd payload (UInt32.ofNat payload.length)).1 =
      storeAll (List.replicate 256 0) (bleProResponseStores cmd payload (UInt32.ofNat payload.length) []) := by
  have hhead := length_toBytes ⟨bleProHeadStx, (UInt32.ofNat payload.length).toUInt8, 0, 0, cmd⟩
  have hsix : bleHeadSize.toNat = 6 := rfl
  rw [bleProResponse, bleProResponseStores, List.append_nil, toNat_size (hp.trans (by decide)), List.take_length, hsix,
    storeAll_append, storeAll_append, storeAll_copyAt, storeAll_copyAt]
  · rfl
  · rw [hhead, List.length_replicate]
    decide
  · rw [length_storeAll, List.length_replicate]
    omega

/-- **When a response stays inside its array.**  For the payloads whose size fits the length byte, all stores are inside
`response`, the length byte is the size, and the size handed to `ble_service_write_data` is at most that of the array,
exactly when the payload has at most 249 bytes. -/
theorem response_within_iff (hp : payload.length ≤ 255) :
    (Within 256 (bleProResponseStores cmd payload (UInt32.ofNat payload.length) behind) ∧
      (∃ len, (storeAll (List.replicate 256 0 ++ behind)
          (bleProResponseStores cmd payload (UInt32.ofNat payload.length) behind))[2]? = some len ∧
        len.toNat = payload.length) ∧
      (bleProResponse cmd payload (UInt32.ofNat payload.length)).2.toNat ≤ 256) ↔ payload.length ≤ 249 := by
  obtain ⟨crc, hstores⟩ := bleProResponseStores_eq cmd behind hp
  have hhead := length_toBytes ⟨bleProHeadStx, (UInt32.ofNat payload.length).toUInt8, 0, 0, cmd⟩
  rw [hstores]
  constructor
  · rintro ⟨hw, -, -⟩
    have : 6 + payload.length < 256 := hw (6 + payload.length, crc) (by simp)
    omega
  · intro hle
    refine ⟨?_, ⟨(UInt32.ofNat payload.length).toUInt8, ?_, ?_⟩, ?_⟩
    · rw [within_append, within_append]
      refine ⟨⟨within_copyAt (by omega), within_copyAt (by omega)⟩, ?_⟩
      intro s hs
      rw [List.mem_singleton.mp hs]
      omega
    · -- what is stored behind the head does not touch it
      rw [List.append_assoc, storeAll_append, storeAll_getElem?_of_ne, storeAll_copyAt, memcpy_zero]
      · rfl
      · rw [hhead, List.length_append, List.length_replicate]
        omega
      · intro s hs
        rcases List.mem_append.mp hs with hs | hs
        · have := (le_of_mem_copyAt hs).1
          omega
        · rw [List.mem_singleton.mp hs]
          omega
    · rw [UInt32.toNat_toUInt8, toNat_size hp]
      omega
    · have hidx := toNat_crc8Idx hp
      rw [bleProResponse, UInt32.toNat_add, hidx]
      show (6 + payload.length + 1) % _ ≤ 256
      omega

end

/-- The checksum of a payload of 250 bytes is stored behind the array. -/
theorem response_overrun : ¬ Within 256 (bleProResponseStores 0x31 (List.replicate 250 0) 250 []) := by
  intro h
  have hlast := h (256, _) (List.mem_append_right _ (List.mem_singleton_self _))
  exact absurd hlast (by decide)

/-- A payload that just fits. -/
def fullPayload : List UInt8 := List.replicate 249 7

theorem response_within_iff_full :
    (Within 256 (bleProResponseStores 0x31 fullPayload (UInt32.ofNat fullPayload.length) []) ∧
      (∃ len, (storeAll (List.replicate 256 0 ++ [])
          (bleProResponseStores 0x31 fullPayload (UInt32.ofNat fullPayload.length) []))[2]? = some len ∧
        len.toNat = fullPayload.length) ∧
      (bleProResponse 0x31 fullPayload (UInt32.ofNat fullPayload.length)).2.toNat ≤ 256) ↔ fullPayload.length ≤ 249 :=
  response_within_iff 0x31 [] (by rw [fullPayload, List.length_replicate]; decide)

end Fr8012haLock.Ble
