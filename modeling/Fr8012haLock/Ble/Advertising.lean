import Fr8012haLock.Lib.Runs
import Fr8012haLock.Lib.Stores
import Mathlib.Data.UInt
import Mathlib.Data.List.GetD

/-!
# Advertising data (`ble_adv_append`)

The 31 bytes of advertising data hold AD structures, each a length byte, a type and data, one behind the other from the
front on, and zeros behind them.  `ble_adv_append` walks along the length bytes to the place behind the last structure
and appends one if it fits.  The length byte is computed in eight bits, so that a structure of 255 bytes of data passes
for one that fits (`append_whole_iff`); with shorter data, what was appended can be read back (`read_back`).
-/

namespace Fr8012haLock.Ble

open Cyclic Runs Stores

/-- `ADV_DATA_SIZE_MAX` -/
def advDataSizeMax : ℕ := 31

/-- `ad_structure_t`, with as much data as it says. -/
structure AdStructure where
  type : UInt8
  data : List UInt8
  dataSize : UInt8
  fits : data.length = dataSize.toNat

/-- The loop of `ble_adv_append`: the index at which the walk from `idx` on stops.  A walk of more rounds than there are
indices goes round in a circle and is `none`. -/
def advWalk (pData : List UInt8) : ℕ → UInt8 → Option UInt8
  | 0, _ => none
  | fuel + 1, idx =>
    if idx.toNat < advDataSizeMax then
      let len := pData.getD idx.toNat 0
      if len = 0 then some idx else advWalk pData fuel (idx + (len + 1))
    else some idx

/-- `ble_adv_append`: what it returns, and the stores it makes through `p_data`. -/
def bleAdvAppend (pData : List UInt8) (adStructure : AdStructure) : Option (UInt8 × List (ℕ × UInt8)) := do
  let appendLen := adStructure.dataSize + 1
  let idx ← advWalk pData 256 0
  if idx.toNat + appendLen.toNat + 1 > advDataSizeMax then some (idx, [])
  else
    let stores := [(idx.toNat, appendLen), ((idx + 1).toNat, adStructure.type)] ++
      copyAt (idx + 2).toNat (adStructure.data.take adStructure.dataSize.toNat)
    some (idx + 2 + adStructure.dataSize, stores)

/-! ### What the buffer holds -/

/-- The bytes of a structure. -/
def AdStructure.bytes (ad : AdStructure) : List UInt8 := (ad.dataSize + 1) :: ad.type :: ad.data

/-- The number of bytes occupied by structures. -/
def occupied (ads : List AdStructure) : ℕ := (ads.map fun ad => ad.dataSize.toNat + 2).sum

/-- The buffer that holds the structures `ads` and zeros behind them. -/
def advData (ads : List AdStructure) : List UInt8 :=
  ads.flatMap AdStructure.bytes ++ List.replicate (advDataSizeMax - occupied ads) 0

section

variable {ads before : List AdStructure} {ad : AdStructure} {idx : UInt8} {fuel : ℕ}

@[simp] theorem occupied_nil : occupied [] = 0 := rfl

theorem occupied_cons : occupied (ad :: ads) = ad.dataSize.toNat + 2 + occupied ads := by simp [occupied]

theorem occupied_append : occupied (before ++ ads) = occupied before + occupied ads := by simp [occupied]

theorem occupied_concat (ads : List AdStructure) (ad : AdStructure) :
    occupied (ads ++ [ad]) = occupied ads + ad.dataSize.toNat + 2 := by
  rw [occupied_append, occupied_cons, occupied_nil, Nat.add_zero, Nat.add_assoc]

theorem AdStructure.toNat_len (ad : AdStructure) (h : ad.dataSize.toNat < 255) :
    (ad.dataSize + 1).toNat = ad.dataSize.toNat + 1 := by
  rw [UInt8.toNat_add, UInt8.toNat_one]
  omega

theorem AdStructure.length_bytes (ad : AdStructure) : ad.bytes.length = ad.dataSize.toNat + 2 := by
  simp [bytes, ad.fits]

theorem length_flatMap_bytes (ads : List AdStructure) : (ads.flatMap AdStructure.bytes).length = occupied ads := by
  rw [List.length_flatMap]
  simp [occupied, AdStructure.length_bytes]

theorem length_advData (h : occupied ads ≤ advDataSizeMax) : (advData ads).length = advDataSizeMax := by
  rw [advData, List.length_append, length_flatMap_bytes, List.length_replicate]
  omega

theorem drop_advData : (advData (before ++ ad :: ads)).drop (occupied before) =
    (ad.dataSize + 1) :: ad.type :: (ad.data ++ (ads.flatMap AdStructure.bytes ++
      List.replicate (advDataSizeMax - occupied (before ++ ad :: ads)) 0)) := by
  rw [advData, List.flatMap_append, List.append_assoc, List.drop_left' (length_flatMap_bytes before)]
  simp [AdStructure.bytes]

theorem drop_advData_end : (advData ads).drop (occupied ads) = List.replicate (advDataSizeMax - occupied ads) 0 := by
  rw [advData, List.drop_left' (length_flatMap_bytes ads)]

/-! ### The walk -/

/-- The structures met by the walk from `idx` on, as type and data, and the index at which it stops. -/
def readAds (pData : List UInt8) : ℕ → UInt8 → Option (List (UInt8 × List UInt8) × UInt8)
  | 0, _ => none
  | fuel + 1, idx =>
    if idx.toNat < advDataSizeMax then
      let len := pData.getD idx.toNat 0
      if len = 0 then some ([], idx)
      else (readAds pData fuel (idx + (len + 1))).map fun r =>
        ((pData.getD (idx.toNat + 1) 0, (pData.drop (idx.toNat + 2)).take (len.toNat - 1)) :: r.1, r.2)
    else some ([], idx)

theorem advWalk_eq_readAds (pData : List UInt8) (fuel : ℕ) (idx : UInt8) :
    advWalk pData fuel idx = (readAds pData fuel idx).map Prod.snd := by
  induction fuel generalizing idx with
  | zero => rfl
  | succ fuel ih =>
    rw [advWalk, readAds]
    by_cases hidx : idx.toNat < advDataSizeMax
    · by_cases hlen : pData.getD idx.toNat 0 = 0
      · simp only [if_pos hidx, if_pos hlen, Option.map_some]
      · simp only [if_pos hidx, if_neg hlen, ih, Option.map_map, Function.comp_def]
    · rw [if_neg hidx, if_neg hidx]
      rfl

theorem getD_add (l : List UInt8) (n i : ℕ) : l.getD (n + i) 0 = (l.drop n).getD i 0 := by
  rw [List.getD_eq_getElem?_getD, List.getD_eq_getElem?_getD, List.getElem?_drop]

/-- **The walk over structures** reads them and stops behind the last one. -/
theorem readAds_advData (before : List AdStructure) (h : occupied (before ++ ads) ≤ advDataSizeMax)
    (hidx : idx.toNat = occupied before) (hf : ads.length < fuel) : ∃ stop, readAds (advData (before ++ ads)) fuel idx =
      some (ads.map fun ad => (ad.type, ad.data), stop) ∧ stop.toNat = occupied (before ++ ads) := by
  induction ads generalizing before idx fuel with
  | nil =>
    obtain ⟨fuel, rfl⟩ : ∃ n, fuel = n + 1 := ⟨fuel - 1, by simp at hf; omega⟩
    rw [List.append_nil] at h ⊢
    refine ⟨idx, ?_, hidx⟩
    rw [readAds]
    by_cases hlt : idx.toNat < advDataSizeMax
    · have hzero : (advData before).getD idx.toNat 0 = 0 := by
        rw [hidx, ← Nat.add_zero (occupied before), getD_add, drop_advData_end]
        exact List.getElem?_getD_replicate_default_eq ..
      rw [if_pos hlt, if_pos hzero]
      rfl
    · rw [if_neg hlt]
      rfl
  | cons ad ads ih =>
    obtain ⟨fuel, rfl⟩ : ∃ n, fuel = n + 1 := ⟨fuel - 1, by simp at hf; omega⟩
    have hsum : occupied before + (ad.dataSize.toNat + 2 + occupied ads) ≤ 31 := by
      rw [occupied_append, occupied_cons] at h
      exact h
    have hlen := ad.toNat_len (by omega)
    have hdrop : (advData (before ++ ad :: ads)).drop idx.toNat = _ := hidx ▸ drop_advData
    have hlenByte : (advData (before ++ ad :: ads)).getD idx.toNat 0 = ad.dataSize + 1 := by
      rw [← Nat.add_zero idx.toNat, getD_add, hdrop]
      rfl
    have htype : (advData (before ++ ad :: ads)).getD (idx.toNat + 1) 0 = ad.type := by
      rw [getD_add, hdrop]
      rfl
    have hdata : ((advData (before ++ ad :: ads)).drop (idx.toNat + 2)).take ((ad.dataSize + 1).toNat - 1) =
        ad.data := by
      rw [← List.drop_drop, hdrop, hlen]
      exact List.take_left' ad.fits
    have hnext : (idx + (ad.dataSize + 1 + 1)).toNat = occupied (before ++ [ad]) := by
      rw [occupied_concat, UInt8.toNat_add, UInt8.toNat_add, hlen, UInt8.toNat_one, hidx]
      omega
    have happ : before ++ ad :: ads = before ++ [ad] ++ ads := by simp
    obtain ⟨stop, hr, hstop⟩ := ih (before ++ [ad]) (happ ▸ h) hnext (by simpa using hf)
    rw [← happ] at hr hstop
    refine ⟨stop, ?_, hstop⟩
    rw [readAds, if_pos (by rw [hidx, advDataSizeMax]; omega), hlenByte, if_neg ?_, hr, htype, hdata]
    · rfl
    · intro hzero
      rw [hzero] at hlen
      exact absurd hlen (by simp)

theorem two_mul_length_le (ads : List AdStructure) : 2 * ads.length ≤ occupied ads := by
  induction ads with
  | nil => exact Nat.zero_le _
  | cons ad ads ih =>
    rw [List.length_cons, occupied_cons]
    omega

theorem readAds_front (h : occupied ads ≤ advDataSizeMax) : ∃ stop, readAds (advData ads) 256 0 =
    some (ads.map fun ad => (ad.type, ad.data), stop) ∧ stop.toNat = occupied ads := by
  have hlen := two_mul_length_le ads
  have h31 : occupied ads ≤ 31 := h
  exact readAds_advData [] h rfl (by omega)

/-! ### One call -/

/-- What a call does to a buffer that holds `ads`, in terms of the index at which its walk stops. -/
theorem bleAdvAppend_advData (h : occupied ads ≤ advDataSizeMax) (ad : AdStructure) : ∃ idx : UInt8,
    idx.toNat = occupied ads ∧ bleAdvAppend (advData ads) ad =
      if idx.toNat + (ad.dataSize + 1).toNat + 1 > advDataSizeMax then some (idx, [])
      else some (idx + 2 + ad.dataSize, copyAt idx.toNat ad.bytes) := by
  obtain ⟨idx, hr, hidx⟩ := readAds_front h
  have hwalk : advWalk (advData ads) 256 0 = some idx := by
    rw [advWalk_eq_readAds, hr]
    rfl
  have hlt : idx.toNat < 32 := by
    rw [hidx]
    exact Nat.lt_succ_of_le h
  have hone : (idx + 1).toNat = idx.toNat + 1 := by
    rw [UInt8.toNat_add, UInt8.toNat_one]
    omega
  have htwo : (idx + 2).toNat = idx.toNat + 1 + 1 := by
    rw [UInt8.toNat_add]
    show (_ + 2) % _ = _
    omega
  refine ⟨idx, hidx, ?_⟩
  rw [bleAdvAppend, hwalk, ← ad.fits, List.take_length]
  simp only [Option.bind_eq_bind, Option.bind_some, hone, htwo]
  rfl

theorem memcpy_advData (ads : List AdStructure) (ad : AdStructure) :
    memcpy (advData ads) (occupied ads) ad.bytes = advData (ads ++ [ad]) := by
  rw [memcpy, advData, List.take_left' (length_flatMap_bytes ads), ← List.drop_drop,
    List.drop_left' (length_flatMap_bytes ads), List.drop_replicate, ad.length_bytes, advData, List.flatMap_append,
    occupied_concat, Nat.add_assoc, Nat.sub_sub]
  simp

theorem bleAdvAppend_of_ne (h : occupied ads ≤ advDataSizeMax) (hs : ad.dataSize ≠ 255) :
    ∃ ret stores, bleAdvAppend (advData ads) ad = some (ret, stores) ∧ Within advDataSizeMax stores ∧
      if occupied ads + ad.dataSize.toNat + 2 ≤ advDataSizeMax then
        storeAll (advData ads) stores = advData (ads ++ [ad]) ∧ ret.toNat = occupied (ads ++ [ad])
      else storeAll (advData ads) stores = advData ads ∧ ret.toNat = occupied ads := by
  obtain ⟨idx, hidx, hr⟩ := bleAdvAppend_advData h ad
  have hne : ad.dataSize.toNat ≠ 255 := fun he => hs (UInt8.toNat_inj.mp he)
  have hlt := ad.dataSize.toNat_lt
  have hocc := occupied_concat ads ad
  rw [ad.toNat_len (by omega), hidx] at hr
  by_cases hfit : occupied ads + ad.dataSize.toNat + 2 ≤ advDataSizeMax
  · rw [if_neg (by omega)] at hr
    have hend : occupied ads + ad.bytes.length ≤ advDataSizeMax := by
      rw [ad.length_bytes]
      omega
    refine ⟨_, _, hr, within_copyAt hend, ?_⟩
    rw [if_pos hfit]
    constructor
    · rw [storeAll_copyAt (by rwa [length_advData h]), memcpy_advData]
    · have h31 : occupied ads + ad.dataSize.toNat + 2 ≤ 31 := hfit
      rw [hocc, UInt8.toNat_add, UInt8.toNat_add, hidx]
      show ((_ + 2) % _ + _) % _ = _
      omega
  · rw [if_pos (by omega)] at hr
    refine ⟨_, _, hr, within_nil, ?_⟩
    rw [if_neg hfit]
    exact ⟨rfl, hidx⟩

end

/-! ### Calls one after another -/

/-- A call as a step on the buffer and the value that the last call returned; `none` when it does not return or stores
behind the buffer. -/
def advStep (s : List UInt8 × UInt8) (ad : AdStructure) : Option (List UInt8 × UInt8) :=
  match bleAdvAppend s.1 ad with
  | some (ret, stores) => if Within advDataSizeMax stores then some (storeAll s.1 stores, ret) else none
  | none => none

/-- Zeros, before any call. -/
def advInit : List UInt8 × UInt8 := (List.replicate advDataSizeMax 0, 0)

/-- Those of the structures that fit when their turn comes, with `used` bytes occupied before. -/
def fitted : ℕ → List AdStructure → List AdStructure
  | _, [] => []
  | used, ad :: ads =>
    if used + ad.dataSize.toNat + 2 ≤ advDataSizeMax then ad :: fitted (used + ad.dataSize.toNat + 2) ads
    else fitted used ads

section

variable {ads : List AdStructure} {ad : AdStructure} {used : ℕ}

/-- **Calls one after another** leave the structures that fitted, and return the index behind them. -/
theorem run_fitted (kept : List AdStructure) (ret : UInt8) (hk : occupied kept ≤ advDataSizeMax)
    (hret : ret.toNat = occupied kept) (hs : ∀ ad ∈ ads, ad.dataSize ≠ 255) :
    ∃ kept' ret', kept' = kept ++ fitted (occupied kept) ads ∧
      run advStep (advData kept, ret) ads = some (advData kept', ret') ∧ ret'.toNat = occupied kept' ∧
      occupied kept' ≤ advDataSizeMax := by
  induction ads generalizing kept ret with
  | nil => exact ⟨kept, ret, by simp [fitted], rfl, hret, hk⟩
  | cons ad ads ih =>
    obtain ⟨ret₁, stores, hr, hw, h⟩ := bleAdvAppend_of_ne hk (hs ad List.mem_cons_self)
    have hstep : advStep (advData kept, ret) ad = some (storeAll (advData kept) stores, ret₁) := by
      rw [advStep, hr]
      exact if_pos hw
    have hs' : ∀ ad ∈ ads, ad.dataSize ≠ 255 := fun ad had => hs ad (List.mem_cons_of_mem _ had)
    rw [run_cons hstep, fitted]
    by_cases hfit : occupied kept + ad.dataSize.toNat + 2 ≤ advDataSizeMax
    · rw [if_pos hfit] at h ⊢
      have hocc := occupied_concat kept ad
      obtain ⟨kept', ret', hkept, hrun, hret', hle⟩ := ih (kept ++ [ad]) ret₁ (hocc ▸ hfit) h.2 hs'
      refine ⟨kept', ret', ?_, ?_, hret', hle⟩
      · rw [hkept, hocc, List.append_assoc]
        rfl
      · rw [h.1, hrun]
    · rw [if_neg hfit] at h ⊢
      rw [h.1]
      exact ih kept ret₁ hk h.2 hs'

theorem fitted_eq_self (h : used + occupied ads ≤ advDataSizeMax) : fitted used ads = ads := by
  induction ads generalizing used with
  | nil => rfl
  | cons ad ads ih =>
    rw [occupied_cons] at h
    rw [fitted, if_pos (by omega), ih (by omega)]

theorem ne_of_occupied_le (h : occupied ads ≤ advDataSizeMax) : ∀ ad ∈ ads, ad.dataSize ≠ 255 := by
  intro ad had heq
  obtain ⟨pre, post, rfl⟩ := List.append_of_mem had
  have h31 : occupied (pre ++ ad :: post) ≤ 31 := h
  rw [occupied_append, occupied_cons, heq] at h31
  change _ + (255 + 2 + _) ≤ 31 at h31
  omega

/-- A call is all or nothing: it stores nothing behind the buffer; and if the structure fits behind the `used` bytes
occupied, it is appended there and the index behind it returned, else the buffer stays as it is. -/
def AppendsWhole (pData : List UInt8) (used : ℕ) (ad : AdStructure) : Prop :=
  ∃ ret stores, bleAdvAppend pData ad = some (ret, stores) ∧ Within advDataSizeMax stores ∧
    if used + ad.dataSize.toNat + 2 ≤ advDataSizeMax then
      storeAll pData stores = memcpy pData used ad.bytes ∧ ret.toNat = used + ad.dataSize.toNat + 2
    else storeAll pData stores = pData ∧ ret.toNat = used

theorem appendsWhole_of_ne (h : occupied ads ≤ advDataSizeMax) (hs : ad.dataSize ≠ 255) :
    AppendsWhole (advData ads) (occupied ads) ad := by
  obtain ⟨ret, stores, hr, hw, h'⟩ := bleAdvAppend_of_ne h hs
  refine ⟨ret, stores, hr, hw, ?_⟩
  by_cases hfit : occupied ads + ad.dataSize.toNat + 2 ≤ advDataSizeMax
  · have hocc := occupied_concat ads ad
    rw [if_pos hfit] at h' ⊢
    rwa [memcpy_advData, ← hocc]
  · rwa [if_neg hfit] at h' ⊢

/-- With 255 bytes of data the length byte is `0`, and the structure passes for one that fits unless the buffer is
full. -/
theorem appendsWhole_largest (h : occupied ads ≤ advDataSizeMax) (hs : ad.dataSize = 255) :
    AppendsWhole (advData ads) (occupied ads) ad ↔ occupied ads = advDataSizeMax := by
  obtain ⟨idx, hidx, hr⟩ := bleAdvAppend_advData h ad
  have hbytes : ad.bytes.length = 257 := by
    rw [ad.length_bytes, hs]
    rfl
  rw [hs] at hr
  change bleAdvAppend (advData ads) ad = if idx.toNat + 0 + 1 > 31 then _ else _ at hr
  have h31 : occupied ads ≤ 31 := h
  constructor
  · rintro ⟨ret', stores, hr', hw, -⟩
    by_contra hne
    have hlt : occupied ads ≠ 31 := hne
    rw [if_neg (by omega), hr'] at hr
    injection hr with hr
    injection hr with _ hstores
    rw [hstores, within_copyAt_iff (by simp [AdStructure.bytes]), hbytes] at hw
    change _ + 257 ≤ 31 at hw
    omega
  · intro hfull
    change occupied ads = 31 at hfull
    rw [if_pos (by omega)] at hr
    refine ⟨idx, [], hr, within_nil, ?_⟩
    rw [if_neg (by rw [hs, hfull]; decide)]
    exact ⟨rfl, hidx⟩

/-- **When a structure is appended all or nothing.**  On the buffer that earlier structures left, all of which fitted,
exactly when the new one has not 255 bytes of data, or the buffer is full. -/
theorem append_whole_iff (ads : List AdStructure) (hads : occupied ads ≤ advDataSizeMax) (ad : AdStructure) :
    ∃ buf ret, run advStep advInit ads = some (buf, ret) ∧
      (AppendsWhole buf (occupied ads) ad ↔ ad.dataSize ≠ 255 ∨ occupied ads = advDataSizeMax) := by
  obtain ⟨kept, ret, hkept, hrun, -⟩ := run_fitted [] 0 (by decide) rfl (ne_of_occupied_le hads)
  obtain rfl : kept = ads := by
    rw [hkept, List.nil_append]
    exact fitted_eq_self (by rwa [occupied_nil, Nat.zero_add])
  refine ⟨advData kept, ret, hrun, ?_⟩
  by_cases hs : ad.dataSize = 255
  · rw [appendsWhole_largest hads hs, or_iff_right (not_not.mpr hs)]
  · exact iff_of_true (appendsWhole_of_ne hads hs) (Or.inl hs)

/-- **Advertising data can be read back.**  Structures with up to 254 bytes of data are appended one after another to
zeros.  Every call returns and stores nothing behind the buffer; and the walk over the buffer in the end meets the
structures that fitted when their turn came, in order, and stops at the index that the last call returned, from which on
there are zeros. -/
theorem read_back (ads : List AdStructure) (hs : ∀ ad ∈ ads, ad.data.length ≤ 254) :
    ∃ buf ret, run advStep advInit ads = some (buf, ret) ∧
      readAds buf 256 0 = some ((fitted 0 ads).map fun ad => (ad.type, ad.data), ret) ∧
      buf.drop ret.toNat = List.replicate (advDataSizeMax - ret.toNat) 0 := by
  have hs' : ∀ ad ∈ ads, ad.dataSize ≠ 255 := by
    intro ad had heq
    have := hs ad had
    rw [ad.fits, heq] at this
    exact absurd this (by decide)
  obtain ⟨kept, ret, hkept, hrun, hret, hle⟩ := run_fitted [] 0 (by decide) rfl hs'
  obtain ⟨stop, hread, hstop⟩ := readAds_front hle
  obtain rfl : stop = ret := UInt8.toNat_inj.mp (hstop.trans hret.symm)
  rw [List.nil_append, occupied_nil] at hkept
  refine ⟨advData kept, stop, hrun, ?_, ?_⟩
  · rw [hread, hkept]
  · rw [hstop, drop_advData_end]

end

/-- The two structures that `ble_service_init` appends: the name "Cabinet Lock", and the address of the device. -/
def initAds : List AdStructure :=
  [⟨0x09, [0x43, 0x61, 0x62, 0x69, 0x6e, 0x65, 0x74, 0x20, 0x4c, 0x6f, 0x63, 0x6b], 12, rfl⟩,
    ⟨0xff, [1, 2, 3, 4, 5, 6, 0, 0], 8, rfl⟩]

/-- A structure with as much data as the field for its size can say. -/
def largestAd : AdStructure := ⟨0xff, List.replicate 255 0, 255, List.length_replicate⟩

/-- On an empty buffer the structure passes for one that fits, and is written over what lies behind the buffer. -/
theorem largest_overruns : ¬ AppendsWhole advInit.1 0 largestAd := by
  rintro ⟨ret, stores, hr, hw, -⟩
  have houtside : (bleAdvAppend advInit.1 largestAd).map (fun r => decide (Within advDataSizeMax r.2)) =
      some false := by
    decide +kernel
  rw [hr, Option.map_some, decide_eq_true hw] at houtside
  cases houtside

theorem append_whole_iff_init : ∃ buf ret, run advStep advInit initAds = some (buf, ret) ∧
    (AppendsWhole buf (occupied initAds) largestAd ↔
      largestAd.dataSize ≠ 255 ∨ occupied initAds = advDataSizeMax) :=
  append_whole_iff initAds (by decide) largestAd

/-- Behind name and address a structure that does not fit, one without data, and one that fills the buffer. -/
theorem read_back_full : ∃ buf ret,
    run advStep advInit (initAds ++ [⟨1, List.replicate 6 0, 6, rfl⟩, ⟨2, [], 0, rfl⟩, ⟨3, [1, 2, 3], 3, rfl⟩]) =
      some (buf, ret) ∧
    readAds buf 256 0 = some ((fitted 0 (initAds ++ [⟨1, List.replicate 6 0, 6, rfl⟩, ⟨2, [], 0, rfl⟩,
      ⟨3, [1, 2, 3], 3, rfl⟩])).map fun ad => (ad.type, ad.data), ret) ∧
    buf.drop ret.toNat = List.replicate (advDataSizeMax - ret.toNat) 0 :=
  read_back _ (by decide)

end Fr8012haLock.Ble
