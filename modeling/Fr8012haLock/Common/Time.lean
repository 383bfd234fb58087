import Fr8012haLock.Lib.Runs
import Mathlib.Data.UInt
import Mathlib.Data.Nat.Notation

/-!
# Elapsed time (`app_comm_time_is_up`)

`system_get_curr_time` counts milliseconds and loops back to `0` after `0x4FFFFFF`.  `app_comm_time_is_up` compares two
of its readings; `timerCall` is what it is for, stated in true time.  The two agree in a call unless the reference
instant has the reading `0`, which stands for no reference instant at all, or the clock has looped back and exactly
`interval` has passed: the difference is then one millisecond too small (`time_is_up_iff`).
-/

namespace Fr8012haLock.Common

open Runs

/-- The number of readings of the clock. -/
def clockPeriod : ℕ := 0x5000000

/-- `system_get_curr_time` at a true time in milliseconds since the start of the system. -/
def systemGetCurrTime (t : ℕ) : UInt32 := UInt32.ofNat (t % clockPeriod)

/-- `app_comm_time_is_up` with the reading `ms`: what it returns, and what is in `tick` afterwards. -/
def appCommTimeIsUp (tick interval ms : UInt32) : Bool × UInt32 :=
  if tick = 0 then (false, ms)
  else
    let delta := if ms ≥ tick then ms - tick else 0x4FFFFFF + ms - tick
    if delta ≥ interval then (true, ms) else (false, tick)

theorem toNat_systemGetCurrTime (t : ℕ) : (systemGetCurrTime t).toNat = t % clockPeriod := by
  have hlt : t % clockPeriod < clockPeriod := Nat.mod_lt _ (by decide)
  change t % clockPeriod < 0x5000000 at hlt
  rw [systemGetCurrTime, UInt32.toNat_ofNat']
  omega

theorem appCommTimeIsUp_self (tick : UInt32) : (appCommTimeIsUp tick 1 tick).1 = false := by
  rw [appCommTimeIsUp]
  by_cases h : tick = 0
  · rw [if_pos h]
  · rw [if_neg h]
    simp only [ge_iff_le, UInt32.le_refl, if_true, UInt32.sub_self]
    rfl

theorem appCommTimeIsUp_tick (tick interval ms : UInt32) : (appCommTimeIsUp tick interval ms).2 = ms ∨
    (appCommTimeIsUp tick interval ms).1 = false ∧ (appCommTimeIsUp tick interval ms).2 = tick := by
  rw [appCommTimeIsUp]
  by_cases h : tick = 0
  · rw [if_pos h]
    exact Or.inl rfl
  · rw [if_neg h]
    by_cases hd : (if ms ≥ tick then ms - tick else 0x4FFFFFF + ms - tick) ≥ interval
    · simp only [if_pos hd, true_or]
    · simp only [if_neg hd, and_self, or_true]

/-! ### The timer in true time -/

/-- A call of a timer at the time `t`; `ref` is the reference instant.  The first call sets it; a later one reports
whether `interval` has passed since, and sets it again if so. -/
def timerCall (interval : ℕ) (ref : Option ℕ) (t : ℕ) : Bool × Option ℕ :=
  match ref with
  | none => (false, some t)
  | some r => if interval ≤ t - r then (true, some t) else (false, some r)

/-- What the variable `tick` should hold. -/
def tickOf : Option ℕ → UInt32
  | none => 0
  | some r => systemGetCurrTime r

/-- The call comes neither before the reference instant nor a whole period of the clock after it. -/
def InTime (ref : Option ℕ) (t : ℕ) : Prop := ∀ r ∈ ref, r ≤ t ∧ t < r + clockPeriod

instance (ref : Option ℕ) (t : ℕ) : Decidable (InTime ref t) := by unfold InTime; infer_instance

/-- The reading of the reference instant is not `0`, unless no time has passed; and the clock has not looped back
since, unless something else than `interval` has passed. -/
def Measurable (interval : ℕ) (ref : Option ℕ) (t : ℕ) : Prop :=
  ∀ r ∈ ref, (systemGetCurrTime r = 0 → t = r) ∧
    ¬ (systemGetCurrTime t < systemGetCurrTime r ∧ t - r = interval)

instance (interval : ℕ) (ref : Option ℕ) (t : ℕ) : Decidable (Measurable interval ref t) := by
  unfold Measurable; infer_instance

/-- The call returns what the timer says, and `tick` then holds the reading of the timer's reference instant. -/
def Agrees (interval : UInt32) (s : Option ℕ × UInt32) (t : ℕ) : Prop :=
  (appCommTimeIsUp s.2 interval (systemGetCurrTime t)).1 = (timerCall interval.toNat s.1 t).1 ∧
    (appCommTimeIsUp s.2 interval (systemGetCurrTime t)).2 = tickOf (timerCall interval.toNat s.1 t).2

instance (interval : UInt32) (s : Option ℕ × UInt32) (t : ℕ) : Decidable (Agrees interval s t) := by
  unfold Agrees; infer_instance

/-- A call of the timer alone. -/
def timerStep (interval : ℕ) (ref : Option ℕ) (t : ℕ) : Option (Option ℕ) := some (timerCall interval ref t).2

/-- The same call of the timer and of `app_comm_time_is_up`. -/
def bothStep (interval : UInt32) (s : Option ℕ × UInt32) (t : ℕ) : Option (Option ℕ × UInt32) :=
  some ((timerCall interval.toNat s.1 t).2, (appCommTimeIsUp s.2 interval (systemGetCurrTime t)).2)

/-- Whether a later call reports, with a reference instant whose reading is not `0`: behind a loop of the clock the
difference is one less than what has passed. -/
theorem appCommTimeIsUp_armed {r t : ℕ} (interval : UInt32) (hrt : r ≤ t) (hp : t < r + clockPeriod)
    (hr : systemGetCurrTime r ≠ 0) :
    appCommTimeIsUp (systemGetCurrTime r) interval (systemGetCurrTime t) =
      if interval.toNat ≤ (if systemGetCurrTime t < systemGetCurrTime r then t - r - 1 else t - r)
      then (true, systemGetCurrTime t) else (false, systemGetCurrTime r) := by
  have hnr := toNat_systemGetCurrTime r
  have hnt := toNat_systemGetCurrTime t
  change _ = r % 0x5000000 at hnr
  change _ = t % 0x5000000 at hnt
  change t < r + 0x5000000 at hp
  rw [appCommTimeIsUp, if_neg hr]
  simp only [ge_iff_le, UInt32.le_iff_toNat_le, UInt32.lt_iff_toNat_lt]
  by_cases hle : (systemGetCurrTime r).toNat ≤ (systemGetCurrTime t).toNat
  · have hdelta : (systemGetCurrTime t - systemGetCurrTime r).toNat = t - r := by
      rw [UInt32.toNat_sub_of_le _ _ (UInt32.le_iff_toNat_le.mpr hle)]
      omega
    rw [if_pos hle, if_neg (Nat.not_lt.mpr hle), hdelta]
  · have hdelta : (0x4FFFFFF + systemGetCurrTime t - systemGetCurrTime r).toNat = t - r - 1 := by
      have hc : (0x4FFFFFF : UInt32).toNat = 0x4FFFFFF := rfl
      rw [UInt32.toNat_sub, UInt32.toNat_add, hc]
      omega
    rw [if_neg hle, if_pos (Nat.not_le.mp hle), hdelta]

/-- With a reference instant whose reading is `0`, a call agrees with the timer only at that instant. -/
theorem agrees_of_zero {interval : UInt32} (hi : 1 ≤ interval.toNat) {r t : ℕ} (hrt : r ≤ t) (hp : t < r + clockPeriod)
    (hr : systemGetCurrTime r = 0) : Agrees interval (some r, 0) t ↔ t = r := by
  have hnt := toNat_systemGetCurrTime t
  have hnr := toNat_systemGetCurrTime r
  rw [hr] at hnr
  change 0 = r % 0x5000000 at hnr
  change _ = t % 0x5000000 at hnt
  change t < r + 0x5000000 at hp
  show (false = (timerCall interval.toNat (some r) t).1 ∧
    systemGetCurrTime t = tickOf (timerCall interval.toNat (some r) t).2) ↔ t = r
  rw [timerCall]
  by_cases hle : interval.toNat ≤ t - r
  · rw [if_pos hle]
    exact iff_of_false (fun h => Bool.false_ne_true h.1) (by omega)
  · rw [if_neg hle, tickOf, hr, ← UInt32.toNat_inj, hnt]
    show (false = false ∧ t % 0x5000000 = 0) ↔ t = r
    rw [and_iff_right rfl]
    omega

theorem agrees_iff {interval : UInt32} (hi : 1 ≤ interval.toNat) {ref : Option ℕ} {t : ℕ} (ht : InTime ref t) :
    Agrees interval (ref, tickOf ref) t ↔ Measurable interval.toNat ref t := by
  cases ref with
  | none =>
    refine iff_of_true ⟨rfl, rfl⟩ ?_
    intro r hr
    cases hr
  | some r =>
    obtain ⟨hrt, hp⟩ := ht r rfl
    have hm : Measurable interval.toNat (some r) t ↔ (systemGetCurrTime r = 0 → t = r) ∧
        ¬ (systemGetCurrTime t < systemGetCurrTime r ∧ t - r = interval.toNat) := by
      simp [Measurable]
    rw [hm, tickOf]
    by_cases hr : systemGetCurrTime r = 0
    · -- nothing is less than the reading `0`
      rw [hr, agrees_of_zero hi hrt hp hr]
      constructor
      · intro h
        exact ⟨fun _ => h, fun hlt => absurd hlt.1 (UInt32.not_lt_zero)⟩
      · rintro ⟨h, -⟩
        exact h rfl
    · rw [Agrees, appCommTimeIsUp_armed interval hrt hp hr, timerCall]
      by_cases hw : systemGetCurrTime t < systemGetCurrTime r
      · rw [if_pos hw]
        by_cases hle : interval.toNat ≤ t - r - 1
        · rw [if_pos hle, if_pos (by omega)]
          exact iff_of_true ⟨rfl, rfl⟩ ⟨fun h => absurd h hr, by omega⟩
        · rw [if_neg hle]
          by_cases heq : t - r = interval.toNat
          · rw [if_pos heq.ge]
            exact iff_of_false (fun h => Bool.false_ne_true h.1) (fun h => h.2 ⟨hw, heq⟩)
          · rw [if_neg (by omega)]
            exact iff_of_true ⟨rfl, rfl⟩ ⟨fun h => absurd h hr, fun h => heq h.2⟩
      · have hcond : (systemGetCurrTime r = 0 → t = r) ∧
            ¬ (systemGetCurrTime t < systemGetCurrTime r ∧ t - r = interval.toNat) :=
          ⟨fun h => absurd h hr, fun h => hw h.1⟩
        rw [if_neg hw]
        split
        · exact iff_of_true ⟨rfl, rfl⟩ hcond
        · exact iff_of_true ⟨rfl, rfl⟩ hcond

/-- **When a run of calls measures the elapsed time.**  Every call on a variable that starts at `0` agrees with the
timer exactly when every call meets a reference instant from which its time is measurable. -/
theorem time_is_up_iff (interval : UInt32) (hi : 1 ≤ interval.toNat) (ts : List ℕ)
    (ht : Admits (timerStep interval.toNat) InTime none ts) :
    Admits (bothStep interval) (Agrees interval) (none, 0) ts ↔
      Admits (timerStep interval.toNat) (Measurable interval.toNat) none ts := by
  have key : ∀ ref, Admits (timerStep interval.toNat) InTime ref ts →
      (Admits (bothStep interval) (Agrees interval) (ref, tickOf ref) ts ↔
        Admits (timerStep interval.toNat) (Measurable interval.toNat) ref ts) := by
    clear ht
    induction ts with
    | nil => exact fun _ _ => Iff.rfl
    | cons t ts ih =>
      intro ref ht
      have htimer : timerStep interval.toNat ref t = some (timerCall interval.toNat ref t).2 := rfl
      have hboth : bothStep interval (ref, tickOf ref) t =
          some ((timerCall interval.toNat ref t).2, (appCommTimeIsUp (tickOf ref) interval (systemGetCurrTime t)).2) :=
        rfl
      rw [admits_cons htimer] at ht
      obtain ⟨h0, hrest⟩ := ht
      rw [admits_cons htimer, admits_cons hboth, agrees_iff hi h0]
      apply and_congr_right
      intro hm
      have hagree := (agrees_iff hi h0).mpr hm
      rw [hagree.2]
      exact ih _ hrest
  exact key none ht

/-- A thousand milliseconds across the end of the clock's range are not reported, nor are two thousand from the reading
`0` on. -/
theorem elapsed_unreported :
    Admits (timerStep 1000) InTime none [clockPeriod - 500, clockPeriod + 500] ∧
      ¬ Admits (bothStep 1000) (Agrees 1000) (none, 0) [clockPeriod - 500, clockPeriod + 500] ∧
    Admits (timerStep 1000) InTime none [clockPeriod, clockPeriod + 2000] ∧
      ¬ Admits (bothStep 1000) (Agrees 1000) (none, 0) [clockPeriod, clockPeriod + 2000] := by
  decide +kernel

/-- Two calls on either side of the end of the clock's range, and one much later. -/
theorem time_is_up_iff_wrapping :
    Admits (bothStep 1000) (Agrees 1000) (none, 0) [clockPeriod - 500, clockPeriod + 499, clockPeriod + 501] ↔
      Admits (timerStep 1000) (Measurable 1000) none [clockPeriod - 500, clockPeriod + 499, clockPeriod + 501] :=
  time_is_up_iff 1000 (by decide) _ (by decide +kernel)

end Fr8012haLock.Common
