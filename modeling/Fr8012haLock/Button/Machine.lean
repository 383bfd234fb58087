import Fr8012haLock.Button.Defs
import Mathlib.Data.List.Basic

/-!
# What the machine of the buttons keeps

`Consistent` says which timers run, what the masks are and what the messages say, state by state; every run keeps it
(`run_consistent`).
-/

namespace Fr8012haLock.Button

open Runs

-- the machine runs on states that are known, so that its functions compute
attribute [simp] Driver.enter Driver.startState Driver.stopState Driver.startPressing Driver.stopPressing
  buttonSendEvent Driver.sendCurrent Driver.sendLastSaved Driver.sendToBeSend buttonIdle buttonJustPressed
  buttonPressed buttonWaitMulti buttonLongPressed buttonLongLongPressed buttonCombJustPressed buttonCombPressed
  buttonCombLongPressed buttonCombLongLongPressed buttonStatemachines

/-! ## One button or several -/

/-- Exactly one button. -/
def IsSingle (c : UInt32) : Prop := c.toNat.isPowerOfTwo

/-- At least two buttons. -/
def IsComb (c : UInt32) : Prop := c ≠ 0 ∧ ¬ IsSingle c

theorem toNat_ne_zero {c : UInt32} (hc : c ≠ 0) : c.toNat ≠ 0 := by
  intro h
  exact hc (UInt32.toNat_inj.mp h)

theorem toNat_sub_one {c : UInt32} (hc : c ≠ 0) : (c - 1).toNat = c.toNat - 1 := by
  have h0 := toNat_ne_zero hc
  rw [UInt32.toNat_sub_of_le c 1 (UInt32.le_iff_toNat_le.mpr (by show 1 ≤ c.toNat; omega))]
  rfl

theorem and_sub_one_eq_zero {c : UInt32} (hc : c ≠ 0) : c &&& (c - 1) = 0 ↔ IsSingle c := by
  rw [IsSingle, ← Nat.and_sub_one_eq_zero_iff_isPowerOfTwo (toNat_ne_zero hc), ← toNat_sub_one hc, ← UInt32.toNat_and]
  constructor
  · intro h
    rw [h]
    rfl
  · intro h
    exact UInt32.toNat_inj.mp h

theorem IsSingle.ne_zero {c : UInt32} (h : IsSingle c) : c ≠ 0 := by
  rintro rfl
  exact Nat.not_isPowerOfTwo_zero h

theorem toggleEvent_zero : toggleEvent 0 = .released := rfl

theorem toggleEvent_single {c : UInt32} (h : IsSingle c) : toggleEvent c = .singlePressed := by
  rw [toggleEvent, if_neg h.ne_zero, if_pos ((and_sub_one_eq_zero h.ne_zero).mpr h)]

theorem toggleEvent_comb {c : UInt32} (h : IsComb c) : toggleEvent c = .combPressed := by
  rw [toggleEvent, if_neg h.1, if_neg (mt (and_sub_one_eq_zero h.1).mp h.2)]

theorem zero_or_single_or_comb (c : UInt32) : c = 0 ∨ IsSingle c ∨ IsComb c := by
  by_cases hc : c = 0
  · exact .inl hc
  · by_cases hs : IsSingle c
    · exact .inr (.inl hs)
    · exact .inr (.inr ⟨hc, hs⟩)

/-! ## What every run keeps -/

/-- The states the state timer runs in. -/
def WorkingState.timed : WorkingState → Bool
  | .idle | .longLongPressed | .combLongLongPressed => false
  | _ => true

/-- The states the pressing timer runs in. -/
def WorkingState.repeats : WorkingState → Bool
  | .longPressed | .longLongPressed | .combLongPressed | .combLongLongPressed => true
  | _ => false

/-- The states in which a button is down. -/
def WorkingState.down : WorkingState → Bool
  | .idle | .waitMulti => false
  | _ => true

/-- The states of a combination. -/
def WorkingState.comb : WorkingState → Bool
  | .combJustPressed | .combPressed | .combLongPressed | .combLongLongPressed => true
  | _ => false

/-- The states in which clicks may be counted. -/
def WorkingState.counts : WorkingState → Bool
  | .justPressed | .pressed | .waitMulti => true
  | _ => false

/-- What the type of a message promises of the buttons and the count it comes with. -/
def Promises (button : UInt32) (cnt : UInt8) : ButtonType → Prop
  | .pressed | .longPressing => IsSingle button ∧ cnt = 0
  | .released | .longPressed => button ≠ 0
  | .shortPressed => button ≠ 0 ∧ cnt ≤ 1
  | .multiPressed => button ≠ 0 ∧ 1 < cnt
  | .longReleased | .longLongPressed | .longLongReleased => button ≠ 0 ∧ cnt = 0
  | .combPressed => IsComb button
  | _ => IsComb button ∧ cnt = 0

def ButtonMsg.Sound (m : ButtonMsg) : Prop := Promises m.buttonIndex m.buttonCnt m.buttonType

@[simp] theorem sound_mk (button : UInt32) (t : ButtonType) (cnt : UInt8) :
    ButtonMsg.Sound ⟨button, t, cnt⟩ ↔ Promises button cnt t := Iff.rfl

attribute [simp] WorkingState.timed WorkingState.repeats WorkingState.down WorkingState.comb WorkingState.counts
  Promises

structure Consistent (b : Driver) : Prop where
  stateTimer : b.buttonStateTimer.isSome = b.currentState.timed
  pressingTimer : b.buttonPressingTimer.isSome = b.currentState.repeats
  current : b.currentPressedButton = b.lastSavedButton
  down : b.lastSavedButton ≠ 0 ↔ b.currentState.down = true
  comb : b.currentState.comb = true → IsComb b.lastSavedButton
  toBeSend : b.currentState = .waitMulti → b.buttonToBeSend ≠ 0
  counts : b.pressedCnt ≠ 0 → b.currentState.counts = true
  sound : b.sent.Forall ButtonMsg.Sound

theorem clickType_cases (cnt : UInt8) :
    clickType cnt = .multiPressed ∧ 1 < cnt ∨ clickType cnt = .shortPressed ∧ cnt ≤ 1 := by
  by_cases h : 1 < cnt
  · exact .inl ⟨if_pos h, h⟩
  · exact .inr ⟨if_neg h, UInt8.not_lt.mp h⟩

theorem Consistent.toggle {b : Driver} (h : Consistent b) (c : UInt32) : Consistent (buttonToggleHandler b c) := by
  obtain ⟨hst, hpt, hcur, hdown, hcomb, htbs, hcnt, hsound⟩ := h
  obtain ⟨st, pt, tm, cur, last, tbs, cnt, sent⟩ := b
  dsimp only at hst hpt hcur hdown hcomb htbs hcnt hsound
  unfold buttonToggleHandler
  dsimp only
  by_cases hc : last = c
  · rw [if_neg (by simpa using hc)]
    exact ⟨hst, hpt, hc.symm, hdown, hcomb, htbs, hcnt, hsound⟩
  · rw [if_pos hc]
    -- a button is down in the states `hdown` says it is, so nothing is released in the others
    obtain rfl | hs | hs := zero_or_single_or_comb c
    · rw [toggleEvent_zero]
      cases st <;> simp at hst hpt hdown hcomb htbs hcnt <;> try exact absurd hdown hc
      all_goals constructor <;> simp [*]
    · rw [toggleEvent_single hs]
      have h0 := hs.ne_zero
      cases st <;> simp at hst hpt hdown hcomb htbs hcnt
      case waitMulti =>
        obtain hn | hn := clickType_cases cnt <;> by_cases ht : c = tbs <;> constructor <;> simp [*]
      all_goals constructor <;> simp [*]
    · rw [toggleEvent_comb hs]
      have h0 := hs.1
      cases st <;> simp at hst hpt hdown hcomb htbs hcnt
      all_goals constructor <;> simp [*]

theorem Consistent.timeout {b : Driver} (h : Consistent b) (ht : b.buttonStateTimer = some 0) :
    Consistent (buttonTimeoutHandler b.stopState) := by
  obtain ⟨hst, hpt, hcur, hdown, hcomb, htbs, hcnt, hsound⟩ := h
  obtain ⟨st, pt, tm, cur, last, tbs, cnt, sent⟩ := b
  dsimp only at hst hpt hcur hdown hcomb htbs hcnt hsound ht
  unfold buttonTimeoutHandler
  subst ht hcur
  cases st <;> simp at hst hpt hdown hcomb htbs hcnt
  case waitMulti => obtain hn | hn := clickType_cases cnt <;> constructor <;> simp [*]
  all_goals constructor <;> simp [*]

theorem Consistent.pressingTimeout {b : Driver} (h : Consistent b) (ht : b.buttonPressingTimer = some 0) :
    Consistent (buttonPressingTimeoutHandler b.stopPressing) := by
  obtain ⟨hst, hpt, hcur, hdown, hcomb, htbs, hcnt, hsound⟩ := h
  obtain ⟨st, pt, tm, cur, last, tbs, cnt, sent⟩ := b
  dsimp only at hst hpt hcur hdown hcomb htbs hcnt hsound ht
  unfold buttonPressingTimeoutHandler
  subst ht hcur
  cases st <;> simp at hst hpt hdown hcomb htbs hcnt
  all_goals
    have hone := and_sub_one_eq_zero hdown
    by_cases hs : IsSingle cur <;> constructor <;> simp_all [IsComb]

theorem Consistent.elapse {b : Driver} (h : Consistent b) (ms : ℕ) : Consistent (b.elapse ms) :=
  ⟨by simpa [Driver.elapse, OsTimer.elapse] using h.stateTimer,
    by simpa [Driver.elapse, OsTimer.elapse] using h.pressingTimer, h.current, h.down, h.comb, h.toBeSend, h.counts,
    h.sound⟩

theorem consistent_init : Consistent {} :=
  ⟨rfl, rfl, rfl, by decide, by simp, by simp, by simp, trivial⟩

theorem Consistent.step {b b' : Driver} {e : ButtonEvent} (h : Consistent b) (hs : b.step e = some b') :
    Consistent b' := by
  obtain ⟨c, rfl, rfl⟩ | ⟨ms, rfl, rfl⟩ | ⟨rfl, ht, rfl⟩ | ⟨rfl, ht, rfl⟩ := step_cases hs
  · exact h.toggle c
  · exact h.elapse ms
  · exact h.timeout ht
  · exact h.pressingTimeout ht

theorem Consistent.run {b b' : Driver} {es : List ButtonEvent} (h : Consistent b)
    (hr : run Driver.step b es = some b') : Consistent b' := by
  have hstep : ∀ (b : Driver) (e : ButtonEvent) (b' : Driver), Consistent b → b.step e = some b' → Consistent b' := by
    intro b e b' hi hs
    exact hi.step hs
  exact run_always hstep h hr

/-- **Timers, masks and messages are what the state says they are.**  In every run the state timer and the pressing
timer run in exactly the states that wait for them, a state knows whether buttons are down, the states of a
combination are entered with two buttons or more, and every message keeps what its type promises. -/
theorem run_consistent {b : Driver} {es : List ButtonEvent} (hr : run Driver.step {} es = some b) : Consistent b :=
  consistent_init.run hr

/-- A combination of two buttons that is let go after a click of one of them. -/
def clickThenComb : List ButtonEvent :=
  [.toggle 1, .elapse 80, .timeout, .toggle 0, .elapse 150, .toggle 3, .elapse 30, .toggle 0]

theorem run_consistent_clickThenComb : ∃ b, run Driver.step {} clickThenComb = some b ∧ Consistent b := by
  have hr : run Driver.step {} clickThenComb = some _ := rfl
  exact ⟨_, hr, run_consistent hr⟩

end Fr8012haLock.Button
