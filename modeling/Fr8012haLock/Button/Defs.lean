import Fr8012haLock.Lib.Runs
import Mathlib.Data.UInt

/-!
# The buttons (`button.c`)

`button_toggle_handler` is called with the set of the buttons that are down, a mask, whenever this set has changed; it
and the handlers of the two timers drive a machine of ten states.  The machine tells `user_task` what it takes the
buttons for: `button_send_event` posts a message there.

An `os_timer_t` is the number of milliseconds it has left, none while it is stopped; all timers here run once.
-/

namespace Fr8012haLock.Button

/-- `enum button_type_t`: what a message says. -/
inductive ButtonType where
  | pressed
  | released
  | shortPressed
  | multiPressed
  | longPressed
  | longPressing
  | longReleased
  | longLongPressed
  | longLongReleased
  | combPressed
  | combReleased
  | combShortPressed
  | combLongPressed
  | combLongPressing
  | combLongReleased
  | combLongLongPressed
  | combLongLongReleased
  deriving DecidableEq, Repr

/-- `enum button_working_state_t`. -/
inductive WorkingState where
  | idle
  | justPressed
  | pressed
  | waitMulti
  | longPressed
  | longLongPressed
  | combJustPressed
  | combPressed
  | combLongPressed
  | combLongLongPressed
  deriving DecidableEq, Repr

/-- `enum button_working_event_t`. -/
inductive WorkingEvent where
  | released
  | singlePressed
  | combPressed
  | timeOut
  deriving DecidableEq, Repr

/-- `struct button_msg_t`. -/
structure ButtonMsg where
  buttonIndex : UInt32
  buttonType : ButtonType
  buttonCnt : UInt8
  deriving DecidableEq, Repr

abbrev OsTimer := Option ℕ

/-- The variables of `button.c` that its task and its timers work on; `sent` are the messages posted to `user_task`. -/
structure Driver where
  currentState : WorkingState := .idle
  buttonPressingTimer : OsTimer := none
  buttonStateTimer : OsTimer := none
  currentPressedButton : UInt32 := 0
  lastSavedButton : UInt32 := 0
  buttonToBeSend : UInt32 := 0
  pressedCnt : UInt8 := 0
  sent : List ButtonMsg := []
  deriving DecidableEq, Repr

/-- `BUTTON_SHORT_DURING * 10`, in milliseconds. -/
def shortDuring : ℕ := 0x08 * 10

/-- `(BUTTON_LONG_DURING*10 - BUTTON_SHORT_DURING) * 10`. -/
def longDuring : ℕ := (0x14 * 10 - 0x08) * 10

/-- `((BUTTON_LONG_LONG_DURING - BUTTON_LONG_DURING) * 10) * 10`. -/
def longLongDuring : ℕ := ((0x28 - 0x14) * 10) * 10

/-- `BUTTON_MULTI_INTERVAL * 10`. -/
def multiInterval : ℕ := 0x14 * 10

/-- `BUTTON_LONG_PRESSING_INTERVAL * 10`. -/
def longPressingInterval : ℕ := 0x1e * 10

/-! ## The machine -/

/-- `current_state = s`. -/
def Driver.enter (b : Driver) (s : WorkingState) : Driver := { b with currentState := s }

/-- `os_timer_start(&button_state_timer, ms, false)`. -/
def Driver.startState (b : Driver) (ms : ℕ) : Driver := { b with buttonStateTimer := some ms }

/-- `os_timer_stop(&button_state_timer)`. -/
def Driver.stopState (b : Driver) : Driver := { b with buttonStateTimer := none }

/-- `os_timer_start(&button_pressing_timer, ms, false)`. -/
def Driver.startPressing (b : Driver) (ms : ℕ) : Driver := { b with buttonPressingTimer := some ms }

/-- `os_timer_stop(&button_pressing_timer)`. -/
def Driver.stopPressing (b : Driver) : Driver := { b with buttonPressingTimer := none }

def buttonSendEvent (b : Driver) (event : ButtonType) (button : UInt32) (cnt : UInt8) : Driver :=
  { b with sent := b.sent ++ [⟨button, event, cnt⟩], pressedCnt := 0 }

/-- `button_send_event(event, current_pressed_button, pressed_cnt)`. -/
def Driver.sendCurrent (b : Driver) (event : ButtonType) : Driver :=
  buttonSendEvent b event b.currentPressedButton b.pressedCnt

/-- `button_send_event(event, last_saved_button, pressed_cnt)`. -/
def Driver.sendLastSaved (b : Driver) (event : ButtonType) : Driver :=
  buttonSendEvent b event b.lastSavedButton b.pressedCnt

/-- `button_send_event(event, button_to_be_send, pressed_cnt)`. -/
def Driver.sendToBeSend (b : Driver) (event : ButtonType) : Driver :=
  buttonSendEvent b event b.buttonToBeSend b.pressedCnt

/-- What `button_wait_multi` reports `pressed_cnt` clicks as. -/
def clickType (pressedCnt : UInt8) : ButtonType := if pressedCnt > 1 then .multiPressed else .shortPressed

def buttonIdle (b : Driver) : WorkingEvent → Driver
  | .singlePressed => ((b.enter .justPressed).startState shortDuring).sendCurrent .pressed
  | .combPressed => ((b.enter .combJustPressed).startState shortDuring).sendCurrent .combPressed
  | _ => b

def buttonJustPressed (b : Driver) : WorkingEvent → Driver
  | .released => (b.enter .idle).stopState.sendLastSaved .released
  | .combPressed => ((b.enter .combJustPressed).startState shortDuring).sendCurrent .combPressed
  | .timeOut => (b.enter .pressed).startState longDuring
  | _ => b

def buttonPressed (b : Driver) : WorkingEvent → Driver
  | .released =>
    -- the mask of the buttons without multi click is 0
    if (0 : UInt32) &&& b.lastSavedButton ≠ 0 then
      buttonSendEvent (b.enter .idle) .shortPressed b.lastSavedButton 0
    else
      let b := b.enter .waitMulti
      let b := { b with buttonToBeSend := b.lastSavedButton, pressedCnt := b.pressedCnt + 1 }
      b.startState multiInterval
  | .combPressed => ((b.enter .combJustPressed).startState shortDuring).sendCurrent .combPressed
  | .timeOut =>
    (((b.enter .longPressed).startState longLongDuring).startPressing longPressingInterval).sendCurrent .longPressed
  | _ => b

def buttonWaitMulti (b : Driver) : WorkingEvent → Driver
  | .singlePressed =>
    let b :=
      if b.currentPressedButton ≠ b.buttonToBeSend then
        (b.sendToBeSend (clickType b.pressedCnt)).sendCurrent .pressed
      else b
    (b.enter .justPressed).startState shortDuring
  | .combPressed =>
    (((b.enter .combJustPressed).startState shortDuring).sendCurrent .combPressed).sendToBeSend .shortPressed
  | .timeOut => (b.enter .idle).sendToBeSend (clickType b.pressedCnt)
  | _ => b

def buttonLongPressed (b : Driver) : WorkingEvent → Driver
  | .released => (b.enter .idle).stopState.stopPressing.sendLastSaved .longReleased
  | .combPressed =>
    ((((b.enter .combJustPressed).startState shortDuring).stopPressing).sendCurrent .combPressed).sendLastSaved
      .longReleased
  | .timeOut => (b.enter .longLongPressed).sendCurrent .longLongPressed
  | _ => b

def buttonLongLongPressed (b : Driver) : WorkingEvent → Driver
  | .released => (b.stopPressing.enter .idle).sendLastSaved .longLongReleased
  | .combPressed =>
    ((((b.enter .combJustPressed).startState shortDuring).stopPressing).sendCurrent .combPressed).sendLastSaved
      .longLongReleased
  | _ => b

def buttonCombJustPressed (b : Driver) : WorkingEvent → Driver
  | .released => (b.enter .idle).stopState.sendLastSaved .combReleased
  | .singlePressed =>
    (((b.enter .justPressed).startState shortDuring).sendLastSaved .combReleased).sendCurrent .pressed
  -- the one place where two buttons lead to the state of one
  | .combPressed => ((b.enter .justPressed).startState shortDuring).sendCurrent .combPressed
  | .timeOut => (b.enter .combPressed).startState longDuring

def buttonCombPressed (b : Driver) : WorkingEvent → Driver
  | .released => (b.enter .idle).stopState.sendLastSaved .combShortPressed
  | .singlePressed =>
    (((b.enter .justPressed).startState shortDuring).sendLastSaved .combShortPressed).sendCurrent .pressed
  | .combPressed =>
    (((b.enter .combJustPressed).startState shortDuring).sendLastSaved .combShortPressed).sendCurrent .combPressed
  | .timeOut =>
    (((b.enter .combLongPressed).startState longLongDuring).startPressing longPressingInterval).sendCurrent
      .combLongPressed

def buttonCombLongPressed (b : Driver) : WorkingEvent → Driver
  | .released => (b.enter .idle).stopState.stopPressing.sendLastSaved .combLongReleased
  | .singlePressed =>
    (((b.enter .justPressed).startState shortDuring).stopPressing.sendLastSaved .combLongReleased).sendCurrent .pressed
  | .combPressed =>
    (((b.enter .combJustPressed).startState shortDuring).stopPressing.sendLastSaved .combLongReleased).sendCurrent
      .combPressed
  | .timeOut => (b.enter .combLongLongPressed).sendCurrent .combLongLongPressed

def buttonCombLongLongPressed (b : Driver) : WorkingEvent → Driver
  | .released => (b.enter .idle).stopPressing.sendLastSaved .combLongLongReleased
  | .singlePressed =>
    (((b.enter .justPressed).startState shortDuring).stopPressing.sendLastSaved .combLongLongReleased).sendCurrent
      .pressed
  | .combPressed =>
    (((b.enter .combJustPressed).startState shortDuring).stopPressing.sendLastSaved .combLongLongReleased).sendCurrent
      .combPressed
  | _ => b

/-- `button_statemachines[current_state](event)`. -/
def buttonStatemachines (b : Driver) (event : WorkingEvent) : Driver :=
  match b.currentState with
  | .idle => buttonIdle b event
  | .justPressed => buttonJustPressed b event
  | .pressed => buttonPressed b event
  | .waitMulti => buttonWaitMulti b event
  | .longPressed => buttonLongPressed b event
  | .longLongPressed => buttonLongLongPressed b event
  | .combJustPressed => buttonCombJustPressed b event
  | .combPressed => buttonCombPressed b event
  | .combLongPressed => buttonCombLongPressed b event
  | .combLongLongPressed => buttonCombLongLongPressed b event

/-- The event `button_toggle_handler` makes of the buttons that are down. -/
def toggleEvent (currButton : UInt32) : WorkingEvent :=
  if currButton = 0 then .released
  else if currButton &&& (currButton - 1) = 0 then .singlePressed
  else .combPressed

def buttonToggleHandler (b : Driver) (currButton : UInt32) : Driver :=
  let b := { b with currentPressedButton := currButton }
  if b.lastSavedButton ≠ b.currentPressedButton then
    let b := buttonStatemachines b (toggleEvent b.currentPressedButton)
    { b with lastSavedButton := b.currentPressedButton }
  else b

def buttonTimeoutHandler (b : Driver) : Driver := buttonStatemachines b .timeOut

def buttonPressingTimeoutHandler (b : Driver) : Driver :=
  let event : ButtonType :=
    if b.currentPressedButton &&& (b.currentPressedButton - 1) = 0 then .longPressing else .combLongPressing
  (b.sendCurrent event).startPressing longPressingInterval

/-! ## Its runs -/

/-- `BUTTON_TOGGLE` is handled, time passes, or one of the timers expires. -/
inductive ButtonEvent where
  | toggle (currButton : UInt32)
  | elapse (ms : ℕ)
  | timeout
  | pressingTimeout
  deriving DecidableEq, Repr

/-- A timer that has `ms` milliseconds less left. -/
def OsTimer.elapse (t : OsTimer) (ms : ℕ) : OsTimer := t.map (· - ms)

def Driver.elapse (b : Driver) (ms : ℕ) : Driver :=
  { b with buttonPressingTimer := OsTimer.elapse b.buttonPressingTimer ms,
           buttonStateTimer := OsTimer.elapse b.buttonStateTimer ms }

/-- One event; a timer does not expire before its time. -/
def Driver.step (b : Driver) : ButtonEvent → Option Driver
  | .toggle currButton => some (buttonToggleHandler b currButton)
  | .elapse ms => some (b.elapse ms)
  | .timeout => if b.buttonStateTimer = some 0 then some (buttonTimeoutHandler b.stopState) else none
  | .pressingTimeout =>
    if b.buttonPressingTimer = some 0 then some (buttonPressingTimeoutHandler b.stopPressing) else none

theorem step_cases {b b' : Driver} {e : ButtonEvent} (h : b.step e = some b') :
    (∃ currButton, e = .toggle currButton ∧ b' = buttonToggleHandler b currButton) ∨
      (∃ ms, e = .elapse ms ∧ b' = b.elapse ms) ∨
      (e = .timeout ∧ b.buttonStateTimer = some 0 ∧ b' = buttonTimeoutHandler b.stopState) ∨
      e = .pressingTimeout ∧ b.buttonPressingTimer = some 0 ∧
        b' = buttonPressingTimeoutHandler b.stopPressing := by
  cases e with
  | toggle currButton => exact .inl ⟨currButton, rfl, by simpa [Driver.step] using h.symm⟩
  | elapse ms => exact .inr (.inl ⟨ms, rfl, by simpa [Driver.step] using h.symm⟩)
  | timeout =>
    simp only [Driver.step] at h
    split at h
    · exact .inr (.inr (.inl ⟨rfl, ‹_›, by simpa using h.symm⟩))
    · cases h
  | pressingTimeout =>
    simp only [Driver.step] at h
    split at h
    · exact .inr (.inr (.inr ⟨rfl, ‹_›, by simpa using h.symm⟩))
    · cases h

end Fr8012haLock.Button
