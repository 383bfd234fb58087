import Fr8012haLock.Button.Machine
import Mathlib.Computability.DFA

/-!
# What the machine of the buttons tells

Somebody who hears the types of the messages only, `listener`, is an automaton over them.  Every run of the machine
sends what the automaton accepts, and the automaton then knows the state up to states it cannot tell apart; and every
word it accepts is sent by some run (`messages_eq_accepts`).
-/

namespace Fr8012haLock.Button

open Runs

/-- What somebody knows who hears the types of the messages. -/
inductive Heard where
  /-- no button is down -/
  | up
  /-- one button is down, or clicks are counted -/
  | single
  /-- the same, but the machine came from a combination with another one, and several buttons may be down -/
  | slip
  | comb
  /-- a combination; the click before it may still be reported -/
  | combAfterClick
  | long
  | slipLong
  /-- a combination; the release before it is still to be reported -/
  | combAfterLong
  | longLong
  | slipLongLong
  | combAfterLongLong
  | combLong
  | combLongLong
  deriving DecidableEq, Repr

/-- What a message says to somebody who knows `h`; `none` where it makes no sense. -/
def hear : Heard → ButtonType → Option Heard
  | .up, .pressed => some .single
  | .up, .combPressed => some .comb
  | .single, .longPressed => some .long
  | .slip, .longPressed => some .slipLong
  | .single, .released | .single, .shortPressed | .single, .multiPressed => some .up
  | .slip, .released | .slip, .shortPressed | .slip, .multiPressed => some .up
  | .single, .combPressed | .slip, .combPressed => some .combAfterClick
  | .combAfterClick, .shortPressed => some .comb
  | .comb, .combReleased | .combAfterClick, .combReleased => some .up
  | .comb, .combShortPressed | .combAfterClick, .combShortPressed => some .up
  | .comb, .combPressed | .combAfterClick, .combPressed => some .slip
  | .comb, .combLongPressed | .combAfterClick, .combLongPressed => some .combLong
  | .long, .longPressing | .slipLong, .longPressing => some .long
  | .slipLong, .combLongPressing => some .slipLong
  | .long, .longReleased | .slipLong, .longReleased => some .up
  | .long, .longLongPressed => some .longLong
  | .slipLong, .longLongPressed => some .slipLongLong
  | .long, .combPressed | .slipLong, .combPressed => some .combAfterLong
  | .combAfterLong, .longReleased => some .comb
  | .longLong, .longPressing | .slipLongLong, .longPressing => some .longLong
  | .slipLongLong, .combLongPressing => some .slipLongLong
  | .longLong, .longLongReleased | .slipLongLong, .longLongReleased => some .up
  | .longLong, .combPressed | .slipLongLong, .combPressed => some .combAfterLongLong
  | .combAfterLongLong, .longLongReleased => some .comb
  | .combLong, .combLongPressing => some .combLong
  | .combLong, .combLongReleased => some .up
  | .combLong, .combLongLongPressed => some .combLongLong
  | .combLongLong, .combLongPressing => some .combLongLong
  | .combLongLong, .combLongLongReleased => some .up
  | _, _ => none

/-- The states the machine may be in when somebody knows `h`. -/
def Heard.states : Heard → List WorkingState
  | .up => [.idle]
  | .single | .slip => [.justPressed, .pressed, .waitMulti]
  | .comb | .combAfterClick => [.combJustPressed, .combPressed]
  | .long | .slipLong => [.longPressed]
  | .longLong | .slipLongLong => [.longLongPressed]
  | .combLong => [.combLongPressed]
  | .combLongLong => [.combLongLongPressed]
  | .combAfterLong | .combAfterLongLong => []

/-- Somebody who knows `h` takes it for granted that at most one button is down. -/
def Heard.one : Heard → Bool
  | .single | .long | .longLong => true
  | _ => false

/-- The automaton that reads the types of the messages.  It accepts what it may have heard between two steps of the
machine. -/
def listener : DFA ButtonType (Option Heard) where
  step q t := q.bind fun h => hear h t
  start := some .up
  accept := {q | ∃ h, q = some h ∧ h.states ≠ []}

/-- What the messages let a listener know. -/
def told (ms : List ButtonMsg) : Option Heard := listener.eval (ms.map (·.buttonType))

@[simp] theorem told_one (ms : List ButtonMsg) (m : ButtonMsg) :
    told (ms ++ [m]) = (told ms).bind fun h => hear h m.buttonType := by
  rw [told, List.map_append, List.map_singleton, DFA.eval_append_singleton]
  rfl

@[simp] theorem told_two (ms : List ButtonMsg) (m m' : ButtonMsg) :
    told (ms ++ [m, m']) = ((told ms).bind fun h => hear h m.buttonType).bind fun h => hear h m'.buttonType := by
  rw [← told_one, ← told_one, List.append_assoc]
  rfl

/-! ## Every run sends what the listener accepts -/

/-- The listener has understood all messages, and the machine is as it thinks. -/
structure Follows (h : Heard) (b : Driver) : Prop where
  told : told b.sent = some h
  states : b.currentState ∈ h.states
  one : h.one = true → b.lastSavedButton ≠ 0 → IsSingle b.lastSavedButton

def Followed (b : Driver) : Prop := ∃ h, Follows h b

attribute [simp] Heard.states Heard.one hear

theorem followed_iff {b : Driver} :
    Followed b ↔ ∃ h, told b.sent = some h ∧ b.currentState ∈ h.states ∧
      (h.one = true → b.lastSavedButton ≠ 0 → IsSingle b.lastSavedButton) := by
  constructor
  · rintro ⟨h, h1, h2, h3⟩
    exact ⟨h, h1, h2, h3⟩
  · rintro ⟨h, h1, h2, h3⟩
    exact ⟨h, h1, h2, h3⟩

theorem Followed.toggle {b : Driver} (hf : Followed b) (h : Consistent b) (c : UInt32) :
    Followed (buttonToggleHandler b c) := by
  obtain ⟨k, hk, hmem, hone⟩ := hf
  obtain ⟨-, -, -, hdown, -, -, -, -⟩ := h
  obtain ⟨st, pt, tm, cur, last, tbs, cnt, sent⟩ := b
  dsimp only at hk hmem hone hdown
  unfold buttonToggleHandler
  dsimp only
  by_cases hc : last = c
  · rw [if_neg (by simpa using hc)]
    exact ⟨k, hk, hmem, hone⟩
  · rw [if_pos hc]
    obtain rfl | hs | hs := zero_or_single_or_comb c
    · rw [toggleEvent_zero]
      cases k <;> cases st <;> simp at hdown hmem <;> try exact absurd hdown hc
      all_goals simp [followed_iff, hk]
    · rw [toggleEvent_single hs]
      cases k <;> cases st <;> simp at hmem
      case single.waitMulti | slip.waitMulti =>
        obtain hn | hn := clickType_cases cnt <;> obtain rfl | ht := eq_or_ne c tbs <;> simp [followed_iff, *]
      all_goals simp [followed_iff, *]
    · rw [toggleEvent_comb hs]
      cases k <;> cases st <;> simp at hmem
      all_goals simp [followed_iff, hk]

theorem Followed.timeout {b : Driver} (hf : Followed b) : Followed (buttonTimeoutHandler b.stopState) := by
  obtain ⟨k, hk, hmem, hone⟩ := hf
  obtain ⟨st, pt, tm, cur, last, tbs, cnt, sent⟩ := b
  dsimp only at hk hmem hone
  unfold buttonTimeoutHandler
  cases k <;> cases st <;> simp at hmem hone
  case single.waitMulti | slip.waitMulti => obtain hn | hn := clickType_cases cnt <;> simp [followed_iff, hk, hn]
  all_goals simp +contextual [followed_iff, hk, hone]

theorem Followed.pressingTimeout {b : Driver} (hf : Followed b) (h : Consistent b)
    (ht : b.buttonPressingTimer = some 0) : Followed (buttonPressingTimeoutHandler b.stopPressing) := by
  obtain ⟨k, hk, hmem, hone⟩ := hf
  obtain ⟨-, hpt, hcur, hdown, hcomb, -, -, -⟩ := h
  obtain ⟨st, pt, tm, cur, last, tbs, cnt, sent⟩ := b
  dsimp only at hk hmem hone hpt hcur hdown hcomb ht
  unfold buttonPressingTimeoutHandler
  subst ht hcur
  cases k <;> cases st <;> simp at hmem hone hpt hdown hcomb
  case combLong.combLongPressed | combLongLong.combLongLongPressed =>
    have hs := mt (and_sub_one_eq_zero hcomb.1).mp hcomb.2
    simp [followed_iff, hk, hs]
  all_goals
    have hone' := and_sub_one_eq_zero hdown
    by_cases hs : IsSingle cur <;> simp_all [followed_iff]

theorem Followed.step {b b' : Driver} {e : ButtonEvent} (hf : Followed b) (h : Consistent b)
    (hs : b.step e = some b') : Followed b' := by
  obtain ⟨c, rfl, rfl⟩ | ⟨ms, rfl, rfl⟩ | ⟨rfl, ht, rfl⟩ | ⟨rfl, ht, rfl⟩ := step_cases hs
  · exact hf.toggle h c
  · obtain ⟨k, hk, hmem, hone⟩ := hf
    exact ⟨k, hk, hmem, hone⟩
  · exact hf.timeout
  · exact hf.pressingTimeout h ht

theorem followed_init : Followed {} := ⟨.up, rfl, by decide, by simp⟩

theorem Followed.run {b b' : Driver} {es : List ButtonEvent} (hf : Followed b) (h : Consistent b)
    (hr : run Driver.step b es = some b') : Followed b' := by
  have hstep : ∀ (b : Driver) (e : ButtonEvent) (b' : Driver), Consistent b ∧ Followed b → b.step e = some b' →
      Consistent b' ∧ Followed b' := by
    rintro b e b' ⟨hc, hf⟩ hs
    exact ⟨hc.step hs, hf.step hc hs⟩
  exact (run_always hstep ⟨h, hf⟩ hr).2

/-! ## Every word the listener accepts is sent -/

/-- A state the machine may be left in when somebody knows `h`. -/
def Heard.station : Heard → WorkingState
  | .up => .idle
  | .single | .slip => .justPressed
  | .long | .slipLong => .longPressed
  | .longLong | .slipLongLong => .longLongPressed
  | .combLong => .combLongPressed
  | .combLongLong => .combLongLongPressed
  | _ => .combJustPressed

/-- The buttons that are down there. -/
def Heard.buttons : Heard → UInt32
  | .up => 0
  | .single | .long | .longLong => 1
  | .slip | .slipLong | .slipLongLong => 7
  | _ => 3

/-- The machine left so; every timer that runs is due. -/
def parked (h : Heard) (toBeSend : UInt32) (sent : List ButtonMsg) : Driver :=
  ⟨h.station, if h.station.repeats then some 0 else none, if h.station.timed then some 0 else none, h.buttons,
    h.buttons, toBeSend, 0, sent⟩

/-- A run takes the machine from where it is left for `h` to where it is left for `h'`, and sends messages of the types
`ts`. -/
def Leads (h : Heard) (ts : List ButtonType) (h' : Heard) : Prop :=
  ∀ toBeSend sent, ∃ es b, run Driver.step (parked h toBeSend sent) es = some b ∧
    b = parked h' b.buttonToBeSend b.sent ∧ b.sent.map (·.buttonType) = sent.map (·.buttonType) ++ ts

/-- The message `t` comes in the same step as the one before it, after which `h` is known. -/
def Heard.together (h : Heard) (t : ButtonType) : Prop := h.states = [] ∨ h = .combAfterClick ∧ t = .shortPressed

/-- Time passes until every timer is due. -/
def late : ButtonEvent := .elapse 2000

/-- What is held is let go after it has become more than a touch. -/
def click : List ButtonEvent := [.timeout, .toggle 0, late]

section

attribute [local simp] Driver.step buttonToggleHandler buttonTimeoutHandler buttonPressingTimeoutHandler toggleEvent
  clickType Driver.elapse OsTimer.elapse shortDuring longDuring longLongDuring multiInterval longPressingInterval run
  parked Heard.station Heard.buttons click late

@[local simp] theorem two_down : ¬ (3 : UInt32) &&& 2 = 0 := by decide

@[local simp] theorem three_down : ¬ (7 : UInt32) &&& 6 = 0 := by decide

theorem leads_one {h h' : Heard} {t : ButtonType} (hh : hear h t = some h') (hn : ¬ h.together t)
    (hs' : h'.states ≠ []) : Leads h [t] h' := by
  intro tbs sent
  obtain ⟨hs, hn⟩ := not_or.mp hn
  cases h <;> cases t <;> simp at hh hs hn <;> subst hh <;> simp at hs'
  case' up.pressed => use [.toggle 1, late]
  case' up.combPressed => use [.toggle 3, late]
  case' single.shortPressed | slip.shortPressed => use click ++ [.timeout]
  case' single.multiPressed | slip.multiPressed => use .toggle 1 :: click ++ .toggle 1 :: late :: click ++ [.timeout]
  case' single.longPressed | slip.longPressed => use [.timeout, late, .timeout, late]
  case' single.combPressed | slip.combPressed => use [.toggle 3, late]
  case' comb.combShortPressed | combAfterClick.combShortPressed => use click
  case' comb.combPressed | combAfterClick.combPressed => use [.toggle 7, late]
  case' comb.combLongPressed | combAfterClick.combLongPressed => use [.timeout, late, .timeout, late]
  case' slipLong.longPressing | slipLongLong.longPressing => use [.toggle 1, .pressingTimeout, late]
  case' long.longPressing | slipLong.combLongPressing | longLong.longPressing | slipLongLong.combLongPressing
      | combLong.combLongPressing | combLongLong.combLongPressing => use [.pressingTimeout, late]
  case' long.longLongPressed | slipLong.longLongPressed | combLong.combLongLongPressed => use [.timeout, late]
  case' single.released | slip.released | comb.combReleased | combAfterClick.combReleased | long.longReleased
      | slipLong.longReleased | longLong.longLongReleased | slipLongLong.longLongReleased | combLong.combLongReleased
      | combLongLong.combLongLongReleased => use [.toggle 0]
  all_goals simp

theorem leads_two {h h₁ h' : Heard} {t t' : ButtonType} (hh : hear h t = some h₁) (hh' : hear h₁ t' = some h')
    (hn : h₁.together t') : Leads h [t, t'] h' := by
  intro tbs sent
  unfold Heard.together at hn
  cases h <;> cases t <;> simp at hh <;> subst hh <;> simp at hn <;> cases t' <;> simp at hh' hn <;> subst hh'
  case' single.combPressed.shortPressed | slip.combPressed.shortPressed => use click ++ [.toggle 3, late]
  case' long.combPressed.longReleased | slipLong.combPressed.longReleased | longLong.combPressed.longLongReleased
      | slipLongLong.combPressed.longLongReleased => use [.toggle 3, late]
  all_goals simp

end

theorem Leads.refl (h : Heard) : Leads h [] h := by
  intro tbs sent
  exact ⟨[], parked h tbs sent, rfl, rfl, by simp [parked]⟩

theorem Leads.trans {h h' h'' : Heard} {ts ts' : List ButtonType} (h₁ : Leads h ts h') (h₂ : Leads h' ts' h'') :
    Leads h (ts ++ ts') h'' := by
  intro tbs sent
  obtain ⟨es, b, hr, hb, hs⟩ := h₁ tbs sent
  obtain ⟨es', b', hr', hb', hs'⟩ := h₂ b.buttonToBeSend b.sent
  refine ⟨es ++ es', b', ?_, hb', ?_⟩
  · rw [run_append hr, hb]
    exact hr'
  · rw [hs', hs, List.append_assoc]

theorem states_of_together {h₀ h : Heard} {t t' : ButtonType} (hh : hear h₀ t = some h) (hw : h.together t') :
    h₀.states ≠ [] := by
  unfold Heard.together at *
  cases h₀ <;> cases t <;> simp at hh <;> subst hh <;> simp at hw ⊢

theorem leads_accepted (ts : List ButtonType) : ∀ h, listener.eval ts = some h →
    (h.states ≠ [] → Leads .up ts h) ∧
      ∀ t h', h.together t → hear h t = some h' → Leads .up (ts ++ [t]) h' := by
  induction ts using List.reverseRecOn with
  | nil =>
    intro h heval
    cases heval
    constructor
    · intro _
      exact Leads.refl _
    · intro t h' hw
      simp [Heard.together] at hw
  | append_singleton ts t ih =>
    intro h heval
    rw [DFA.eval_append_singleton] at heval
    obtain ⟨h₀, heval₀, hh⟩ := Option.bind_eq_some_iff.mp heval
    obtain ⟨hstop, hgo⟩ := ih h₀ heval₀
    constructor
    · intro hs
      by_cases hw : h₀.together t
      · exact hgo t h hw hh
      · exact (hstop (not_or.mp hw).1).trans (leads_one hh hw hs)
    · intro t' h' hw hh'
      have hs₀ := states_of_together hh hw
      rw [List.append_assoc]
      exact (hstop hs₀).trans (leads_two hh hh' hw)

/-! ## The results -/

/-- **The listener always knows where the machine is.**  In every run it makes sense of all messages, and the machine
is in one of the states that it then takes for possible. -/
theorem listener_follows {b : Driver} {es : List ButtonEvent} (hr : run Driver.step {} es = some b) :
    ∃ h, listener.eval (b.sent.map (·.buttonType)) = some h ∧ b.currentState ∈ h.states := by
  obtain ⟨h, hf⟩ := followed_init.run consistent_init hr
  exact ⟨h, hf.told, hf.states⟩

theorem listener_follows_clickThenComb :
    ∃ b, run Driver.step {} clickThenComb = some b ∧
      ∃ h, listener.eval (b.sent.map (·.buttonType)) = some h ∧ b.currentState ∈ h.states := by
  have hr : run Driver.step {} clickThenComb = some _ := rfl
  exact ⟨_, hr, listener_follows hr⟩

/-- **What the listener accepts is what the machine can send.**  The lists of the types of the messages that a run has
sent are the words the automaton accepts, no more and no fewer; timers may expire late. -/
theorem messages_eq_accepts :
    {ts | ∃ es b, run Driver.step {} es = some b ∧ b.sent.map (·.buttonType) = ts} = listener.accepts := by
  ext ts
  constructor
  · rintro ⟨es, b, hr, rfl⟩
    obtain ⟨h, hf⟩ := followed_init.run consistent_init hr
    exact ⟨h, hf.told, List.ne_nil_of_mem hf.states⟩
  · rintro ⟨h, heval, hs⟩
    obtain ⟨es, b, hr, -, hsent⟩ := (leads_accepted ts h heval).1 hs 0 []
    exact ⟨es, b, hr, hsent⟩

end Fr8012haLock.Button
