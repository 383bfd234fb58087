import Fr8012haLock.Button.Listener
import Fr8012haLock.Lib.Console

/-!
# What `user_task` prints (`user_task.c`)

`user_task_func` prints a line for every message of the buttons, with the mask of the buttons and the name that a table
has for the type.  The lines can be read (`readKeys_keyText`), so that somebody who has only the console can follow the
machine as the listener does.  The conversions of `co_printf` are taken to be those of the `printf` of C.
-/

namespace Fr8012haLock.Button

open Console Runs

/-- `button_type_str` -/
def buttonTypeStr : List (List Char) := [
  "BUTTON_PRESSED".toList,
  "BUTTON_RELEASED".toList,
  "BUTTON_SHORT_PRESSED".toList,
  "BUTTON_MULTI_PRESSED".toList,
  "BUTTON_LONG_PRESSED".toList,
  "BUTTON_LONG_PRESSING".toList,
  "BUTTON_LONG_RELEASED".toList,
  "BUTTON_LONG_LONG_PRESSED".toList,
  "BUTTON_LONG_LONG_RELEASED".toList,
  "BUTTON_COMB_PRESSED".toList,
  "BUTTON_COMB_RELEASED".toList,
  "BUTTON_COMB_SHORT_PRESSED".toList,
  "BUTTON_COMB_LONG_PRESSED".toList,
  "BUTTON_COMB_LONG_PRESSING".toList,
  "BUTTON_COMB_LONG_RELEASED".toList,
  "BUTTON_COMB_LONG_LONG_PRESSED".toList,
  "BUTTON_COMB_LONG_LONG_RELEASED".toList]

/-- The types in the order of the enumeration. -/
def buttonTypes : List ButtonType := [.pressed, .released, .shortPressed, .multiPressed, .longPressed, .longPressing,
  .longReleased, .longLongPressed, .longLongReleased, .combPressed, .combReleased, .combShortPressed, .combLongPressed,
  .combLongPressing, .combLongReleased, .combLongLongPressed, .combLongLongReleased]

/-- `button_type_str[button_type]` -/
def nameOf (t : ButtonType) : List Char := buttonTypeStr.getD (buttonTypes.idxOf t) []

/-- `user_task_func`: what it prints for `USER_EVT_BUTTON`. -/
def userTaskFunc (buttonMsg : ButtonMsg) : List Char :=
  "KEY 0x".toList ++ hex 8 buttonMsg.buttonIndex.toNat ++ ", TYPE ".toList ++ nameOf buttonMsg.buttonType ++
    ".\r\n".toList

/-- The type with a name. -/
def typeNamed (name : List Char) : Option ButtonType := buttonTypes[buttonTypeStr.idxOf name]?

/-- The index and the type that a line stands for. -/
def readKey (line : List Char) : Option (UInt32 × ButtonType) :=
  (line.dropPrefix? "KEY 0x".toList).bind fun rest =>
    ((rest.drop 8).dropPrefix? ", TYPE ".toList).bind fun name =>
      (typeNamed (name.takeWhile (· ≠ '.'))).map fun t => (UInt32.ofNat (value 16 (rest.take 8)), t)

/-- The lines of a console. -/
def readKeys (console : List Char) : List (UInt32 × ButtonType) := (console.splitOn '\n').filterMap readKey

/-! ### The table has a name for every type -/

theorem nodup_buttonTypeStr : buttonTypeStr.Nodup := by decide +kernel

theorem mem_buttonTypes (t : ButtonType) : t ∈ buttonTypes := by
  cases t <;> decide

theorem nameOf_eq (t : ButtonType) : ∃ h : buttonTypes.idxOf t < buttonTypeStr.length,
    nameOf t = buttonTypeStr[buttonTypes.idxOf t] := by
  have hlt : buttonTypes.idxOf t < buttonTypeStr.length := List.idxOf_lt_length_of_mem (mem_buttonTypes t)
  refine ⟨hlt, ?_⟩
  rw [nameOf, List.getD_eq_getElem?_getD, List.getElem?_eq_getElem hlt, Option.getD_some]

theorem typeNamed_nameOf (t : ButtonType) : typeNamed (nameOf t) = some t := by
  obtain ⟨hlt, hname⟩ := nameOf_eq t
  have hlt' : buttonTypes.idxOf t < buttonTypes.length := hlt
  rw [typeNamed, hname, nodup_buttonTypeStr.idxOf_getElem _ hlt, List.getElem?_eq_getElem hlt', List.getElem_idxOf]

theorem notMem_nameOf (t : ButtonType) : '.' ∉ nameOf t ∧ '\n' ∉ nameOf t := by
  have hall : ∀ name ∈ buttonTypeStr, '.' ∉ name ∧ '\n' ∉ name := by decide +kernel
  obtain ⟨hlt, hname⟩ := nameOf_eq t
  exact hall _ (hname ▸ List.getElem_mem hlt)

/-! ### The lines can be read -/

theorem readKey_line (m : ButtonMsg) :
    readKey ("KEY 0x".toList ++ (hex 8 m.buttonIndex.toNat ++ (", TYPE ".toList ++ (nameOf m.buttonType ++ ['.', '\r'])))) =
      some (m.buttonIndex, m.buttonType) := by
  have hlen : (hex 8 m.buttonIndex.toNat).length = 8 := length_numeral (by omega) m.buttonIndex.toNat_lt
  have hvalue : UInt32.ofNat (value 16 (hex 8 m.buttonIndex.toNat)) = m.buttonIndex := by
    rw [value_numeral (by omega) (Nat.le_refl 16), UInt32.ofNat_toNat]
  have hname : (nameOf m.buttonType ++ ['.', '\r']).takeWhile (· ≠ '.') = nameOf m.buttonType := by
    rw [List.takeWhile_append_of_pos]
    · exact List.append_nil _
    · intro c hc
      apply decide_eq_true
      rintro rfl
      exact (notMem_nameOf m.buttonType).1 hc
  rw [readKey, List.dropPrefix?_append_of_beq _ (beq_self_eq_true _), Option.bind_some, List.drop_left' hlen,
    List.take_left' hlen, List.dropPrefix?_append_of_beq _ (beq_self_eq_true _), Option.bind_some, hname,
    typeNamed_nameOf, Option.map_some, hvalue]

theorem userTaskFunc_eq (m : ButtonMsg) : ∃ line, userTaskFunc m = line ++ ['\n'] ∧ '\n' ∉ line ∧
    readKey line = some (m.buttonIndex, m.buttonType) := by
  have hnumeral : '\n' ∉ hex 8 m.buttonIndex.toNat := by
    intro h
    have hdigit : '\n' ∈ digitChars := mem_numeral h
    simp [digitChars] at hdigit
  refine ⟨_, ?_, ?_, readKey_line m⟩
  · show _ ++ ".\r\n".toList = _
    simp only [String.reduceToList, List.append_assoc, List.cons_append, List.nil_append]
  · simp only [String.reduceToList]
    simp [hnumeral, (notMem_nameOf m.buttonType).2]

/-- **The console can be read**: it shows the masks and the types of the messages. -/
theorem readKeys_keyText (ms : List ButtonMsg) :
    readKeys (ms.flatMap userTaskFunc) = ms.map fun m => (m.buttonIndex, m.buttonType) := by
  obtain ⟨line, hline⟩ := Classical.skolem.mp userTaskFunc_eq
  have htext : ms.flatMap userTaskFunc = (ms.map line).flatMap (· ++ ['\n']) := by
    rw [List.flatMap_map]
    apply List.flatMap_congr
    intro m _
    exact (hline m).1
  have hmarks : ∀ text ∈ ms.map line, '\n' ∉ text := by
    intro text htext
    obtain ⟨m, -, rfl⟩ := List.mem_map.mp htext
    exact (hline m).2.1
  have hempty : readKey [] = none := by decide
  have hread : (readKey ∘ line) = fun m => some (m.buttonIndex, m.buttonType) := by
    funext m
    exact (hline m).2.2
  rw [readKeys, htext, splitOn_ended hmarks, List.filterMap_append, List.filterMap_map, hread,
    List.filterMap_cons_none hempty, List.filterMap_nil, List.append_nil, List.filterMap_eq_map']

/-- What makes sense in the end made sense all along. -/
theorem told_of_append {ms ms' : List ButtonMsg} {h : Heard} (ht : told (ms ++ ms') = some h) :
    ∃ h', told ms = some h' := by
  induction ms' using List.reverseRecOn generalizing h with
  | nil => exact ⟨h, by rwa [List.append_nil] at ht⟩
  | append_singleton ms' m ih =>
    rw [← List.append_assoc, told_one] at ht
    obtain ⟨h', hh', -⟩ := Option.bind_eq_some_iff.mp ht
    exact ih hh'

/-- **Who reads the console follows the machine.**  In every run of the driver, once `user_task` has handled the first
`n` messages, their masks and types can be read from what it has printed, and the listener makes sense of the types; and
once it has handled all of them the machine is in one of the states that the listener then takes for possible. -/
theorem console_followed {b : Driver} {es : List ButtonEvent} (hr : run Driver.step {} es = some b) (n : ℕ) :
    let keys := readKeys ((b.sent.take n).flatMap userTaskFunc)
    keys = (b.sent.take n).map (fun m => (m.buttonIndex, m.buttonType)) ∧
      ∃ h, listener.eval (keys.map Prod.snd) = some h ∧ (b.sent.length ≤ n → b.currentState ∈ h.states) := by
  intro keys
  have hkeys : keys = _ := readKeys_keyText (b.sent.take n)
  refine ⟨hkeys, ?_⟩
  obtain ⟨h, hf⟩ := followed_init.run consistent_init hr
  have htypes : keys.map Prod.snd = (b.sent.take n).map (·.buttonType) := by
    rw [hkeys, List.map_map]
    rfl
  rw [htypes]
  have hsplit : b.sent.take n ++ b.sent.drop n = b.sent := List.take_append_drop n b.sent
  obtain ⟨h', hh'⟩ := told_of_append (hsplit ▸ hf.told)
  refine ⟨h', hh', ?_⟩
  intro hn
  rw [List.take_of_length_le hn] at hh'
  obtain rfl : h' = h := Option.some.inj (hh'.symm.trans hf.told)
  exact hf.states

theorem console_followed_clickThenComb :
    ∃ b, run Driver.step {} clickThenComb = some b ∧
      let keys := readKeys ((b.sent.take 2).flatMap userTaskFunc)
      keys = (b.sent.take 2).map (fun m => (m.buttonIndex, m.buttonType)) ∧
        ∃ h, listener.eval (keys.map Prod.snd) = some h ∧ (b.sent.length ≤ 2 → b.currentState ∈ h.states) := by
  have hr : run Driver.step {} clickThenComb = some _ := rfl
  exact ⟨_, hr, console_followed hr 2⟩

end Fr8012haLock.Button
