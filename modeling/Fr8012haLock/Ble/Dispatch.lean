import Fr8012haLock.Ble.Service

/-!
# The command functions (`ble_protocol_cmd_func`)

A command that the parser hands on is looked up in a table, and the function found there is called with its payload.
The functions are empty; which of them are called, and with what, is what a run leaves behind (`CmdFun.called`).
-/

namespace Fr8012haLock.Ble

open Receive

/-- The functions `ble_pro_..._fun` of the table. -/
inductive CmdFun where
  | verifyKey
  | errorPrompt
  | openingInstruction
  | lockInformation
  | modifyDeviceKey
  | lowBatUnlock
  | bleConfiguration
  deriving DecidableEq, Repr

/-- `ble_cmd_fun_tab` -/
def bleCmdFunTab : List (UInt8 × CmdFun) :=
  [(0x01, .verifyKey),
   (0x10, .errorPrompt),
   (0x05, .openingInstruction),
   (0x31, .lockInformation),
   (0x33, .modifyDeviceKey),
   (0x35, .lowBatUnlock),
   (0x13, .bleConfiguration)]

/-- The loop over the table: the function of the first entry with the command. -/
def findCmdFun (cmd : UInt8) : List (UInt8 × CmdFun) → Option CmdFun
  | [] => none
  | entry :: tab => if entry.1 = cmd then some entry.2 else findCmdFun cmd tab

/-- `ble_protocol_cmd_func`: the function that is called, and its payload; `none` for a command that is not in the
table, which is only reported on the console. -/
def bleProtocolCmdFunc (c : Call) : Option (CmdFun × List UInt8) :=
  (findCmdFun c.1 bleCmdFunTab).map fun f => (f, c.2)

/-- The functions called for the commands handed on, in order, with their payloads. -/
def CmdFun.called (calls : List Call) : List (CmdFun × List UInt8) := calls.filterMap bleProtocolCmdFunc

/-- The command that a function is for. -/
def CmdFun.cmd : CmdFun → UInt8
  | .verifyKey => 0x01
  | .errorPrompt => 0x10
  | .openingInstruction => 0x05
  | .lockInformation => 0x31
  | .modifyDeviceKey => 0x33
  | .lowBatUnlock => 0x35
  | .bleConfiguration => 0x13

theorem findCmdFun_cmd {cmd : UInt8} {f : CmdFun} {tab : List (UInt8 × CmdFun)} (ht : ∀ e ∈ tab, e.1 = e.2.cmd)
    (h : findCmdFun cmd tab = some f) : f.cmd = cmd := by
  induction tab with
  | nil => cases h
  | cons e tab ih =>
    rw [findCmdFun] at h
    split at h
    · rename_i he
      cases h
      rw [← ht e List.mem_cons_self, he]
    · exact ih (fun e' he' => ht e' (List.mem_cons_of_mem e he')) h

theorem bleProtocolCmdFunc_eq_some {c : Call} {f : CmdFun} {payload : List UInt8} :
    bleProtocolCmdFunc c = some (f, payload) ↔ c = (f.cmd, payload) := by
  constructor
  · intro h
    obtain ⟨f', hf, heq⟩ := Option.map_eq_some_iff.mp h
    cases heq
    rw [findCmdFun_cmd (by decide) hf]
  · rintro rfl
    cases f <;> rfl

theorem CmdFun.called_prefix {calls calls' : List Call} (h : calls <+: calls') :
    CmdFun.called calls <+: CmdFun.called calls' := h.filterMap _

end Fr8012haLock.Ble
