import Fr8012haLock.Common.Print
import Fr8012haLock.Uart.OnRing

/-!
# What the UART parser prints

`uart_protocol_execute` prints its command, and the parser prints the heads and checksums that it rejects.  `Message` are
the calls of `APP_COMM_PRINTF` by which it does so, and those of the ring.  The console can be read
(`readCalls_consoleText`): whatever else is on it, it shows the commands that were executed, with their payloads.
-/

namespace Fr8012haLock.Uart

open Cyclic Console Buffer Common Receive Runs

/-! ### The messages -/

/-- A message, with what is printed in it. -/
inductive Message where
  /-- `uart_protocol_init` -/
  | uartPrintTest
  /-- `uart_protocol_check_head` -/
  | headError (head : UartProHead)
  /-- `uart_protocol_process` -/
  | checksumError (recvChecksum calChecksum : UInt8)
  /-- `uart_protocol_execute` -/
  | executed (call : Call)
  /-- `ring_buffer_write` -/
  | writeSizeError (freeSize writeSize : UInt32)
  /-- `ring_buffer_read` -/
  | readSizeError (validSize readSize : UInt32)
  deriving DecidableEq, Repr

/-- The `LOG_TAG` of `uart_protocol.c`. -/
def uartLogTag : List Char := "uart_pro".toList

/-- The `LOG_TAG` of `ring_buffer.c`. -/
def ringLogTag : List Char := "ring_buff".toList

/-- What is printed for a message. -/
def Message.text : Message → List Char
  | .uartPrintTest => appCommPrintf uartLogTag "uart print test!\r\n".toList
  | .headError head =>
    appCommPrintf uartLogTag ("head error: ".toList ++ hex 2 head.start.toNat ++ ' ' :: hex 2 head.version.toNat ++
      ' ' :: hex 2 head.payloadSize.toNat ++ "\r\n".toList)
  | .checksumError recvChecksum calChecksum =>
    appCommPrintf uartLogTag ("checksum error: ".toList ++ hex 2 recvChecksum.toNat ++ " != ".toList ++
      hex 2 calChecksum.toNat ++ "\r\n".toList)
  | .executed (cmd, payload) =>
    appCommPrintf uartLogTag ("cmd: ".toList ++ hex 2 cmd.toNat ++ "\r\n".toList) ++ appCommPrintBuff payload
  | .writeSizeError freeSize writeSize =>
    appCommPrintf ringLogTag ("size error! free ".toList ++ decimal freeSize.toNat ++ " < write ".toList ++
      decimal writeSize.toNat ++ "\r\n".toList)
  | .readSizeError validSize readSize =>
    appCommPrintf ringLogTag ("size error! valid ".toList ++ decimal validSize.toNat ++ " < read ".toList ++
      decimal readSize.toNat ++ "\r\n".toList)

/-- The messages of `ring_buffer_write`. -/
def ringBufferWriteMessages (rb : RingBuffer) (writeSize : UInt32) : List Message :=
  if ringBufferFreeSize rb < writeSize then [.writeSizeError (ringBufferFreeSize rb) writeSize] else []

/-- The messages of `ring_buffer_read`. -/
def ringBufferReadMessages (rb : RingBuffer) (readSize : UInt32) : List Message :=
  if ringBufferValidSize rb < readSize then [.readSizeError (ringBufferValidSize rb) readSize] else []

/-- The messages of `uart_protocol_check_head`. -/
def checkHeadMessages (head : UartProHead) : List Message :=
  if uartProtocolCheckHead head then [] else [.headError head]

/-- The message behind the read of payload and checksum into `recv_data`. -/
def checksumMessage (head : UartProHead) (recvData : List UInt8) : Message :=
  let size := head.payloadSize.toNat
  let recvChecksum := recvData.getD (uartHeadSize.toNat + size) 0
  let calChecksum := appCommChecksum recvData (uartHeadSize.toNat + size)
  if calChecksum = recvChecksum then .executed (head.cmd, (recvData.drop uartHeadSize.toNat).take size)
  else .checksumError recvChecksum calChecksum

/-- The messages of a ring operation of `uart_protocol_process`, and of what follows it up to the next one. -/
def advanceMessages (m : Micro RingBuffer UartProHead) : List Message :=
  let s := m.state
  match m.place with
  | .headRead recvData =>
    ringBufferReadMessages s.ring uartHeadSize ++
      checkHeadMessages (UartProHead.ofBytes (ringBufferRead s.ring recvData 0 uartHeadSize 0).2)
  | .bodyRead =>
    let head := s.statics.head
    let recvData := memcpy uartProtocol.recvData 0 head.toBytes
    ringBufferReadMessages s.ring (head.payloadSize + 1) ++
      [checksumMessage head (ringBufferRead s.ring recvData uartHeadSize.toNat (head.payloadSize + 1) 1).2]
  | _ => []

/-- The messages of `uart1_isr_ram`, which writes the bytes one by one. -/
def isrMessages : RingBuffer → List UInt8 → List Message
  | _, [] => []
  | rb, b :: bytes => ringBufferWriteMessages rb 1 ++ isrMessages (ringWrite rb [b]) bytes

/-- The messages of an event. -/
def eventMessages (m : Micro RingBuffer UartProHead) : UartEvent → List Message
  | .interrupt intId fifo => isrMessages m.state.ring (UartEvent.interrupt intId fifo).bytes
  | .advance => advanceMessages m

/-- The parser, with the messages so far. -/
structure Logged where
  parser : Micro RingBuffer UartProHead
  log : List Message

/-- One event. -/
def Logged.step (l : Logged) (e : UartEvent) : Option Logged :=
  (uartRingStep l.parser e).map fun m => ⟨m, l.log ++ eventMessages l.parser e⟩

/-- `uart_protocol_init`, with its message. -/
def loggedInit (mem : Vector UInt8 uartBufferSize.toNat) : Logged := ⟨uartProtocolInit mem, [.uartPrintTest]⟩

/-- What is on the console. -/
def consoleText (log : List Message) : List Char := log.flatMap Message.text

/-! ### Reading the console -/

/-- What a message of `uart_protocol_execute` begins with, behind the bracket. -/
def cmdMark : List Char := "uart_pro] cmd: ".toList

/-- The command that a text stands for, which is what is between two brackets. -/
def readCall (text : List Char) : Option Call :=
  match (text.dropPrefix? cmdMark).map fun rest => readBytes (digitsOf rest) with
  | some (cmd :: payload) => some (cmd, payload)
  | _ => none

/-- The commands on a console. -/
def readCalls (console : List Char) : List Call := (console.splitOn '[').filterMap readCall

/-- The command that was executed with a message. -/
def Message.call : Message → Option Call
  | .executed call => some call
  | _ => none

theorem cmdMark_eq : cmdMark = ['u', 'a', 'r', 't', '_', 'p', 'r', 'o', ']', ' ', 'c', 'm', 'd', ':', ' '] := by
  delta cmdMark
  simp only [String.reduceToList]

theorem uartLogTag_eq : uartLogTag = ['u', 'a', 'r', 't', '_', 'p', 'r', 'o'] := by
  delta uartLogTag
  simp only [String.reduceToList]

theorem ringLogTag_eq : ringLogTag = ['r', 'i', 'n', 'g', '_', 'b', 'u', 'f', 'f'] := by
  delta ringLogTag
  simp only [String.reduceToList]

theorem readCall_eq_none {text : List Char} (h : text.dropPrefix? cmdMark = none) : readCall text = none := by
  rw [readCall, h]
  rfl

theorem readCall_executed (cmd : UInt8) (payload : List UInt8) :
    readCall (cmdMark ++ (hex 2 cmd.toNat ++ "\r\n".toList ++ appCommPrintBuff payload)) = some (cmd, payload) := by
  have hend : digitsOf "\r\n".toList = [] := by decide
  have hread : readBytes (digitsOf (hex 2 cmd.toNat ++ "\r\n".toList ++ appCommPrintBuff payload)) = cmd :: payload := by
    rw [digitsOf_append, digitsOf_append, digitsOf_numeral, hend, List.append_nil, readBytes_hex_append,
      readBytes_printBuff]
  rw [readCall, List.dropPrefix?_append_of_beq _ (beq_self_eq_true cmdMark), Option.map_some, hread]

/-- The message is one of the ring. -/
def Message.ofRing : Message → Bool
  | .writeSizeError .. => true
  | .readSizeError .. => true
  | _ => false

/-- **The only bracket in a message is its first character**, and what is behind it can be read. -/
theorem Message.text_eq (msg : Message) : ∃ body, msg.text = '[' :: body ∧ '[' ∉ body ∧ readCall body = msg.call := by
  cases msg
  case executed call =>
    obtain ⟨cmd, payload⟩ := call
    refine ⟨cmdMark ++ (hex 2 cmd.toNat ++ "\r\n".toList ++ appCommPrintBuff payload), ?_, ?_,
      readCall_executed cmd payload⟩
    · show appCommPrintf uartLogTag _ ++ _ = _
      simp only [appCommPrintf, uartLogTag_eq, cmdMark_eq, String.reduceToList, List.cons_append, List.nil_append,
        List.append_assoc]
    · simp only [cmdMark_eq, String.reduceToList]
      simp [bracket_notMem_numeral, bracket_notMem_printBuff]
  all_goals
    refine ⟨_, rfl, ?_, readCall_eq_none ?_⟩
    · simp only [uartLogTag_eq, ringLogTag_eq, String.reduceToList]
      simp [bracket_notMem_numeral]
    · simp only [uartLogTag_eq, ringLogTag_eq, cmdMark_eq, String.reduceToList, List.cons_append, List.nil_append]
      rfl

/-- **The console can be read**: it shows the commands that were executed. -/
theorem readCalls_consoleText (log : List Message) : readCalls (consoleText log) = log.filterMap Message.call := by
  obtain ⟨body, hbody⟩ := Classical.skolem.mp Message.text_eq
  have htext : consoleText log = [] ++ (log.map body).flatMap ('[' :: ·) := by
    rw [consoleText, List.nil_append, List.flatMap_map]
    apply List.flatMap_congr
    intro msg _
    exact (hbody msg).1
  have hmarks : ∀ text ∈ log.map body, '[' ∉ text := by
    intro text htext
    obtain ⟨msg, -, rfl⟩ := List.mem_map.mp htext
    exact (hbody msg).2.1
  have hempty : readCall [] = none := readCall_eq_none (by rw [cmdMark_eq]; rfl)
  rw [readCalls, htext, splitOn_marked hmarks List.not_mem_nil, List.filterMap_cons_none hempty, List.filterMap_map]
  apply List.filterMap_congr
  intro msg _
  exact (hbody msg).2.2

/-! ### What a step prints -/

section Step

variable {rb : RingBuffer} {m m' : Micro RingBuffer UartProHead}

theorem calls_writeMessages (rb : RingBuffer) (writeSize : UInt32) :
    (ringBufferWriteMessages rb writeSize).filterMap Message.call = [] := by
  unfold ringBufferWriteMessages
  split <;> rfl

theorem calls_readMessages (rb : RingBuffer) (readSize : UInt32) :
    (ringBufferReadMessages rb readSize).filterMap Message.call = [] := by
  unfold ringBufferReadMessages
  split <;> rfl

theorem calls_checkHeadMessages (head : UartProHead) : (checkHeadMessages head).filterMap Message.call = [] := by
  unfold checkHeadMessages
  split <;> rfl

theorem calls_isrMessages (rb : RingBuffer) (bytes : List UInt8) :
    (isrMessages rb bytes).filterMap Message.call = [] := by
  induction bytes generalizing rb with
  | nil => rfl
  | cons b bytes ih => rw [isrMessages, List.filterMap_append, calls_writeMessages, ih, List.append_nil]

theorem call_checksumMessage (rb : RingBuffer) (s : Statics UartProHead) :
    (checksumMessage s.head (ringBufferRead rb (memcpy uartProtocol.recvData 0 s.head.toBytes) uartHeadSize.toNat
      (s.head.payloadSize + 1) 1).2).call = (takeBody uartProtocol rb s).2.2 := by
  simp only [checksumMessage, takeBody]
  split
  · rename_i heq
    exact (if_pos heq).symm
  · rename_i hne
    exact (if_neg hne).symm

/-- **What is handed on is printed**, and nothing else is printed as a command. -/
theorem calls_eventMessages {e : UartEvent} (h : uartRingStep m e = some m') :
    m'.state.calls = m.state.calls ++ (eventMessages m e).filterMap Message.call := by
  cases e with
  | interrupt intId fifo =>
    cases h
    rw [eventMessages, calls_isrMessages, List.append_nil]
    rfl
  | advance =>
    cases h
    obtain ⟨⟨rb, s, calls⟩, place⟩ := m
    cases place with
    | headRead d =>
      rw [eventMessages, advanceMessages, List.filterMap_append, calls_readMessages, calls_checkHeadMessages,
        List.append_nil, List.append_nil]
      rfl
    | bodyRead =>
      rw [eventMessages, advanceMessages, List.filterMap_append, calls_readMessages, List.nil_append]
      show calls ++ (takeBody uartProtocol rb s).2.2.toList = calls ++ List.filterMap Message.call [_]
      rw [← call_checksumMessage rb s]
      generalize checksumMessage s.head _ = msg
      cases msg <;> rfl
    | idle | headCheck d | bodyCheck =>
      simp only [eventMessages, advanceMessages, Receive.advance, List.filterMap_nil, List.append_nil]
      split_ifs <;> rfl
    | skipByte d | skipHead d => exact (List.append_nil calls).symm

/-! ### The ring prints nothing -/

theorem isrMessages_eq_nil {bytes : List UInt8} (hw : rb.Wf) (h : bytes.length < rb.free) :
    isrMessages rb bytes = [] := by
  induction bytes generalizing rb with
  | nil => rfl
  | cons b bytes ih =>
    rw [List.length_cons] at h
    have hone : (1 : UInt32).toNat = 1 := rfl
    have hle : (1 : UInt32).toNat ≤ [b].length := Nat.le_refl 1
    have hfree : ¬ ringBufferFreeSize rb < 1 := by
      rw [UInt32.lt_iff_toNat_lt]
      show ¬ rb.free < 1
      omega
    have hw' : (ringWrite rb [b]).Wf := hw.write hle
    have hvalid : (ringWrite rb [b]).valid = rb.valid + 1 := by
      have := hw.valid_write hle (show 1 ≤ rb.free by omega)
      rwa [if_neg (by omega)] at this
    have hsize : (ringWrite rb [b]).size = rb.size := size_write ..
    rw [isrMessages, ringBufferWriteMessages, if_neg hfree, List.nil_append]
    refine ih hw' ?_
    rw [hw'.free_eq, hvalid, hsize]
    rw [hw.free_eq] at h
    omega

theorem readMessages_eq_nil {readSize : UInt32} (h : readSize.toNat ≤ rb.valid) :
    ringBufferReadMessages rb readSize = [] := by
  have hvalid : ¬ ringBufferValidSize rb < readSize := by
    rw [ringBufferValidSize_lt]
    omega
  exact if_neg hvalid

theorem ofRing_advanceMessages {n : Micro (ByteQueue uartBufferSize) UartProHead} (h : Mirrors m n)
    {ts : List Interleaving} (ht : Tends uartProtocol uartFraming ts n) :
    ∀ msg ∈ advanceMessages m, msg.ofRing = false := by
  obtain ⟨⟨rb, s, calls⟩, place⟩ := m
  obtain ⟨rc, htr, hp, -⟩ := ht
  rw [← h.place] at hp
  rw [← h.statics] at htr
  have hvalid : rb.valid = rc.queue.length := h.ring.valid.trans (congrArg List.length htr.queue)
  cases place with
  | headRead d =>
    obtain ⟨-, -, henough⟩ := hp
    have hsize : uartHeadSize.toNat = uartFraming.headSize := rfl
    have hread : ringBufferReadMessages rb uartHeadSize = [] := readMessages_eq_nil (by omega)
    simp only [advanceMessages, hread, List.nil_append, checkHeadMessages]
    split <;> simp [Message.ofRing]
  | bodyRead =>
    obtain ⟨hd, hh, henough⟩ := hp
    rcases htr.step with ⟨-, hn⟩ | ⟨hd', -, hh', hl, hi, hsh⟩
    · rw [hn] at hh
      cases hh
    · obtain rfl : hd' = hd := Option.some.inj (hh'.symm.trans hh)
      have hsize := uart_implements.toNat_bodySize hl hi
      rw [← hsh] at hsize
      have hread : ringBufferReadMessages rb (s.head.payloadSize + 1) = [] :=
        readMessages_eq_nil (hvalid ▸ hsize.trans_le henough)
      simp only [advanceMessages, hread, List.nil_append]
      intro msg hmsg
      rw [List.mem_singleton.mp hmsg, checksumMessage]
      split <;> rfl
  | idle | headCheck d | skipByte d | skipHead d | bodyCheck =>
    intro msg hmsg
    cases hmsg

end Step

/-- After the events `past` the parser goes with one on the queue, the ring has printed nothing, and the commands printed
are those executed. -/
structure Shows (past : List UartEvent) (l : Logged) : Prop where
  queue : ∃ n : Micro (ByteQueue uartBufferSize) UartProHead, Mirrors l.parser n ∧
    Tends uartProtocol uartFraming (past.flatMap UartEvent.interleavings) n
  ring : ∀ msg ∈ l.log, msg.ofRing = false
  calls : l.parser.state.calls = l.log.filterMap Message.call

theorem shows_init (mem : Vector UInt8 uartBufferSize.toNat) : Shows [] (loggedInit mem) where
  queue := ⟨uartQueueInit, mirrors_init mem, tends_init⟩
  ring := by simp [loggedInit, Message.ofRing]
  calls := rfl

theorem Shows.step {past : List UartEvent} {l : Logged} (h : Shows past l) {e : UartEvent} (hok : UartSafe l.parser e) :
    ∃ l', l.step e = some l' ∧ Shows (past ++ [e]) l' := by
  obtain ⟨⟨n, hm, ht⟩, hring, hcalls⟩ := h
  obtain ⟨m', n', hs, -, hm', ht'⟩ := mirrors_step hm ht hok
  refine ⟨⟨m', l.log ++ eventMessages l.parser e⟩, ?_, ⟨n', hm', ?_⟩, ?_, ?_⟩
  · rw [Logged.step, hs, Option.map_some]
  · rwa [List.flatMap_append, List.flatMap_singleton]
  · rintro msg hmsg
    rcases List.mem_append.mp hmsg with hmsg | hmsg
    · exact hring msg hmsg
    · cases e with
      | interrupt intId fifo =>
        rw [eventMessages, isrMessages_eq_nil hm.ring.wf hok] at hmsg
        cases hmsg
      | advance => exact ofRing_advanceMessages hm ht msg hmsg
  · rw [calls_eventMessages hs, hcalls, List.filterMap_append]

/-- **From the console the commands can be read off.**  Let interrupts come between any ring operations of the calls,
each with fewer bytes than are free, and let no head be skipped that is all that is unread while `write_idx` is 512.
Then the ring prints nothing; and the commands that can be read from what the parser prints are those it executed: a
prefix of the reference decoding of the bytes taken from the device, and all of it when the parser waits for more. -/
theorem uart_console (mem : Vector UInt8 uartBufferSize.toNat) (es : List UartEvent)
    (ha : Admits Logged.step (fun l e => UartSafe l.parser e) (loggedInit mem) es) :
    ∃ l, run Logged.step (loggedInit mem) es = some l ∧ (∀ msg ∈ l.log, msg.ofRing = false) ∧
      readCalls (consoleText l.log) = l.parser.state.calls ∧
      readCalls (consoleText l.log) <+: uartFraming.decode (taken es) ∧
      (Waits uartProtocol l.parser.state → readCalls (consoleText l.log) = uartFraming.decode (taken es)) := by
  have hstep : ∀ (past : List UartEvent) (l : Logged) (e : UartEvent), Shows past l → UartSafe l.parser e →
      ∃ l', l.step e = some l' ∧ Shows (past ++ [e]) l' := by
    intro past l e h hok
    exact h.step hok
  obtain ⟨l, hr, ⟨n, hm, ht⟩, hring, hcalls⟩ := run_keeps hstep [] (shows_init mem) ha
  have hprefix := hm.calls_prefix uart_implements ht
  rw [List.nil_append, received_interleavings, hcalls] at hprefix
  have hread := readCalls_consoleText l.log
  refine ⟨l, hr, hring, hread.trans hcalls.symm, ?_⟩
  rwa [hread]

/-- A byte that begins no head, a frame in two interrupts, and a frame with a wrong checksum. -/
def threeInterrupts : List UartEvent :=
  .interrupt 0x04 [7, 0x55, 1, 1, 0, 0, 0, 9] :: List.replicate 6 .advance ++
    .interrupt 0x0c [7, 0x67, 0x55, 1, 0, 0, 0, 0, 2, 0] :: List.replicate 12 .advance

theorem uart_console_three :
    ∃ l, run Logged.step (loggedInit (Vector.replicate 512 0)) threeInterrupts = some l ∧
      (∀ msg ∈ l.log, msg.ofRing = false) ∧ readCalls (consoleText l.log) = l.parser.state.calls ∧
      readCalls (consoleText l.log) <+: uartFraming.decode (taken threeInterrupts) ∧
      (Waits uartProtocol l.parser.state → readCalls (consoleText l.log) = uartFraming.decode (taken threeInterrupts)) :=
  uart_console (Vector.replicate 512 0) threeInterrupts (by decide +kernel)

end Fr8012haLock.Uart
