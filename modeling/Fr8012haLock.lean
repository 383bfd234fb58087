import Fr8012haLock.Lib.Cyclic
import Fr8012haLock.Lib.Runs
import Fr8012haLock.Lib.Framing
import Fr8012haLock.Lib.Backlog
import Fr8012haLock.Lib.FrameStreams
import Fr8012haLock.Lib.Noise
import Fr8012haLock.Lib.LittleEndian
import Fr8012haLock.Lib.Crc
import Fr8012haLock.Lib.CrcPolynomial
import Fr8012haLock.Lib.LinkedList
import Fr8012haLock.Lib.Stores
import Fr8012haLock.Lib.Loops
import Fr8012haLock.Lib.Console
import Fr8012haLock.Buffer.Defs
import Fr8012haLock.Buffer.Spec
import Fr8012haLock.Buffer.Queue
import Fr8012haLock.Buffer.Occupancy
import Fr8012haLock.Buffer.Accesses
import Fr8012haLock.Buffer.Lawful
import Fr8012haLock.Common.AppCommon
import Fr8012haLock.Common.Crc8
import Fr8012haLock.Common.Crc8Polynomial
import Fr8012haLock.Common.Time
import Fr8012haLock.Common.Print
import Fr8012haLock.Receive.Defs
import Fr8012haLock.Receive.Spec
import Fr8012haLock.Receive.Runs
import Fr8012haLock.Receive.Alike
import Fr8012haLock.Receive.Interrupt
import Fr8012haLock.Receive.Bounds
import Fr8012haLock.Receive.OnRing
import Fr8012haLock.Receive.Backlog
import Fr8012haLock.Receive.Search
import Fr8012haLock.Ble.Defs
import Fr8012haLock.Ble.Frames
import Fr8012haLock.Ble.Reception
import Fr8012haLock.Ble.RoundTrip
import Fr8012haLock.Ble.Resync
import Fr8012haLock.Ble.Corruption
import Fr8012haLock.Ble.Service
import Fr8012haLock.Ble.Sessions
import Fr8012haLock.Ble.Response
import Fr8012haLock.Ble.Advertising
import Fr8012haLock.Ble.Link
import Fr8012haLock.Ble.Visible
import Fr8012haLock.Ble.Answers
import Fr8012haLock.Ble.Capacity
import Fr8012haLock.Ble.Dispatch
import Fr8012haLock.Ble.Bounds
import Fr8012haLock.Uart.Defs
import Fr8012haLock.Uart.Reception
import Fr8012haLock.Uart.Bounds
import Fr8012haLock.Uart.OnRing
import Fr8012haLock.Uart.Console
import Fr8012haLock.Parsers
import Fr8012haLock.Tasks.Defs
import Fr8012haLock.Tasks.Lists
import Fr8012haLock.Tasks.Pass
import Fr8012haLock.Tasks.Periodic
import Fr8012haLock.Tasks.Clock
import Fr8012haLock.App.Defs
import Fr8012haLock.App.Passes
import Fr8012haLock.App.Composition
import Fr8012haLock.App.Commands
import Fr8012haLock.App.Timing
import Fr8012haLock.App.CatchUp
import Fr8012haLock.App.Memory
import Fr8012haLock.Button.Defs
import Fr8012haLock.Button.Machine
import Fr8012haLock.Button.Listener
import Fr8012haLock.Button.Console
import Fr8012haLock.Button.Timing
import Fr8012haLock.Button.Keys
