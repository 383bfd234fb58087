import Mathlib.Data.UInt
import Fr8012haLock.Lib.Cyclic

/-!
# The ring buffer (`ring_buffer.c`)

Indices and sizes are `uint32_t` and wrap as in C.  A `memcpy` into the storage is `Cyclic.memcpy`; the pointer
`read_data` is a buffer together with an offset into it.  The console messages of the two size errors are left
out, the early returns they come with are not.

`write_idx` and `read_idx` are not reduced on a write or a consuming read, so they may rest at `size`; only
`ring_buffer_update_read_idx` reduces modulo `size`.

`ByteRing` is the interface under which the two protocol parsers use a ring.
-/

namespace Fr8012haLock.Buffer

open Cyclic

/-- `ring_buffer_t`; `buffer` is the storage the pointer refers to. -/
structure RingBuffer where
  size : UInt32
  writeIdx : UInt32
  readIdx : UInt32
  buffer : List UInt8
  deriving DecidableEq, Repr

/-- `ring_buffer_init`.  `mem` is the block `os_malloc` returns, whose contents are not defined. -/
def ringBufferInit (size : UInt32) (mem : Vector UInt8 size.toNat) : RingBuffer where
  size := size
  writeIdx := 0
  readIdx := 0
  buffer := mem.toList

/-- `ring_buffer_valid_size` -/
def ringBufferValidSize (rb : RingBuffer) : UInt32 :=
  if rb.writeIdx ≥ rb.readIdx then rb.writeIdx - rb.readIdx else rb.size + rb.writeIdx - rb.readIdx

/-- `ring_buffer_free_size` -/
def ringBufferFreeSize (rb : RingBuffer) : UInt32 := rb.size - ringBufferValidSize rb

/-- The sizes `size_first` and `size_left` of the two copies a write or a read of `n` bytes is made of, with
`end_left` bytes before the end of the storage. -/
def splitAtEnd (endLeft n : UInt32) : UInt32 × UInt32 := if endLeft ≥ n then (n, 0) else (endLeft, n - endLeft)

/-- `ring_buffer_write` -/
def ringBufferWrite (rb : RingBuffer) (writeData : List UInt8) (writeSize : UInt32) : RingBuffer :=
  let freeSize := ringBufferFreeSize rb
  let endLeft := rb.size - rb.writeIdx
  if freeSize < writeSize then rb
  else
    let (sizeFirst, sizeLeft) := splitAtEnd endLeft writeSize
    let rb :=
      if sizeFirst ≠ 0 then
        { rb with
          buffer := memcpy rb.buffer rb.writeIdx.toNat (writeData.take sizeFirst.toNat)
          writeIdx := rb.writeIdx + sizeFirst }
      else rb
    if sizeLeft ≠ 0 then
      { rb with
        buffer := memcpy rb.buffer 0 ((writeData.drop sizeFirst.toNat).take sizeLeft.toNat)
        writeIdx := sizeLeft }
    else rb

/-- `ring_buffer_read`, with `readData` from the index `off` on as the pointer `read_data`. -/
def ringBufferRead (rb : RingBuffer) (readData : List UInt8) (off : ℕ) (readSize : UInt32) (updateIdx : UInt8) :
    RingBuffer × List UInt8 :=
  let validSize := ringBufferValidSize rb
  let endLeft := rb.size - rb.readIdx
  if validSize < readSize then (rb, readData)
  else
    let (sizeFirst, sizeLeft) := splitAtEnd endLeft readSize
    let (rb, readData) :=
      if sizeFirst ≠ 0 then
        (if updateIdx ≠ 0 then { rb with readIdx := rb.readIdx + sizeFirst } else rb,
          memcpy readData off ((rb.buffer.drop rb.readIdx.toNat).take sizeFirst.toNat))
      else (rb, readData)
    if sizeLeft ≠ 0 then
      (if updateIdx ≠ 0 then { rb with readIdx := sizeLeft } else rb,
        memcpy readData (off + sizeFirst.toNat) (rb.buffer.take sizeLeft.toNat))
    else (rb, readData)

/-- `ring_buffer_update_read_idx` -/
def ringBufferUpdateReadIdx (rb : RingBuffer) (increaseValue : UInt8) : RingBuffer :=
  { rb with readIdx := (rb.readIdx + increaseValue.toUInt32) % rb.size }

/-- The calls by which a ring is used. -/
class ByteRing (R : Type) where
  validSize : R → UInt32
  freeSize : R → UInt32
  write : R → List UInt8 → UInt32 → R
  read : R → List UInt8 → ℕ → UInt32 → UInt8 → R × List UInt8
  updateReadIdx : R → UInt8 → R

instance : ByteRing RingBuffer where
  validSize := ringBufferValidSize
  freeSize := ringBufferFreeSize
  write := ringBufferWrite
  read := ringBufferRead
  updateReadIdx := ringBufferUpdateReadIdx

/-- Bytes whose number fits the `uint32_t` size they are handed over with. -/
def Chunk : Type := { bytes : List UInt8 // bytes.length < 2 ^ 32 }

/-- The size a chunk is handed over with. -/
def Chunk.size (c : Chunk) : UInt32 := UInt32.ofNat c.1.length

@[simp] theorem Chunk.size_toNat (c : Chunk) : c.size.toNat = c.1.length := by
  simpa [Chunk.size] using c.2

/-- A call that changes a ring or reads from it, with its arguments.  The output buffer of a read is as large as
the read. -/
inductive RingOp where
  | write (data : Chunk)
  | read (readData : List UInt8) (readSize : UInt32) (updateIdx : UInt8) (fits : readSize.toNat ≤ readData.length)
  | updateReadIdx (increaseValue : UInt8)

/-- A call on a ring: the ring after it, and what is in the output buffer of a read. -/
def RingOp.exec {R : Type} [ByteRing R] (r : R) : RingOp → R × List UInt8
  | .write c => (ByteRing.write r c.1 c.size, [])
  | .read readData readSize updateIdx _ => ByteRing.read r readData 0 readSize updateIdx
  | .updateReadIdx k => (ByteRing.updateReadIdx r k, [])

/-- A number of calls, one after another. -/
def execAll {R : Type} [ByteRing R] (r : R) (ops : List RingOp) : R := ops.foldl (fun r op => (op.exec r).1) r

end Fr8012haLock.Buffer
