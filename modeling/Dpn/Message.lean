import Dpn.ByteBuffer
import Mathlib.Logic.Function.Basic

/-!
# Messages

A message is one allocation of fixed length together with three views of it
that are kept by hand: the recorded size and offset, the pointer `buffer()`,
and the ZMQ frame that `contents()` hands out.  The frame is rebuilt by
`resize` only, always from the start of the allocation, and a successful send
empties it.

Messages are reached through pointers, so the operations of the other modules
work on a heap of messages.
-/

namespace Dpn

open ByteBuffer

/-- `size_t` arithmetic wraps here. -/
def sizeModulus : ℕ := 2 ^ 64

structure Message where
  size : ℕ
  offset : ℕ
  capacity : ℕ
  /-- How many bytes of the allocation, counted from its start, the ZMQ frame
  `contents_` exposes. -/
  contentsSize : ℕ
  bytes : List UInt8
  bytes_length : bytes.length = capacity

namespace Message

/-- The constructor; `memory` is what the fresh allocation happens to hold. -/
def new (memory : List UInt8) : Message where
  size := 0
  offset := 0
  capacity := memory.length
  contentsSize := 0
  bytes := memory
  bytes_length := rfl

/-- A size that exceeds the capacity is logged and ignored. -/
def resize (message : Message) (size : ℕ) (offset : ℕ) : Message :=
  if (size + offset) % sizeModulus > message.capacity then message
  else { message with size := size, offset := offset, contentsSize := size }

def reset (message : Message) : Message :=
  { message with size := 0, offset := 0 }

/-- The `size()` bytes at `buffer()`. -/
def visible (message : Message) : List UInt8 :=
  (message.bytes.drop message.offset).take message.size

/-- The bytes the frame `contents()` exposes. -/
def frameBytes (message : Message) : List UInt8 :=
  message.bytes.take message.contentsSize

/-- What a successful send does to the frame it was given. -/
def emptied (message : Message) : Message :=
  { message with contentsSize := 0 }

/-- A copy of `source` to a position counted from the start of the
allocation; a copy that would leave the allocation has no meaning. -/
def write (message : Message) (position : ℕ) (source : List UInt8) :
    Option Message :=
  if hfits : position + source.length ≤ message.capacity then
    some { message with
      bytes := overwrite message.bytes position source
      bytes_length := by
        rw [length_overwrite (by rw [message.bytes_length]; exact hfits),
          message.bytes_length] }
  else none

/-- `memcpy(buffer() + bufferOffset, source, cpySize)`. -/
def memcpy (message : Message) (bufferOffset : ℕ) (source : List UInt8)
    (cpySize : ℕ) : Option Message :=
  if cpySize ≤ source.length then
    message.write (message.offset + bufferOffset) (source.take cpySize)
  else none

@[ext] theorem ext {first second : Message}
    (hsize : first.size = second.size) (hoffset : first.offset = second.offset)
    (hcapacity : first.capacity = second.capacity)
    (hcontents : first.contentsSize = second.contentsSize)
    (hbytes : first.bytes = second.bytes) : first = second := by
  cases first
  cases second
  simp_all

@[simp] theorem new_capacity (memory : List UInt8) :
    (new memory).capacity = memory.length := rfl

@[simp] theorem resize_capacity (message : Message) (size offset : ℕ) :
    (message.resize size offset).capacity = message.capacity := by
  unfold resize
  split <;> rfl

@[simp] theorem emptied_offset (message : Message) :
    message.emptied.offset = message.offset := rfl

@[simp] theorem emptied_capacity (message : Message) :
    message.emptied.capacity = message.capacity := rfl

@[simp] theorem emptied_contentsSize (message : Message) :
    message.emptied.contentsSize = 0 := rfl

@[simp] theorem emptied_bytes (message : Message) :
    message.emptied.bytes = message.bytes := rfl

theorem resize_of_le {message : Message} {size offset : ℕ}
    (hfits : size + offset ≤ message.capacity) :
    message.resize size offset =
      { message with size := size, offset := offset, contentsSize := size } := by
  have hmod := Nat.mod_le (size + offset) sizeModulus
  rw [resize, if_neg (by omega)]

theorem length_visible (message : Message) :
    message.visible.length =
      min message.size (message.capacity - message.offset) := by
  rw [visible, List.length_take, List.length_drop, message.bytes_length]

theorem length_visible_eq_size_iff {message : Message} :
    message.visible.length = message.size ↔
      message.size ≤ message.capacity - message.offset := by
  rw [length_visible]
  omega

theorem visible_eq_nil_iff {message : Message}
    (hinside : message.size ≤ message.capacity - message.offset) :
    message.visible = [] ↔ message.size = 0 := by
  rw [← List.length_eq_zero_iff, length_visible_eq_size_iff.mpr hinside]

theorem write_eq_some {message written : Message} {position : ℕ}
    {source : List UInt8} :
    message.write position source = some written ↔
      position + source.length ≤ message.capacity ∧
        written.size = message.size ∧ written.offset = message.offset ∧
        written.capacity = message.capacity ∧
        written.contentsSize = message.contentsSize ∧
        written.bytes = overwrite message.bytes position source := by
  unfold write
  split
  · rename_i hfits
    simp only [Option.some.injEq, hfits, true_and]
    constructor
    · rintro rfl
      exact ⟨rfl, rfl, rfl, rfl, rfl⟩
    · rintro ⟨hsize, hoffset, hcapacity, hcontents, hbytes⟩
      ext1
      · exact hsize.symm
      · exact hoffset.symm
      · exact hcapacity.symm
      · exact hcontents.symm
      · exact hbytes.symm
  · rename_i hfits
    simp [hfits]

theorem write_eq_none {message : Message} {position : ℕ}
    {source : List UInt8} :
    message.write position source = none ↔
      message.capacity < position + source.length := by
  unfold write
  split <;> simp <;> omega

theorem memcpy_eq_none {message : Message} {bufferOffset cpySize : ℕ}
    {source : List UInt8} (hsource : cpySize ≤ source.length) :
    message.memcpy bufferOffset source cpySize = none ↔
      message.capacity < message.offset + bufferOffset + cpySize := by
  rw [memcpy, if_pos hsource, write_eq_none, List.length_take,
    Nat.min_eq_left hsource]

end Message

abbrev Heap (α : Type*) := α → Message

end Dpn
