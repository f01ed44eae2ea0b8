import Mathlib.Tactic

/-!
# Fixed-length buffers and little-endian words

`overwrite` is the effect of a copy into a buffer of fixed length.  Copies
that follow one another without a gap are one copy, and a copy leaves what
lies before it alone.  The second half is the little-endian coding of
unsigned words of a given width.
-/

namespace ByteBuffer

variable {β : Type*}

/-- The buffer after `source` has been copied to `position`. -/
def overwrite (buffer : List β) (position : ℕ) (source : List β) : List β :=
  buffer.take position ++ source ++ buffer.drop (position + source.length)

theorem length_overwrite {buffer source : List β} {position : ℕ}
    (hfits : position + source.length ≤ buffer.length) :
    (overwrite buffer position source).length = buffer.length := by
  simp only [overwrite, List.length_append, List.length_take, List.length_drop]
  omega

@[simp] theorem overwrite_nil (buffer : List β) (position : ℕ) :
    overwrite buffer position [] = buffer := by
  simp [overwrite]

@[simp] theorem overwrite_zero (buffer source : List β) :
    overwrite buffer 0 source = source ++ buffer.drop source.length := by
  simp [overwrite]

theorem overwrite_full {buffer source : List β}
    (hlength : source.length = buffer.length) :
    overwrite buffer 0 source = source := by
  simp [hlength]

theorem take_overwrite {buffer source : List β} {position : ℕ}
    (hposition : position ≤ buffer.length) :
    (overwrite buffer position source).take (position + source.length) =
      buffer.take position ++ source := by
  have hlength : (buffer.take position ++ source).length =
      position + source.length := by
    rw [List.length_append, List.length_take, Nat.min_eq_left hposition]
  rw [overwrite, List.take_left' hlength]

theorem drop_overwrite {buffer source : List β} {position : ℕ}
    (hposition : position ≤ buffer.length) :
    (overwrite buffer position source).drop (position + source.length) =
      buffer.drop (position + source.length) := by
  have hlength : (buffer.take position ++ source).length =
      position + source.length := by
    rw [List.length_append, List.length_take, Nat.min_eq_left hposition]
  rw [overwrite, List.drop_left' hlength]

/-- Copies without a gap between them are one copy. -/
theorem overwrite_overwrite {buffer first second : List β} {position : ℕ}
    (hposition : position ≤ buffer.length) :
    overwrite (overwrite buffer position first)
        (position + first.length) second =
      overwrite buffer position (first ++ second) := by
  have hrest : (overwrite buffer position first).drop
      (position + first.length + second.length) =
        buffer.drop (position + (first ++ second).length) := by
    rw [← List.drop_drop, drop_overwrite hposition, List.drop_drop,
      List.length_append, Nat.add_assoc]
  rw [overwrite, take_overwrite hposition, hrest, overwrite]
  simp

/-- A copy that starts behind the front, and the next one where it would have
ended at the front: the buffer shows in front of the first copy, which loses as
many bytes. -/
theorem take_overwrite_behind {buffer first second : List β} {position : ℕ}
    (hfits : position + first.length ≤ buffer.length) :
    (overwrite (overwrite buffer position first) first.length second).take
        (first.length + second.length) =
      buffer.take (min first.length position) ++
        first.take (first.length - position) ++ second := by
  have hbehind : first.length ≤ (overwrite buffer position first).length := by
    rw [length_overwrite hfits]
    omega
  have hposition : (buffer.take position).length = position := by
    rw [List.length_take]
    omega
  have hrest : (buffer.drop (position + first.length)).take
      (first.length - position - first.length) = [] := by
    rw [show first.length - position - first.length = 0 by omega, List.take_zero]
  rw [take_overwrite hbehind, overwrite, List.append_assoc, List.take_append,
    List.take_append, List.take_take, hposition, hrest, List.append_nil]

/-! ## Little-endian words -/

/-- The lowest `width` bytes of a number, lowest byte first. -/
def littleEndian : ℕ → ℕ → List UInt8
  | 0, _ => []
  | width + 1, value =>
      UInt8.ofNat value :: littleEndian width (value / 256)

def ofLittleEndian : List UInt8 → ℕ
  | [] => 0
  | byte :: bytes => byte.toNat + 256 * ofLittleEndian bytes

@[simp] theorem length_littleEndian (width value : ℕ) :
    (littleEndian width value).length = width := by
  induction width generalizing value with
  | zero => rfl
  | succ width ih => simp [littleEndian, ih]

theorem ofLittleEndian_littleEndian (width value : ℕ) :
    ofLittleEndian (littleEndian width value) = value % 256 ^ width := by
  induction width generalizing value with
  | zero => simp [littleEndian, ofLittleEndian, Nat.mod_one]
  | succ width ih =>
      have hbyte : (UInt8.ofNat value).toNat = value % 256 := by
        simp
      rw [littleEndian, ofLittleEndian, ih, hbyte, pow_succ, Nat.mul_comm (256 ^ width),
        Nat.mod_mul]

theorem ofLittleEndian_littleEndian_of_lt {width value : ℕ}
    (hvalue : value < 256 ^ width) :
    ofLittleEndian (littleEndian width value) = value := by
  rw [ofLittleEndian_littleEndian, Nat.mod_eq_of_lt hvalue]

end ByteBuffer
