import CoralNPU.Lib.Memory

namespace Lib

/-!
# Records in byte strings

A record is written as its fields, each a little-endian number of its own width, and a file is grown and
then overwritten in parts.

* `writeFields`, `readFields` — the record; `readFields_writeFields` reads it back.
* `resize`, `overwrite` — growing a byte string with zeros, and copying into it.
* `overwrite_zeros` — a part is copied behind the parts before it.
-/

/-! ### Fields -/

/-- Fields with their widths in bytes. -/
def writeFields (fields : List (Nat × Nat)) : List UInt8 := fields.flatMap fun f => toLE f.1 f.2

/-- The values of the fields, read one after the other. -/
def readFields : List Nat → List UInt8 → List Nat
  | [], _ => []
  | w :: widths, bytes => ofLE (bytes.take w) :: readFields widths (bytes.drop w)

/-- A record without fields has no bytes. -/
@[simp] theorem writeFields_nil : writeFields [] = [] := rfl

/-- The bytes of a record, by its first field. -/
@[simp] theorem writeFields_cons (f : Nat × Nat) (fields : List (Nat × Nat)) :
    writeFields (f :: fields) = toLE f.1 f.2 ++ writeFields fields := rfl

/-- Every field is read modulo its width. -/
theorem readFields_writeFields (fields : List (Nat × Nat)) :
    readFields (fields.map Prod.fst) (writeFields fields) = fields.map fun f => f.2 % 256 ^ f.1 := by
  induction fields with
  | nil => rfl
  | cons f fields ih =>
    have hlen : (toLE f.1 f.2).length = f.1 := length_toLE f.1 f.2
    rw [List.map_cons, writeFields_cons, readFields, List.take_left' hlen, List.drop_left' hlen, ih,
      ofLE_toLE, List.map_cons]

/-! ### Parts of a file -/

/-- `std::vector::resize` -/
def resize (bytes : List UInt8) (size : Nat) : List UInt8 :=
  bytes.take size ++ List.replicate (size - bytes.length) 0

/-- `std::memcpy` to an offset. -/
def overwrite (bytes : List UInt8) (offset : Nat) (data : List UInt8) : List UInt8 :=
  bytes.take offset ++ data ++ bytes.drop (offset + data.length)

/-- Growing appends zeros. -/
theorem resize_eq_append {bytes : List UInt8} {size : Nat} (h : bytes.length ≤ size) :
    resize bytes size = bytes ++ List.replicate (size - bytes.length) 0 := by
  rw [resize, List.take_of_length_le h]

/-- The new size is the size asked for. -/
@[simp] theorem length_resize (bytes : List UInt8) (size : Nat) : (resize bytes size).length = size := by
  rw [resize, List.length_append, List.length_take, List.length_replicate]
  omega

/-- Growing further appends further zeros. -/
theorem resize_add {bytes : List UInt8} {m : Nat} (h : bytes.length ≤ m) (n : Nat) :
    resize bytes (m + n) = resize bytes m ++ List.replicate n 0 := by
  rw [resize_eq_append h, resize_eq_append (Nat.le_add_right_of_le h), List.append_assoc,
    List.replicate_append_replicate, Nat.sub_add_comm h]

/-- Copying into the zeros behind a part. -/
theorem overwrite_zeros {front data : List UInt8} {offset m : Nat} (hfront : front.length = offset)
    (hdata : data.length ≤ m) (n : Nat) :
    overwrite (front ++ List.replicate (m + n) 0) offset data
      = (front ++ resize data m) ++ List.replicate n 0 := by
  have hzeros : (List.replicate (m + n) (0 : UInt8)).drop data.length
      = List.replicate (m - data.length) 0 ++ List.replicate n 0 := by
    rw [List.drop_replicate, List.replicate_append_replicate, Nat.sub_add_comm hdata]
  rw [overwrite, List.take_left' hfront, ← List.drop_drop, List.drop_left' hfront, hzeros,
    resize_eq_append hdata]
  simp only [List.append_assoc]

/-- The start of a part that was resized. -/
theorem take_resize_append {data : List UInt8} {m : Nat} (h : data.length ≤ m) (rest : List UInt8) :
    (resize data m ++ rest).take data.length = data := by
  rw [resize_eq_append h, List.append_assoc, List.take_left]

end Lib
