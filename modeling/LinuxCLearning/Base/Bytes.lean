import Mathlib

/-! Byte strings, NUL-terminated strings and fixed-width little-endian numbers,
as C programs lay them out in memory and in files. -/

namespace LinuxCLearning

abbrev Bytes := List UInt8

/-- A C string: the bytes before the terminator, none of which is NUL. -/
structure CString where
  bytes : Bytes
  nulFree : 0 ∉ bytes
  deriving DecidableEq

/-- `strlen`. -/
def CString.length (string : CString) : Nat := string.bytes.length

theorem CString.eq_of_bytes {first second : CString} (same : first.bytes = second.bytes) :
    first = second := by
  cases first
  cases second
  cases same
  rfl

theorem nulFree_takeWhile (bytes : Bytes) : 0 ∉ bytes.takeWhile (· ≠ 0) := by
  intro member
  have nonzero := List.mem_takeWhile_imp member
  simp at nonzero

/-- The C string that starts at the beginning of a buffer: everything before
the first NUL byte. -/
def CString.ofBuffer (buffer : Bytes) : CString :=
  ⟨buffer.takeWhile (· ≠ 0), nulFree_takeWhile buffer⟩

theorem takeWhile_nulFree {bytes : Bytes} (nulFree : 0 ∉ bytes) (rest : Bytes) :
    (bytes ++ 0 :: rest).takeWhile (· ≠ 0) = bytes := by
  induction bytes with
  | nil => simp
  | cons head tail ih =>
    simp only [List.mem_cons, not_or] at nulFree
    have nonzero : head ≠ 0 := fun same => nulFree.1 same.symm
    simpa [nonzero] using ih nulFree.2

theorem takeWhile_whole {bytes : Bytes} (nulFree : 0 ∉ bytes) :
    bytes.takeWhile (· ≠ 0) = bytes := by
  apply List.takeWhile_eq_self_iff.mpr
  intro byte member
  apply decide_eq_true
  rintro rfl
  exact nulFree member

theorem replicate_nulFree {byte : UInt8} (visible : byte ≠ 0) (count : Nat) :
    0 ∉ List.replicate count byte :=
  fun member => visible (List.eq_of_mem_replicate member).symm

theorem CString.ofBuffer_whole (bytes : Bytes) :
    (CString.ofBuffer bytes).bytes = bytes ↔ 0 ∉ bytes := by
  constructor
  · intro whole
    rw [← whole]
    exact (CString.ofBuffer bytes).nulFree
  · exact takeWhile_whole

@[simp] theorem CString.ofBuffer_terminated (string : CString) (rest : Bytes) :
    CString.ofBuffer (string.bytes ++ 0 :: rest) = string :=
  CString.eq_of_bytes (takeWhile_nulFree string.nulFree rest)

@[simp] theorem CString.ofBuffer_bytes (string : CString) :
    CString.ofBuffer string.bytes = string :=
  CString.eq_of_bytes (takeWhile_whole string.nulFree)

/-- The bytes of a text in the program. -/
def text (string : String) : Bytes := string.toList.map fun letter => UInt8.ofNat letter.toNat

/-- A `char` array of a fixed size. -/
structure CharArray (size : Nat) where
  bytes : Bytes
  full : bytes.length = size
  deriving DecidableEq

namespace CharArray

/-- The first `size` bytes, with zeros where there are fewer. -/
def ofBytes (size : Nat) (bytes : Bytes) : CharArray size :=
  ⟨bytes.takeD size 0, List.takeD_length size bytes 0⟩

/-- `strncpy` of one byte less than the size into an array of zeros. -/
def strncpy (size : Nat) (source : Bytes) : CharArray size :=
  ofBytes size (source.take (size - 1))

theorem ofBytes_bytes {size : Nat} (array : CharArray size) : ofBytes size array.bytes = array := by
  obtain ⟨bytes, rfl⟩ := array
  simp only [ofBytes, CharArray.mk.injEq]
  rw [List.takeD_eq_take 0 (le_refl _), List.take_length]

theorem takeD_zeros (bytes : Bytes) (extra : Nat) :
    bytes.takeD (bytes.length + (extra + 1)) 0 = bytes ++ 0 :: List.replicate extra 0 := by
  induction bytes with
  | nil => simp
  | cons byte bytes ih =>
    rw [List.length_cons, Nat.add_right_comm, List.takeD_succ, List.head?_cons, List.tail_cons, ih]
    rfl

/-- A string that fits with its terminator is read back from the array. -/
theorem strncpy_string {size : Nat} (source : CString)
    (fits : source.length < size) (rest : Bytes) :
    CString.ofBuffer ((strncpy size source.bytes).bytes ++ rest) = source := by
  have short : source.bytes.take (size - 1) = source.bytes :=
    List.take_of_length_le (Nat.le_sub_one_of_lt fits)
  obtain ⟨extra, rfl⟩ := Nat.exists_eq_add_of_lt fits
  have filled : (strncpy (source.length + extra + 1) source.bytes).bytes =
      source.bytes ++ 0 :: List.replicate extra 0 := by
    simp only [strncpy, ofBytes]
    rw [short, Nat.add_assoc]
    exact takeD_zeros source.bytes extra
  rw [filled, List.append_assoc, List.cons_append, CString.ofBuffer_terminated]

end CharArray

/-- `width` bytes of `value`, least significant first. -/
def leBytes : Nat → Nat → Bytes
  | 0, _ => []
  | width + 1, value => UInt8.ofNat (value % 256) :: leBytes width (value / 256)

/-- The number that a little-endian byte string denotes. -/
def leNat : Bytes → Nat
  | [] => 0
  | byte :: rest => byte.toNat + 256 * leNat rest

@[simp] theorem leBytes_length (width value : Nat) : (leBytes width value).length = width := by
  induction width generalizing value with
  | zero => rfl
  | succ width ih => simp [leBytes, ih]

theorem leNat_leBytes_mod (width value : Nat) :
    leNat (leBytes width value) = value % 256 ^ width := by
  induction width generalizing value with
  | zero => simp [leBytes, leNat, Nat.mod_one]
  | succ width ih =>
    have byte : (UInt8.ofNat (value % 256)).toNat = value % 256 := by
      simp [UInt8.toNat_ofNat']
    rw [leBytes, leNat, byte, ih, Nat.pow_succ, Nat.mul_comm (256 ^ width), Nat.mod_mul]

theorem leNat_leBytes {width value : Nat} (fits : value < 256 ^ width) :
    leNat (leBytes width value) = value := by
  rw [leNat_leBytes_mod, Nat.mod_eq_of_lt fits]

theorem leBytes_leNat (bytes : Bytes) : leBytes bytes.length (leNat bytes) = bytes := by
  induction bytes with
  | nil => rfl
  | cons byte rest ih =>
    have small := byte.toNat_lt
    have low : (byte.toNat + 256 * leNat rest) % 256 = byte.toNat := by omega
    have high : (byte.toNat + 256 * leNat rest) / 256 = leNat rest := by omega
    rw [List.length_cons, leNat, leBytes, low, high, UInt8.ofNat_toNat, ih]

end LinuxCLearning
