import QuickChat.Lib.Text
import Mathlib.Tactic.Ring
import Mathlib.Algebra.Order.Ring.Int

/-!
# Blocks of memory and short integers in them

A block is the list of its bytes. A write names the block's size, an offset and a length, and is in
range when it stays inside the block. One that is not leaves the block alone here, where a program
overwrites what lies behind it: past such a write a run is known by its accesses only, and what is
said of the program is said together with its accesses being in range.

A `short` is two bytes of memory, least significant first, and network order is the other way
round. Encoding a short and decoding two bytes are inverse to each other.
-/

namespace Memory

/-- The bytes `offset, ..., offset + length - 1` of a block of `size` bytes. -/
structure Span where
  size : Nat
  offset : Int
  length : Nat
  deriving DecidableEq, Repr

def Span.InRange (span : Span) : Prop :=
  0 ≤ span.offset ∧ span.offset + span.length ≤ span.size

instance (span : Span) : Decidable span.InRange :=
  inferInstanceAs (Decidable (_ ∧ _))

/-- Replace the bytes of the block from the offset on. A write that is not in range is not described. -/
def store (block : Bytes) (offset : Int) (bytes : Bytes) : Bytes :=
  if 0 ≤ offset ∧ offset + bytes.length ≤ block.length then
    block.take offset.toNat ++ bytes ++ block.drop (offset.toNat + bytes.length)
  else block

@[simp]
theorem length_store (block : Bytes) (offset : Int) (bytes : Bytes) :
    (store block offset bytes).length = block.length := by
  unfold store
  split
  · rename_i hrange
    simp only [List.length_append, List.length_take, List.length_drop]
    omega
  · rfl

theorem take_store (block bytes : Bytes) (offset : Nat) (hrange : offset + bytes.length ≤ block.length) :
    (store block offset bytes).take (offset + bytes.length) = block.take offset ++ bytes := by
  have hcond : (0 : Int) ≤ offset ∧ (offset : Int) + bytes.length ≤ block.length := by omega
  rw [store, if_pos hcond, Int.toNat_natCast]
  apply List.take_left'
  simp only [List.length_append, List.length_take]
  omega

theorem take_store_of_le {block bytes : Bytes} {offset : Int} {n : Nat} (hn : (n : Int) ≤ offset) :
    (store block offset bytes).take n = block.take n := by
  unfold store
  split
  · rename_i hrange
    rw [List.append_assoc, List.take_append_of_le_length, List.take_take, Nat.min_eq_left]
    · omega
    · rw [List.length_take]
      omega
  · rfl

/-- `memcpy` of the first `n` bytes of the source into the block, when they fit. -/
def memcpy (block : Bytes) (offset : Int) (source : Bytes) (n : Nat) : Bytes :=
  if 0 ≤ offset ∧ offset + n ≤ block.length then store block offset (source.take n) else block

@[simp]
theorem length_memcpy (block : Bytes) (offset : Int) (source : Bytes) (n : Nat) :
    (memcpy block offset source n).length = block.length := by
  unfold memcpy
  split <;> simp

theorem memcpy_eq_store {block source : Bytes} {offset : Int} {n : Nat}
    (hrange : 0 ≤ offset ∧ offset + n ≤ block.length) :
    memcpy block offset source n = store block offset (source.take n) := if_pos hrange

theorem take_memcpy (block source : Bytes) (offset n : Nat) (hrange : offset + n ≤ block.length)
    (hsource : n ≤ source.length) :
    (memcpy block offset source n).take (offset + n) = block.take offset ++ source.take n := by
  have hlength : (source.take n).length = n := by rw [List.length_take, Nat.min_eq_left hsource]
  rw [memcpy_eq_store (by omega)]
  have htake := take_store block (source.take n) offset (by omega)
  rwa [hlength] at htake

/-! ### Shorts -/

def image (x : Int16) : Bytes :=
  [UInt8.ofNat (x.toUInt16.toNat % 256), UInt8.ofNat (x.toUInt16.toNat / 256)]

/-- The `short` that two bytes of memory are read as. -/
def ofImage (low high : UInt8) : Int16 :=
  (UInt16.ofNat (low.toNat + 256 * high.toNat)).toInt16

def loadShort (block : Bytes) (offset : Nat) : Int16 :=
  ofImage (block.getD offset 0) (block.getD (offset + 1) 0)

/-- Exchange the two bytes: `host_to_network_short` and `network_to_host_short` both do. -/
def swap (x : Int16) : Int16 :=
  (UInt16.ofNat (256 * (x.toUInt16.toNat % 256) + x.toUInt16.toNat / 256)).toInt16

theorem toNat_toUInt16_lt (x : Int16) : x.toUInt16.toNat < 65536 := x.toUInt16.toNat_lt

theorem eq_of_toNat_toUInt16 {x y : Int16} (h : x.toUInt16.toNat = y.toUInt16.toNat) : x = y :=
  congrArg Int16.ofUInt16 (UInt16.toNat_inj.mp h)

theorem toNat_swap (x : Int16) :
    (swap x).toUInt16.toNat = 256 * (x.toUInt16.toNat % 256) + x.toUInt16.toNat / 256 := by
  have hx := toNat_toUInt16_lt x
  change (UInt16.ofNat _).toNat = _
  rw [UInt16.toNat_ofNat', Nat.mod_eq_of_lt]
  omega

theorem toNat_ofImage (low high : UInt8) :
    (ofImage low high).toUInt16.toNat = low.toNat + 256 * high.toNat := by
  have hlow := low.toNat_lt
  have hhigh := high.toNat_lt
  change (UInt16.ofNat _).toNat = _
  rw [UInt16.toNat_ofNat', Nat.mod_eq_of_lt]
  omega

@[simp]
theorem length_image (x : Int16) : (image x).length = 2 := rfl

theorem toNat_ofNat_of_lt {n : Nat} (hn : n < 256) : (UInt8.ofNat n).toNat = n := by
  rw [UInt8.toNat_ofNat', Nat.mod_eq_of_lt hn]

/-- **Decode after encode.** The two bytes that go out in network order are read back as the short. -/
theorem swap_ofImage_image (x : Int16) :
    ∃ first second, image (swap x) = [first, second] ∧ swap (ofImage first second) = x := by
  refine ⟨_, _, rfl, eq_of_toNat_toUInt16 ?_⟩
  have hx := toNat_toUInt16_lt x
  have hswap := toNat_swap x
  rw [toNat_swap, toNat_ofImage, toNat_ofNat_of_lt (by omega), toNat_ofNat_of_lt (by omega), hswap]
  omega

/-- **Encode after decode.** Two bytes read as a short in network order are the bytes it goes out as. -/
theorem image_swap_ofImage (first second : UInt8) :
    image (swap (swap (ofImage first second))) = [first, second] := by
  have hfirst := first.toNat_lt
  have hsecond := second.toNat_lt
  have hvalue : (swap (swap (ofImage first second))).toUInt16.toNat
      = first.toNat + 256 * second.toNat := by
    rw [toNat_swap, toNat_swap, toNat_ofImage]
    omega
  have hlow : (first.toNat + 256 * second.toNat) % 256 = first.toNat := by omega
  have hhigh : (first.toNat + 256 * second.toNat) / 256 = second.toNat := by omega
  rw [image, hvalue, hlow, hhigh, UInt8.ofNat_toNat, UInt8.ofNat_toNat]

end Memory
