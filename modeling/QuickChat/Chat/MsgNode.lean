import QuickChat.Common.Const
import QuickChat.Lib.Framing
import QuickChat.Lib.Memory

/-!
# Message nodes

A node owns a block of `total_len_ + 1` bytes. The constructors are given their lengths as shorts,
and compute with them as ints: a node of announced length -1 has an empty block and its terminating
NUL is written before it, and below that `new char[]` throws. Every write of a constructor is
returned beside the node.
-/

namespace QuickChat

open Memory

/-- Conversion to a 64-bit `std::size_t`. -/
def size_t (x : Int) : Nat := (x % 2 ^ 64).toNat

theorem size_t_of_nonneg {x : Int} (hnonneg : 0 ≤ x) (hbound : x < 2 ^ 64) : size_t x = x.toNat := by
  rw [size_t, Int.emod_eq_of_lt hnonneg hbound]

/-- `new char[n]` with a negative `n` throws it. -/
structure BadArrayNewLength where
  size : Int
  deriving DecidableEq, Repr

structure MsgNode where
  cur_len_ : Int16
  total_len_ : Int16
  data_ : Bytes
  size_eq : (data_.length : Int) = total_len_.toInt + 1

namespace MsgNode

/-- The constructor, with the writes it makes to `data_`. The block is handed out uninitialised; the
bytes read later have all been written by then. -/
def new (max_len : Int16) : Except BadArrayNewLength (MsgNode × List Span) :=
  if hsize : 0 ≤ max_len.toInt + 1 then
    let size := (max_len.toInt + 1).toNat
    .ok (⟨0, max_len, store (List.replicate size 0) max_len.toInt [0], by
        simp only [length_store, List.length_replicate, size]
        omega⟩,
      [⟨size, max_len.toInt, 1⟩])
  else .error ⟨max_len.toInt + 1⟩

def Clear (node : MsgNode) : MsgNode :=
  { node with
    cur_len_ := 0
    data_ := memcpy node.data_ 0 (List.replicate (size_t node.total_len_.toInt) 0)
      (size_t node.total_len_.toInt)
    size_eq := by rw [length_memcpy, node.size_eq] }

def fill (node : MsgNode) (source : Bytes) (n : Nat) : MsgNode :=
  { node with
    data_ := memcpy node.data_ 0 source n
    size_eq := by rw [length_memcpy, node.size_eq] }

/-- `data_[total_len_] = '\0'`. -/
def terminate (node : MsgNode) : MsgNode :=
  { node with
    data_ := store node.data_ node.total_len_.toInt [0]
    size_eq := by rw [length_store, node.size_eq] }

def content (node : MsgNode) : Bytes := node.data_.take (size_t node.total_len_.toInt)

end MsgNode

structure RecvNode extends MsgNode where
  msg_id_ : Int16

def RecvNode.new (max_len msg_id : Int16) : Except BadArrayNewLength (RecvNode × List Span) :=
  (MsgNode.new max_len).map fun (node, writes) => (⟨node, msg_id⟩, writes)

structure SendNode extends MsgNode where
  msg_id_ : Int16

/-- The header and the body are copied one after the other into a block of `max_len + 4 + 1` bytes,
whose length is again a short. -/
def SendNode.new (msg : Bytes) (max_len msg_id : Int16) :
    Except BadArrayNewLength (SendNode × List Span) :=
  (MsgNode.new (Int16.ofInt (max_len.toInt + HEAD_TOTAL_LEN))).map fun (node, writes) =>
    let size := node.data_.length
    let withId := memcpy node.data_ 0 (image (swap msg_id)) HEAD_ID_LEN
    let withLength := memcpy withId HEAD_ID_LEN (image (swap max_len)) HEAD_DATA_LEN
    (⟨{ node with
        data_ := memcpy withLength (HEAD_ID_LEN + HEAD_DATA_LEN) msg (size_t max_len.toInt)
        size_eq := by simp only [withLength, withId, length_memcpy, node.size_eq] }, msg_id⟩,
      writes ++ [⟨size, 0, HEAD_ID_LEN⟩, ⟨size, HEAD_ID_LEN, HEAD_DATA_LEN⟩,
        ⟨size, HEAD_ID_LEN + HEAD_DATA_LEN, size_t max_len.toInt⟩])

def SendNode.bytes (msg : Bytes) (max_len msg_id : Int16) : Bytes :=
  match SendNode.new msg max_len msg_id with
  | .ok (node, _) => node.content
  | .error _ => []

end QuickChat
