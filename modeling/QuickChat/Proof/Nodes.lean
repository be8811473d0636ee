import QuickChat.Chat.MsgNode

/-!
# What the node constructors build

For lengths that fit, every write of a constructor is in range and the block holds what it should: a
sent node its header in network order and its body, a received one the bytes copied into it.
-/

namespace QuickChat

open Memory

theorem size_t_toInt {x : Int16} (hx : 0 ≤ x.toInt) : size_t x.toInt = x.toInt.toNat :=
  size_t_of_nonneg hx (by have := x.toInt_lt; omega)

theorem toInt_ofInt_of_range {x : Int} (hlow : -2 ^ 15 ≤ x) (hhigh : x < 2 ^ 15) :
    (Int16.ofInt x).toInt = x := by
  rw [Int16.toInt_ofInt]
  exact Int.bmod_eq_of_le (by simp [Int16.size]; omega) (by simp [Int16.size]; omega)

namespace MsgNode

/-- A node of length at least -1: its block has one byte more than that, and the one write is to the
byte after its contents. At length -1 the block is empty and the write falls before it. -/
theorem new_of_le {max_len : Int16} (hlen : -1 ≤ max_len.toInt) :
    ∃ node, MsgNode.new max_len = .ok (node, [⟨node.data_.length, max_len.toInt, 1⟩]) ∧
      node.total_len_ = max_len := by
  have hsize : 0 ≤ max_len.toInt + 1 := by omega
  refine ⟨⟨0, max_len, store (List.replicate (max_len.toInt + 1).toNat 0) max_len.toInt [0], by
    rw [length_store, List.length_replicate]
    omega⟩, ?_, rfl⟩
  simp only [MsgNode.new, dif_pos hsize, length_store, List.length_replicate]

theorem new_of_lt {max_len : Int16} (hlen : max_len.toInt < -1) :
    MsgNode.new max_len = .error ⟨max_len.toInt + 1⟩ := by
  rw [MsgNode.new, dif_neg (by omega)]

theorem content_terminate_fill (node : MsgNode) (source : Bytes)
    (hlen : 0 ≤ node.total_len_.toInt) (hsource : node.total_len_.toInt.toNat ≤ source.length) :
    (node.fill source node.total_len_.toInt.toNat).terminate.content
      = source.take node.total_len_.toInt.toNat := by
  have hsize := node.size_eq
  simp only [content, terminate, fill]
  rw [size_t_toInt hlen, take_store_of_le (by omega)]
  have htake := take_memcpy node.data_ source 0 node.total_len_.toInt.toNat (by omega) hsource
  simpa using htake

end MsgNode

theorem RecvNode.new_of_le {max_len : Int16} (msg_id : Int16) (hlen : -1 ≤ max_len.toInt) :
    ∃ node, RecvNode.new max_len msg_id = .ok (node, [⟨node.data_.length, max_len.toInt, 1⟩]) ∧
      node.total_len_ = max_len ∧ node.msg_id_ = msg_id := by
  obtain ⟨node, hnode, htotal_len⟩ := MsgNode.new_of_le hlen
  exact ⟨⟨node, msg_id⟩, by rw [RecvNode.new, hnode]; rfl, htotal_len, rfl⟩

theorem RecvNode.new_of_lt {max_len : Int16} (msg_id : Int16) (hlen : max_len.toInt < -1) :
    RecvNode.new max_len msg_id = .error ⟨max_len.toInt + 1⟩ := by
  rw [RecvNode.new, MsgNode.new_of_lt hlen]
  rfl

/-- **A sent frame.** When the frame's length fits a short, the constructor stays in its block, and
what is sent is the identifier and the length in network order and then the body. -/
theorem SendNode.new_spec {msg : Bytes} {max_len : Int16} (msg_id : Int16) (hlen : 0 ≤ max_len.toInt)
    (hfits : max_len.toInt + HEAD_TOTAL_LEN < 2 ^ 15) (hmsg : max_len.toInt.toNat ≤ msg.length) :
    ∃ node writes, SendNode.new msg max_len msg_id = .ok (node, writes) ∧
      (∀ span ∈ writes, span.InRange) ∧ node.msg_id_ = msg_id ∧
      node.total_len_.toInt = max_len.toInt + HEAD_TOTAL_LEN ∧
      node.content = image (swap msg_id) ++ image (swap max_len) ++ msg.take max_len.toInt.toNat := by
  have hhead : (HEAD_TOTAL_LEN : Int) = 4 := rfl
  have htotal : (Int16.ofInt (max_len.toInt + HEAD_TOTAL_LEN)).toInt = max_len.toInt + 4 :=
    toInt_ofInt_of_range (by omega) (by omega)
  obtain ⟨node, hnode, htotal_len⟩ :=
    MsgNode.new_of_le (show -1 ≤ (Int16.ofInt (max_len.toInt + HEAD_TOTAL_LEN)).toInt by omega)
  have hlength := node.size_eq
  rw [htotal_len, htotal] at hlength
  rw [htotal] at hnode
  have hbody := size_t_toInt hlen
  refine ⟨_, _, by rw [SendNode.new, hnode]; rfl, ?_, rfl, ?_, ?_⟩
  · intro span hspan
    simp only [List.cons_append, List.nil_append, List.mem_cons, List.not_mem_nil, or_false] at hspan
    rcases hspan with rfl | rfl | rfl | rfl <;>
      simp only [Span.InRange, HEAD_ID_LEN, HEAD_DATA_LEN] <;> omega
  · rw [htotal_len, htotal]
    rfl
  · have hsize : size_t node.total_len_.toInt = 2 + 2 + max_len.toInt.toNat := by
      rw [htotal_len, size_t_toInt (by omega), htotal]
      omega
    have hid := take_memcpy node.data_ (image (swap msg_id)) 0 2 (by omega) (by simp)
    have hlen' := take_memcpy (memcpy node.data_ 0 (image (swap msg_id)) 2)
      (image (swap max_len)) 2 2 (by simp only [length_memcpy]; omega) (by simp)
    have hmsg' := take_memcpy (memcpy (memcpy node.data_ 0 (image (swap msg_id)) 2)
        2 (image (swap max_len)) 2) msg (2 + 2) max_len.toInt.toNat
      (by simp only [length_memcpy]; omega) hmsg
    simp only [Nat.zero_add, List.take_zero, List.nil_append, Nat.cast_zero, Nat.cast_add,
      Nat.cast_ofNat] at hid hlen' hmsg'
    simp only [MsgNode.content, HEAD_ID_LEN, HEAD_DATA_LEN, hsize, hbody, Nat.cast_ofNat]
    rw [hmsg', hlen', hid, List.take_of_length_le (by simp), List.take_of_length_le (by simp)]

theorem SendNode.bytes_eq {msg : Bytes} {max_len : Int16} (msg_id : Int16)
    (hlen : 0 ≤ max_len.toInt) (hfits : max_len.toInt + HEAD_TOTAL_LEN < 2 ^ 15)
    (hmsg : max_len.toInt.toNat ≤ msg.length) :
    SendNode.bytes msg max_len msg_id
      = image (swap msg_id) ++ image (swap max_len) ++ msg.take max_len.toInt.toNat := by
  obtain ⟨node, writes, hnew, -, -, -, hcontent⟩ := SendNode.new_spec msg_id hlen hfits hmsg
  rw [SendNode.bytes, hnew]
  exact hcontent

end QuickChat
