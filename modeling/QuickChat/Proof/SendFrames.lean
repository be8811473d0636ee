import QuickChat.Proof.SendQueue
import QuickChat.Proof.Wire

/-!
# Which messages are sent whole

Neither `Send` looks at the length. Up to `MAX_LENGTH` the node holds the message in one frame; a
message that is longer goes out in a frame that no reader accepts, or, cut to a short, as a part of
itself. In between, the length of the block wraps to a negative number, the constructor throws, and
nothing is sent.
-/

namespace QuickChat

open Memory

/-- The node holds the message in one frame, and was built without leaving its block. -/
structure SendNode.Carries (node : SendNode) (writes : List Span) (msgid : Int16) (msg : Bytes) :
    Prop where
  length_le : msg.length ≤ MAX_LENGTH
  total_len : node.total_len_.toInt = HEAD_TOTAL_LEN + msg.length
  content : node.content = header msgid (Int16.ofInt msg.length) ++ msg
  isFrame : wire.IsFrame node.content
  inRange : ∀ span ∈ writes, span.InRange

/-- A length for which `new char[]` throws: the block's length, computed as a short, is negative. -/
def Throws (max_len : Int16) : Prop := 32764 ≤ max_len.toInt ∨ max_len.toInt ≤ -6

instance (max_len : Int16) : Decidable (Throws max_len) := inferInstanceAs (Decidable (_ ∨ _))

theorem toInt_ofInt_eq (x : Int) :
    (Int16.ofInt x).toInt = if x % 65536 < 32768 then x % 65536 else x % 65536 - 65536 := by
  rw [Int16.toInt_ofInt, Int.bmod_def]
  rfl

theorem toInt_add_head (max_len : Int16) :
    (Int16.ofInt (max_len.toInt + HEAD_TOTAL_LEN)).toInt
      = if 32764 ≤ max_len.toInt then max_len.toInt + 4 - 65536 else max_len.toInt + 4 := by
  have hlow := max_len.le_toInt
  have hhigh := max_len.toInt_lt
  rw [toInt_ofInt_eq, show (HEAD_TOTAL_LEN : Int) = 4 from rfl]
  split <;> split <;> omega

namespace SendNode

variable {msg : Bytes} {max_len : Int16} {msgid : Int16}

theorem new_of_throws (hthrows : Throws max_len) :
    ∃ size, SendNode.new msg max_len msgid = .error size := by
  have hlow := max_len.le_toInt
  have hhigh := max_len.toInt_lt
  have hnegative : (Int16.ofInt (max_len.toInt + HEAD_TOTAL_LEN)).toInt < -1 := by
    rw [toInt_add_head]
    unfold Throws at hthrows
    split <;> omega
  rw [SendNode.new, MsgNode.new_of_lt hnegative]
  exact ⟨_, rfl⟩

theorem new_of_not_throws (hthrows : ¬ Throws max_len) :
    ∃ node writes, SendNode.new msg max_len msgid = .ok (node, writes) ∧
      node.total_len_.toInt = max_len.toInt + 4 := by
  unfold Throws at hthrows
  have htotal : (Int16.ofInt (max_len.toInt + HEAD_TOTAL_LEN)).toInt = max_len.toInt + 4 := by
    rw [toInt_add_head, if_neg (by omega)]
  obtain ⟨node, hnode, htotal_len⟩ :=
    MsgNode.new_of_le (show -1 ≤ (Int16.ofInt (max_len.toInt + HEAD_TOTAL_LEN)).toInt by omega)
  rw [SendNode.new, hnode]
  exact ⟨_, _, rfl, by rw [← htotal, ← htotal_len]⟩

/-- Up to `MAX_LENGTH` the short arithmetic is that of the integers. -/
theorem carries_of_le {n : Nat} (hlen : max_len.toInt = n) (hmax : n ≤ MAX_LENGTH)
    (hmsg : n ≤ msg.length) :
    ∃ node writes, SendNode.new msg max_len msgid = .ok (node, writes) ∧
      node.Carries writes msgid (msg.take n) := by
  have hbound : MAX_LENGTH = 2048 := rfl
  have hhead : (HEAD_TOTAL_LEN : Int) = 4 := rfl
  obtain ⟨node, writes, hnew, hrange, -, htotal, -⟩ :=
    new_spec msgid (show 0 ≤ max_len.toInt by omega) (by omega)
      (show max_len.toInt.toNat ≤ msg.length by omega)
  have hbytes : node.content = SendNode.bytes msg max_len msgid := by rw [SendNode.bytes, hnew]
  have hlength : (msg.take n).length = n := by rw [List.length_take, Nat.min_eq_left hmsg]
  have hshort : Int16.ofInt n = max_len := by rw [← hlen, Int16.ofInt_toInt]
  refine ⟨node, writes, hnew, ⟨hlength.le.trans hmax, ?_, ?_, ?_, hrange⟩⟩
  · rw [htotal, hlength, hlen, add_comm]
  · rw [hbytes, bytes_eq_header_append msgid hlen hmax hmsg, hlength, hshort]
  · rw [hbytes]
    exact isFrame_bytes msgid hlen hmax hmsg

end SendNode

/-! ### A call -/

namespace SendQueue

/-- What a call of `Send` may do: enqueue a node that carries the message, or nothing. -/
def SendsWhole (queue next : SendQueue) (call : SendCall) (msg : Bytes) : Prop :=
  next = queue ∨
    ∃ node writes, SendNode.new call.msg call.max_length call.msgid = .ok (node, writes) ∧
      next.send_que_ = queue.send_que_ ++ [node] ∧ node.Carries writes call.msgid msg

variable {queue : SendQueue} {call : SendCall} {msg : Bytes}

theorem emplace_of_full (hfull : queue.send_que_.length > MAX_SENDQUE) :
    queue.emplace call = queue := by
  rw [emplace, if_pos hfull]

theorem emplace_of_throws (hthrows : Throws call.max_length) : queue.emplace call = queue := by
  obtain ⟨size, hnew⟩ : ∃ size, SendNode.new call.msg call.max_length call.msgid = .error size :=
    SendNode.new_of_throws hthrows
  by_cases hfull : queue.send_que_.length > MAX_SENDQUE
  · exact emplace_of_full hfull
  · simp only [emplace, if_neg hfull, hnew]

theorem send_que_emplace {node : SendNode} {writes : List Span}
    (hroom : ¬ queue.send_que_.length > MAX_SENDQUE)
    (hnew : SendNode.new call.msg call.max_length call.msgid = .ok (node, writes)) :
    (queue.emplace call).send_que_ = queue.send_que_ ++ [node] := by
  simp only [emplace, if_neg hroom, hnew]
  split
  · rfl
  · split
    · rfl
    · rfl

/-- A call that is not dropped and does not throw has to enqueue a node that carries the message. -/
theorem sendsWhole_emplace_iff (call : SendCall) {node : SendNode} {writes : List Span}
    (hroom : ¬ queue.send_que_.length > MAX_SENDQUE)
    (hnew : SendNode.new call.msg call.max_length call.msgid = .ok (node, writes)) :
    SendsWhole queue (queue.emplace call) call msg ↔ node.Carries writes call.msgid msg := by
  have hque := send_que_emplace hroom hnew
  constructor
  · rintro (hsame | ⟨other, others, hother, -, hcarries⟩)
    · rw [hsame] at hque
      exact absurd hque (by simp)
    · rw [hnew, Except.ok.injEq, Prod.mk.injEq] at hother
      obtain ⟨rfl, rfl⟩ := hother
      exact hcarries
  · intro hcarries
    exact Or.inr ⟨node, writes, hnew, hque, hcarries⟩

/-- A call with the bytes of a message of length `n` before anything else in its memory. -/
theorem sendsWhole_of_le (call : SendCall) {n : Nat} (hlen : call.max_length.toInt = n)
    (hmax : n ≤ MAX_LENGTH) (hmsg : n ≤ call.msg.length) :
    SendsWhole queue (queue.emplace call) call (call.msg.take n) := by
  obtain ⟨node, writes, hnew, hcarries⟩ :=
    @SendNode.carries_of_le call.msg call.max_length call.msgid n hlen hmax hmsg
  by_cases hfull : queue.send_que_.length > MAX_SENDQUE
  · exact Or.inl (emplace_of_full hfull)
  · exact (sendsWhole_emplace_iff call hfull hnew).mpr hcarries

theorem throws_ofInt_iff (n : Nat) :
    Throws (Int16.ofInt n) ↔ 32764 ≤ n % 65536 ∧ n % 65536 ≤ 65530 := by
  unfold Throws
  rw [toInt_ofInt_eq]
  split <;> omega

/-- The length is cut to a short before anything looks at it. -/
theorem sendsWhole_SendString_iff (queue : SendQueue) (msg : Bytes) (msgid : Int16) :
    SendsWhole queue (queue.SendString msg msgid) ⟨msg ++ [0], Int16.ofInt msg.length, msgid⟩ msg ↔
      queue.send_que_.length > MAX_SENDQUE ∨ msg.length ≤ MAX_LENGTH ∨
        (32764 ≤ msg.length % 65536 ∧ msg.length % 65536 ≤ 65530) := by
  rw [← throws_ofInt_iff, SendString]
  constructor
  · intro hwhole
    by_cases hfull : queue.send_que_.length > MAX_SENDQUE
    · exact Or.inl hfull
    by_cases hthrows : Throws (Int16.ofInt msg.length)
    · exact Or.inr (Or.inr hthrows)
    obtain ⟨node, writes, hnew, -⟩ := @SendNode.new_of_not_throws (msg ++ [0]) _ msgid hthrows
    have hiff := @sendsWhole_emplace_iff queue msg ⟨msg ++ [0], Int16.ofInt msg.length, msgid⟩ _ _
      hfull hnew
    exact Or.inr (Or.inl (hiff.mp hwhole).length_le)
  · rintro (hfull | hlength | hthrows)
    · exact Or.inl (emplace_of_full hfull)
    · have hwhole := @sendsWhole_of_le queue
        ⟨msg ++ [0], Int16.ofInt msg.length, msgid⟩ _ (toInt_ofInt_length hlength) hlength (by simp)
      rwa [List.take_left] at hwhole
    · have hsame : queue.emplace ⟨msg ++ [0], Int16.ofInt msg.length, msgid⟩ = queue :=
        emplace_of_throws hthrows
      exact Or.inl hsame

theorem sendsWhole_Send_iff (queue : SendQueue) {msg : Bytes} {max_length : Int16} (msgid : Int16)
    (hmsg : max_length.toInt.toNat ≤ msg.length) :
    SendsWhole queue (queue.Send msg max_length msgid) ⟨msg, max_length, msgid⟩
        (msg.take max_length.toInt.toNat) ↔
      queue.send_que_.length > MAX_SENDQUE ∨
        (0 ≤ max_length.toInt ∧ max_length.toInt ≤ MAX_LENGTH) ∨
        (32764 ≤ max_length.toInt ∨ max_length.toInt ≤ -6) := by
  change _ ↔ _ ∨ _ ∨ Throws max_length
  rw [Send]
  constructor
  · intro hwhole
    by_cases hfull : queue.send_que_.length > MAX_SENDQUE
    · exact Or.inl hfull
    by_cases hthrows : Throws max_length
    · exact Or.inr (Or.inr hthrows)
    obtain ⟨node, writes, hnew, htotal⟩ := @SendNode.new_of_not_throws msg _ msgid hthrows
    have hcarries := (sendsWhole_emplace_iff ⟨msg, max_length, msgid⟩ hfull hnew).mp hwhole
    have hlength := hcarries.length_le
    have htotal_len := hcarries.total_len
    rw [List.length_take, Nat.min_eq_left hmsg] at hlength htotal_len
    rw [htotal, show (HEAD_TOTAL_LEN : Int) = 4 from rfl] at htotal_len
    exact Or.inr (Or.inl ⟨by omega, by omega⟩)
  · rintro (hfull | ⟨hnonneg, hlength⟩ | hthrows)
    · exact Or.inl (emplace_of_full hfull)
    · exact sendsWhole_of_le ⟨msg, max_length, msgid⟩
        (Int.toNat_of_nonneg hnonneg).symm (by omega) hmsg
    · have hsame : queue.emplace ⟨msg, max_length, msgid⟩ = queue := emplace_of_throws hthrows
      exact Or.inl hsame

/-- **Which messages are sent whole.** In every state of the queue, `Send` enqueues the whole message in
an acceptable frame or does nothing exactly if the queue is full, the length is in range, or the
length is one for which the constructor throws. Both overloads. -/
theorem send_whole_iff (queue : SendQueue) (msgid : Int16) :
    (∀ msg, SendsWhole queue (queue.SendString msg msgid)
        ⟨msg ++ [0], Int16.ofInt msg.length, msgid⟩ msg ↔
      queue.send_que_.length > MAX_SENDQUE ∨ msg.length ≤ MAX_LENGTH ∨
        (32764 ≤ msg.length % 65536 ∧ msg.length % 65536 ≤ 65530)) ∧
    ∀ (msg : Bytes) (max_length : Int16), max_length.toInt.toNat ≤ msg.length →
      (SendsWhole queue (queue.Send msg max_length msgid) ⟨msg, max_length, msgid⟩
          (msg.take max_length.toInt.toNat) ↔
        queue.send_que_.length > MAX_SENDQUE ∨
          (0 ≤ max_length.toInt ∧ max_length.toInt ≤ MAX_LENGTH) ∨
          (32764 ≤ max_length.toInt ∨ max_length.toInt ≤ -6)) :=
  ⟨fun msg => sendsWhole_SendString_iff queue msg msgid,
    fun _ _ hmsg => sendsWhole_Send_iff queue msgid hmsg⟩

theorem send_whole_short :
    SendsWhole init (init.SendString [104, 105] 1) ⟨[104, 105, 0], 2, 1⟩ [104, 105] ∧
      SendsWhole init (init.Send [104, 105] 2 1) ⟨[104, 105], 2, 1⟩ [104, 105] :=
  ⟨((send_whole_iff init 1).1 [104, 105]).mpr (by decide),
    ((send_whole_iff init 1).2 [104, 105] 2 (by decide)).mpr (by decide)⟩

/-- One byte too many, a length that is cut to a small one, and a negative length. -/
theorem send_not_whole :
    ¬ SendsWhole init (init.SendString (List.replicate 2049 97) 1)
        ⟨List.replicate 2049 97 ++ [0], Int16.ofInt (List.replicate 2049 (97 : UInt8)).length, 1⟩
        (List.replicate 2049 97) ∧
      ¬ SendsWhole init (init.SendString (List.replicate 65541 97) 1)
        ⟨List.replicate 65541 97 ++ [0], Int16.ofInt (List.replicate 65541 (97 : UInt8)).length, 1⟩
        (List.replicate 65541 97) ∧
      ¬ SendsWhole init (init.Send [] (-1) 1) ⟨[], -1, 1⟩ [] := by
  refine ⟨?_, ?_, ?_⟩
  · rw [sendsWhole_SendString_iff, List.length_replicate]
    decide
  · rw [sendsWhole_SendString_iff, List.length_replicate]
    decide
  · exact (sendsWhole_Send_iff init 1 (by decide)).not.mpr (by decide)

end SendQueue

end QuickChat
