import QuickChat.Proof.Nodes

/-!
# The wire format

A frame is four bytes of header, the identifier and the length as shorts in network order, and then
as many bytes as the length says. Lengths above `MAX_LENGTH` and negative ones are refused;
identifiers are not looked at. What `SendNode` puts into its block is a frame of this format, and
conversely a frame is the block of the `SendNode` built from what it decodes to.
-/

namespace QuickChat

open Memory

def headerId (header : Bytes) : Int16 := swap (loadShort header 0)

/-- The length that a header announces, as the signed short that the code uses. -/
def headerLen (header : Bytes) : Int16 := swap (loadShort header HEAD_ID_LEN)

def wire : Framing.Format UInt8 where
  headLen := HEAD_TOTAL_LEN
  bodyLen header :=
    if 0 ≤ (headerLen header).toInt ∧ (headerLen header).toInt ≤ MAX_LENGTH then
      some (headerLen header).toInt.toNat
    else none
  headLen_pos := by decide

theorem wire_bodyLen_eq_some {header : Bytes} {n : Nat} :
    wire.bodyLen header = some n ↔ (headerLen header).toInt = n ∧ n ≤ MAX_LENGTH := by
  change (if _ then _ else _) = _ ↔ _
  by_cases hrange : 0 ≤ (headerLen header).toInt ∧ (headerLen header).toInt ≤ MAX_LENGTH
  · rw [if_pos hrange, Option.some.injEq]
    omega
  · simp only [if_neg hrange, reduceCtorEq, false_iff]
    omega

def header (msg_id msg_len : Int16) : Bytes := image (swap msg_id) ++ image (swap msg_len)

@[simp]
theorem length_header (msg_id msg_len : Int16) : (header msg_id msg_len).length = 4 := rfl

/-- **Decoding a header.** The header of an identifier and a length gives both back. -/
theorem headerId_header (msg_id msg_len : Int16) : headerId (header msg_id msg_len) = msg_id := by
  obtain ⟨first, second, himage, hswap⟩ := swap_ofImage_image msg_id
  rw [headerId, header, himage]
  exact hswap

theorem headerLen_header (msg_id msg_len : Int16) : headerLen (header msg_id msg_len) = msg_len := by
  obtain ⟨first, second, himage, hswap⟩ := swap_ofImage_image msg_len
  rw [headerLen, header, himage]
  exact hswap

/-- **Encoding a header.** Four bytes are the header of what they decode to. -/
theorem header_of_length {bytes : Bytes} (hlength : bytes.length = 4) :
    header (headerId bytes) (headerLen bytes) = bytes := by
  obtain ⟨a, b, c, d, rfl⟩ := List.length_eq_four.mp hlength
  have hid := image_swap_ofImage a b
  have hlen := image_swap_ofImage c d
  change image (swap (swap (ofImage a b))) ++ image (swap (swap (ofImage c d))) = _
  rw [hid, hlen]
  rfl

theorem bodyLen_header {msg_id msg_len : Int16} {n : Nat} (hlen : msg_len.toInt = n)
    (hmax : n ≤ MAX_LENGTH) : wire.bodyLen (header msg_id msg_len) = some n := by
  rw [wire_bodyLen_eq_some, headerLen_header]
  exact ⟨hlen, hmax⟩

theorem bytes_eq_header_append {msg : Bytes} {max_len : Int16} {n : Nat} (msg_id : Int16)
    (hlen : max_len.toInt = n) (hmax : n ≤ MAX_LENGTH) (hmsg : n ≤ msg.length) :
    SendNode.bytes msg max_len msg_id = header msg_id max_len ++ msg.take n := by
  have hhead : (HEAD_TOTAL_LEN : Int) = 4 := rfl
  have hbound : MAX_LENGTH = 2048 := rfl
  rw [SendNode.bytes_eq msg_id (by omega) (by omega) (by omega), hlen]
  rfl

/-- **A sent message is a frame.** -/
theorem isFrame_bytes {msg : Bytes} {max_len : Int16} {n : Nat} (msg_id : Int16)
    (hlen : max_len.toInt = n) (hmax : n ≤ MAX_LENGTH) (hmsg : n ≤ msg.length) :
    wire.IsFrame (SendNode.bytes msg max_len msg_id) := by
  rw [bytes_eq_header_append msg_id hlen hmax hmsg]
  refine Framing.Format.isFrame_append (length_header _ _) ?_
  rw [bodyLen_header hlen hmax, List.length_take, Nat.min_eq_left hmsg]

def decode (frame : Bytes) : Int16 × Bytes := (headerId frame, frame.drop HEAD_TOTAL_LEN)

theorem headerId_append {bytes : Bytes} (hlength : bytes.length = 4) (rest : Bytes) :
    headerId (bytes ++ rest) = headerId bytes := by
  obtain ⟨a, b, c, d, rfl⟩ := List.length_eq_four.mp hlength
  rfl

theorem decode_header_append (msg_id msg_len : Int16) (body : Bytes) :
    decode (header msg_id msg_len ++ body) = (msg_id, body) := by
  rw [decode, headerId_append (length_header _ _), headerId_header]
  rfl

/-! ### A stream of messages -/

/-- The bytes of a message: `SendNode(payload, length, msgid)`. -/
def messageBytes (msg : Int16 × Bytes) : Bytes :=
  SendNode.bytes msg.2 (Int16.ofInt msg.2.length) msg.1

def stream (msgs : List (Int16 × Bytes)) : Bytes := (msgs.map messageBytes).flatten

theorem toInt_ofInt_length {payload : Bytes} (hlength : payload.length ≤ MAX_LENGTH) :
    (Int16.ofInt payload.length).toInt = payload.length := by
  have hbound : MAX_LENGTH = 2048 := rfl
  exact toInt_ofInt_of_range (by omega) (by omega)

theorem isFrame_messageBytes {msg : Int16 × Bytes} (hlength : msg.2.length ≤ MAX_LENGTH) :
    wire.IsFrame (messageBytes msg) :=
  isFrame_bytes msg.1 (toInt_ofInt_length hlength) hlength le_rfl

/-- **Decoding a message.** A frame that was sent gives the identifier and the payload back. -/
theorem decode_messageBytes {msg : Int16 × Bytes} (hlength : msg.2.length ≤ MAX_LENGTH) :
    decode (messageBytes msg) = msg := by
  rw [messageBytes, bytes_eq_header_append msg.1 (toInt_ofInt_length hlength) hlength le_rfl,
    decode_header_append, List.take_length]

end QuickChat
