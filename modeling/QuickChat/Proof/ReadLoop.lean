import QuickChat.Chat.CSession
import QuickChat.Proof.Wire

/-!
# What the read loop has done with the bytes received so far

After any completions the bytes received are the frames of the messages posted, re-encoded, and then
the part of one more frame; where the loop is in that part is one of four phases: waiting for the
rest of a header, waiting for the rest of a body, ended because the header was refused, or ended
because a read failed. Every access so far is in range.

Every completion keeps this, except the last byte of a header that announces length -1: then the
node's block is empty, its terminating NUL is written before it, and the loop goes on to ask for
`2 ^ 64 - 1` bytes. What happens after that is not described further, only that it has happened.
-/

namespace QuickChat

open Memory

/-! ### The bytes received -/

theorem received_concat_ok (completions : List Completion) (chunk : Bytes) :
    received (completions ++ [.ok chunk]) = received completions ++ chunk := by
  simp [received]

theorem received_concat_error (completions : List Completion) :
    received (completions ++ [.error]) = received completions := by
  simp [received]

theorem received_append (first second : List Completion) :
    received (first ++ second) = received first ++ received second := by
  simp [received]

def RecvNode.encode (node : RecvNode) : Bytes :=
  SendNode.bytes node.data_ node.total_len_ node.msg_id_

def RecvNode.Accepted (node : RecvNode) : Prop :=
  0 ≤ node.total_len_.toInt ∧ node.total_len_.toInt ≤ MAX_LENGTH

theorem RecvNode.Accepted.bytes_le {node : RecvNode} (haccepted : node.Accepted) :
    node.total_len_.toInt.toNat ≤ node.data_.length := by
  have hsize := node.size_eq
  have := haccepted.1
  omega

theorem RecvNode.Accepted.encode_eq {node : RecvNode} (haccepted : node.Accepted) :
    node.encode = header node.msg_id_ node.total_len_ ++ node.content := by
  obtain ⟨hlow, hhigh⟩ := haccepted
  rw [RecvNode.encode, bytes_eq_header_append (n := node.total_len_.toInt.toNat) node.msg_id_
    (by omega) (by omega) (RecvNode.Accepted.bytes_le ⟨hlow, hhigh⟩), MsgNode.content,
    size_t_toInt hlow]

/-- The identifier and the contents of a node: what was sent to make it. -/
def RecvNode.message (node : RecvNode) : Int16 × Bytes := (node.msg_id_, node.content)

theorem RecvNode.Accepted.decode_encode {node : RecvNode} (haccepted : node.Accepted) :
    decode node.encode = node.message := by
  rw [haccepted.encode_eq, decode_header_append, RecvNode.message]

theorem RecvNode.Accepted.isFrame_encode {node : RecvNode} (haccepted : node.Accepted) :
    wire.IsFrame node.encode := by
  obtain ⟨hlow, hhigh⟩ := haccepted
  exact isFrame_bytes (n := node.total_len_.toInt.toNat) node.msg_id_ (by omega) (by omega)
    (RecvNode.Accepted.bytes_le ⟨hlow, hhigh⟩)

namespace CSession

def reencoded (session : CSession) : Bytes := (session.posted.map RecvNode.encode).flatten

/-! ### The invariant -/

inductive Phase (completions : List Completion) (session : CSession) (part : Bytes) : Prop where
  | head (hpending : session.pending = some ⟨.head, part.length, HEAD_TOTAL_LEN⟩)
      (hshort : part.length < HEAD_TOTAL_LEN) (hdata : session.data_.take part.length = part)
  | body (n read_len : Nat) (node : RecvNode)
      (hpending : session.pending = some ⟨.body n, read_len, n⟩)
      (hlength : part.length = HEAD_TOTAL_LEN + read_len)
      (hunfinished : read_len < n ∨ read_len = 0 ∧ n = 0)
      (hannounced : wire.bodyLen (part.take HEAD_TOTAL_LEN) = some n)
      (hnode : session.recv_msg_node_ = some node)
      (hid : node.msg_id_ = headerId (part.take HEAD_TOTAL_LEN))
      (hlen : node.total_len_ = headerLen (part.take HEAD_TOTAL_LEN))
      (hdata : session.data_.take read_len = part.drop HEAD_TOTAL_LEN)
  | refused (hpending : session.pending = none) (hlength : part.length = HEAD_TOTAL_LEN)
      (hlen : MAX_LENGTH < (headerLen part).toInt ∨ (headerLen part).toInt < -1)
  | failed (hpending : session.pending = none) (herror : .error ∈ completions)
      (hshort : part.length < HEAD_TOTAL_LEN ∨ ∃ n,
        wire.bodyLen (part.take HEAD_TOTAL_LEN) = some n ∧ part.length < HEAD_TOTAL_LEN + n)

structure Sound (session : CSession) : Prop where
  data_len : session.data_.length = MAX_LENGTH
  head_len : session.recv_head_node_.total_len_ = 4
  accepted : ∀ node ∈ session.posted, node.Accepted
  inRange : ∀ access ∈ session.accesses, access.InRange

/-- The invariant of the read loop while no header has announced length -1. -/
structure Reads (completions : List Completion) (session : CSession) : Prop extends Sound session where
  paced : session.pending ≠ none →
    completions.length ≤ (received completions).length + session.posted.length
  phase : ∃ part, received completions = session.reencoded ++ part ∧ Phase completions session part

/-- A header with length -1 has been read, and an access was out of range. -/
structure Wild (completions : List Completion) (session : CSession) : Prop where
  header : ∃ header, wire.ReadsHeader (received completions) header ∧
    (headerLen header).toInt = -1
  access : ∃ access ∈ session.accesses, ¬ access.InRange

/-! ### Starting a read -/

variable {completions : List Completion} {session : CSession}

theorem Sound.log (hsound : Sound session) {accesses : List Access}
    (hnew : ∀ access ∈ accesses, access.InRange) : Sound (session.log accesses) := by
  refine ⟨hsound.data_len, hsound.head_len, hsound.accepted, fun access hmem => ?_⟩
  rcases List.mem_append.mp hmem with hold | hadded
  · exact hsound.inRange access hold
  · exact hnew access hadded

theorem Sound.store (hsound : Sound session) (offset : Int) (chunk : Bytes) :
    Sound { session with data_ := store session.data_ offset chunk } :=
  ⟨by rw [length_store, hsound.data_len], hsound.head_len, hsound.accepted, hsound.inRange⟩

theorem Sound.isFrame_of_mem (hsound : Sound session) {frame : Bytes}
    (hmem : frame ∈ session.posted.map RecvNode.encode) : wire.IsFrame frame := by
  obtain ⟨node, hnode, rfl⟩ := List.mem_map.mp hmem
  exact (hsound.accepted node hnode).isFrame_encode

theorem Sound.setNode (hsound : Sound session) (node : RecvNode) :
    Sound { session with recv_msg_node_ := some node } :=
  ⟨hsound.data_len, hsound.head_len, hsound.accepted, hsound.inRange⟩

theorem size_t_sub {total_len read_len : Nat} (hle : read_len ≤ total_len)
    (hmax : total_len ≤ MAX_LENGTH) : size_t ((total_len : Int) - read_len) = total_len - read_len := by
  have hbound : MAX_LENGTH = 2048 := rfl
  rw [size_t_of_nonneg (by omega) (by omega)]
  omega

theorem requested_eq (handler : Handler) {total_len read_len : Nat} (hle : read_len ≤ total_len)
    (hmax : total_len ≤ MAX_LENGTH) :
    ReadOp.requested ⟨handler, read_len, total_len⟩ = total_len - read_len :=
  size_t_sub hle hmax

theorem Sound.asyncReadLen (hsound : Sound session) (handler : Handler) {read_len total_len : Nat}
    (hle : read_len ≤ total_len) (hmax : total_len ≤ MAX_LENGTH) :
    Sound (session.asyncReadLen handler read_len total_len) := by
  have hlog : Sound (session.log
      [.readSome ⟨MAX_LENGTH, read_len, ReadOp.requested ⟨handler, read_len, total_len⟩⟩]) := by
    refine hsound.log ?_
    intro access hmem
    rw [List.mem_singleton] at hmem
    subst hmem
    simp only [Access.InRange, Span.InRange, requested_eq handler hle hmax]
    omega
  exact ⟨hlog.data_len, hlog.head_len, hlog.accepted, hlog.inRange⟩

theorem Sound.asyncReadFull (hsound : Sound session) (handler : Handler) {maxLength : Nat}
    (hmax : maxLength ≤ MAX_LENGTH) : Sound (session.asyncReadFull handler maxLength) := by
  have hlog : Sound (session.log [.write ⟨MAX_LENGTH, 0, MAX_LENGTH⟩]) :=
    hsound.log (by simp [Access.InRange, Span.InRange])
  have hclear : Sound { session.log [.write ⟨MAX_LENGTH, 0, MAX_LENGTH⟩] with
      data_ := List.replicate MAX_LENGTH 0 } :=
    ⟨List.length_replicate, hlog.head_len, hlog.accepted, hlog.inRange⟩
  exact hclear.asyncReadLen handler (Nat.zero_le _) hmax

theorem Sound.awaitHead (hsound : Sound session)
    (hreceived : received completions = session.reencoded)
    (hpaced : completions.length ≤ (received completions).length + session.posted.length) :
    Reads completions session.AsyncReadHead where
  toSound := hsound.asyncReadFull .head (by decide)
  paced _ := hpaced
  phase := ⟨[], by rw [List.append_nil]; exact hreceived, .head rfl (by decide) rfl⟩

/-- Behind a legal header the loop reads its body, unless there is none to read. -/
theorem Sound.awaitBody (hsound : Sound session) {part : Bytes} {node : RecvNode} {n : Nat}
    (hlength : part.length = HEAD_TOTAL_LEN) (hannounced : wire.bodyLen part = some n)
    (hnode : session.recv_msg_node_ = some node) (hid : node.msg_id_ = headerId part)
    (hlen : node.total_len_ = headerLen part)
    (hreceived : received completions = session.reencoded ++ part)
    (hpaced : completions.length ≤ (received completions).length + session.posted.length) :
    Reads completions (session.AsyncReadBody n) := by
  obtain ⟨-, hmax⟩ := wire_bodyLen_eq_some.mp hannounced
  have hbound : MAX_LENGTH = 2048 := rfl
  have hsize : size_t (n : Int) = n := by
    rw [size_t_of_nonneg (by omega) (by omega), Int.toNat_natCast]
  have htake : part.take HEAD_TOTAL_LEN = part := List.take_of_length_le hlength.le
  rw [AsyncReadBody, hsize]
  refine ⟨hsound.asyncReadFull _ hmax, fun _ => hpaced, part, hreceived, ?_⟩
  refine .body n 0 node rfl hlength (by omega) ?_ hnode ?_ ?_ ?_
  · rwa [htake]
  · rwa [htake]
  · rwa [htake]
  · rw [List.take_zero, List.drop_of_length_le hlength.le]

/-! ### Accesses are not forgotten -/

section Accesses

variable (session)

theorem accesses_subset_log (accesses : List Access) :
    session.accesses ⊆ (session.log accesses).accesses := List.subset_append_left _ _

theorem accesses_subset_asyncReadLen (handler : Handler) (read_len total_len : Nat) :
    session.accesses ⊆ (session.asyncReadLen handler read_len total_len).accesses :=
  accesses_subset_log session _

theorem accesses_subset_asyncReadFull (handler : Handler) (maxLength : Nat) :
    session.accesses ⊆ (session.asyncReadFull handler maxLength).accesses := by
  refine List.Subset.trans (accesses_subset_log session [.write ⟨MAX_LENGTH, 0, MAX_LENGTH⟩]) ?_
  exact accesses_subset_asyncReadLen { session.log _ with data_ := _ } _ _ _

theorem accesses_subset_onHead (ec : Bool) (bytes_transfered : Nat) :
    session.accesses ⊆ (session.onHead ec bytes_transfered).accesses := by
  unfold onHead
  split
  · exact List.Subset.refl _
  split
  · exact List.Subset.refl _
  dsimp only
  split
  · exact List.subset_append_left _ _
  split
  · exact List.subset_append_left _ _
  · refine List.Subset.trans ?_ (accesses_subset_asyncReadFull _ _ _)
    intro access hmem
    exact List.mem_append_left _ (List.mem_append_left _ hmem)

theorem accesses_subset_onBody (total_len : Int) (ec : Bool) (bytes_transfered : Nat) :
    session.accesses ⊆ (session.onBody total_len ec bytes_transfered).accesses := by
  unfold onBody
  split
  · exact List.Subset.refl _
  split
  · exact List.Subset.refl _
  split
  · exact accesses_subset_log session _
  · refine List.Subset.trans ?_ (accesses_subset_asyncReadFull _ _ _)
    exact List.subset_append_left _ _

end Accesses

/-- The accesses are only ever added to. -/
theorem accesses_subset_step {completion : Completion} {next : CSession}
    (hstep : step session completion = some next) : session.accesses ⊆ next.accesses := by
  have hcallback (session : CSession) (handler : Handler) (ec : Bool) (n : Nat) :
      session.accesses ⊆ (session.callback handler ec n).accesses := by
    cases handler with
    | head => exact accesses_subset_onHead session ec n
    | body total_len => exact accesses_subset_onBody session total_len ec n
  unfold step at hstep
  split at hstep
  · exact absurd hstep (by simp)
  split at hstep
  · rw [Option.some.injEq] at hstep
    subst hstep
    cases completion with
    | error => exact hcallback { session with pending := none } _ _ _
    | ok chunk =>
        simp only [onReadSome]
        split
        · exact hcallback { session with pending := none, data_ := _ } _ _ _
        · exact accesses_subset_asyncReadLen { session with pending := none, data_ := _ } _ _ _
  · exact absurd hstep (by simp)

/-! ### A whole header -/

def announced (session : CSession) (completion : Completion) : Option Int16 :=
  match session.pending, completion with
  | some ⟨.head, read_len, _⟩, .ok chunk =>
      if HEAD_TOTAL_LEN ≤ read_len + chunk.length then
        some (headerLen ((store session.data_ read_len chunk).take HEAD_TOTAL_LEN))
      else none
  | _, _ => none

theorem loadShort_of_take {block header : Bytes} (offset : Nat) (hoffset : offset + 2 ≤ 4)
    (htake : block.take 4 = header) : loadShort block offset = loadShort header offset := by
  rw [← htake, loadShort, loadShort]
  simp only [List.getD_eq_getElem?_getD, List.getElem?_take]
  rw [if_pos (by omega), if_pos (by omega)]

def parseHead (session : CSession) : CSession :=
  { session.log [.write ⟨5, 0, 4⟩, .read ⟨MAX_LENGTH, 0, 4⟩, .write ⟨5, 0, 4⟩, .read ⟨5, 0, 2⟩,
      .read ⟨5, 2, 2⟩] with
    recv_head_node_ := session.recv_head_node_.Clear.fill session.data_ HEAD_TOTAL_LEN }

/-- The header is copied out of `data_` before anything is decided about it. -/
theorem onHead_eq_parseHead (hdata_len : session.data_.length = MAX_LENGTH)
    (hhead_len : session.recv_head_node_.total_len_ = 4) {header : Bytes}
    (hdata : session.data_.take HEAD_TOTAL_LEN = header) :
    session.onHead false HEAD_TOTAL_LEN =
      if (headerLen header).toInt > MAX_LENGTH then session.parseHead.ClearSession
      else
        match RecvNode.new (headerLen header) (headerId header) with
        | .error _ => session.parseHead
        | .ok (node, writes) =>
            { session.parseHead.log
                (.allocate (headerLen header) node.data_.length :: writes.map .write) with
              recv_msg_node_ := some node }.AsyncReadBody (headerLen header).toInt := by
  have hsize := session.recv_head_node_.size_eq
  rw [hhead_len] at hsize
  have hsize : session.recv_head_node_.data_.length = 5 := by
    have h4 : (4 : Int16).toInt = 4 := by decide
    omega
  have hclear : session.recv_head_node_.Clear.data_.length = 5 := by
    rw [MsgNode.Clear, length_memcpy, hsize]
  have hfill : (session.recv_head_node_.Clear.fill session.data_ HEAD_TOTAL_LEN).data_.take 4
      = header := by
    have htake := take_memcpy session.recv_head_node_.Clear.data_ session.data_ 0 4 (by omega)
      (by rw [hdata_len]; decide)
    rw [Nat.zero_add, List.take_zero, List.nil_append] at htake
    exact htake.trans hdata
  have hsize_t : size_t (4 : Int16).toInt = 4 := by decide
  have hid := congrArg swap (loadShort_of_take 0 (by decide) hfill)
  have hlen := congrArg swap (loadShort_of_take HEAD_ID_LEN (by decide) hfill)
  rw [onHead, if_neg Bool.false_ne_true, if_neg (Nat.lt_irrefl _), hsize, hhead_len, hsize_t,
    headerId, headerLen, ← hid, ← hlen]
  rfl

theorem Sound.parseHead (hsound : Sound session) : Sound session.parseHead := by
  have hlog := hsound.log (show ∀ access ∈ [Access.write ⟨5, 0, 4⟩, .read ⟨MAX_LENGTH, 0, 4⟩,
    .write ⟨5, 0, 4⟩, .read ⟨5, 0, 2⟩, .read ⟨5, 2, 2⟩], access.InRange by decide)
  exact ⟨hlog.data_len, hsound.head_len, hlog.accepted, hlog.inRange⟩

theorem onHead_eq (hsound : Sound session) {header : Bytes}
    (hdata : session.data_.take HEAD_TOTAL_LEN = header) :
    ∃ next : CSession, Sound next ∧ next.pending = session.pending ∧
      next.posted = session.posted ∧
      session.onHead false HEAD_TOTAL_LEN =
        if (headerLen header).toInt > MAX_LENGTH then next.ClearSession
        else
          match RecvNode.new (headerLen header) (headerId header) with
          | .error _ => next
          | .ok (node, writes) =>
              { next.log (.allocate (headerLen header) node.data_.length :: writes.map .write) with
                recv_msg_node_ := some node }.AsyncReadBody (headerLen header).toInt :=
  ⟨session.parseHead, hsound.parseHead, rfl, rfl,
    onHead_eq_parseHead hsound.data_len hsound.head_len hdata⟩

theorem readsHeader_part (hsound : Sound session) {part : Bytes}
    (hlength : part.length = HEAD_TOTAL_LEN)
    (hreceived : received completions = session.reencoded ++ part) :
    wire.ReadsHeader (received completions) part := by
  refine ⟨hlength, session.posted.map RecvNode.encode, [], fun _ => hsound.isFrame_of_mem, ?_⟩
  rw [List.append_nil]
  exact hreceived

/-- **A whole header.** It is refused, or its node awaits a body of the announced length. -/
theorem Sound.onHead (hsound : Sound session) (hpending : session.pending = none) {part : Bytes}
    (hlength : part.length = HEAD_TOTAL_LEN) (hdata : session.data_.take HEAD_TOTAL_LEN = part)
    (hreceived : received completions = session.reencoded ++ part)
    (hpaced : completions.length ≤ (received completions).length + session.posted.length) :
    Reads completions (session.onHead false HEAD_TOTAL_LEN) ∨
      (headerLen part).toInt = -1 ∧ Wild completions (session.onHead false HEAD_TOTAL_LEN) := by
  obtain ⟨next, hnext, hnextPending, hposted, heq⟩ := onHead_eq hsound hdata
  rw [hpending] at hnextPending
  have hreceivedNext : received completions = next.reencoded ++ part := by
    rw [hreceived, reencoded, reencoded, hposted]
  rw [heq]
  by_cases hmax : (headerLen part).toInt > MAX_LENGTH
  · rw [if_pos hmax]
    exact .inl ⟨⟨hnext.data_len, hnext.head_len, hnext.accepted, hnext.inRange⟩,
      fun h => absurd hnextPending h, part, hreceivedNext, .refused hnextPending hlength (.inl hmax)⟩
  rw [if_neg hmax]
  by_cases hthrow : (headerLen part).toInt < -1
  · rw [RecvNode.new_of_lt _ hthrow]
    exact .inl ⟨hnext, fun h => absurd hnextPending h, part, hreceivedNext,
      .refused hnextPending hlength (.inr hthrow)⟩
  obtain ⟨node, hnode, hlen, hid⟩ := RecvNode.new_of_le (headerId part) (not_lt.mp hthrow)
  have hsize := node.size_eq
  rw [hlen] at hsize
  simp only [hnode]
  by_cases hneg : (headerLen part).toInt = -1
  · refine .inr ⟨hneg, ⟨part, readsHeader_part hsound hlength hreceived, hneg⟩,
      .allocate (headerLen part) node.data_.length, ?_, ?_⟩
    · exact accesses_subset_asyncReadFull _ _ _ (List.mem_append_right _ List.mem_cons_self)
    · simp only [Access.InRange]
      omega
  · obtain ⟨n, hn⟩ : ∃ n : Nat, (headerLen part).toInt = n := ⟨(headerLen part).toInt.toNat, by omega⟩
    have hbody : Sound (next.log (.allocate (headerLen part) node.data_.length ::
        [⟨node.data_.length, (headerLen part).toInt, 1⟩].map .write)) := by
      refine hnext.log ?_
      intro access hmem
      simp only [List.map_cons, List.map_nil, List.mem_cons, List.not_mem_nil, or_false] at hmem
      rcases hmem with rfl | rfl
      · simp only [Access.InRange]
        omega
      · simp only [Access.InRange, Span.InRange]
        omega
    rw [hn] at hbody ⊢
    have hbodyLen := wire_bodyLen_eq_some.mpr ⟨hn, by omega⟩
    refine .inl ((hbody.setNode node).awaitBody hlength hbodyLen rfl hid hlen hreceivedNext ?_)
    rwa [← hposted] at hpaced

/-! ### A whole body -/

/-- **A whole body.** Its node is posted as it was sent, and the next header is awaited. -/
theorem Sound.onBody (hsound : Sound session) {part : Bytes} {n : Nat} {node : RecvNode}
    (hlength : part.length = HEAD_TOTAL_LEN + n)
    (hannounced : wire.bodyLen (part.take HEAD_TOTAL_LEN) = some n)
    (hnode : session.recv_msg_node_ = some node)
    (hid : node.msg_id_ = headerId (part.take HEAD_TOTAL_LEN))
    (hlen : node.total_len_ = headerLen (part.take HEAD_TOTAL_LEN))
    (hdata : session.data_.take n = part.drop HEAD_TOTAL_LEN)
    (hreceived : received completions = session.reencoded ++ part)
    (hpaced : completions.length ≤ (received completions).length + session.posted.length + 1) :
    Reads completions (session.onBody n false n) := by
  obtain ⟨htotal, hmax⟩ := wire_bodyLen_eq_some.mp hannounced
  rw [← hlen] at htotal
  have hbound : MAX_LENGTH = 2048 := rfl
  have hsize := node.size_eq
  rw [htotal] at hsize
  have hsize_t : size_t (n : Int) = n := by
    rw [size_t_of_nonneg (by omega) (by omega), Int.toNat_natCast]
  have hcontent : (node.fill session.data_ n).terminate.content = part.drop HEAD_TOTAL_LEN := by
    have hfill := MsgNode.content_terminate_fill node.toMsgNode session.data_ (by omega)
      (by rw [hsound.data_len]; omega)
    rwa [htotal, Int.toNat_natCast, hdata] at hfill
  simp only [CSession.onBody, if_neg Bool.false_ne_true, hsize_t, if_neg (Nat.lt_irrefl n), hnode]
  set posted : RecvNode := { node with
    toMsgNode := { (node.fill session.data_ n).terminate with
      cur_len_ := Int16.ofInt (node.cur_len_.toInt + n) } } with hposted
  have haccepted : posted.Accepted := by
    change 0 ≤ node.total_len_.toInt ∧ node.total_len_.toInt ≤ MAX_LENGTH
    omega
  have hencode : posted.encode = part := by
    rw [haccepted.encode_eq]
    change header node.msg_id_ node.total_len_ ++ (node.fill session.data_ n).terminate.content = part
    have htake : (part.take HEAD_TOTAL_LEN).length = 4 := by
      rw [List.length_take, hlength, Nat.min_eq_left (Nat.le_add_right _ _)]
      rfl
    rw [hcontent, hid, hlen, header_of_length htake, List.take_append_drop]
  have hlog : Sound (session.log [.read ⟨MAX_LENGTH, 0, n⟩, .write ⟨node.data_.length, 0, n⟩,
      .write ⟨node.data_.length, node.total_len_.toInt, 1⟩]) := by
    refine hsound.log ?_
    intro access hmem
    simp only [List.mem_cons, List.not_mem_nil, or_false] at hmem
    rcases hmem with rfl | rfl | rfl <;> simp only [Access.InRange, Span.InRange] <;> omega
  refine Sound.awaitHead ⟨hlog.data_len, hlog.head_len, ?_, hlog.inRange⟩ ?_ ?_
  · intro other hmem
    rcases List.mem_append.mp hmem with hold | hadded
    · exact hsound.accepted other hold
    · rw [List.mem_singleton.mp hadded]
      exact haccepted
  · rw [hreceived]
    simp only [reencoded, PostMsgToQue, CSession.log, List.map_append, List.map_cons, List.map_nil,
      List.flatten_append, List.flatten_cons, List.flatten_nil, List.append_nil, hencode]
  · simp only [PostMsgToQue, CSession.log, List.length_append, List.length_singleton]
    omega

/-! ### One completion -/

theorem step_eq_some {completion : Completion} {op : ReadOp} {next : CSession}
    (hpending : session.pending = some op) :
    step session completion = some next ↔
      Legal op completion ∧ { session with pending := none }.onReadSome op completion = next := by
  simp only [step, hpending, Option.ite_none_right_eq_some, Option.some.injEq]

theorem Sound.clearPending (hsound : Sound session) : Sound { session with pending := none } :=
  ⟨hsound.data_len, hsound.head_len, hsound.accepted, hsound.inRange⟩

/-- A read that fails leaves the frame at hand unposted. -/
theorem Reads.of_error (hsound : Sound session) {part : Bytes}
    (hreceived : received completions = session.reencoded ++ part)
    (hshort : part.length < HEAD_TOTAL_LEN ∨ ∃ n,
      wire.bodyLen (part.take HEAD_TOTAL_LEN) = some n ∧ part.length < HEAD_TOTAL_LEN + n)
    (handler : Handler) (n : Nat) :
    Reads (completions ++ [.error]) ({ session with pending := none }.callback handler true n) := by
  have hsound : Sound ({ session with pending := none } : CSession).Close.ClearSession :=
    ⟨hsound.data_len, hsound.head_len, hsound.accepted, hsound.inRange⟩
  have hreads : Reads (completions ++ [.error])
      ({ session with pending := none } : CSession).Close.ClearSession :=
    ⟨hsound, fun h => absurd rfl h, part, by rw [received_concat_error]; exact hreceived,
      .failed rfl (by simp) hshort⟩
  cases handler with
  | head => exact hreads
  | body total_len => exact hreads

theorem take_data_store (hsound : Sound session) {sofar chunk : Bytes} {read_len total_len : Nat}
    (hdata : session.data_.take read_len = sofar) (hmax : total_len ≤ MAX_LENGTH)
    (hchunk : read_len + chunk.length ≤ total_len) :
    (store session.data_ read_len chunk).take (read_len + chunk.length) = sofar ++ chunk := by
  have hlen := hsound.data_len
  rw [take_store session.data_ chunk read_len (by omega), hdata]

theorem received_chunk {part : Bytes} (chunk : Bytes)
    (hreceived : received completions = session.reencoded ++ part) :
    received (completions ++ [.ok chunk]) = session.reencoded ++ (part ++ chunk) := by
  rw [received_concat_ok, hreceived, List.append_assoc]

theorem paced_chunk (chunk : Bytes)
    (hpaced : completions.length ≤ (received completions).length + session.posted.length) :
    (completions ++ [Completion.ok chunk]).length + chunk.length
      ≤ (received (completions ++ [.ok chunk])).length + session.posted.length + 1 := by
  rw [received_concat_ok, List.length_append, List.length_append, List.length_singleton]
  omega

theorem Sound.take_part_chunk (hsound : Sound session) {part chunk : Bytes}
    (hshort : part.length < HEAD_TOTAL_LEN) (hdata : session.data_.take part.length = part)
    (hlegal : Legal ⟨.head, part.length, HEAD_TOTAL_LEN⟩ (.ok chunk)) :
    (part ++ chunk).length ≤ HEAD_TOTAL_LEN ∧
      (Memory.store session.data_ part.length chunk).take (part ++ chunk).length = part ++ chunk := by
  have hle : chunk.length ≤ ReadOp.requested ⟨.head, part.length, HEAD_TOTAL_LEN⟩ := hlegal.1
  rw [requested_eq .head hshort.le (by decide)] at hle
  have hroom : part.length + chunk.length ≤ HEAD_TOTAL_LEN := by omega
  rw [List.length_append]
  exact ⟨hroom, take_data_store hsound hdata (by decide) hroom⟩

theorem announced_eq {part chunk : Bytes}
    (hpending : session.pending = some ⟨.head, part.length, HEAD_TOTAL_LEN⟩)
    (hlength : (part ++ chunk).length = HEAD_TOTAL_LEN)
    (htake : (store session.data_ part.length chunk).take HEAD_TOTAL_LEN = part ++ chunk) :
    session.announced (.ok chunk) = some (headerLen (part ++ chunk)) := by
  rw [List.length_append] at hlength
  simp only [announced, hpending, if_pos hlength.ge, htake]

/-- Bytes of a header go where the next ones of it belong. -/
theorem Reads.head_chunk (hreads : Reads completions session) {part chunk : Bytes}
    (hreceived : received completions = session.reencoded ++ part)
    (hpending : session.pending = some ⟨.head, part.length, HEAD_TOTAL_LEN⟩)
    (hshort : part.length < HEAD_TOTAL_LEN) (hdata : session.data_.take part.length = part)
    (hlegal : Legal ⟨.head, part.length, HEAD_TOTAL_LEN⟩ (.ok chunk)) :
    let next := { session with pending := none }.onReadSome ⟨.head, part.length, HEAD_TOTAL_LEN⟩
      (.ok chunk)
    Reads (completions ++ [.ok chunk]) next ∨
      (∃ len ∈ session.announced (.ok chunk), len.toInt = -1) ∧
        Wild (completions ++ [.ok chunk]) next := by
  have hhead : HEAD_TOTAL_LEN = 4 := rfl
  obtain ⟨hroom, htake⟩ := hreads.toSound.take_part_chunk hshort hdata hlegal
  obtain ⟨hle, hempty⟩ := hlegal
  rw [requested_eq .head hshort.le (by decide)] at hle hempty
  have hchunk : 0 < chunk.length := List.length_pos_of_ne_nil fun h => by
    have := hempty h
    omega
  have hreceived' := received_chunk chunk hreceived
  have hpaced := paced_chunk chunk (hreads.paced (by rw [hpending]; exact Option.some_ne_none _))
  have hpaced' : (completions ++ [Completion.ok chunk]).length
      ≤ (received (completions ++ [.ok chunk])).length + session.posted.length := by omega
  have hsound := hreads.toSound.clearPending.store part.length chunk
  have hlength : (part ++ chunk).length = part.length + chunk.length := List.length_append
  simp only [onReadSome]
  by_cases hfull : part.length + chunk.length ≥ HEAD_TOTAL_LEN
  · rw [if_pos hfull]
    have htotal : (part ++ chunk).length = HEAD_TOTAL_LEN := by omega
    rw [htotal] at htake
    rw [← hlength, htotal]
    refine (hsound.onHead rfl htotal htake hreceived' hpaced').imp_right ?_
    rintro ⟨hneg, hwild⟩
    exact ⟨⟨_, announced_eq hpending htotal htake, hneg⟩, hwild⟩
  · rw [if_neg hfull]
    refine .inl ⟨hsound.asyncReadLen _ (by omega) (by decide), fun _ => hpaced',
      part ++ chunk, hreceived', .head ?_ ?_ htake⟩
    · rw [hlength]
      rfl
    · omega

/-- The same of a body; whole, it is copied into its node. -/
theorem Reads.body_chunk (hreads : Reads completions session) {part chunk : Bytes} {n read_len : Nat}
    {node : RecvNode} (hreceived : received completions = session.reencoded ++ part)
    (hpending : session.pending = some ⟨.body n, read_len, n⟩)
    (hlength : part.length = HEAD_TOTAL_LEN + read_len)
    (hunfinished : read_len < n ∨ read_len = 0 ∧ n = 0)
    (hannounced : wire.bodyLen (part.take HEAD_TOTAL_LEN) = some n)
    (hnode : session.recv_msg_node_ = some node)
    (hid : node.msg_id_ = headerId (part.take HEAD_TOTAL_LEN))
    (hlen : node.total_len_ = headerLen (part.take HEAD_TOTAL_LEN))
    (hdata : session.data_.take read_len = part.drop HEAD_TOTAL_LEN)
    (hlegal : Legal ⟨.body n, read_len, n⟩ (.ok chunk)) :
    Reads (completions ++ [.ok chunk])
      ({ session with pending := none }.onReadSome ⟨.body n, read_len, n⟩ (.ok chunk)) := by
  obtain ⟨-, hmax⟩ := wire_bodyLen_eq_some.mp hannounced
  have hread : read_len ≤ n := by omega
  obtain ⟨hle, hempty⟩ := hlegal
  rw [requested_eq _ hread hmax] at hle hempty
  have htake := take_data_store hreads.toSound hdata hmax
    (show read_len + chunk.length ≤ n by omega)
  have hreceived' := received_chunk chunk hreceived
  have hpaced := paced_chunk chunk (hreads.paced (by rw [hpending]; exact Option.some_ne_none _))
  have htakeHead : (part ++ chunk).take HEAD_TOTAL_LEN = part.take HEAD_TOTAL_LEN :=
    List.take_append_of_le_length (by omega)
  have hdropHead : (part ++ chunk).drop HEAD_TOTAL_LEN = part.drop HEAD_TOTAL_LEN ++ chunk :=
    List.drop_append_of_le_length (by omega)
  have hlength' : (part ++ chunk).length = HEAD_TOTAL_LEN + (read_len + chunk.length) := by
    rw [List.length_append]
    omega
  have hsound := hreads.toSound.clearPending.store read_len chunk
  rw [← htakeHead] at hannounced hid hlen
  rw [← hdropHead] at htake
  simp only [onReadSome]
  by_cases hfull : read_len + chunk.length ≥ n
  · rw [if_pos hfull]
    have htotal : read_len + chunk.length = n := by omega
    have hpaced' : (completions ++ [Completion.ok chunk]).length
        ≤ (received (completions ++ [.ok chunk])).length + session.posted.length + 1 := by omega
    rw [htotal] at htake hlength' ⊢
    exact hsound.onBody hlength' hannounced hnode hid hlen htake hreceived' hpaced'
  · rw [if_neg hfull]
    have hchunk : 0 < chunk.length := List.length_pos_of_ne_nil fun h => by
      have := hempty h
      omega
    have hpaced' : (completions ++ [Completion.ok chunk]).length
        ≤ (received (completions ++ [.ok chunk])).length + session.posted.length := by omega
    exact ⟨hsound.asyncReadLen _ (by omega) hmax, fun _ => hpaced', part ++ chunk, hreceived',
      .body n (read_len + chunk.length) node rfl hlength' (by omega) hannounced hnode hid hlen htake⟩

/-- **One completion.** It keeps the invariant, or it was the last byte of a header of length -1. -/
theorem Reads.step {completion : Completion} {next : CSession} (hreads : Reads completions session)
    (hstep : step session completion = some next) :
    Reads (completions ++ [completion]) next ∨
      (∃ len ∈ session.announced completion, len.toInt = -1) ∧
        Wild (completions ++ [completion]) next := by
  obtain ⟨part, hreceived, hphase⟩ := hreads.phase
  cases hphase with
  | refused hpending => simp [CSession.step, hpending] at hstep
  | failed hpending => simp [CSession.step, hpending] at hstep
  | head hpending hshort hdata =>
      obtain ⟨hlegal, rfl⟩ := (step_eq_some hpending).mp hstep
      cases completion with
      | error =>
          exact .inl (Reads.of_error hreads.toSound hreceived (.inl hshort) .head part.length)
      | ok chunk => exact hreads.head_chunk hreceived hpending hshort hdata hlegal
  | body n read_len node hpending hlength hunfinished hannounced hnode hid hlen hdata =>
      obtain ⟨hlegal, rfl⟩ := (step_eq_some hpending).mp hstep
      obtain ⟨-, hmax⟩ := wire_bodyLen_eq_some.mp hannounced
      cases completion with
      | error =>
          have hread : read_len ≤ n := by omega
          have hrequested : ReadOp.requested ⟨.body n, read_len, n⟩ ≠ 0 := hlegal
          rw [requested_eq _ hread hmax] at hrequested
          exact .inl (Reads.of_error hreads.toSound hreceived
            (.inr ⟨n, hannounced, by omega⟩) (.body n) read_len)
      | ok chunk =>
          exact .inl (hreads.body_chunk hreceived hpending hlength hunfinished hannounced hnode hid
            hlen hdata hlegal)

/-! ### Every run -/

theorem Wild.step {completion : Completion} {next : CSession} (hwild : Wild completions session)
    (hstep : step session completion = some next) : Wild (completions ++ [completion]) next := by
  obtain ⟨⟨header, hheader, hneg⟩, access, hmem, hout⟩ := hwild
  refine ⟨⟨header, ?_, hneg⟩, access, accesses_subset_step hstep hmem, hout⟩
  rw [received_append]
  exact hheader.append _

theorem reads_init : Reads [] init.Start := by
  have hsound : Sound init := ⟨List.length_replicate, rfl, by simp [init], by simp [init]⟩
  exact hsound.awaitHead rfl (Nat.zero_le _)

theorem reads_or_wild_step {completion : Completion} {next : CSession}
    (hstate : Reads completions session ∨ Wild completions session)
    (hstep : step session completion = some next) :
    Reads (completions ++ [completion]) next ∨ Wild (completions ++ [completion]) next := by
  rcases hstate with hreads | hwild
  · exact (hreads.step hstep).imp_right And.right
  · exact .inr (hwild.step hstep)

/-- **Every run.** The invariant holds, or a header of length -1 has sent the loop wild. -/
theorem reads_or_wild {session : CSession} (hread : read completions = some session) :
    Reads completions session ∨ Wild completions session :=
  Machine.run_history (P := fun completions session => Reads completions session ∨
      Wild completions session) (.inl reads_init)
    (fun _ _ _ _ hstate hstep => reads_or_wild_step hstate hstep) hread

/-- While the invariant holds, no header that has been read announces -1. -/
theorem Reads.headerLen_ne (hreads : Reads completions session) {header : Bytes}
    (hheader : wire.ReadsHeader (received completions) header) : (headerLen header).toInt ≠ -1 := by
  obtain ⟨part, hreceived, hphase⟩ := hreads.phase
  have hframes : ∀ frame ∈ session.posted.map RecvNode.encode, wire.IsFrame frame :=
    fun _ => hreads.isFrame_of_mem
  have hne {bytes : Bytes} {n : Nat} (hbody : wire.bodyLen bytes = some n) :
      (headerLen bytes).toInt ≠ -1 := by
    have := (wire_bodyLen_eq_some.mp hbody).1
    omega
  rw [hreceived] at hheader
  have hhead : wire.headLen = 4 := rfl
  have hheadTotal : HEAD_TOTAL_LEN = 4 := rfl
  rcases hheader.of_flatten_append hframes with ⟨frame, hframe, rfl⟩ | hpart
  · exact hne (hframes frame hframe).2
  have hlength := hpart.1
  cases hphase with
  | head _ hshort =>
      obtain ⟨frames, tail, -, rfl⟩ := hpart.2
      simp only [List.length_append] at hshort
      omega
  | body n read_len node _ hlengthPart hunfinished hannounced =>
      rw [hpart.eq_take fun m hm => by
        rw [show wire.bodyLen (part.take wire.headLen) = some n from hannounced,
          Option.some.injEq] at hm
        omega]
      exact hne hannounced
  | refused _ hlengthPart hlen =>
      rw [hpart.eq_take fun _ _ => by omega, List.take_of_length_le (by omega)]
      have hbound : MAX_LENGTH = 2048 := rfl
      omega
  | failed _ _ hshort =>
      rcases hshort with hshort | ⟨n, hannounced, hshort⟩
      · obtain ⟨frames, tail, -, rfl⟩ := hpart.2
        simp only [List.length_append] at hshort
        omega
      · rw [hpart.eq_take fun m hm => by
          rw [show wire.bodyLen (part.take wire.headLen) = some n from hannounced,
            Option.some.injEq] at hm
          omega]
        exact hne hannounced

/-- A length is announced by the completion that makes its header whole. -/
theorem Reads.readsHeader_of_announced (hreads : Reads completions session) {completion : Completion}
    {next : CSession} (hstep : CSession.step session completion = some next) {len : Int16}
    (hlen : len ∈ session.announced completion) :
    ∃ header, wire.ReadsHeader (received (completions ++ [completion])) header ∧
      headerLen header = len := by
  obtain ⟨part, hreceived, hphase⟩ := hreads.phase
  cases hphase with
  | refused hpending => simp [announced, hpending] at hlen
  | failed hpending => simp [announced, hpending] at hlen
  | body _ _ _ hpending => simp [announced, hpending] at hlen
  | head hpending hshort hdata =>
      cases completion with
      | error => simp [announced] at hlen
      | ok chunk =>
          obtain ⟨hroom, htake⟩ := hreads.toSound.take_part_chunk hshort hdata
            ((step_eq_some hpending).mp hstep).1
          have hfull : HEAD_TOTAL_LEN ≤ (part ++ chunk).length := by
            rw [List.length_append]
            by_contra hfull
            simp only [announced, hpending, if_neg hfull] at hlen
            exact absurd hlen (by simp)
          have htotal := le_antisymm hroom hfull
          rw [htotal] at htake
          rw [announced_eq hpending htotal htake, Option.mem_some_iff] at hlen
          exact ⟨part ++ chunk,
            readsHeader_part hreads.toSound htotal (received_chunk chunk hreceived), hlen⟩

/-- **What takes a completion out of range.** It ends a header of length -1, and nothing else does. -/
theorem Reads.inRange_step_iff (hreads : Reads completions session) {completion : Completion}
    {next : CSession} (hstep : CSession.step session completion = some next) :
    (∀ access ∈ next.accesses, access.InRange) ↔
      ∀ len ∈ session.announced completion, len.toInt ≠ -1 := by
  rcases hreads.step hstep with hnext | ⟨⟨len, hlen, hneg⟩, hwild⟩
  · refine iff_of_true hnext.inRange fun len hlen => ?_
    obtain ⟨header, hheader, rfl⟩ := hreads.readsHeader_of_announced hstep hlen
    exact hnext.headerLen_ne hheader
  · obtain ⟨access, hmem, hout⟩ := hwild.access
    exact iff_of_false (fun hinRange => hout (hinRange access hmem)) fun hall => hall len hlen hneg

theorem reads_of_headers {session : CSession} (hread : read completions = some session)
    (hheaders : ∀ header, wire.ReadsHeader (received completions) header →
      (headerLen header).toInt ≠ -1) : Reads completions session := by
  rcases reads_or_wild hread with hreads | hwild
  · exact hreads
  · obtain ⟨header, hheader, hneg⟩ := hwild.header
    exact absurd hneg (hheaders header hheader)

end CSession

end QuickChat
