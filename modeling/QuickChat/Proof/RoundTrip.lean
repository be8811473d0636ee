import QuickChat.Proof.ReadLoop

/-!
# What the read loop posts

Two directions. A stream of messages that fit is posted as those messages, however it is cut. And
whatever the stream is, as long as no header announces a negative length, what is posted are the
frames of its one reading, and what is left over starts no complete frame.

Both wait for the loop to settle: a read of an empty body is over at once, but until it is, its
message has been received and not posted.
-/

namespace QuickChat

namespace CSession

variable {completions : List Completion} {session : CSession}

/-- The loop waits for bytes or has ended: no read of nothing is outstanding. -/
def Settled (session : CSession) : Prop :=
  ∀ op, session.pending = some op → op.requested ≠ 0

theorem Sound.map_message (hsound : Sound session) :
    session.posted.map RecvNode.message = (session.posted.map RecvNode.encode).map decode := by
  rw [List.map_map]
  refine List.map_congr_left fun node hnode => ?_
  exact (hsound.accepted node hnode).decode_encode.symm

/-! ### A stream of messages -/

section Messages

variable {msgs : List (Int16 × Bytes)}

theorem isFrame_of_mem_messages (hmsgs : ∀ msg ∈ msgs, msg.2.length ≤ MAX_LENGTH) {frame : Bytes}
    (hmem : frame ∈ msgs.map messageBytes) : wire.IsFrame frame := by
  obtain ⟨msg, hmsg, rfl⟩ := List.mem_map.mp hmem
  exact isFrame_messageBytes (hmsgs msg hmsg)

theorem map_decode_messageBytes (hmsgs : ∀ msg ∈ msgs, msg.2.length ≤ MAX_LENGTH) :
    (msgs.map messageBytes).map decode = msgs := by
  rw [List.map_map]
  refine (List.map_congr_left fun msg hmsg => ?_).trans (List.map_id msgs)
  exact decode_messageBytes (hmsgs msg hmsg)

theorem headerLen_nonneg_of_stream (hmsgs : ∀ msg ∈ msgs, msg.2.length ≤ MAX_LENGTH)
    {received rest header : Bytes} (hstream : received ++ rest = stream msgs)
    (hheader : wire.ReadsHeader received header) : 0 ≤ (headerLen header).toInt := by
  obtain ⟨hlength, frames, tail, hframes, hreceived⟩ := hheader
  have hwhole : wire.ReadsHeader ((msgs.map messageBytes).flatten ++ []) header := by
    refine ⟨hlength, frames, tail ++ rest, hframes, ?_⟩
    rw [List.append_nil, ← stream, ← hstream, hreceived]
    simp only [List.append_assoc]
  rcases hwhole.of_flatten_append (fun _ => isFrame_of_mem_messages hmsgs) with
    ⟨frame, hframe, rfl⟩ | hnil
  · have hbody := (isFrame_of_mem_messages hmsgs hframe).2
    have := (wire_bodyLen_eq_some.mp hbody).1
    omega
  · obtain ⟨-, frames, tail, -, hnil⟩ := hnil
    have hzero := congrArg List.length hnil
    have hhead : wire.headLen = 4 := rfl
    simp only [List.length_append, List.length_nil] at hzero
    omega

theorem reads_of_stream (hmsgs : ∀ msg ∈ msgs, msg.2.length ≤ MAX_LENGTH)
    (hread : read completions = some session) {rest : Bytes}
    (hstream : received completions ++ rest = stream msgs) : Reads completions session :=
  reads_of_headers hread fun header hheader => by
    have := headerLen_nonneg_of_stream hmsgs hstream hheader
    omega

/-- While a stream of messages is read without errors, what is posted are its first messages, and
the loop is in the middle of the next one. -/
theorem Reads.of_stream (hreads : Reads completions session)
    (hmsgs : ∀ msg ∈ msgs, msg.2.length ≤ MAX_LENGTH) (hok : .error ∉ completions) {rest : Bytes}
    (hstream : received completions ++ rest = stream msgs) :
    ∃ (more : List Bytes) (part : Bytes),
      msgs.map messageBytes = session.posted.map RecvNode.encode ++ more ∧
      part ++ rest = more.flatten ∧ session.pending ≠ none ∧ Phase completions session part := by
  obtain ⟨part, hreceived, hphase⟩ := hreads.phase
  have hflatten : (session.posted.map RecvNode.encode).flatten ++ (part ++ rest)
      = (msgs.map messageBytes).flatten ++ [] := by
    rw [List.append_nil, ← stream, ← hstream, hreceived, List.append_assoc, reencoded]
  obtain ⟨more, hmore, hpart⟩ := Framing.Format.frames_prefix
    (fun _ => hreads.isFrame_of_mem) (fun _ => isFrame_of_mem_messages hmsgs)
    Framing.Format.stuck_nil hflatten
  rw [List.append_nil] at hpart
  refine ⟨more, part, hmore, hpart, ?_, hphase⟩
  cases hphase with
  | head hpending => rw [hpending]; exact Option.some_ne_none _
  | body _ _ _ hpending => rw [hpending]; exact Option.some_ne_none _
  | failed _ herror => exact absurd herror hok
  | refused _ hlength hlen =>
      have hhead : HEAD_TOTAL_LEN = 4 := rfl
      cases more with
      | nil =>
          rw [List.flatten_nil, List.append_eq_nil_iff] at hpart
          rw [hpart.1, List.length_nil] at hlength
          omega
      | cons frame more =>
          have hframe : wire.IsFrame frame :=
            isFrame_of_mem_messages hmsgs (by rw [hmore]; simp)
          have hbody := hframe.bodyLen_append more.flatten
          rw [← List.flatten_cons, ← hpart, List.take_left' (show part.length = wire.headLen from hlength)]
            at hbody
          have := (wire_bodyLen_eq_some.mp hbody)
          omega

/-- The frames that were read are the first of those that were sent. -/
theorem Reads.posted_of_stream (hreads : Reads completions session)
    (hmsgs : ∀ msg ∈ msgs, msg.2.length ≤ MAX_LENGTH) (hok : .error ∉ completions)
    (hstream : received completions = stream msgs) (hsettled : session.Settled) :
    msgs.map messageBytes = session.posted.map RecvNode.encode ∧
      session.pending = some ⟨.head, 0, HEAD_TOTAL_LEN⟩ := by
  have hhead : HEAD_TOTAL_LEN = 4 := rfl
  have hheadLen : wire.headLen = 4 := rfl
  obtain ⟨more, part, hmore, hpart, hopen, hphase⟩ :=
    hreads.of_stream hmsgs hok (show _ ++ [] = _ by rw [List.append_nil, hstream])
  rw [List.append_nil] at hpart
  -- what is left over is too short for another message, in either phase
  have hnil : more = [] := by
    cases more with
    | nil => rfl
    | cons frame more =>
        have hframe : wire.IsFrame frame :=
          isFrame_of_mem_messages hmsgs (by rw [hmore]; simp)
        have hle : frame.length ≤ part.length := by
          rw [hpart, List.flatten_cons, List.length_append]
          exact Nat.le_add_right _ _
        have hlong := hframe.1
        have hbody := hframe.bodyLen_append more.flatten
        rw [← List.flatten_cons, ← hpart] at hbody
        cases hphase with
        | head hpending hshort => omega
        | body n read_len node hpending hlength hunfinished hannounced =>
            have hrequested := hsettled _ hpending
            have hmax := (wire_bodyLen_eq_some.mp hannounced).2
            have hread : read_len ≤ n := by omega
            rw [requested_eq _ hread hmax] at hrequested
            rw [show wire.bodyLen (part.take wire.headLen) = some n from hannounced,
              Option.some.injEq] at hbody
            omega
        | refused hpending => exact absurd hpending hopen
        | failed hpending => exact absurd hpending hopen
  subst hnil
  rw [List.flatten_nil] at hpart
  subst hpart
  refine ⟨by rw [hmore, List.append_nil], ?_⟩
  cases hphase with
  | head hpending => exact hpending
  | body n read_len node _ hlength =>
      rw [List.length_nil] at hlength
      omega
  | refused hpending => exact absurd hpending hopen
  | failed hpending => exact absurd hpending hopen

/-- While something is to come, the outstanding read can complete with some of it. -/
theorem Reads.exists_chunk (hread : read completions = some session)
    (hopen : session.pending ≠ none) {rest : Bytes}
    (hstream : received completions ++ rest = stream msgs)
    (hdone : ¬ (received completions = stream msgs ∧ session.Settled)) :
    ∃ chunk, (read (completions ++ [.ok chunk])).isSome ∧
      received (completions ++ [.ok chunk]) <+: stream msgs := by
  obtain ⟨op, hpending⟩ := Option.ne_none_iff_exists'.mp hopen
  have hchunk (chunk : Bytes) (hlegal : Legal op (.ok chunk)) :
      (read (completions ++ [.ok chunk])).isSome := by
    rw [read, Machine.run_append, show Machine.run CSession.step init.Start completions = _ from hread]
    simp [(step_eq_some hpending).mpr ⟨hlegal, rfl⟩]
  by_cases hempty : op.requested = 0
  · refine ⟨[], hchunk [] ⟨Nat.zero_le _, fun _ => hempty⟩, rest, ?_⟩
    rw [received_concat_ok, List.append_nil, hstream]
  · have hsettled : session.Settled := by
      intro other hother
      rw [hpending, Option.some.injEq] at hother
      exact hother ▸ hempty
    cases rest with
    | nil => exact absurd ⟨by rw [← hstream, List.append_nil], hsettled⟩ hdone
    | cons b rest =>
        refine ⟨[b], hchunk [b] ⟨?_, fun h => absurd h (by simp)⟩, rest, ?_⟩
        · rw [List.length_singleton]
          omega
        · rw [received_concat_ok, List.append_assoc]
          exact hstream

end Messages

/-- **Round trip.** However a stream of messages is cut, the messages posted so far are its first
ones. A loop that has received it all and settled has posted them all, and waits for a new header;
any other can take the next bytes, and the completions are bounded by the bytes and the messages. -/
theorem round_trip {msgs : List (Int16 × Bytes)}
    (hmsgs : ∀ msg ∈ msgs, msg.1.toInt ≤ MAX_LENGTH ∧ msg.2.length ≤ MAX_LENGTH)
    (hread : read completions = some session) (hok : .error ∉ completions)
    (hstream : received completions <+: stream msgs) :
    session.posted.map RecvNode.message <+: msgs ∧
      (received completions = stream msgs → session.Settled →
        session.posted.map RecvNode.message = msgs ∧
          session.pending = some ⟨.head, 0, HEAD_TOTAL_LEN⟩) ∧
      (¬ (received completions = stream msgs ∧ session.Settled) →
        ∃ chunk, (read (completions ++ [.ok chunk])).isSome ∧
          received (completions ++ [.ok chunk]) <+: stream msgs) ∧
      completions.length ≤ (stream msgs).length + msgs.length := by
  have hlengths : ∀ msg ∈ msgs, msg.2.length ≤ MAX_LENGTH := fun msg hmsg => (hmsgs msg hmsg).2
  obtain ⟨rest, hrest⟩ := hstream
  have hreads := reads_of_stream hlengths hread hrest
  obtain ⟨more, part, hmore, -, hopen, -⟩ := hreads.of_stream hlengths hok hrest
  have hdecode : msgs = session.posted.map RecvNode.message ++ more.map decode := by
    rw [hreads.toSound.map_message, ← List.map_append, ← hmore, map_decode_messageBytes hlengths]
  refine ⟨⟨more.map decode, hdecode.symm⟩, fun hreceived hsettled => ?_,
    Reads.exists_chunk hread hopen hrest, ?_⟩
  · obtain ⟨hposted, hpending⟩ := hreads.posted_of_stream hlengths hok hreceived hsettled
    refine ⟨?_, hpending⟩
    rw [hreads.toSound.map_message, ← hposted, map_decode_messageBytes hlengths]
  · have hpaced := hreads.paced hopen
    have hbytes : (received completions).length ≤ (stream msgs).length := by
      rw [← hrest, List.length_append]
      exact Nat.le_add_right _ _
    have hcount : session.posted.length ≤ msgs.length := by
      rw [hdecode, List.length_append, List.length_map]
      exact Nat.le_add_right _ _
    omega

theorem round_trip_two_messages :
    ∃ session, read [.ok [0], .ok [7, 0, 2], .ok [65], .ok [66], .ok [0, 9, 0, 0], .ok []]
        = some session ∧
      session.posted.map RecvNode.message = [(7, [65, 66]), (9, [])] ∧
      session.pending = some ⟨.head, 0, HEAD_TOTAL_LEN⟩ := by
  have hpending : (read [.ok [0], .ok [7, 0, 2], .ok [65], .ok [66], .ok [0, 9, 0, 0],
      .ok []]).map CSession.pending = some (some ⟨.head, 0, HEAD_TOTAL_LEN⟩) := by decide +kernel
  obtain ⟨session, hread, hwaiting⟩ := Option.map_eq_some_iff.mp hpending
  have hstream : received [.ok [0], .ok [7, 0, 2], .ok [65], .ok [66], .ok [0, 9, 0, 0], .ok []]
      = stream [(7, [65, 66]), (9, [])] := by decide +kernel
  have hsettled : session.Settled := by
    intro op hop
    rw [hwaiting, Option.some.injEq] at hop
    rw [← hop]
    decide
  exact ⟨session, hread, (round_trip (by decide) hread (by decide)
    (hstream ▸ List.prefix_rfl)).2.1 hstream hsettled⟩

/-! ### Any stream -/

/-- What a settled loop has posted and has not is the one way to cut the stream. -/
theorem Reads.split_eq (hreads : Reads completions session) (hsettled : session.Settled) :
    ∃ rest, received completions = session.reencoded ++ rest ∧ wire.Stuck rest ∧
      wire.split (received completions) = (session.posted.map RecvNode.encode, rest) := by
  obtain ⟨part, hreceived, hphase⟩ := hreads.phase
  have hstuck : wire.Stuck part := by
    cases hphase with
    | head _ hshort => exact .inl hshort
    | body n read_len node hpending hlength hunfinished hannounced =>
        have hrequested := hsettled _ hpending
        have hmax := (wire_bodyLen_eq_some.mp hannounced).2
        have hread : read_len ≤ n := by omega
        rw [requested_eq _ hread hmax] at hrequested
        refine .inr fun m hm => ?_
        rw [show wire.bodyLen (part.take wire.headLen) = some n from hannounced,
          Option.some.injEq] at hm
        have hhead : wire.headLen = HEAD_TOTAL_LEN := rfl
        omega
    | refused _ hlength hlen =>
        refine .inr fun m hm => ?_
        rw [List.take_of_length_le (show part.length ≤ wire.headLen from hlength.le)] at hm
        have := wire_bodyLen_eq_some.mp hm
        omega
    | failed _ _ hshort =>
        rcases hshort with hshort | ⟨n, hannounced, hshort⟩
        · exact .inl hshort
        · refine .inr fun m hm => ?_
          rw [show wire.bodyLen (part.take wire.headLen) = some n from hannounced,
            Option.some.injEq] at hm
          exact hm ▸ hshort
  refine ⟨part, hreceived, hstuck, ?_⟩
  rw [hreceived, reencoded]
  exact Framing.Format.split_eq (fun _ => hreads.isFrame_of_mem) hstuck

theorem stuck_cases {rest : Bytes} (hstuck : wire.Stuck rest)
    (hnonneg : HEAD_TOTAL_LEN ≤ rest.length → 0 ≤ (headerLen (rest.take HEAD_TOTAL_LEN)).toInt) :
    rest.length < HEAD_TOTAL_LEN ∨
      (rest.length : Int) < HEAD_TOTAL_LEN + (headerLen (rest.take HEAD_TOTAL_LEN)).toInt ∨
      MAX_LENGTH < (headerLen (rest.take HEAD_TOTAL_LEN)).toInt := by
  rcases hstuck with hshort | hbody
  · exact .inl hshort
  by_cases hshort : rest.length < HEAD_TOTAL_LEN
  · exact .inl hshort
  have hlow := hnonneg (not_lt.mp hshort)
  by_cases hmax : MAX_LENGTH < (headerLen (rest.take HEAD_TOTAL_LEN)).toInt
  · exact .inr (.inr hmax)
  have hannounced : wire.bodyLen (rest.take HEAD_TOTAL_LEN)
      = some (headerLen (rest.take HEAD_TOTAL_LEN)).toInt.toNat :=
    wire_bodyLen_eq_some.mpr ⟨by omega, by omega⟩
  have hlt := hbody _ hannounced
  have hhead : wire.headLen = HEAD_TOTAL_LEN := rfl
  exact .inr (.inl (by omega))

/-- **The grammar.** When no header announces a negative length, what is posted are whole frames that
the bytes received begin with. Once the loop has settled the rest is short, or its header has an
identifier or a length above `MAX_LENGTH`, and any other way to cut the same bytes posts the same. -/
theorem posted_frames (hread : read completions = some session)
    (hheaders : ∀ header, wire.ReadsHeader (received completions) header →
      0 ≤ (headerLen header).toInt) :
    session.reencoded <+: received completions ∧
      (∀ node ∈ session.posted, wire.IsFrame node.encode) ∧
      (session.Settled →
        (∃ rest, received completions = session.reencoded ++ rest ∧
          (rest.length < HEAD_TOTAL_LEN ∨
            (rest.length : Int) < HEAD_TOTAL_LEN + (headerLen (rest.take HEAD_TOTAL_LEN)).toInt ∨
            MAX_LENGTH < (headerId (rest.take HEAD_TOTAL_LEN)).toInt ∨
            MAX_LENGTH < (headerLen (rest.take HEAD_TOTAL_LEN)).toInt)) ∧
        ∀ (completions' : List Completion) (session' : CSession),
          read completions' = some session' → session'.Settled →
          received completions' = received completions →
          session'.posted.map RecvNode.message = session.posted.map RecvNode.message) := by
  have hne (header : Bytes) (hheader : wire.ReadsHeader (received completions) header) :
      (headerLen header).toInt ≠ -1 := by
    have := hheaders header hheader
    omega
  have hreads := reads_of_headers hread hne
  obtain ⟨part, hreceived, -⟩ := hreads.phase
  refine ⟨⟨part, hreceived.symm⟩, fun node hnode => (hreads.accepted node hnode).isFrame_encode,
    fun hsettled => ⟨?_, ?_⟩⟩
  · obtain ⟨rest, hrest, hstuck, -⟩ := hreads.split_eq hsettled
    refine ⟨rest, hrest, ?_⟩
    have hnonneg (hlong : HEAD_TOTAL_LEN ≤ rest.length) :
        0 ≤ (headerLen (rest.take HEAD_TOTAL_LEN)).toInt := by
      refine hheaders _ ⟨by rw [List.length_take]; exact Nat.min_eq_left hlong,
        session.posted.map RecvNode.encode, rest.drop HEAD_TOTAL_LEN,
        fun _ => hreads.isFrame_of_mem, ?_⟩
      rw [List.take_append_drop]
      exact hrest
    rcases stuck_cases hstuck hnonneg with hshort | hshort | hlong
    · exact .inl hshort
    · exact .inr (.inl hshort)
    · exact .inr (.inr (.inr hlong))
  · intro completions' session' hread' hsettled' hsame
    have hreads' := reads_of_headers hread' (by rw [hsame]; exact hne)
    obtain ⟨rest, -, -, hsplit⟩ := hreads.split_eq hsettled
    obtain ⟨rest', -, -, hsplit'⟩ := hreads'.split_eq hsettled'
    rw [hsame, hsplit, Prod.mk.injEq] at hsplit'
    rw [hreads.toSound.map_message, hreads'.toSound.map_message, hsplit'.1]

theorem posted_frames_refused :
    ∃ session, read [.ok [0, 7, 0], .ok [1], .ok [65], .ok [0, 7, 8, 1]] = some session ∧
      session.posted.map RecvNode.message = [(7, [65])] ∧ session.reencoded = [0, 7, 0, 1, 65] ∧
      ∃ rest, received [.ok [0, 7, 0], .ok [1], .ok [65], .ok [0, 7, 8, 1]]
          = session.reencoded ++ rest ∧
        (rest.length < HEAD_TOTAL_LEN ∨
          (rest.length : Int) < HEAD_TOTAL_LEN + (headerLen (rest.take HEAD_TOTAL_LEN)).toInt ∨
          MAX_LENGTH < (headerId (rest.take HEAD_TOTAL_LEN)).toInt ∨
          MAX_LENGTH < (headerLen (rest.take HEAD_TOTAL_LEN)).toInt) := by
  have hstate : (read [.ok [0, 7, 0], .ok [1], .ok [65], .ok [0, 7, 8, 1]]).map (fun session =>
      (session.pending, session.posted.map RecvNode.message, session.reencoded))
        = some (none, [(7, [65])], [0, 7, 0, 1, 65]) := by decide +kernel
  obtain ⟨session, hread, hfields⟩ := Option.map_eq_some_iff.mp hstate
  simp only [Prod.mk.injEq] at hfields
  obtain ⟨hended, hposted, hreencoded⟩ := hfields
  refine ⟨session, hread, hposted, hreencoded, ((posted_frames hread fun header hheader => ?_).2.2
    fun op hop => absurd (hended.symm.trans hop) (by simp)).1⟩
  have hmem := Framing.Format.readsHeader_iff.mp hheader
  rw [show wire.headers (received [.ok [0, 7, 0], .ok [1], .ok [65], .ok [0, 7, 8, 1]])
    = [[0, 7, 0, 1], [0, 7, 8, 1]] by decide] at hmem
  rcases List.mem_pair.mp hmem with rfl | rfl <;> decide

end CSession

end QuickChat
