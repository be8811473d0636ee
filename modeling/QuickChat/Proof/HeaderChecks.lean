import QuickChat.Proof.ReadLoop

/-!
# Which headers end the read loop

A header is in order if its identifier and its length are at most `MAX_LENGTH` and its length is not
negative. The loop ends at a length that is above `MAX_LENGTH` or below -1, whatever the identifier
is. It goes on after length -1, and after an identifier that is too large, which is only printed.
-/

namespace QuickChat

open Memory

/-- The limits that the two fields of a header have. -/
def Violates (header : Bytes) : Prop :=
  MAX_LENGTH < (headerId header).toInt ∨ (headerLen header).toInt < 0 ∨
    MAX_LENGTH < (headerLen header).toInt

instance (header : Bytes) : Decidable (Violates header) := inferInstanceAs (Decidable (_ ∨ _ ∨ _))

def limits : Framing.Format UInt8 where
  headLen := HEAD_TOTAL_LEN
  bodyLen header := if Violates header then none else some (headerLen header).toInt.toNat
  headLen_pos := wire.headLen_pos

/-- A header that is not in order and after which the loop goes on. -/
def Overlooked (header : Bytes) : Prop :=
  (headerLen header).toInt = -1 ∨ MAX_LENGTH < (headerId header).toInt ∧
    0 ≤ (headerLen header).toInt ∧ (headerLen header).toInt ≤ MAX_LENGTH

instance (header : Bytes) : Decidable (Overlooked header) :=
  inferInstanceAs (Decidable (_ ∨ _ ∧ _ ∧ _))

theorem Overlooked.violates {header : Bytes} (hoverlooked : Overlooked header) :
    Violates header := by
  unfold Overlooked at hoverlooked
  unfold Violates
  omega

theorem limits_bodyLen_eq_some {header : Bytes} {n : Nat} :
    limits.bodyLen header = some n ↔ wire.bodyLen header = some n ∧ ¬ Overlooked header := by
  change (if Violates header then none else some (headerLen header).toInt.toNat) = some n ↔ _
  rw [wire_bodyLen_eq_some]
  unfold Overlooked
  by_cases hviolates : Violates header
  · rw [if_pos hviolates]
    unfold Violates at hviolates
    simp only [reduceCtorEq, false_iff]
    omega
  · rw [if_neg hviolates, Option.some.injEq]
    unfold Violates at hviolates
    omega

theorem isFrame_limits_iff {frame : Bytes} :
    limits.IsFrame frame ↔ wire.IsFrame frame ∧ ¬ Overlooked (frame.take HEAD_TOTAL_LEN) := by
  constructor
  · rintro ⟨hlength, hbody⟩
    obtain ⟨hwire, hoverlooked⟩ := limits_bodyLen_eq_some.mp hbody
    exact ⟨⟨hlength, hwire⟩, hoverlooked⟩
  · rintro ⟨⟨hlength, hbody⟩, hoverlooked⟩
    exact ⟨hlength, limits_bodyLen_eq_some.mpr ⟨hbody, hoverlooked⟩⟩

theorem stuck_of_violates {header : Bytes} (hviolates : Violates header)
    (hoverlooked : ¬ Overlooked header) : wire.bodyLen header = none := by
  cases hbody : wire.bodyLen header with
  | none => rfl
  | some n =>
      have hlen := wire_bodyLen_eq_some.mp hbody
      unfold Violates at hviolates
      unfold Overlooked at hoverlooked
      omega

namespace CSession

/-- What is posted is in order, and at the first header that is not in order the loop has ended, with
all messages before it posted and no byte after it received. -/
def Validates (completions : List Completion) (session : CSession) : Prop :=
  (∀ node ∈ session.posted, node.msg_id_.toInt ≤ MAX_LENGTH ∧ 0 ≤ node.total_len_.toInt ∧
    node.total_len_.toInt ≤ MAX_LENGTH) ∧
  ∀ (frames : List Bytes) (header tail : Bytes), (∀ frame ∈ frames, limits.IsFrame frame) →
    header.length = HEAD_TOTAL_LEN → Violates header →
    received completions = frames.flatten ++ (header ++ tail) →
    session.posted.map RecvNode.encode = frames ∧ tail = [] ∧ session.pending = none

variable {completions : List Completion} {session : CSession}

/-! ### While no header is overlooked -/

/-- The header of a posted message has been read. -/
theorem Reads.readsHeader_of_posted (hreads : Reads completions session) {frame : Bytes}
    (hframe : frame ∈ session.posted.map RecvNode.encode) :
    wire.ReadsHeader (received completions) (frame.take HEAD_TOTAL_LEN) := by
  obtain ⟨part, hreceived, -⟩ := hreads.phase
  obtain ⟨before, after, hposted⟩ := List.append_of_mem hframe
  have hall : ∀ frame ∈ session.posted.map RecvNode.encode, wire.IsFrame frame :=
    fun _ => hreads.isFrame_of_mem
  have hlength : HEAD_TOTAL_LEN ≤ frame.length := (hall frame hframe).1
  refine ⟨List.length_take_of_le hlength, before,
    frame.drop HEAD_TOTAL_LEN ++ (after.flatten ++ part), ?_, ?_⟩
  · intro other hother
    exact hall other (hposted ▸ List.mem_append_left _ hother)
  · rw [hreceived, reencoded, hposted, List.flatten_append, List.flatten_cons]
    rw [← List.append_assoc (frame.take HEAD_TOTAL_LEN), List.take_append_drop]
    simp only [List.append_assoc]

theorem take_encode {node : RecvNode} (haccepted : node.Accepted) :
    node.encode.take HEAD_TOTAL_LEN = header node.msg_id_ node.total_len_ := by
  rw [haccepted.encode_eq]
  exact List.take_left' (length_header _ _)

/-- As long as none is overlooked, the frames of the limits are those of the wire. -/
theorem Reads.validates (hreads : Reads completions session)
    (hheaders : ∀ header, wire.ReadsHeader (received completions) header → ¬ Overlooked header) :
    Validates completions session := by
  constructor
  · intro node hnode
    have haccepted := hreads.accepted node hnode
    have hread := hreads.readsHeader_of_posted (List.mem_map_of_mem hnode)
    have hoverlooked := hheaders _ hread
    rw [take_encode haccepted, Overlooked, headerId_header, headerLen_header] at hoverlooked
    unfold RecvNode.Accepted at haccepted
    omega
  · intro frames header tail hframes hlength hviolates hstream
    have hframes : ∀ frame ∈ frames, wire.IsFrame frame :=
      fun frame hframe => (isFrame_limits_iff.mp (hframes frame hframe)).1
    have hoverlooked := hheaders header ⟨hlength, frames, tail, hframes, hstream⟩
    have hnone := stuck_of_violates hviolates hoverlooked
    have hstuck : wire.Stuck (header ++ tail) := by
      refine Or.inr fun n hn => ?_
      rw [List.take_left' (show header.length = wire.headLen from hlength), hnone] at hn
      exact absurd hn (by simp)
    obtain ⟨part, hreceived, hphase⟩ := hreads.phase
    obtain ⟨more, hmore, hpart⟩ := Framing.Format.frames_prefix
      (fun _ => hreads.isFrame_of_mem) hframes hstuck (hreceived.symm.trans hstream)
    have hhead : HEAD_TOTAL_LEN = 4 := rfl
    have hheadLen : wire.headLen = 4 := rfl
    -- a body that is waited for is announced by the first header of the part
    have hbody {n : Nat} (hannounced : wire.bodyLen (part.take HEAD_TOTAL_LEN) = some n)
        (hshort : part.length ≤ HEAD_TOTAL_LEN + n) : False := by
      cases more with
      | nil =>
          rw [List.flatten_nil, List.nil_append] at hpart
          rw [hpart, List.take_left' hlength, hnone] at hannounced
          exact absurd hannounced (by simp)
      | cons frame more =>
          have hframe := hframes frame (hmore ▸ List.mem_append_right _ List.mem_cons_self)
          rw [List.flatten_cons, List.append_assoc] at hpart
          have hframeBody := hframe.bodyLen_append (more.flatten ++ (header ++ tail))
          rw [← hpart, show part.take wire.headLen = part.take HEAD_TOTAL_LEN from rfl, hannounced,
            Option.some.injEq] at hframeBody
          have htotal := congrArg List.length hpart
          have := hframe.1
          simp only [List.length_append] at htotal
          omega
    cases hphase with
    | head _ hshort =>
        rw [hpart, List.length_append, List.length_append] at hshort
        omega
    | body n read_len node _ hlengthPart hunfinished hannounced =>
        exact (hbody hannounced (by omega)).elim
    | failed _ _ hshort =>
        rcases hshort with hshort | ⟨n, hannounced, hshort⟩
        · rw [hpart, List.length_append, List.length_append] at hshort
          omega
        · exact (hbody hannounced hshort.le).elim
    | refused hpending hlengthPart =>
        have htotal := congrArg List.length hpart
        cases more with
        | nil =>
            rw [List.flatten_nil, List.nil_append, List.length_append] at htotal
            rw [List.append_nil] at hmore
            exact ⟨hmore.symm, List.eq_nil_of_length_eq_zero (by omega), hpending⟩
        | cons frame more =>
            have hframe := hframes frame (hmore ▸ List.mem_append_right _ List.mem_cons_self)
            have := hframe.1
            rw [List.flatten_cons] at htotal
            simp only [List.length_append] at htotal
            omega

/-! ### The completion that brings a header -/

theorem readsHeader_of_length_le {bytes header : Bytes} (hlength : bytes.length ≤ HEAD_TOTAL_LEN)
    (hheader : wire.ReadsHeader bytes header) : header = bytes := by
  obtain ⟨hheaderLen, frames, tail, -, rfl⟩ := hheader
  have hheadLen : wire.headLen = HEAD_TOTAL_LEN := rfl
  simp only [List.length_append] at hlength
  have hframes : frames.flatten = [] := List.eq_nil_of_length_eq_zero (by omega)
  have htail : tail = [] := List.eq_nil_of_length_eq_zero (by omega)
  rw [hframes, htail, List.nil_append, List.append_nil]

/-- A header that is read with this completion is the rest of the header that the loop waits for. -/
theorem Reads.new_header (hreads : Reads completions session) {completion : Completion}
    {next : CSession} (hstep : CSession.step session completion = some next) {header : Bytes}
    (hnew : wire.ReadsHeader (received (completions ++ [completion])) header)
    (hold : ¬ wire.ReadsHeader (received completions) header) :
    received (completions ++ [completion]) = session.reencoded ++ header ∧
      ∃ before, Sound before ∧ before.data_.take HEAD_TOTAL_LEN = header ∧
        next = before.onHead false HEAD_TOTAL_LEN := by
  obtain ⟨part, hreceived, hphase⟩ := hreads.phase
  have hframes : ∀ frame ∈ session.posted.map RecvNode.encode, wire.IsFrame frame :=
    fun _ => hreads.isFrame_of_mem
  have herror : completion ≠ .error := by
    rintro rfl
    rw [received_concat_error] at hnew
    exact hold hnew
  cases completion with
  | error => exact absurd rfl herror
  | ok chunk =>
      have hreceived' := received_chunk chunk hreceived
      rw [hreceived', reencoded] at hnew
      have hpart : wire.ReadsHeader (part ++ chunk) header := by
        rcases hnew.of_flatten_append hframes with ⟨frame, hframe, rfl⟩ | hpart
        · exact absurd (hreads.readsHeader_of_posted hframe) hold
        · exact hpart
      cases hphase with
      | refused hpending => simp [CSession.step, hpending] at hstep
      | failed hpending => simp [CSession.step, hpending] at hstep
      | head hpending hshort hdata =>
          obtain ⟨⟨hle, -⟩, rfl⟩ := (step_eq_some hpending).mp hstep
          rw [requested_eq .head hshort.le (by decide)] at hle
          have hlength : (part ++ chunk).length ≤ HEAD_TOTAL_LEN := by
            rw [List.length_append]
            omega
          obtain rfl := readsHeader_of_length_le hlength hpart
          have htotal : (part ++ chunk).length = HEAD_TOTAL_LEN := hpart.1
          have htake := take_data_store hreads.toSound hdata (by decide)
            (show part.length + chunk.length ≤ HEAD_TOTAL_LEN by omega)
          rw [List.length_append] at htotal
          rw [htotal] at htake
          refine ⟨hreceived', _, hreads.toSound.clearPending.store part.length chunk, htake, ?_⟩
          simp only [onReadSome, htotal, ge_iff_le, le_refl, if_true]
          rfl
      | body n read_len node hpending hlength hunfinished hannounced =>
          obtain ⟨⟨hle, -⟩, -⟩ := (step_eq_some hpending).mp hstep
          obtain ⟨-, hmax⟩ := wire_bodyLen_eq_some.mp hannounced
          have hheadLen : wire.headLen = HEAD_TOTAL_LEN := rfl
          have hpos : 0 < HEAD_TOTAL_LEN := by decide
          rw [requested_eq _ (by omega) hmax] at hle
          have htakeHead : (part ++ chunk).take HEAD_TOTAL_LEN = part.take HEAD_TOTAL_LEN :=
            List.take_append_of_le_length (by omega)
          have hheader : header = part.take HEAD_TOTAL_LEN := by
            rw [← htakeHead]
            refine hpart.eq_take fun m hm => ?_
            rw [hheadLen, htakeHead, hannounced, Option.some.injEq] at hm
            rw [List.length_append]
            omega
          refine absurd ?_ hold
          rw [hheader, hreceived]
          refine ⟨List.length_take_of_le (by omega), session.posted.map RecvNode.encode,
            part.drop HEAD_TOTAL_LEN, hframes, ?_⟩
          rw [List.take_append_drop, reencoded]

/-- Behind a header that is overlooked the loop goes on to a read. -/
theorem pending_onHead (hsound : Sound session) {header : Bytes}
    (hdata : session.data_.take HEAD_TOTAL_LEN = header) (hoverlooked : Overlooked header) :
    (session.onHead false HEAD_TOTAL_LEN).pending ≠ none := by
  have hbound : MAX_LENGTH = 2048 := rfl
  unfold Overlooked at hoverlooked
  obtain ⟨next, -, -, -, heq⟩ := onHead_eq hsound hdata
  obtain ⟨node, hnode, -⟩ := RecvNode.new_of_le (headerId header)
    (show -1 ≤ (headerLen header).toInt by omega)
  rw [heq, if_neg (by omega), hnode]
  exact Option.some_ne_none _

/-! ### Every run -/

/-- **Which headers end the loop.** At every point of a run what has been posted is in order and the
first header that is not has ended the loop, exactly if no header that the loop reads has length -1, or
an identifier above `MAX_LENGTH` with a length that is in order. -/
theorem validates_iff {completions : List Completion} {session : CSession}
    (hread : read completions = some session) :
    (∀ first, first <+: completions → ∀ session, read first = some session →
        Validates first session) ↔
      ∀ header, wire.ReadsHeader (received completions) header → ¬ Overlooked header := by
  induction completions using List.reverseRecOn generalizing session with
  | nil =>
      have hnone (header : Bytes) : ¬ wire.ReadsHeader (received []) header := by
        intro hheader
        have heq := readsHeader_of_length_le (Nat.zero_le _) hheader
        exact absurd (congrArg List.length heq) (by rw [hheader.1]; decide)
      refine iff_of_true ?_ (fun header hheader => absurd hheader (hnone header))
      intro first hfirst session hread
      obtain rfl := List.prefix_nil.mp hfirst
      rw [CSession.read, Machine.run_nil, Option.some.injEq] at hread
      subst hread
      exact reads_init.validates fun header hheader => absurd hheader (hnone header)
  | append_singleton completions completion ih =>
      obtain ⟨middle, hmiddle, hstep⟩ := Machine.run_concat_eq_some.mp hread
      specialize ih hmiddle
      constructor
      · intro hall
        have hbefore := ih.mp fun first hfirst =>
          hall first (hfirst.trans (List.prefix_append _ _))
        have hreads := reads_of_headers hmiddle fun header hheader hneg =>
          hbefore header hheader (Or.inl hneg)
        intro header hheader hoverlooked
        have hnew : ¬ wire.ReadsHeader (received completions) header := fun hold =>
          hbefore header hold hoverlooked
        obtain ⟨hreceived, before, hsound, hdata, rfl⟩ := hreads.new_header hstep hheader hnew
        have hvalidates := hall (completions ++ [completion]) List.prefix_rfl _ hread
        have hframes : ∀ frame ∈ middle.posted.map RecvNode.encode, limits.IsFrame frame := by
          intro frame hframe
          exact isFrame_limits_iff.mpr
            ⟨hreads.isFrame_of_mem hframe, hbefore _ (hreads.readsHeader_of_posted hframe)⟩
        have hended := hvalidates.2 _ header [] hframes hheader.1 hoverlooked.violates (by
          rw [List.append_nil]
          exact hreceived)
        exact pending_onHead hsound hdata hoverlooked hended.2.2
      · intro hheaders
        have hreads := reads_of_headers hread fun header hheader hneg =>
          hheaders header hheader (Or.inl hneg)
        have hbefore := ih.mpr fun header hheader => hheaders header (by
          rw [received_append]
          exact hheader.append _)
        intro first hfirst session' hread'
        rcases List.prefix_concat_iff.mp hfirst with rfl | hfirst
        · rw [hread, Option.some.injEq] at hread'
          subst hread'
          exact hreads.validates hheaders
        · exact hbefore first hfirst session' hread'

/-- A message, and a header with a length that is too large. -/
theorem validates_refused :
    ∃ session, read [.ok [0, 7, 0, 1], .ok [65], .ok [0, 7, 8, 1]] = some session ∧
      Validates [.ok [0, 7, 0, 1], .ok [65], .ok [0, 7, 8, 1]] session := by
  obtain ⟨session, hread⟩ := Option.isSome_iff_exists.mp
    (show (read [.ok [0, 7, 0, 1], .ok [65], .ok [0, 7, 8, 1]]).isSome = true by decide +kernel)
  refine ⟨session, hread, (validates_iff hread).mpr ?_ _ List.prefix_rfl session hread⟩
  intro header hheader
  have hmem := Framing.Format.readsHeader_iff.mp hheader
  rw [show wire.headers (received [.ok [0, 7, 0, 1], .ok [65], .ok [0, 7, 8, 1]])
    = [[0, 7, 0, 1], [0, 7, 8, 1]] by decide] at hmem
  rw [List.mem_cons, List.mem_singleton] at hmem
  rcases hmem with rfl | rfl
  · decide
  · decide

/-- A message with identifier 5000 is posted, and after a length of -1 a read is outstanding. -/
theorem header_overlooked :
    (∃ session, read [.ok [19, 136, 0, 1], .ok [65]] = some session ∧
      ¬ Validates [.ok [19, 136, 0, 1], .ok [65]] session) ∧
    ∃ session, read [.ok [0, 7, 255, 255]] = some session ∧
      ¬ Validates [.ok [0, 7, 255, 255]] session := by
  constructor
  · obtain ⟨session, hread, hposted⟩ := Option.map_eq_some_iff.mp
      (show (read [.ok [19, 136, 0, 1], .ok [65]]).map
        (fun session => session.posted.map fun node => node.msg_id_.toInt) = some [5000]
        by decide +kernel)
    refine ⟨session, hread, fun hvalidates => ?_⟩
    obtain ⟨node, hnode, hid⟩ := List.mem_map.mp (hposted ▸ List.mem_singleton_self (5000 : Int))
    have hmax := (hvalidates.1 node hnode).1
    rw [hid] at hmax
    exact absurd hmax (by decide)
  · obtain ⟨session, hread, hpending⟩ := Option.map_eq_some_iff.mp
      (show (read [.ok [0, 7, 255, 255]]).map (fun session => session.pending.isSome) = some true
        by decide +kernel)
    refine ⟨session, hread, fun hvalidates => ?_⟩
    have hended := hvalidates.2 [] [0, 7, 255, 255] [] (by simp) rfl (by decide) rfl
    rw [hended.2.2] at hpending
    exact absurd hpending (by decide)

end CSession

end QuickChat
