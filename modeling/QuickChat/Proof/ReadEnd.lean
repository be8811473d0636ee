import QuickChat.Chat.CServer
import QuickChat.Proof.ReadLoop

/-!
# How the read loop ends

A read error closes the socket and clears the session from the server. A header that is too long for
`data_` only clears the session, and one whose node cannot be allocated does neither. So the loop
cleans up after itself unless it ends with such a header.

A header of length -1 ends nothing: it makes the loop read past `data_`, over the members of the
session behind it, and what the session does from then on is not described. So cleaning up is stated
together with every access being in range.
-/

namespace QuickChat

open Memory Machine

namespace CSession

variable {session next : CSession} {completion : Completion} {completions : List Completion}

/-! ### One completion of any session -/

/-- The ways a completion can go on: four exits of the two callbacks, and the next read. -/
inductive Outcome (session : CSession) (completion : Completion) (next : CSession) : Prop where
  | reading (hannounced : ∀ len ∈ session.announced completion, -1 ≤ len.toInt ∧ len.toInt ≤ MAX_LENGTH)
      (hpending : next.pending ≠ none)
  | failed (hannounced : session.announced completion = none) (hpending : next.pending = none)
      (hclose : next.b_close_ = true) (hcleared : next.cleared = true)
  | oversized (len : Int16) (hannounced : session.announced completion = some len)
      (hlen : MAX_LENGTH < len.toInt) (hpending : next.pending = none)
      (hclose : next.b_close_ = session.b_close_) (hcleared : next.cleared = true)
  | unallocated (len : Int16) (hannounced : session.announced completion = some len)
      (hlen : len.toInt < -1) (hpending : next.pending = none)
      (hclose : next.b_close_ = session.b_close_) (hcleared : next.cleared = session.cleared)

theorem callback_error (handler : Handler) (bytes_transfered : Nat) :
    session.callback handler true bytes_transfered = session.Close.ClearSession := by
  cases handler with
  | head => rfl
  | body total_len => rfl

/-- With a whole header, the callback reads on, or ends the loop because of the length. -/
theorem onHead_outcome (session before : CSession) (hdata_len : session.data_.length = MAX_LENGTH)
    (hhead_len : session.recv_head_node_.total_len_ = 4) (hpending : session.pending = none)
    (hclose : before.b_close_ = session.b_close_)
    (hcleared : before.cleared = session.cleared)
    (hannounced : before.announced completion
      = some (headerLen (session.data_.take HEAD_TOTAL_LEN))) :
    Outcome before completion (session.onHead false HEAD_TOTAL_LEN) := by
  rw [onHead_eq_parseHead hdata_len hhead_len rfl]
  generalize headerLen (session.data_.take HEAD_TOTAL_LEN) = len at hannounced ⊢
  split
  · rename_i hlen
    exact .oversized len hannounced hlen hpending hclose.symm rfl
  · rename_i hlen
    rcases lt_or_ge len.toInt (-1) with hlow | hlow
    · rw [RecvNode.new_of_lt _ hlow]
      exact .unallocated len hannounced hlow hpending hclose.symm hcleared.symm
    · obtain ⟨node, hnode, -, -⟩ := RecvNode.new_of_le
        (headerId (session.data_.take HEAD_TOTAL_LEN)) hlow
      rw [hnode]
      refine .reading ?_ (Option.some_ne_none _)
      intro other hother
      rw [hannounced, Option.mem_some_iff] at hother
      rw [← hother]
      exact ⟨hlow, not_lt.mp hlen⟩

theorem onBody_outcome (session before : CSession) (hpending : session.pending = none)
    (hnode : session.recv_msg_node_ ≠ none) (total_len : Int) (bytes_transfered : Nat)
    (hannounced : before.announced completion = none) :
    Outcome before completion (session.onBody total_len false bytes_transfered) := by
  rw [onBody, if_neg Bool.false_ne_true]
  split
  · exact .failed hannounced hpending rfl rfl
  · cases hsome : session.recv_msg_node_ with
    | none => exact absurd hsome hnode
    | some node => exact .reading (by simp [hannounced]) (Option.some_ne_none _)

/-- A part of a header is read on; the rest of it makes the header whole. -/
theorem Sound.head_outcome (hsound : Sound session) {part chunk : Bytes}
    (hpending : session.pending = some ⟨.head, part.length, HEAD_TOTAL_LEN⟩)
    (hshort : part.length < HEAD_TOTAL_LEN) (hdata : session.data_.take part.length = part)
    (hlegal : Legal ⟨.head, part.length, HEAD_TOTAL_LEN⟩ (.ok chunk)) :
    Outcome session (.ok chunk)
      ({ session with pending := none }.onReadSome ⟨.head, part.length, HEAD_TOTAL_LEN⟩
        (.ok chunk)) := by
  obtain ⟨hroom, htake⟩ := hsound.take_part_chunk hshort hdata hlegal
  have hlength : (part ++ chunk).length = part.length + chunk.length := List.length_append
  simp only [onReadSome, ge_iff_le]
  by_cases hfull : HEAD_TOTAL_LEN ≤ part.length + chunk.length
  · have htotal : (part ++ chunk).length = HEAD_TOTAL_LEN := by omega
    rw [htotal] at htake
    rw [if_pos hfull, ← hlength, htotal, callback]
    refine onHead_outcome { session with data_ := _, pending := none } session ?_ hsound.head_len
      rfl rfl rfl ?_
    · rw [length_store, hsound.data_len]
    · rw [announced_eq hpending htotal htake, htake]
  · have hannounced : session.announced (.ok chunk) = none := by
      simp only [announced, hpending, if_neg hfull]
    rw [if_neg hfull]
    exact .reading (by simp [hannounced]) (Option.some_ne_none _)

theorem body_outcome {n : Int} {read_len total_len : Nat} {chunk : Bytes}
    (hpending : session.pending = some ⟨.body n, read_len, total_len⟩)
    (hnode : session.recv_msg_node_ ≠ none) :
    Outcome session (.ok chunk)
      ({ session with pending := none }.onReadSome ⟨.body n, read_len, total_len⟩ (.ok chunk)) := by
  have hannounced : session.announced (.ok chunk) = none := by
    simp only [announced, hpending]
  simp only [onReadSome]
  split
  · exact onBody_outcome { session with data_ := _, pending := none } session rfl hnode n _ hannounced
  · exact .reading (by simp [hannounced]) (Option.some_ne_none _)

/-- Every way that the loop can end: the two refusals of a header differ from the failed read in
what they leave undone. -/
theorem Reads.outcome (hreads : Reads completions session)
    (hstep : CSession.step session completion = some next) : Outcome session completion next := by
  obtain ⟨part, hreceived, hphase⟩ := hreads.phase
  cases hphase with
  | refused hpending => simp [CSession.step, hpending] at hstep
  | failed hpending => simp [CSession.step, hpending] at hstep
  | head hpending hshort hdata =>
      obtain ⟨hlegal, rfl⟩ := (step_eq_some hpending).mp hstep
      cases completion with
      | error =>
          rw [onReadSome, callback_error]
          exact .failed (by simp [announced]) rfl rfl rfl
      | ok chunk => exact hreads.toSound.head_outcome hpending hshort hdata hlegal
  | body n read_len node hpending _ _ _ hnode =>
      obtain ⟨hlegal, rfl⟩ := (step_eq_some hpending).mp hstep
      cases completion with
      | error =>
          rw [onReadSome, callback_error]
          exact .failed (by simp [announced]) rfl rfl rfl
      | ok chunk => exact body_outcome hpending (hnode ▸ Option.some_ne_none node)

/-- The invariant does not look at the flags of the session. -/
theorem Reads.setFlags (hreads : Reads completions session) (b_close_ cleared : Bool) :
    Reads completions { session with b_close_ := b_close_, cleared := cleared } := by
  obtain ⟨part, hreceived, hphase⟩ := hreads.phase
  refine ⟨⟨hreads.data_len, hreads.head_len, hreads.accepted, hreads.inRange⟩, hreads.paced, part,
    hreceived, ?_⟩
  cases hphase with
  | head hpending hshort hdata => exact .head hpending hshort hdata
  | body n read_len node hpending hlength hunfinished hannounced hnode hid hlen hdata =>
      exact .body n read_len node hpending hlength hunfinished hannounced hnode hid hlen hdata
  | refused hpending hlength hlen => exact .refused hpending hlength hlen
  | failed hpending herror hshort => exact .failed hpending herror hshort

end CSession

/-! ### The session at its server -/

namespace ServedSession

open CSession

variable {Id : Type} [DecidableEq Id] {id : Id} {served next : ServedSession Id} {event : Event}
  {events : List Event}

/-- Every access has been in range, and once the loop of a registered session has ended, the socket
is closed and the session is gone from `sessions_`. -/
structure CleanedUp (id : Id) (served : ServedSession Id) : Prop where
  inRange : ∀ access ∈ served.session.accesses, access.InRange
  ended : served.registered → served.session.pending = none →
    served.session.b_close_ ∧ id ∉ served.server.sessions_

/-- A whole header does not announce length -1. One of a registered session does not announce a length
above `MAX_LENGTH` while the socket is open, nor one below -1 while the socket is open or the session
in `sessions_`; and the session is not inserted after its loop has ended. -/
def Cleans (id : Id) (served : ServedSession Id) : Event → Prop
  | .read completion =>
      ∀ len ∈ served.session.announced completion, len.toInt ≠ -1 ∧
        (served.registered →
          (MAX_LENGTH < len.toInt → served.session.b_close_) ∧
            (len.toInt < -1 → served.session.b_close_ ∧ id ∉ served.server.sessions_))
  | .insert => served.session.pending ≠ none
  | .writeFailed => True

instance (served : ServedSession Id) : (event : Event) → Decidable (Cleans id served event)
  | .read completion =>
      Option.decidableForallMem (served.session.announced completion)
  | .insert => inferInstanceAs (Decidable (_ ≠ _))
  | .writeFailed => isTrue trivial

/-- **Inversion of a step.** -/
theorem step_cases (hstep : step id served event = some next) :
    (∃ completion session, event = .read completion ∧
        CSession.step { served.session with cleared := false } completion = some session ∧
        next = ⟨if session.cleared then served.server.ClearSession id else served.server, session,
          served.registered⟩) ∨
      (event = .insert ∧ served.registered = false ∧
        next = ⟨served.server.insert id, served.session, true⟩) ∨
      (event = .writeFailed ∧
        next = ⟨served.server.ClearSession id, served.session.Close, served.registered⟩) := by
  cases event with
  | read completion =>
      obtain ⟨session, hsession, rfl⟩ := Option.map_eq_some_iff.mp hstep
      exact .inl ⟨completion, session, rfl, hsession, rfl⟩
  | insert =>
      rw [step, Option.ite_none_left_eq_some, Option.some.injEq] at hstep
      exact .inr (.inl ⟨rfl, by simpa using hstep.1, hstep.2.symm⟩)
  | writeFailed =>
      rw [step, Option.some.injEq] at hstep
      exact .inr (.inr ⟨rfl, hstep.symm⟩)

def Described (served : ServedSession Id) : Prop :=
  ∃ completions, Reads completions served.session ∨ Wild completions served.session

theorem described_setFlags {session : CSession} {completions : List Completion}
    (hstate : Reads completions session ∨ Wild completions session) (b_close_ cleared : Bool) :
    Reads completions { session with b_close_ := b_close_, cleared := cleared } ∨
      Wild completions { session with b_close_ := b_close_, cleared := cleared } :=
  hstate.imp (·.setFlags b_close_ cleared) fun hwild => ⟨hwild.header, hwild.access⟩

theorem Described.step (hserved : Described served) (hstep : step id served event = some next) :
    Described next := by
  obtain ⟨completions, hstate⟩ := hserved
  rcases step_cases hstep with ⟨completion, session, -, hsession, rfl⟩ | ⟨-, -, rfl⟩ | ⟨-, rfl⟩
  · exact ⟨completions ++ [completion],
      reads_or_wild_step (described_setFlags hstate served.session.b_close_ false) hsession⟩
  · exact ⟨completions, hstate⟩
  · exact ⟨completions, described_setFlags hstate true served.session.cleared⟩

omit [DecidableEq Id] in
theorem Described.reads (hserved : Described served)
    (hinRange : ∀ access ∈ served.session.accesses, access.InRange) :
    ∃ completions, Reads completions served.session := by
  obtain ⟨completions, hreads | hwild⟩ := hserved
  · exact ⟨completions, hreads⟩
  · obtain ⟨access, hmem, hout⟩ := hwild.access
    exact absurd (hinRange access hmem) hout

theorem not_mem_ClearSession (server : CServer Id) : id ∉ (server.ClearSession id).sessions_ := by
  rw [CServer.sessions_ClearSession]
  exact Finset.notMem_erase _ _

/-- Behind a failed read both halves are done; behind a refused length one is left, or both, unless it
has been done before. -/
theorem ended_step_iff (id : Id) {session : CSession} {completion : Completion}
    (houtcome : Outcome { served.session with cleared := false } completion session) :
    (session.pending = none → session.b_close_ ∧
        id ∉ (if session.cleared then served.server.ClearSession id else served.server).sessions_) ↔
      ∀ len ∈ served.session.announced completion,
        (MAX_LENGTH < len.toInt → served.session.b_close_) ∧
          (len.toInt < -1 → served.session.b_close_ ∧ id ∉ served.server.sessions_) := by
  have hmax : (-1 : Int) ≤ MAX_LENGTH := by decide
  cases houtcome with
  | reading hannounced hpending =>
      refine iff_of_true (fun hnone => absurd hnone hpending) fun len hlen => ?_
      obtain ⟨hlow, hhigh⟩ := hannounced len hlen
      exact ⟨fun h => absurd hhigh (not_le.mpr h), fun h => absurd hlow (not_le.mpr h)⟩
  | failed hannounced hpending hclose hcleared =>
      refine iff_of_true (fun _ => ⟨hclose, ?_⟩) fun len hlen => ?_
      · rw [if_pos hcleared]
        exact not_mem_ClearSession served.server
      · exact absurd (hannounced ▸ hlen) (by simp)
  | oversized len hannounced hlen hpending hclose hcleared =>
      change served.session.announced completion = some len at hannounced
      change session.b_close_ = served.session.b_close_ at hclose
      simp only [hannounced, Option.mem_some_iff, forall_eq', hpending, hclose, hcleared, if_true,
        not_mem_ClearSession, not_false_eq_true, and_true, forall_const]
      constructor
      · intro hclosed
        exact ⟨fun _ => hclosed, fun hlow => by omega⟩
      · intro hclosed
        exact hclosed.1 hlen
  | unallocated len hannounced hlen hpending hclose hcleared =>
      change served.session.announced completion = some len at hannounced
      change session.b_close_ = served.session.b_close_ at hclose
      simp only [hannounced, Option.mem_some_iff, forall_eq', hpending, hclose, hcleared,
        Bool.false_eq_true, if_false, forall_const]
      constructor
      · intro hclosed
        exact ⟨fun hhigh => by omega, fun _ => hclosed⟩
      · intro hclosed
        exact hclosed.2 hlen

/-- **One event.** From a session that has been cleaned up so far it leads to one that is, exactly if
it meets the condition: in range by the length -1, ended by the lengths that are refused. -/
theorem cleanedUp_step_iff (hserved : Described served) (hclean : CleanedUp id served)
    (hstep : step id served event = some next) : CleanedUp id next ↔ Cleans id served event := by
  obtain ⟨completions, hreads⟩ := hserved.reads hclean.inRange
  have hstructure (served : ServedSession Id) : CleanedUp id served ↔
      (∀ access ∈ served.session.accesses, access.InRange) ∧
        (served.registered → served.session.pending = none →
          served.session.b_close_ ∧ id ∉ served.server.sessions_) :=
    ⟨fun h => ⟨h.inRange, h.ended⟩, fun h => ⟨h.1, h.2⟩⟩
  rw [hstructure]
  rcases step_cases hstep with ⟨completion, session, rfl, hsession, rfl⟩ | ⟨rfl, -, rfl⟩ | ⟨rfl, rfl⟩
  · have hflag := hreads.setFlags served.session.b_close_ false
    have hinRange := hflag.inRange_step_iff hsession
    have hended := forall_congr' fun _ : served.registered =>
      ended_step_iff id (hflag.outcome hsession)
    refine (and_congr hinRange (hended.trans ⟨?_, ?_⟩)).trans forall₂_and.symm
    · exact fun hall len hlen hregistered => hall hregistered len hlen
    · exact fun hall hregistered len hlen => hall len hlen hregistered
  · unfold Cleans
    constructor
    · rintro ⟨-, hnext⟩ hnone
      exact (hnext rfl hnone).2 (Finset.mem_insert_self _ _)
    · intro hpending
      exact ⟨hclean.inRange, fun _ hnone => absurd hnone hpending⟩
  · exact iff_of_true
      ⟨hclean.inRange, fun _ _ => ⟨rfl, not_mem_ClearSession served.server⟩⟩ trivial

/-- **Cleaning up.** Throughout a run every access is in range and a registered session whose loop has
ended is closed and gone from `sessions_`, exactly if no header announces length -1, none with a
refused length reaches the session while it is open, and it is not inserted after its loop has
ended. -/
theorem cleanedUp_throughout_iff {server : CServer Id}
    (hrun : run (step id) (start server) events = some served) :
    Throughout (step id) (start server) events (CleanedUp id) ↔
      EachStep (step id) (start server) events (Cleans id) := by
  refine throughout_iff_eachStep (I := Described) ⟨[], .inl reads_init⟩ ?_ ?_ ?_ hrun
  · exact fun _ _ _ hstate hstep => hstate.step hstep
  · exact ⟨reads_init.inRange, by simp [start]⟩
  · exact fun _ _ _ hstate hclean hstep => cleanedUp_step_iff hstate hclean hstep

theorem cleanedUp_one_message :
    ∃ served, run (step 1) (start CServer.init)
        [.insert, .read (.ok [0, 7, 0, 1]), .read (.ok [65]), .read .error] = some served ∧
      Throughout (step 1) (start CServer.init)
        [.insert, .read (.ok [0, 7, 0, 1]), .read (.ok [65]), .read .error] (CleanedUp 1) := by
  obtain ⟨served, hrun⟩ := Option.isSome_iff_exists.mp
    (show (run (step 1) (start CServer.init)
      [.insert, .read (.ok [0, 7, 0, 1]), .read (.ok [65]), .read .error]).isSome = true by
        decide +kernel)
  exact ⟨served, hrun, (cleanedUp_throughout_iff hrun).mpr (by decide +kernel)⟩

/-- After the header of a message of length -2 nothing is read any more, and the session stays open
and registered. -/
theorem open_after_negative_length :
    ∃ served, run (step 1) (start CServer.init) [.insert, .read (.ok [0, 0, 255, 254])]
        = some served ∧
      served.session.pending = none ∧ served.session.b_close_ = false ∧
      1 ∈ served.server.sessions_ ∧
      ¬ Throughout (step 1) (start CServer.init) [.insert, .read (.ok [0, 0, 255, 254])]
        (CleanedUp 1) := by
  obtain ⟨served, hrun⟩ := Option.isSome_iff_exists.mp
    (show (run (step 1) (start CServer.init) [.insert, .read (.ok [0, 0, 255, 254])]).isSome = true by
      decide +kernel)
  have hends : ∀ served ∈ run (step 1) (start CServer.init) [.insert, .read (.ok [0, 0, 255, 254])],
      served.registered ∧ served.session.pending = none ∧ served.session.b_close_ = false ∧
        1 ∈ served.server.sessions_ := by
    decide +kernel
  obtain ⟨hregistered, hpending, hopen, hmem⟩ := hends served hrun
  refine ⟨served, hrun, hpending, hopen, hmem, fun hclean => ?_⟩
  exact ((hclean _ List.prefix_rfl served hrun).ended hregistered hpending).2 hmem

end ServedSession

end QuickChat
