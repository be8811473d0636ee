import Mathlib.Order.GameAdd
import QuickChat.Lib.Progress
import QuickChat.Proof.GrpcPool
import QuickChat.Proof.MysqlPool

/-!
# Which calls return

No call of the gRPC clients is left behind: whatever the servers answer, and however the calls take
turns, all of them return and the stubs are back in their pools.

The calls of the data access functions come to rest too, but a `CheckEmail` without a row keeps its
connection. Once there are as many of those as the pool had connections, every further call stays
blocked.
-/

namespace QuickChat

open Monitor Pool

/-! ### The gRPC clients -/

namespace GrpcClients

variable {verifySize statusSize : Nat} {clients next : GrpcClients verifySize statusSize}
  {event : Event verifySize statusSize} {events : List (Event verifySize statusSize)}

def Event.Proceeds : Event verifySize statusSize → Prop
  | .verify event => event.Proceeds
  | .status event => event.Proceeds

instance : DecidablePred (Event.Proceeds : Event verifySize statusSize → Prop) := fun
  | .verify event => inferInstanceAs (Decidable event.Proceeds)
  | .status event => inferInstanceAs (Decidable event.Proceeds)

/-- All calls that were there have returned, and every stub is in its pool. -/
structure Returned (clients rest : GrpcClients verifySize statusSize) : Prop where
  running : rest.verify.running = [] ∧ rest.status.running = []
  verify : (rest.verify.finished.map Call.op).Perm (ops clients.verify)
  status : (rest.status.finished.map Call.op).Perm (ops clients.status)
  stubs : rest.verify.idle.Perm (List.finRange verifySize) ∧
    rest.status.idle.Perm (List.finRange statusSize)

def Follows (clients rest : GrpcClients verifySize statusSize) : Prop :=
  (∃ events, Machine.run step init events = some rest) ∧
    (ops rest.verify).Perm (ops clients.verify) ∧ (ops rest.status).Perm (ops clients.status)

theorem Follows.step {rest : GrpcClients verifySize statusSize} (hfollows : Follows clients rest)
    (hproceeds : event.Proceeds) (hstep : step rest event = some next) : Follows clients next := by
  obtain ⟨⟨events, hrun⟩, hverify, hstatus⟩ := hfollows
  refine ⟨⟨events ++ [event], Machine.run_concat_eq_some.mpr ⟨rest, hrun, hstep⟩⟩, ?_⟩
  cases event with
  | verify event =>
      obtain ⟨pool, hpool, rfl⟩ := Option.map_eq_some_iff.mp hstep
      exact ⟨(ops_of_step hproceeds hpool).trans hverify, hstatus⟩
  | status event =>
      obtain ⟨pool, hpool, rfl⟩ := Option.map_eq_some_iff.mp hstep
      exact ⟨hverify, (ops_of_step hproceeds hpool).trans hstatus⟩

theorem exists_reply (effect : GrpcEffect (Fin verifySize)) : Nonempty (GrpcEffect.Reply effect) := by
  cases effect with
  | GetVerifyCode stub request => exact ⟨true, 0, [], []⟩
  | GetChatServer stub request => exact ⟨true, 0, [], [], []⟩

/-- The steps of the two pools take turns, and each pool comes to rest. -/
theorem inevitable_atRest (hrun : Machine.run step init events = some clients) :
    Machine.Inevitable (Machine.only Event.Proceeds step)
      (fun rest : GrpcClients verifySize statusSize =>
        (AtRest rest.verify ∧ AtRest rest.status) ∧ Follows clients rest) clients := by
  have hfollows : Follows clients clients := ⟨⟨events, hrun⟩, .rfl, .rfl⟩
  refine Machine.Inevitable.and_invariant ?_ ?_ hfollows
  · refine Machine.inevitable_of_wellFounded (I := fun _ => True)
      (wellFounded_less.prod_gameAdd wellFounded_less)
      (fun clients : GrpcClients verifySize statusSize =>
        (rank clients.verify.running, rank clients.status.running)) ?_ ?_ trivial
    · rintro ⟨verify, status⟩ -
      by_cases hverify : AtRest verify
      · by_cases hstatus : AtRest status
        · exact .inl ⟨hverify, hstatus⟩
        · obtain ⟨event, next, hproceeds, hstep⟩ :=
            exists_step_of_not_atRest StatusGrpcClient.GetChatServer hstatus
          refine .inr ⟨.status event, ⟨verify, next⟩, Machine.only_eq_some.mpr ⟨hproceeds, ?_⟩⟩
          rw [step, hstep]
          rfl
      · obtain ⟨event, next, hproceeds, hstep⟩ :=
          exists_step_of_not_atRest VerifyGrpcClient.GetVerifyCode hverify
        refine .inr ⟨.verify event, ⟨next, status⟩, Machine.only_eq_some.mpr ⟨hproceeds, ?_⟩⟩
        rw [step, hstep]
        rfl
    · rintro clients event next - hstep
      obtain ⟨hproceeds, hstep⟩ := Machine.only_eq_some.mp hstep
      cases event with
      | verify event =>
          obtain ⟨pool, hpool, rfl⟩ := Option.map_eq_some_iff.mp hstep
          exact ⟨trivial, .fst (less_of_step hproceeds hpool)⟩
      | status event =>
          obtain ⟨pool, hpool, rfl⟩ := Option.map_eq_some_iff.mp hstep
          exact ⟨trivial, .snd (less_of_step hproceeds hpool)⟩
  · intro rest event next hrest hstep
    obtain ⟨hproceeds, hstep⟩ := Machine.only_eq_some.mp hstep
    exact hrest.step hproceeds hstep

/-- **Every RPC call returns.** With a stub in each pool, all calls of both clients return on every way
that is left to them, and every stub is back. -/
theorem inevitable_stubs_back (hverify : 0 < verifySize) (hstatus : 0 < statusSize)
    (hrun : Machine.run step init events = some clients) :
    Machine.Inevitable (Machine.only Event.Proceeds step) (Returned clients) clients := by
  refine (inevitable_atRest hrun).mono fun rest => ?_
  rintro ⟨⟨hverifyRest, hstatusRest⟩, ⟨events, hrun⟩, hverifyOps, hstatusOps⟩
  obtain ⟨⟨verifyEvents, hverifyRun⟩, ⟨statusEvents, hstatusRun⟩⟩ := runs_of_run hrun
  have hnonempty {poolSize : Nat} (hpos : 0 < poolSize) : List.finRange poolSize ≠ [] := by
    simpa [List.finRange_eq_nil_iff] using hpos.ne'
  have hverifyNone := running_eq_nil_of_atRest VerifyGrpcClient.leases_GetVerifyCode exists_reply
    (hnonempty hverify) hverifyRun hverifyRest
  have hstatusNone := running_eq_nil_of_atRest StatusGrpcClient.leases_GetChatServer exists_reply
    (hnonempty hstatus) hstatusRun hstatusRest
  have hverifyOrder := RPConPool.inOrder_of_leases VerifyGrpcClient.leases_GetVerifyCode hverifyRun
  have hstatusOrder := RPConPool.inOrder_of_leases StatusGrpcClient.leases_GetChatServer hstatusRun
  rw [ops, hverifyNone, List.nil_append] at hverifyOps
  rw [ops, hstatusNone, List.nil_append] at hstatusOps
  exact ⟨⟨hverifyNone, hstatusNone⟩, hverifyOps, hstatusOps, hverifyOrder.quiet hverifyNone,
    hstatusOrder.quiet hstatusNone⟩

/-- One stub and two calls: the first has the stub, and the second is blocked. -/
theorem returned_blocked :
    ∃ clients : GrpcClients 1 1, Machine.run step init
        [.verify (.start [97]), .verify (.start [98]), .verify (.proceed 0 (replying true) 0),
          .verify (.proceed 1 (replying true) 0), .status (.start 7)] = some clients ∧
      Machine.Inevitable (Machine.only Event.Proceeds step) (Returned clients) clients := by
  obtain ⟨clients, hrun⟩ : ∃ clients : GrpcClients 1 1, Machine.run step init
      [.verify (.start [97]), .verify (.start [98]), .verify (.proceed 0 (replying true) 0),
        .verify (.proceed 1 (replying true) 0), .status (.start 7)] = some clients := ⟨_, rfl⟩
  exact ⟨clients, hrun, inevitable_stubs_back (by decide) (by decide) hrun⟩

end GrpcClients

/-! ### The data access functions -/

namespace MysqlCalls

open MysqlUsage

variable {κ : Type} {connections : List κ} {calls rest : MysqlCalls κ}
  {events : List (MysqlCallEvent κ)}

instance (op : MysqlOp) (usage : MysqlUsage κ) : Decidable (NoRowFound op usage) :=
  inferInstanceAs (Decidable ((_ = true) ∧ _ = true ∧ _ = false))

def lost (calls : MysqlCalls κ) : Nat :=
  calls.finished.countP fun call => NoRowFound call.op (MysqlCall.usage call)

theorem exists_reply (effect : MysqlEffect κ) : Nonempty (MysqlEffect.Reply effect) := by
  cases effect with
  | executeQuery con sql params => exact ⟨.ok []⟩
  | executeUpdate con sql params => exact ⟨.ok 0⟩
  | destroy object => exact ⟨()⟩
  | prepareStatement con sql => exact ⟨.ok ()⟩
  | createStatement con => exact ⟨.ok ()⟩
  | setString index value => exact ⟨.ok ()⟩
  | execute con sql params => exact ⟨.ok ()⟩
  | next => exact ⟨.ok ()⟩
  | getString name => exact ⟨.ok ()⟩
  | getInt name => exact ⟨.ok ()⟩

/-- A finished call has kept its connection exactly if it found no row. -/
theorem length_held_of_finished (hrun : Machine.run step (init connections) events = some calls)
    {call : MysqlCall κ} (hcall : call ∈ calls.finished) :
    (held call.trace).length = if NoRowFound call.op (MysqlCall.usage call) then 1 else 0 := by
  obtain ⟨htaken, hreturned⟩ := MysqlCall.usage_connections call
  obtain ⟨con, htook, ⟨hnone, hkept⟩ | ⟨hrow, hback⟩⟩ := (finished_of_run hrun call hcall).returned
  · rw [held, ← htaken, ← hreturned, htook, hkept, if_pos hnone]
    rfl
  · rw [held, ← htaken, ← hreturned, htook, hback, if_neg hrow]
    rfl

theorem length_flatMap_held (hrun : Machine.run step (init connections) events = some calls) :
    (calls.finished.flatMap fun call => held call.trace).length = lost calls := by
  have hsum {list : List (MysqlCall κ)} (hlist : ∀ call ∈ list, call ∈ calls.finished) :
      (list.flatMap fun call => held call.trace).length
        = list.countP fun call => NoRowFound call.op (MysqlCall.usage call) := by
    induction list with
    | nil => rfl
    | cons call list ih =>
        rw [List.flatMap_cons, List.length_append, ih fun other hother =>
            hlist other (List.mem_cons_of_mem _ hother),
          length_held_of_finished hrun (hlist call List.mem_cons_self), List.countP_cons]
        simp only [decide_eq_true_eq]
        omega
  exact hsum fun call hcall => hcall

/-- No call takes a second connection. -/
theorem not_stage_take {op : MysqlOp} {usage : MysqlUsage κ} {con other : κ}
    (htaken : usage.taken = [some con]) : ¬ Stage op (usage.take (some other)) := by
  have htwice : (usage.take (some other)).taken = [some con, some other] := by
    rw [MysqlUsage.take, htaken]
    rfl
  intro hstage
  cases hstage with
  | before hnone _ _ _ => exact absurd (htwice.symm.trans hnone) (by simp)
  | holding _ hone _ _ => exact absurd (htwice.symm.trans hone) (by simp)
  | after _ hone _ _ _ => exact absurd (htwice.symm.trans hone) (by simp)

theorem held_of_blocked (hrun : Machine.run step (init connections) events = some calls)
    {call : MysqlCall κ} (hcall : call ∈ calls.running) (hblocked : call.Blocked) :
    held call.trace = [] := by
  have hnone : (MysqlCall.usage call).taken = [] := by
    cases stage_of_run hrun call (List.mem_append_left _ hcall) with
    | before htaken _ _ _ => exact htaken
    | holding con htaken _ _ =>
        have hstage := ((watchedSystem_of_run hrun).running call hcall).of_blocked hblocked
          (some con) (Option.some_ne_none con)
        exact (not_stage_take htaken hstage).elim
    | after con htaken _ _ _ =>
        have hstage := ((watchedSystem_of_run hrun).running call hcall).of_blocked hblocked
          (some con) (Option.some_ne_none con)
        exact (not_stage_take htaken hstage).elim
  rw [held, ← (MysqlCall.usage_connections call).1, hnone, List.drop_nil]

/-- Every connection is idle, lost or held by a call in flight. -/
theorem idle_add_lost (hrun : Machine.run step (init connections) events = some calls) :
    calls.idle.length + (calls.running.flatMap fun call => held call.trace).length + lost calls
      = connections.length := by
  have hlength := (idle_held_perm hrun fun call hcall => (returns_of_run hrun call hcall).1).length_eq
  rw [List.flatMap_append, List.length_append, List.length_append, length_flatMap_held hrun,
    List.length_map] at hlength
  omega

/-- No call goes on. Either all of those that were there have returned, and the connections are idle
but for the lost ones; or all connections are lost, and the others are blocked. -/
structure Settled (connections : List κ) (calls rest : MysqlCalls κ) : Prop where
  ops : (ops rest).Perm (ops calls)
  idle : rest.idle.length + lost rest = connections.length
  stuck : rest.running ≠ [] → lost rest = connections.length ∧ ∀ call ∈ rest.running, call.Blocked

/-- **What becomes of the calls.** On every way that is left to them the calls of the data access
functions settle. -/
theorem inevitable_settled (hrun : Machine.run step (init connections) events = some calls) :
    Machine.Inevitable (Machine.only Event.Proceeds step) (Settled connections calls) calls := by
  have hreach := (inevitable_atRest MysqlOp.program calls).and_invariant
    (I := fun rest => (∃ events, Machine.run step (init connections) events = some rest) ∧
      (Monitor.ops rest).Perm (Monitor.ops calls)) ?_ ⟨⟨events, hrun⟩, .rfl⟩
  · refine hreach.mono fun rest => ?_
    rintro ⟨hrest, ⟨events, hrun⟩, hops⟩
    have hblocked := blocked_of_atRest exists_reply hrest
    have hheld : (rest.running.flatMap fun call => held call.trace) = [] :=
      List.flatMap_eq_nil_iff.mpr fun call hcall => held_of_blocked hrun hcall (hblocked call hcall)
    have hcount := idle_add_lost hrun
    rw [hheld, List.length_nil, Nat.add_zero] at hcount
    refine ⟨hops, hcount, fun hrunning => ⟨?_, hblocked⟩⟩
    rw [idle_eq_nil_of_blocked hrun hblocked hrunning, List.length_nil, Nat.zero_add] at hcount
    exact hcount
  · rintro state event next ⟨⟨events, hrun⟩, hops⟩ hstep
    obtain ⟨hproceeds, hstep⟩ := Machine.only_eq_some.mp hstep
    exact ⟨⟨events ++ [event], Machine.run_concat_eq_some.mpr ⟨state, hrun, hstep⟩⟩,
      (ops_of_step hproceeds hstep).trans hops⟩

/-- One connection: the first call is without a row, and the second one blocks. -/
theorem settled_CheckEmail :
    ∃ calls, Machine.run step (init [()])
        (.start (.CheckEmail [97] [98]) :: .start (.UpdatePwd [97] [98]) ::
          List.replicate 7 (.proceed 0 (answering []) 0) ++ [.proceed 1 (answering []) 0])
        = some calls ∧
      Machine.Inevitable (Machine.only Event.Proceeds step) (Settled [()] calls) calls := by
  obtain ⟨calls, hrun⟩ : ∃ calls, Machine.run step (init [()])
      (.start (.CheckEmail [97] [98]) :: .start (.UpdatePwd [97] [98]) ::
        List.replicate 7 (.proceed 0 (answering []) 0) ++ [.proceed 1 (answering []) 0])
      = some calls := ⟨_, rfl⟩
  exact ⟨calls, hrun, inevitable_settled hrun⟩

end MysqlCalls

end QuickChat
