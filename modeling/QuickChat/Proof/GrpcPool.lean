import QuickChat.Gate.GrpcClients
import QuickChat.Lib.Lease

/-!
# The stubs of the gRPC clients

Both clients lease their stub: the one puts it back on either branch, the other when its `Defer` is
destroyed. So each pool is that of a library of leases, and what its calls do with the wake-ups is what
any calls behind a mutex and a condition variable do.
-/

namespace QuickChat

open Monitor Pool

theorem VerifyGrpcClient.leases_GetVerifyCode {κ : Type} (email : Bytes) :
    Leases (GetVerifyCode email : GrpcProgram κ GetVerifyRsp) := by
  rintro stub ⟨ok, reply⟩
  cases ok with
  | true => exact ⟨rfl, trivial⟩
  | false => exact ⟨rfl, trivial⟩

theorem StatusGrpcClient.leases_GetChatServer {κ : Type} (uid : Int32) :
    Leases (GetChatServer uid : GrpcProgram κ GetChatServerRsp) := by
  rintro stub ⟨ok, reply⟩
  cases ok with
  | true => exact ⟨rfl, trivial⟩
  | false => exact ⟨rfl, trivial⟩

namespace RPConPool

variable {poolSize : Nat} {ω α : Type} {programs : ω → GrpcProgram (Fin poolSize) α}
  {pool : RPConPool poolSize ω α} {events : List (Event poolSize ω)}

/-- Each stub is idle once or held by one call, a finished call has put its stub back, and a quiet pool
is whole. While a call is blocked and a stub is idle, a woken call is still to run. -/
structure InOrder (pool : RPConPool poolSize ω α) : Prop where
  stub : ∀ stub, Idle pool stub ∨ HeldOnce pool stub
  finished : ∀ call ∈ pool.finished, Over call.trace
  quiet : pool.running = [] → pool.idle.Perm (List.finRange poolSize)
  wakes : ∀ call ∈ pool.running, call.Blocked → pool.idle ≠ [] → ∃ other ∈ pool.running, other.Woken

theorem inOrder_of_leases (hprograms : ∀ op, Leases (programs op))
    (hrun : Machine.run (Monitor.step programs) (new poolSize) events = some pool) :
    InOrder pool := by
  have hnodup : (List.finRange poolSize).Nodup := List.nodup_finRange poolSize
  refine ⟨fun stub => idle_or_heldOnce hprograms hnodup hrun (List.mem_finRange stub),
    over_of_run hprograms hrun, idle_perm_of_leases hprograms hrun, ?_⟩
  intro call hcall hblocked hidle
  have hawake := awake_of_run hrun ⟨call, hcall, hblocked⟩
  have hwoken : 0 < woken pool.running := (List.length_pos_iff.mpr hidle).trans_le hawake
  obtain ⟨other, hother, hawoken⟩ := List.countP_pos_iff.mp hwoken
  exact ⟨other, hother, of_decide_eq_true hawoken⟩

end RPConPool

namespace GrpcClients

variable {verifySize statusSize : Nat} {clients : GrpcClients verifySize statusSize}
  {events : List (Event verifySize statusSize)}

/-- Each client has its own pool, and a run of both is a run of each. -/
theorem runs_of_run (hrun : Machine.run step init events = some clients) :
    (∃ verifyEvents, Machine.run (Monitor.step VerifyGrpcClient.GetVerifyCode)
        (RPConPool.new verifySize) verifyEvents = some clients.verify) ∧
      ∃ statusEvents, Machine.run (Monitor.step StatusGrpcClient.GetChatServer)
        (RPConPool.new statusSize) statusEvents = some clients.status := by
  refine Machine.run_invariant (P := fun clients : GrpcClients verifySize statusSize =>
    (∃ verifyEvents, Machine.run (Monitor.step VerifyGrpcClient.GetVerifyCode)
        (RPConPool.new verifySize) verifyEvents = some clients.verify) ∧
      ∃ statusEvents, Machine.run (Monitor.step StatusGrpcClient.GetChatServer)
        (RPConPool.new statusSize) statusEvents = some clients.status)
    ⟨⟨[], rfl⟩, ⟨[], rfl⟩⟩ ?_ hrun
  rintro clients event next ⟨⟨verifyEvents, hverify⟩, ⟨statusEvents, hstatus⟩⟩ hstep
  cases event with
  | verify event =>
      obtain ⟨pool, hpool, rfl⟩ := Option.map_eq_some_iff.mp hstep
      exact ⟨⟨verifyEvents ++ [event], Machine.run_concat_eq_some.mpr ⟨_, hverify, hpool⟩⟩,
        statusEvents, hstatus⟩
  | status event =>
      obtain ⟨pool, hpool, rfl⟩ := Option.map_eq_some_iff.mp hstep
      exact ⟨⟨verifyEvents, hverify⟩,
        statusEvents ++ [event], Machine.run_concat_eq_some.mpr ⟨_, hstatus, hpool⟩⟩

/-- **The stubs of both pools.** In every run of the two clients both pools are in order. -/
theorem pools_inOrder (hrun : Machine.run step init events = some clients) :
    RPConPool.InOrder clients.verify ∧ RPConPool.InOrder clients.status := by
  obtain ⟨⟨verifyEvents, hverify⟩, ⟨statusEvents, hstatus⟩⟩ := runs_of_run hrun
  exact ⟨RPConPool.inOrder_of_leases VerifyGrpcClient.leases_GetVerifyCode hverify,
    RPConPool.inOrder_of_leases StatusGrpcClient.leases_GetChatServer hstatus⟩

def replying (ok : Bool) : (effect : GrpcEffect (Fin 1)) → Option (GrpcEffect.Reply effect)
  | .GetVerifyCode _ request => some (ok, ⟨0, request.email, []⟩)
  | .GetChatServer _ _ => some (ok, ⟨0, [], [], []⟩)

/-- One stub and three calls: the second is woken for the stub, and the third takes it. -/
theorem pools_inOrder_newcomer :
    ∃ clients : GrpcClients 1 1, Machine.run step init
        [.verify (.start [97]), .verify (.start [98]), .verify (.start [99]),
          .verify (.proceed 0 (replying true) 0), .verify (.proceed 1 (replying true) 0),
          .verify (.proceed 0 (replying false) 0), .verify (.proceed 0 (replying true) 1),
          .verify (.proceed 2 (replying true) 0), .status (.start 7),
          .status (.proceed 0 (replying true) 0)] = some clients ∧
      (RPConPool.InOrder clients.verify ∧ RPConPool.InOrder clients.status) := by
  obtain ⟨clients, hrun⟩ : ∃ clients : GrpcClients 1 1, Machine.run step init
      [.verify (.start [97]), .verify (.start [98]), .verify (.start [99]),
        .verify (.proceed 0 (replying true) 0), .verify (.proceed 1 (replying true) 0),
        .verify (.proceed 0 (replying false) 0), .verify (.proceed 0 (replying true) 1),
        .verify (.proceed 2 (replying true) 0), .status (.start 7),
        .status (.proceed 0 (replying true) 0)] = some clients := ⟨_, rfl⟩
  exact ⟨clients, hrun, pools_inOrder hrun⟩

end GrpcClients

end QuickChat
