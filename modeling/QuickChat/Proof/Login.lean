import QuickChat.Proof.StatusService

/-!
# Which logins are answered rightly

The store has, under every user's key, the token most recently issued to that user, so `Login` could
be answered from it. But it refuses every user whose key it finds, so the answers are right only for
logins that should fail: with another token than the last one, and, for a user without one, with a
token that is not empty.
-/

namespace QuickChat

open Text

namespace StatusServer

open StatusServiceImpl

variable {server next : StatusServer} {uid : Int32} {token : Bytes}

theorem lastToken_concat (replies : List StatusReply) (reply : StatusReply) (uid : Int32) :
    lastToken (replies ++ [reply]) uid = match reply with
      | .GetChatServer uid' (.ok rsp) => if uid' = uid then some rsp.token else lastToken replies uid
      | _ => lastToken replies uid := by
  rw [lastToken, List.foldl_append]
  rfl

/-- Under every user's key there is the token last issued to the user, and nothing without one. -/
def TokensStored (server : StatusServer) : Prop :=
  ∀ uid, server.redis.lookup (token_key uid) = (lastToken server.replies uid).map .string

/-- A call that raises stores nothing, and one that replies stores the token that it replies with. -/
theorem step_GetChatServer_cases {uuid : Uuid}
    (hstep : step server (.GetChatServer uid uuid) = some next) :
    (∃ e, next.redis = server.redis ∧
        next.replies = server.replies ++ [.GetChatServer uid (.error e)]) ∨
      ∃ rsp : GetChatServerRsp, rsp.token = generate_unique_string uuid ∧
        next.redis = server.redis.put (token_key uid) (some (.string rsp.token, none)) ∧
        next.replies = server.replies ++ [.GetChatServer uid (.ok rsp)] := by
  simp only [step, run_GetChatServer, Option.map_map, Option.map_eq_some_iff] at hstep
  obtain ⟨⟨selected, servers_⟩, -, rfl⟩ := hstep
  cases selected with
  | error e => exact .inl ⟨e, rfl, rfl⟩
  | ok chosen => exact .inr ⟨_, rfl, rfl, rfl⟩

/-- The token last issued is the one last stored. -/
theorem TokensStored.step {call : StatusCall} (hserver : TokensStored server)
    (hstep : StatusServer.step server call = some next) : TokensStored next := by
  intro uid
  cases call with
  | GetChatServer uid' uuid =>
      rcases step_GetChatServer_cases hstep with ⟨e, hredis, hreplies⟩ | ⟨rsp, -, hredis, hreplies⟩
      · rw [hredis, hreplies, lastToken_concat]
        exact hserver uid
      · rw [hredis, hreplies, lastToken_concat]
        by_cases huid : uid' = uid
        · rw [huid, Redis.lookup_put_self]
          simp
        · rw [Redis.lookup_put_of_ne fun h => huid (token_key_injective h).symm, hserver uid]
          simp [huid]
  | Login uid' token =>
      simp only [StatusServer.step, run_Login, Option.map_some, Option.some.injEq] at hstep
      subst hstep
      rw [lastToken_concat]
      cases server.redis.text (token_key uid') with
      | none => exact hserver uid
      | some stored => exact hserver uid
  | loginCount entry =>
      rw [StatusServer.step, Option.some.injEq] at hstep
      subst hstep
      change (server.redis.put LOGIN_COUNT entry).lookup (token_key uid) = _
      rw [Redis.lookup_put_of_ne (token_key_ne_LOGIN_COUNT uid)]
      exact hserver uid

theorem tokensStored_of_run {servers_ : ServerTable} {redis : Redis} {calls : List StatusCall}
    (hempty : ∀ uid, redis.lookup (token_key uid) = none)
    (hrun : Machine.run step (start servers_ redis) calls = some server) : TokensStored server :=
  Machine.run_invariant (fun uid => hempty uid) (fun _ _ _ hserver hstep => hserver.step hstep) hrun

theorem text_token_key (hserver : TokensStored server) :
    server.redis.text (token_key uid) = (lastToken server.replies uid).map c_str := by
  rw [Redis.text, c_str_of_not_mem (not_mem_token_key uid), hserver uid]
  cases lastToken server.replies uid <;> rfl

/-- `Login` succeeds with the empty token for a user without a token, and never else. -/
theorem loginError_eq_success_iff (hserver : TokensStored server) :
    loginError server uid token = some ErrorCodes.Success.value ↔
      lastToken server.replies uid = none ∧ token = [] := by
  rw [loginError, run_Login, text_token_key hserver]
  cases lastToken server.replies uid with
  | none =>
      by_cases htoken : token = []
      · simp [htoken]
      · simpa [htoken] using fun h => absurd (ErrorCodes.value_injective h) (by decide)
  | some issued => simpa using fun h => absurd (ErrorCodes.value_injective h) (by decide)

/-- The keys of two users differ, so a token for the one is nothing to the other. -/
theorem loginError_of_issue {uid' : Int32} {uuid : Uuid} (hne : uid' ≠ uid)
    (hstep : step server (.GetChatServer uid' uuid) = some next) :
    loginError next uid token = loginError server uid token := by
  have htext : next.redis.text (token_key uid) = server.redis.text (token_key uid) := by
    rcases step_GetChatServer_cases hstep with ⟨e, hredis, -⟩ | ⟨rsp, -, hredis, -⟩
    · rw [hredis]
    · rw [hredis, Redis.text, Redis.text, c_str_of_not_mem (not_mem_token_key uid),
        Redis.lookup_put_of_ne fun h => hne (token_key_injective h).symm]
  rw [loginError, loginError, run_Login, run_Login, htext]
  cases server.redis.text (token_key uid) <;> rfl

/-- **When a login is answered rightly.** After any run from a store without tokens, and as long as
every operation gets its connection, `Login` succeeds exactly for the token last issued to the user,
whatever is issued to others, if and only if the token it is called with is not that one, and is not
empty when there is none. -/
theorem login_right_iff {servers_ : ServerTable} {redis : Redis} {calls : List StatusCall}
    (hempty : ∀ uid, redis.lookup (token_key uid) = none)
    (hrun : Machine.run step (start servers_ redis) calls = some server) :
    ((loginError server uid token = some ErrorCodes.Success.value ↔
        lastToken server.replies uid = some token) ∧
      ∀ (uid' : Int32) (uuid : Uuid) (next : StatusServer), uid' ≠ uid →
        step server (.GetChatServer uid' uuid) = some next →
        loginError next uid token = loginError server uid token) ↔
      token ≠ (lastToken server.replies uid).getD [] := by
  have hserver := tokensStored_of_run hempty hrun
  have hframe (uid' : Int32) (uuid : Uuid) (next : StatusServer) (hne : uid' ≠ uid)
      (hstep : step server (.GetChatServer uid' uuid) = some next) :
      loginError next uid token = loginError server uid token := loginError_of_issue hne hstep
  rw [loginError_eq_success_iff hserver]
  cases lastToken server.replies uid with
  | none => simpa using fun _ => hframe
  | some issued => simpa [eq_comm] using fun _ => hframe

theorem login_right_other_token :
    ∃ server, Machine.run step (start [([65], ⟨[], [], [65], 0⟩)] Redis.init)
        [.GetChatServer 1 ⟨List.replicate 16 0, rfl⟩] = some server ∧
      (loginError server 1 [48] = some ErrorCodes.Success.value ↔
        lastToken server.replies 1 = some [48]) := by
  obtain ⟨server, hrun⟩ : ∃ server, Machine.run step (start [([65], ⟨[], [], [65], 0⟩)] Redis.init)
      [.GetChatServer 1 ⟨List.replicate 16 0, rfl⟩] = some server := ⟨_, rfl⟩
  have htoken : lastToken server.replies 1
      = some (generate_unique_string ⟨List.replicate 16 0, rfl⟩) := by
    obtain rfl := Option.some.inj hrun
    rfl
  refine ⟨server, hrun, ((login_right_iff (fun _ => rfl) hrun).mpr ?_).1⟩
  rw [htoken]
  decide

/-- A user is issued a token and refused with it. -/
theorem login_refused_with_last_token :
    ∃ server token, Machine.run step (start [([65], ⟨[], [], [65], 0⟩)] Redis.init)
        [.GetChatServer 1 ⟨List.replicate 16 0, rfl⟩] = some server ∧
      ¬ (loginError server 1 token = some ErrorCodes.Success.value ↔
        lastToken server.replies 1 = some token) := by
  obtain ⟨server, hrun⟩ : ∃ server, Machine.run step (start [([65], ⟨[], [], [65], 0⟩)] Redis.init)
      [.GetChatServer 1 ⟨List.replicate 16 0, rfl⟩] = some server := ⟨_, rfl⟩
  refine ⟨server, generate_unique_string ⟨List.replicate 16 0, rfl⟩, hrun, fun hright => ?_⟩
  obtain rfl := Option.some.inj hrun
  exact absurd (hright.mpr rfl) (by decide)

end StatusServer

end QuickChat
