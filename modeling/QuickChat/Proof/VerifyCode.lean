import QuickChat.Proof.Register
import QuickChat.Proof.ResetPwd
import QuickChat.Verify.CodeServers

/-!
# Codes from one server to the other

After any run the store has, under the prefix and the whole of an email, the code last stored for it,
until its time is. The handlers look under the same bytes up to their first NUL: where there is none
they find what was stored, and where there is one they look for the code of another email.
-/

namespace QuickChat

open Text Expiring

namespace VerifyService

theorem redis_of_GetVerifyCode (VERIFY_PREFIX email : Bytes) (choices : Fin 6 → Fin 10)
    (redis : Redis) :
    (GetVerifyCode VERIFY_PREFIX email choices redis).2 =
      redis.put (VERIFY_PREFIX ++ email)
        (some (.string (joinDigits choices), some (redis.now + 300))) := rfl

theorem zero_not_mem_joinDigits (choices : Fin 6 → Fin 10) : (0 : UInt8) ∉ joinDigits choices := by
  rw [joinDigits, List.mem_ofFn]
  rintro ⟨i, hi⟩
  have hdigit (digit : Fin 10) : 48 + UInt8.ofNat digit.val ≠ 0 := by
    revert digit
    decide
  exact hdigit (choices i) hi

end VerifyService

namespace Redis

theorem lookup_of_expiry {db : Redis} {key : Bytes} {value : RedisValue} {expireAt : Nat}
    (hentry : db.entries key = some (value, some expireAt)) :
    db.lookup key = if db.now < expireAt then some value else none := by
  rw [lookup, hentry]

theorem lookup_later_of_none {db : Redis} {key : Bytes} (hnone : db.lookup key = none)
    (seconds : Nat) : lookup { db with now := db.now + seconds } key = none := by
  rw [lookup] at hnone ⊢
  cases hentry : db.entries key with
  | none => rfl
  | some entry =>
      obtain ⟨value, expiry⟩ := entry
      cases expiry with
      | none => simp [hentry] at hnone
      | some expireAt =>
          simp only [hentry, ite_eq_right_iff, reduceCtorEq, imp_false] at hnone ⊢
          omega

end Redis

namespace CodeServers

open GateServer

variable {reg_user : RegUserProcedure} {cfg : ConfigMgr} {parse : Bytes → Option JsonValue}
  {servers next : CodeServers} {history : List (Event Bytes Bytes)} {email code : Bytes}

/-! ### What is stored -/

/-- Under every email there is the code last put there, with the time at which it is 300 seconds old,
and nothing where none was put. -/
structure CodesStored (cfg : ConfigMgr) (history : List (Event Bytes Bytes))
    (servers : CodeServers) : Prop where
  lastPut : ∀ email code age, LastPut history email code age → ∃ expireAt,
    servers.redis.entries (verifyKey cfg email) = some (.string code, some expireAt) ∧
      expireAt + age = servers.redis.now + 300
  nothing : ∀ email, (∀ code age, ¬ LastPut history email code age) →
    servers.redis.lookup (verifyKey cfg email) = none

theorem verifyKey_injective : Function.Injective (verifyKey cfg) :=
  fun _ _ h => List.append_cancel_left h

/-- **Inversion of a step.** A code is put, time goes by, or nothing happens to what is under the keys
of codes. -/
theorem step_cases {event : CodeEvent} (hstep : step reg_user cfg parse servers event = some next) :
    (∃ email code, stored event = some (.put email code) ∧
        next.redis = servers.redis.put (verifyKey cfg email)
          (some (.string code, some (servers.redis.now + 300)))) ∨
      (∃ seconds, stored event = some (.elapse seconds) ∧
        next.redis = { servers.redis with now := servers.redis.now + seconds }) ∨
      stored event = none ∧ next.redis.now = servers.redis.now ∧
        ∀ email, next.redis.entries (verifyKey cfg email)
          = servers.redis.entries (verifyKey cfg email) := by
  have hkept {handler : GateHandler Bool}
      (hrequest : (servers.request reg_user handler).map
        (fun result => (⟨result.2.redis, result.2.mysql⟩ : CodeServers)) = some next) :
      next.redis = servers.redis := by
    obtain ⟨⟨result, after⟩, hrun, rfl⟩ := Option.map_eq_some_iff.mp hrequest
    exact (run_keeps reg_user _ hrun).1
  cases event with
  | GetVerifyCode email choices =>
      obtain rfl := Option.some.inj hstep
      exact .inl ⟨email, _, rfl, rfl⟩
  | user_register body_str => exact .inr (.inr ⟨rfl, by rw [hkept hstep], by simp [hkept hstep]⟩)
  | reset_pwd body_str => exact .inr (.inr ⟨rfl, by rw [hkept hstep], by simp [hkept hstep]⟩)
  | elapse seconds =>
      obtain rfl := Option.some.inj hstep
      exact .inr (.inl ⟨seconds, rfl, rfl⟩)
  | write key entry =>
      rw [step] at hstep
      by_cases hprefix : cfg.value "Redis" "verify_prefix" <+: key
      · rw [if_pos hprefix] at hstep
        exact absurd hstep (by simp)
      · rw [if_neg hprefix, Option.some.injEq] at hstep
        subst hstep
        refine .inr (.inr ⟨rfl, rfl, fun email => Function.update_of_ne ?_ _ _⟩)
        rintro rfl
        exact hprefix (List.prefix_append _ _)

/-- Two emails have two keys, as the prefix is one. -/
theorem CodesStored.put (hstored : CodesStored cfg history servers) (email code : Bytes)
    (hnext : next.redis = servers.redis.put (verifyKey cfg email)
      (some (.string code, some (servers.redis.now + 300)))) :
    CodesStored cfg (history ++ [.put email code]) next := by
  have hother {other : Bytes} (hne : other ≠ email) :
      verifyKey cfg other ≠ verifyKey cfg email := fun h => hne (verifyKey_injective h)
  constructor
  · intro other code' age hlast
    rw [hnext]
    rcases lastPut_concat_iff.mp hlast with ⟨hput, rfl⟩ | ⟨hput, young, hyoung, hage⟩
    · obtain ⟨rfl, rfl⟩ := Event.put.inj hput
      exact ⟨_, Function.update_self _ _ _, rfl⟩
    · have hne : other ≠ email := fun heq => hput ⟨code, by rw [heq]⟩
      obtain ⟨expireAt, hentry, hexpire⟩ := hstored.lastPut other code' young hyoung
      refine ⟨expireAt, (Function.update_of_ne (hother hne) _ _).trans hentry, ?_⟩
      rw [← hage]
      exact hexpire
  · intro other hnone
    have hne : other ≠ email := by
      rintro rfl
      exact hnone code 0 (lastPut_concat_iff.mpr (.inl ⟨rfl, rfl⟩))
    rw [hnext, Redis.lookup_put_of_ne (hother hne)]
    apply hstored.nothing other
    intro code' age hlast
    apply hnone code' age
    refine lastPut_concat_iff.mpr (.inr ⟨?_, age, hlast, rfl⟩)
    rintro ⟨value, hput⟩
    exact hne (Event.put.inj hput).1.symm

theorem CodesStored.elapse (hstored : CodesStored cfg history servers) (seconds : Nat)
    (hnext : next.redis = { servers.redis with now := servers.redis.now + seconds }) :
    CodesStored cfg (history ++ [.elapse seconds]) next := by
  have hputs (email : Bytes) : ¬ Event.PutsAt email (.elapse seconds : Event Bytes Bytes) := by
    rintro ⟨value, hput⟩
    exact absurd hput (by simp)
  constructor
  · intro email code age hlast
    rcases lastPut_concat_iff.mp hlast with ⟨hput, -⟩ | ⟨-, young, hyoung, rfl⟩
    · exact absurd ⟨code, hput⟩ (hputs email)
    · obtain ⟨expireAt, hentry, hexpire⟩ := hstored.lastPut email code young hyoung
      rw [hnext]
      refine ⟨expireAt, hentry, ?_⟩
      simp only [Event.elapsed]
      omega
  · intro email hnone
    rw [hnext]
    apply Redis.lookup_later_of_none
    apply hstored.nothing email
    intro code age hlast
    exact hnone code (age + seconds)
      (lastPut_concat_iff.mpr (.inr ⟨hputs email, age, hlast, rfl⟩))

/-- **One event.** -/
theorem CodesStored.step {event : CodeEvent} (hstored : CodesStored cfg history servers)
    (hstep : CodeServers.step reg_user cfg parse servers event = some next) :
    CodesStored cfg (history ++ (stored event).toList) next := by
  rcases step_cases hstep with ⟨email, code, hevent, hredis⟩ | ⟨seconds, hevent, hredis⟩ |
    ⟨hevent, hnow, hentries⟩
  · rw [hevent]
    exact hstored.put email code hredis
  · rw [hevent]
    exact hstored.elapse seconds hredis
  · rw [hevent, Option.toList_none, List.append_nil]
    refine ⟨fun email code age hlast => ?_, fun email hnone => ?_⟩
    · rw [hentries, hnow]
      exact hstored.lastPut email code age hlast
    · rw [Redis.lookup, hentries, hnow]
      exact hstored.nothing email hnone

/-- **What is stored after any run.** From a store without codes, every email has the code last stored
for it, until its time is. -/
theorem codesStored_of_run {redis : Redis} {mysql : Mysql} {events : List CodeEvent}
    (hempty : ∀ email, redis.lookup (verifyKey cfg email) = none)
    (hrun : Machine.run (CodeServers.step reg_user cfg parse) ⟨redis, mysql⟩ events
      = some servers) :
    CodesStored cfg (events.filterMap stored) servers := by
  refine Machine.run_history
    (P := fun events state => CodesStored cfg (events.filterMap stored) state) ?_ ?_ hrun
  · exact ⟨fun _ _ _ hlast => absurd hlast not_lastPut_nil, fun email _ => hempty email⟩
  · intro events state event next hstored hstep
    rw [List.filterMap_append]
    have hsingle : [event].filterMap stored = (stored event).toList := by
      cases hevent : stored event <;> simp [hevent]
    rw [hsingle]
    exact hstored.step hstep

/-- Redis has the code while its 300 seconds last. -/
theorem CodesStored.lookup_eq_some_iff (hstored : CodesStored cfg history servers) :
    servers.redis.lookup (verifyKey cfg email) = some (.string code) ↔
      Live 300 history email code := by
  constructor
  · intro hlookup
    by_cases hlast : ∃ code age, LastPut history email code age
    · obtain ⟨last, age, hlast⟩ := hlast
      obtain ⟨expireAt, hentry, hexpire⟩ := hstored.lastPut email last age hlast
      rw [Redis.lookup_of_expiry hentry] at hlookup
      by_cases hnow : servers.redis.now < expireAt
      · rw [if_pos hnow, Option.some.injEq, RedisValue.string.injEq] at hlookup
        subst hlookup
        exact ⟨age, by omega, hlast⟩
      · rw [if_neg hnow] at hlookup
        exact absurd hlookup (by simp)
    · simp only [not_exists] at hlast
      rw [hstored.nothing email hlast] at hlookup
      exact absurd hlookup (by simp)
  · rintro ⟨age, hage, hlast⟩
    obtain ⟨expireAt, hentry, hexpire⟩ := hstored.lastPut email code age hlast
    rw [Redis.lookup_of_expiry hentry, if_pos (by omega)]

/-! ### What the handlers find -/

theorem zero_not_mem_of_live {events : List CodeEvent} (hlive : LiveCode events email code) :
    (0 : UInt8) ∉ code := by
  obtain ⟨age, -, before, after, hsplit, -⟩ := hlive
  have hmem : Event.put email code ∈ events.filterMap stored := by
    rw [hsplit]
    exact List.mem_append_right _ List.mem_cons_self
  obtain ⟨event, -, hevent⟩ := List.mem_filterMap.mp hmem
  cases event with
  | GetVerifyCode email' choices =>
      obtain ⟨-, rfl⟩ := Event.put.inj (Option.some.inj hevent)
      exact VerifyService.zero_not_mem_joinDigits choices
  | _ => simp [stored] at hevent

/-- Where the key has no NUL, `Get` finds what was stored. -/
theorem text_eq_some_iff {events : List CodeEvent}
    (hstored : CodesStored cfg (events.filterMap stored) servers)
    (hkey : (0 : UInt8) ∉ verifyKey cfg email) :
    servers.redis.text (verifyKey cfg email) = some code ↔ LiveCode events email code := by
  have hlookup {code : Bytes} : servers.redis.lookup (verifyKey cfg email) = some (.string code) ↔
      LiveCode events email code := hstored.lookup_eq_some_iff
  rw [Redis.text_eq_some_iff_lookup hkey, hlookup]
  intro s hs
  exact zero_not_mem_of_live (hlookup.mp hs)

/-- A request passes the step exactly with what `Get` finds for its email. -/
theorem passesRegister_iff {body : Bytes} {request : GateRequest} {confirm verifycode : Bytes}
    (hsubmitted : request.SubmittedWith parse body confirm verifycode) :
    PassesRegister reg_user cfg parse servers body ↔
      servers.redis.text (verifyKey cfg request.email) = some verifycode := by
  constructor
  · rintro ⟨result, after, hrun, name, email, pwd, hcall⟩
    by_contra htext
    have hnot (other : GateRequest) (confirm' code : Bytes)
        (hother : other.SubmittedWith parse body confirm' code) :
        servers.redis.text (verifyKey cfg other.email) ≠ some code := by
      obtain ⟨rfl, rfl, rfl⟩ := hsubmitted.unique hother
      exact htext
    obtain ⟨result', response, hrun'⟩ := run_user_register_of_no_text reg_user servers.mysql hnot
    obtain ⟨-, rfl⟩ := Prod.mk.inj (Option.some.inj (hrun.symm.trans hrun'))
    exact List.not_mem_nil hcall
  · intro htext
    obtain ⟨root, -, hrun⟩ := run_user_register_of_text reg_user servers.mysql hsubmitted htext
    exact ⟨_, _, hrun, request.user, request.email, request.passwd, List.mem_singleton.mpr rfl⟩

theorem passesReset_iff {body : Bytes} {request : GateRequest} {verifycode : Bytes}
    (hsubmitted : request.Submitted parse body verifycode) :
    PassesReset reg_user cfg parse servers body ↔
      servers.redis.text (verifyKey cfg request.email) = some verifycode := by
  constructor
  · rintro ⟨result, after, hrun, name, email, hcall⟩
    by_contra htext
    have hnot (other : GateRequest) (code : Bytes) (hother : other.Submitted parse body code) :
        servers.redis.text (verifyKey cfg other.email) ≠ some code := by
      obtain ⟨rfl, rfl⟩ := hsubmitted.unique hother
      exact htext
    obtain ⟨result', after', hrun', -, hcalls, -⟩ := run_reset_pwd_of_no_text reg_user hnot
    obtain ⟨-, rfl⟩ := Prod.mk.inj (Option.some.inj (hrun.symm.trans hrun'))
    rw [hcalls] at hcall
    exact List.not_mem_nil hcall
  · intro htext
    obtain ⟨result, after, hrun, hcall⟩ := checkEmail_called reg_user request.email request.user
      request.passwd verifycode (start servers.redis servers.mysql)
    exact ⟨result, after, (run_reset_pwd_of_text reg_user hsubmitted htext).trans hrun,
      request.user, request.email, hcall⟩

/-! ### When codes are verified rightly -/

/-- After any run from a store without codes, a request for the email passes the verification step of
either handler exactly with the code most recently stored for it, while that has not expired. -/
def VerifiesRightly (reg_user : RegUserProcedure) (cfg : ConfigMgr)
    (parse : Bytes → Option JsonValue) (email : Bytes) : Prop :=
  ∀ redis mysql events servers, (∀ other, redis.lookup (verifyKey cfg other) = none) →
    Machine.run (step reg_user cfg parse) ⟨redis, mysql⟩ events = some servers →
    ∀ (body : Bytes) (request : GateRequest), request.email = email →
      (∀ confirm verifycode, request.SubmittedWith parse body confirm verifycode →
        (PassesRegister reg_user cfg parse servers body ↔ LiveCode events email verifycode)) ∧
      ∀ verifycode, request.Submitted parse body verifycode →
        (PassesReset reg_user cfg parse servers body ↔ LiveCode events email verifycode)

theorem text_put_of_zero_mem {key : Bytes} (hkey : (0 : UInt8) ∈ key)
    (entry : Option (RedisValue × Option Nat)) : (Redis.init.put key entry).text key = none := by
  have hne : c_str key ≠ key := fun heq => c_str_eq_self_iff.mp heq hkey
  rw [Redis.text, Redis.lookup_put_of_ne hne]
  rfl

/-- **When codes are verified rightly.** For an email that a body can carry, in every run whose
operations get their connections and for every request, if and only if neither the prefix nor the email
has a NUL. -/
theorem verifies_rightly_iff (reg_user : RegUserProcedure) (cfg : ConfigMgr)
    (parse : Bytes → Option JsonValue) (email : Bytes)
    (hcarried : ∃ choices body request, request.email = email ∧
      GateRequest.Submitted request parse body (VerifyService.joinDigits choices)) :
    VerifiesRightly reg_user cfg parse email ↔ (0 : UInt8) ∉ verifyKey cfg email := by
  constructor
  · intro hright hkey
    obtain ⟨choices, body, request, rfl, hsubmitted⟩ := hcarried
    have hlive : LiveCode [.GetVerifyCode request.email choices] request.email
        (VerifyService.joinDigits choices) :=
      ⟨0, by omega, [], [], rfl, by simp, rfl⟩
    have hpasses := ((hright Redis.init ⟨[], 0, []⟩ [.GetVerifyCode request.email choices] _
      (fun _ => rfl) rfl body request rfl).2 _ hsubmitted).mpr hlive
    rw [passesReset_iff hsubmitted] at hpasses
    exact absurd hpasses (by
      rw [VerifyService.redis_of_GetVerifyCode]
      exact (text_put_of_zero_mem hkey _).trans_ne (by simp))
  · rintro hkey redis mysql events servers hempty hrun body request rfl
    have hstored := codesStored_of_run hempty hrun
    refine ⟨fun confirm verifycode hsubmitted => ?_, fun verifycode hsubmitted => ?_⟩
    · rw [passesRegister_iff hsubmitted, text_eq_some_iff hstored hkey]
    · rw [passesReset_iff hsubmitted, text_eq_some_iff hstored hkey]

/-! ### An email and the same with a NUL -/

def oneToSix (i : Fin 6) : Fin 10 := ⟨i.val + 1, by omega⟩

theorem verifies_rightly_plain_email :
    VerifiesRightly (fun user _ _ _ => (0, user)) ⟨[]⟩ parseReset (ascii "e") :=
  (verifies_rightly_iff (fun user _ _ _ => (0, user)) ⟨[]⟩ parseReset (ascii "e")
    ⟨oneToSix, resetBody, ⟨ascii "e", ascii "u", ascii "p"⟩, rfl, resetRoot, rfl, ⟨rfl, rfl, rfl⟩,
      rfl⟩).mpr (by decide)

def nulBody : Bytes :=
  ascii "\x7b\"email\":\"e\\u0000\",\"user\":\"u\",\"passwd\":\"p\",\"verifycode\":\"123456\"\x7d"

def parseNul (body : Bytes) : Option JsonValue :=
  if body = nulBody then
    some (.object [(ascii "email", .string (ascii "e" ++ [0])), (ascii "passwd", .string (ascii "p")),
      (ascii "user", .string (ascii "u")), (ascii "verifycode", .string (ascii "123456"))])
  else none

/-- The code of one email passes for the same email with a NUL at its end. -/
theorem passes_with_other_code :
    ∃ servers, Machine.run (step (fun user _ _ _ => (0, user)) ⟨[]⟩ parseNul)
        ⟨Redis.init, ⟨[], 0, []⟩⟩ [.GetVerifyCode (ascii "e") oneToSix] = some servers ∧
      PassesReset (fun user _ _ _ => (0, user)) ⟨[]⟩ parseNul servers nulBody ∧
      ¬ LiveCode [.GetVerifyCode (ascii "e") oneToSix] (ascii "e" ++ [0]) (ascii "123456") ∧
      ¬ VerifiesRightly (fun user _ _ _ => (0, user)) ⟨[]⟩ parseNul (ascii "e" ++ [0]) := by
  have hpasses : PassesReset (fun user _ _ _ => (0, user)) ⟨[]⟩ parseNul
      ⟨(VerifyService.GetVerifyCode [] (ascii "e") oneToSix Redis.init).2, ⟨[], 0, []⟩⟩ nulBody :=
    ⟨_, _, rfl, ascii "u", ascii "e" ++ [0], List.mem_cons_self⟩
  have hdead : ¬ LiveCode [.GetVerifyCode (ascii "e") oneToSix] (ascii "e" ++ [0])
      (ascii "123456") := by
    rintro ⟨age, -, hlast⟩
    change LastPut ([] ++ [.put (ascii "e") (VerifyService.joinDigits oneToSix)]) _ _ age at hlast
    rcases lastPut_concat_iff.mp hlast with ⟨hput, -⟩ | ⟨-, young, hyoung, -⟩
    · exact absurd (Event.put.inj hput).1 (by decide)
    · exact not_lastPut_nil hyoung
  refine ⟨_, rfl, hpasses, hdead, fun hright => hdead ?_⟩
  exact ((hright Redis.init ⟨[], 0, []⟩ _ _ (fun _ => rfl) rfl nulBody
    ⟨ascii "e" ++ [0], ascii "u", ascii "p"⟩ rfl).2 (ascii "123456")
    ⟨_, rfl, ⟨rfl, rfl, rfl⟩, rfl⟩).mp hpasses

end CodeServers

end QuickChat
