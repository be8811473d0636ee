import QuickChat.Proof.Availability
import QuickChat.Proof.BackendStores

/-!
# Whose a token is

However the calls of the connections interleave, what Redis has for a uid is the token issued to it
last, and a token is issued only by a login that has found its name, its password and the uid in one row
of the table. The row is that of the step in which it was looked for: the password may be another one
when the token is issued.
-/

namespace QuickChat

open Text Machine HttpConnection StatusServiceImpl

namespace Backend

variable {reg_user : RegUserProcedure} {cfg : ConfigMgr} {reader : JsonReader} {backend : Backend}
  {call : Call} {uid : Int32}

/-- When the connection asked `CheckPwd`, the table had the name with the password and the uid. -/
def PwdFound (before : List (Backend × Event)) (call : Call) (name pwd : Bytes) (uid : Int32) : Prop :=
  Made before call (.CheckPwd name pwd) fun _ entry _ =>
    ∃ row ∈ entry.1.stores.mysql.user, row.name = name ∧ row.pwd = pwd ∧ Int32.ofInt row.uid = uid

/-- The call belongs to a login whose name and password have been found with the uid. -/
structure LoggedIn (reader : JsonReader) (before : List (Backend × Event)) (call : Call)
    (uid : Int32) : Prop where
  posts : PostsTo call.request "/user_login"
  found : ∃ src_root name pwd, reader.document call.request.body = some src_root ∧
    src_root.field "user" = .ok name ∧ src_root.field "passwd" = .ok pwd ∧
    PwdFound before call name pwd uid

theorem issues_eq_some {stores : Stores} {token : Bytes} (hissues : call.issues stores = some (uid, token)) :
    ∃ uid', call.effect = .GetChatServer uid' ∧ Int32.ofInt uid' = uid := by
  obtain ⟨i, request, effect, world⟩ := call
  cases effect with
  | GetChatServer uid' =>
      refine ⟨uid', rfl, ?_⟩
      simp only [Call.issues] at hissues
      split at hissues
      · obtain ⟨-, hissues⟩ := Option.ite_none_right_eq_some.mp hissues
        exact (Prod.mk.inj (Option.some.inj hissues)).1
      · exact absurd hissues (by simp)
  | _ => exact absurd hissues (by simp [Call.issues])

section Run

variable {size : Nat} {stores : Stores} {start : Backend} {events : List Event}

/-- What the connection was told is what the table had at that step. -/
theorem pwdFound_of_mem (hlisten : listen size stores = some start)
    (hrun : run (step reg_user cfg reader) start events = some backend) {event : Event}
    (hcall : callAt (backend, event) = some call) {name pwd : Bytes} {userInfo : UserInfo}
    (hmem : ⟨.CheckPwd name pwd, some userInfo⟩
      ∈ traceOf reg_user cfg (steps (step reg_user cfg reader) start events) call.i) :
    PwdFound (steps (step reg_user cfg reader) start events) call name pwd
      (Int32.ofInt userInfo.uid) := by
  obtain ⟨past, earlier, rest, world, after, hsplit, hmade, hserve⟩ :=
    exists_made hlisten hrun hcall hmem
  obtain ⟨hanswer, -⟩ := CallWorld.dao_eq_some hserve
  obtain ⟨-, hfound⟩ := Mysql.checkPwd_leaves reg_user earlier.1.stores.mysql name pwd
  obtain ⟨row, hrow, hname, hpwd, huid⟩ := hfound userInfo hanswer.symm
  exact ⟨past, earlier, rest, world, hsplit, hmade, row, hrow, hname, hpwd, by rw [huid]⟩

/-- The token is asked for behind the answer of `CheckPwd`, by the order of the handler's calls. -/
theorem loggedIn_of_issued (hlisten : listen size stores = some start)
    (hrun : run (step reg_user cfg reader) start events = some backend) {event : Event}
    {token : Bytes} (hissued : issued (backend, event) = some (uid, token)) :
    ∃ call, callAt (backend, event) = some call ∧
      LoggedIn reader (steps (step reg_user cfg reader) start events) call uid := by
  obtain ⟨call, hcall, hissues⟩ := Option.bind_eq_some_iff.mp hissued
  obtain ⟨uid', heffect, rfl⟩ := issues_eq_some hissues
  obtain ⟨hdue, -⟩ := due_of_run hlisten hrun hcall
  rw [heffect] at hdue
  obtain ⟨hposts, src_root, name, pwd, userInfo, hdocument, hname, hpwd, hmem, rfl⟩ := hdue
  exact ⟨call, hcall, hposts, src_root, name, pwd, hdocument, hname, hpwd,
    pwdFound_of_mem hlisten hrun hcall hmem⟩

/-- **Whose a token is.** From a Redis without tokens, in every run in which nothing else writes to a
key of a code or of a token: what is found for a uid is the token issued to it last, and every one was
issued to a login that had found the uid by its name and password. -/
theorem tokens_vouched (hkeys : KeysApart cfg)
    (hempty : ∀ uid, stores.redis.lookup (token_key uid) = none)
    (hlisten : listen size stores = some start)
    (hrun : run (step reg_user cfg reader) start events = some backend) :
    (∀ uid token, backend.stores.redis.text (token_key uid) = some token ↔
        LastOf issued (steps (step reg_user cfg reader) start events) uid token) ∧
      ∀ before entry after uid token,
        steps (step reg_user cfg reader) start events = before ++ entry :: after →
        issued entry = some (uid, token) →
        ∃ call, callAt entry = some call ∧ LoggedIn reader before call uid := by
  have htokens := tokens_of_run hkeys hempty hlisten hrun
  refine ⟨fun uid token => htokens.text_iff, ?_⟩
  rintro before ⟨state, event⟩ after uid token hsplit hissued
  obtain ⟨first, next, hfirst, rfl, -⟩ := exists_run_of_steps hrun hsplit
  exact loggedIn_of_issued hlisten hfirst hissued

end Run

/-! ### One login -/

def codePrefix : ConfigMgr := ⟨[(ascii "Redis", [(ascii "verify_prefix", ascii "code_")])]⟩

theorem keysApart_codePrefix : KeysApart codePrefix := by
  rintro uid ⟨rest, hkey⟩
  have hfirst : some (99 : UInt8) = some 117 := congrArg List.head? hkey
  exact absurd hfirst (by decide)

def answering : CallWorld :=
  ⟨RedisMgr.sound, true, StatusCalls.zeroUuid, CodeServers.oneToSix, .answered, .completed, ⟨0, [], []⟩,
    HttpCall.listed⟩

def arrives (i : Nat) (target : String) : List Event :=
  [.connection i (.accept true),
    .connection i (.read (some ⟨.post, ascii target, 11, [UInt8.ofNat i]⟩))]

def fields (values : List (String × String)) : Option JsonValue :=
  some (.object (values.map fun value => (ascii value.1, .string (ascii value.2))))

def loginReader : JsonReader := fun _ => .ok (fields [("passwd", "p"), ("user", "u")])

def oneUser : Stores :=
  ⟨Redis.init, ⟨[⟨7, ascii "u", ascii "e", ascii "p"⟩], 0, []⟩,
    [(ascii "s", ⟨ascii "h", ascii "1", ascii "s", 0⟩)]⟩

def oneLogin : List Event := arrives 0 "/user_login" ++ List.replicate 5 (.call 0 answering)

theorem tokens_vouched_one_login :
    ∃ start backend token, listen 1 oneUser = some start ∧
      run (step Accounts.registerNew codePrefix loginReader) start oneLogin = some backend ∧
      backend.stores.redis.text (token_key 7) = some token ∧
      ∃ before entry after call, steps (step Accounts.registerNew codePrefix loginReader) start oneLogin
          = before ++ entry :: after ∧
        callAt entry = some call ∧ LoggedIn loginReader before call 7 := by
  obtain ⟨start, hlisten⟩ : ∃ start, listen 1 oneUser = some start := ⟨_, rfl⟩
  obtain ⟨backend, hrun, htext⟩ := Option.map_eq_some_iff.mp
    (show ((listen 1 oneUser).bind fun start =>
        run (step Accounts.registerNew codePrefix loginReader) start oneLogin).map
          (fun backend => backend.stores.redis.text (token_key 7))
      = some (some (generate_unique_string answering.uuid)) from by decide +kernel)
  rw [hlisten, Option.bind_some] at hrun
  obtain ⟨hfound, hissued⟩ := tokens_vouched keysApart_codePrefix (fun _ => rfl) hlisten hrun
  obtain ⟨before, entry, after, hsplit, hissue, -⟩ := (hfound 7 _).mp htext
  obtain ⟨call, hcall, hloggedIn⟩ := hissued before entry after 7 _ hsplit hissue
  exact ⟨start, backend, _, hlisten, hrun, htext, before, entry, after, call, hsplit, hcall, hloggedIn⟩

end Backend

end QuickChat
