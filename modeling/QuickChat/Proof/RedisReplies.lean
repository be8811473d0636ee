import QuickChat.Common.RedisReplies
import QuickChat.Proof.RedisMgr

/-!
# What an operation of RedisMgr makes of a reply

An operation is its command followed by the accesses to the reply. Seven of the twelve treat every reply
as its type allows. `Set` assigns to the type of any reply, `Auth` reads through null, and `LPop`,
`RPop` and `HGet` take the text of whatever is not nil.
-/

namespace QuickChat

open Text

theorem ReplyType.code_inj {type other : ReplyType} : type.code = other.code ↔ type = other := by
  constructor
  · intro hcode
    cases type <;> cases other <;> simp_all [code]
  · rintro rfl
    rfl

namespace ReplyCell

def holding (reply : redisReply) (type : Int) : ReplyCell := ⟨some reply, type, none⟩

def freedAs (reply : redisReply) (type : Int) : ReplyCell := ⟨some reply, type, some type⟩

def null : ReplyCell := ⟨none, 0, none⟩

end ReplyCell

namespace ReplyProgram

variable {α β : Type} {cell : ReplyCell}

@[simp]
theorem runOn_ret (value : α) : runOn (Program.ret value) cell = some (value, cell) := rfl

@[simp]
theorem runOn_bind (program : ReplyProgram α) (second : α → ReplyProgram β) :
    runOn (program >>= second) cell =
      (runOn program cell).bind fun result => runOn (second result.1) result.2 := by
  rw [runOn, Program.interp_bind]
  rfl

@[simp]
theorem runOn_orM (first second : ReplyProgram Bool) :
    runOn (first <||> second) cell =
      (runOn first cell).bind fun result =>
        if result.1 then some (true, result.2) else runOn second result.2 := by
  rw [orM, runOn_bind]
  congr 1
  funext result
  cases hfirst : result.1 <;> rfl

theorem runOn_perform (effect : ReplyEffect) :
    runOn (Program.perform effect) cell = (ReplyCell.serve effect).run cell := by
  change ((ReplyCell.serve effect).run cell).bind some = _
  exact Option.bind_fun_some _

theorem over_some (program : ReplyProgram α) (reply : redisReply) :
    program.over (some reply) = program.runOn (.holding reply reply.type.code) := rfl

end ReplyProgram

namespace RedisMgr.AfterCommand

open ReplyProgram

variable (reply : redisReply) (type : Int)

/-! ### Single accesses -/

@[simp]
theorem runOn_isNull :
    runOn isNull (.holding reply type) = some (false, .holding reply type) := rfl

@[simp]
theorem runOn_typeIs (asked : ReplyType) :
    runOn (typeIs asked) (.holding reply type) =
      some (decide (type = asked.code), .holding reply type) := rfl

@[simp]
theorem runOn_typeIsNot (asked : ReplyType) :
    runOn (typeIsNot asked) (.holding reply type) =
      some (decide (type ≠ asked.code), .holding reply type) := rfl

theorem runOn_integer (hinteger : reply.type = .INTEGER) :
    runOn integer (.holding reply type) = some (reply.integer, .holding reply type) := by
  refine (runOn_perform _).trans ?_
  change ((some reply).filter fun reply => decide (reply.type = .INTEGER)).map _ = _
  rw [Option.filter_some_pos (by simpa using hinteger)]
  rfl

@[simp]
theorem runOn_str :
    runOn str (.holding reply type) =
      reply.str.map fun str => (c_str str, .holding reply type) :=
  (runOn_perform _).trans (by rfl)

@[simp]
theorem runOn_assignType (assigned : Int) :
    runOn (assignType assigned) (.holding reply type) = some ((), .holding reply assigned) := rfl

@[simp]
theorem runOn_leave (report : ReplyReport) :
    runOn (leave report) (.holding reply type) = some (report, .freedAs reply type) := rfl

/-! ### The lines behind a command, over any reply -/

theorem over_unlessNil_null : unlessNil.over none = some (.failure, .null) := rfl

theorem over_unlessNil : unlessNil.over (some reply) =
    if reply.type = .NIL then some (.failure, .freedAs reply reply.type.code)
    else reply.str.map fun str => (.found (c_str str), .freedAs reply reply.type.code) := by
  rw [over_some, unlessNil]
  by_cases hnil : reply.type = .NIL
  · simp [hnil]
  · rw [if_neg hnil]
    cases hstr : reply.str <;> simp [ReplyType.code_inj, hnil, hstr]

theorem over_Get_null : Get.over none = some (.failure, .null) := rfl

theorem over_Get : Get.over (some reply) =
    if reply.type ≠ .STRING then some (.failure, .freedAs reply reply.type.code)
    else reply.str.map fun str => (.found (c_str str), .freedAs reply reply.type.code) := by
  rw [over_some, Get]
  by_cases hstring : reply.type = .STRING
  · rw [if_neg (not_not.mpr hstring)]
    cases hstr : reply.str <;> simp [hstring, hstr]
  · simp [ReplyType.code_inj, hstring]

theorem over_ifInteger_null : ifInteger.over none = some (.failure, .null) := rfl

theorem over_ifInteger : ifInteger.over (some reply) =
    some (if reply.type = .INTEGER then .success else .failure,
      .freedAs reply reply.type.code) := by
  rw [over_some, ifInteger]
  by_cases hinteger : reply.type = .INTEGER
  · simp [hinteger]
  · simp [ReplyType.code_inj, hinteger]

theorem over_push_null : push.over none = some (.failure, .null) := rfl

theorem over_push : push.over (some reply) =
    some (if ¬ (reply.type ≠ .INTEGER ∨ reply.integer ≤ 0) then .success else .failure,
      .freedAs reply reply.type.code) := by
  rw [over_some, push]
  by_cases hinteger : reply.type = .INTEGER
  · by_cases hpositive : 0 < reply.integer
    · simp [hinteger, runOn_integer, not_le.mpr hpositive]
    · simp [hinteger, runOn_integer, not_lt.mp hpositive]
  · simp [ReplyType.code_inj, hinteger]

theorem over_ExistsKey_null : ExistsKey.over none = some (.failure, .null) := rfl

theorem over_ExistsKey : ExistsKey.over (some reply) =
    some (if ¬ (reply.type ≠ .INTEGER ∨ reply.integer = 0) then .success else .failure,
      .freedAs reply reply.type.code) := by
  rw [over_some, ExistsKey]
  by_cases hinteger : reply.type = .INTEGER
  · by_cases hzero : reply.integer = 0
    · simp [hinteger, runOn_integer, hzero]
    · simp [hinteger, runOn_integer, hzero]
  · simp [ReplyType.code_inj, hinteger]

theorem over_Auth_null : Auth.over none = none := rfl

theorem over_Auth : Auth.over (some reply) =
    some (if reply.type ≠ .ERROR then .success else .failure,
      .freedAs reply reply.type.code) := by
  rw [over_some, Auth]
  by_cases herror : reply.type = .ERROR
  · simp [herror]
  · simp [ReplyType.code_inj, herror]

theorem over_Set_null : Set.over none = some (.failure, .null) := rfl

/-- What is assigned to the type of the reply is there when it is freed. -/
theorem over_Set : Set.over (some reply) = reply.str.map fun str =>
    if c_str str = ascii "OK" ∨ c_str str = ascii "ok" then (.success, .freedAs reply 1)
    else (.failure, .freedAs reply 0) := by
  rw [over_some, Set]
  cases hstr : reply.str with
  | none => simp [strIs, hstr]
  | some str =>
      by_cases hok : c_str str = ascii "OK"
      · simp [strIs, hstr, hok, ReplyType.code]
      · by_cases hlower : c_str str = ascii "ok"
        · simp [strIs, hstr, hlower, ReplyType.code]
        · simp [strIs, hstr, hok, hlower]

end RedisMgr.AfterCommand

/-! ### The operations -/

namespace RedisOp

open RedisMgr AfterCommand

variable {κ α : Type} (op : RedisOp)

def afterReply (reply : redisReply) : RedisProgram κ RedisResult :=
  match op.afterCommand.over (some reply) with
  | none => nullRead
  | some (report, _) => return op.returns report

/-- It is enough to look at each reply, and at none. -/
theorem accessing_of_sending {failure : α} {onAnswer : Option redisReply → RedisProgram κ α}
    {second : α → RedisProgram κ RedisResult} (hfailure : second failure = pure (op.returns .failure))
    (hanswer : ∀ answer, onAnswer answer >>= second =
      match op.afterCommand.over answer with
      | none => nullRead
      | some (report, _) => return op.returns report) :
    sending op.sent.argv failure onAnswer >>= second = op.accessing := by
  rw [sending_bind hfailure, funext hanswer]
  rfl

theorem accessing_of_execute {failure : α} {onReply : redisReply → RedisProgram κ α}
    {second : α → RedisProgram κ RedisResult}
    (hnull : op.afterCommand.over none = some (.failure, .null))
    (hfailure : second failure = pure (op.returns .failure))
    (hreply : ∀ reply, onReply reply >>= second = op.afterReply reply) :
    execute op.sent.argv failure onReply >>= second = op.accessing := by
  rw [execute_eq_sending]
  refine accessing_of_sending op hfailure fun answer => ?_
  cases answer with
  | none =>
      rw [hnull]
      exact hfailure
  | some reply => exact hreply reply

theorem nullRead_bind {β : Type} (second : α → RedisProgram κ β) :
    (nullRead >>= second : RedisProgram κ β) = nullRead :=
  congrArg (Program.call (PoolEffect.other RedisEffect.nullRead))
    (funext fun answer => Empty.elim answer)

theorem afterReply_of_some {reply : redisReply} {report : ReplyReport} {cell : ReplyCell}
    (hover : op.afterCommand.over (some reply) = some (report, cell)) :
    (op.afterReply reply : RedisProgram κ RedisResult) = pure (op.returns report) := by
  rw [afterReply, hover]

/-- The operations that give back the text of a reply, unless it is one that they pass over. -/
theorem accessing_of_text {passes : redisReply → Prop} [DecidablePred passes] {failure : α}
    {onText : redisReply → RedisProgram κ α} {second : α → RedisProgram κ RedisResult}
    (hnull : op.afterCommand.over none = some (.failure, .null))
    (hover : ∀ reply, op.afterCommand.over (some reply) =
      if passes reply then some (.failure, .freedAs reply reply.type.code)
      else reply.str.map fun str => (.found (c_str str), .freedAs reply reply.type.code))
    (hfailure : second failure = pure (op.returns .failure))
    (htext : ∀ reply, onText reply >>= second =
      replyText reply >>= fun value => pure (op.returns (.found value))) :
    execute op.sent.argv failure
      (fun reply => if passes reply then pure failure else onText reply) >>= second =
        op.accessing := by
  refine accessing_of_execute op hnull hfailure fun reply => ?_
  by_cases hpasses : passes reply
  · rw [if_pos hpasses, afterReply_of_some op ((hover reply).trans (if_pos hpasses))]
    exact hfailure
  · rw [if_neg hpasses, htext, replyText, afterReply, hover, if_neg hpasses]
    cases reply.str with
    | none => exact nullRead_bind _
    | some str => rfl

/-- Six operations test their reply and report whether the test came out well. -/
theorem accessing_of_test {accepts : redisReply → Prop} [DecidablePred accepts]
    (hnull : op.afterCommand.over none = some (.failure, .null))
    (hover : ∀ reply, op.afterCommand.over (some reply) =
      some (if accepts reply then .success else .failure, .freedAs reply reply.type.code))
    (hreturns : ∀ report, op.returns report = .done report.ok) :
    execute op.sent.argv false (fun reply => pure (decide (accepts reply))) >>=
      (fun ok => pure (.done ok)) = (op.accessing : RedisProgram κ RedisResult) := by
  have hfailure : (pure (.done false) : RedisProgram κ RedisResult) = pure (op.returns .failure) := by
    rw [hreturns, ReplyReport.failure]
  refine accessing_of_execute op hnull hfailure fun reply => ?_
  rw [afterReply_of_some op (hover reply), hreturns]
  by_cases haccepts : accepts reply
  · simp [haccepts, ReplyReport.success]
  · simp [haccepts, ReplyReport.failure]

theorem result_Set (key value : Bytes) :
    ((Set key value).result : RedisProgram κ RedisResult) = (Set key value).accessing := by
  refine accessing_of_execute (Set key value) over_Set_null rfl fun reply => ?_
  have hover : (Set key value).afterCommand.over (some reply) = _ := over_Set reply
  rw [replyText, afterReply, hover]
  cases reply.str with
  | none => exact (congrArg (· >>= _) (nullRead_bind _)).trans (nullRead_bind _)
  | some str =>
      by_cases hok : c_str str = ascii "OK" ∨ c_str str = ascii "ok"
      · simp [hok, returns, ReplyReport.success]
      · simp [not_or.mp hok, returns, ReplyReport.failure]

theorem result_Auth (password : Bytes) :
    ((Auth password).result : RedisProgram κ RedisResult) = (Auth password).accessing := by
  rw [result, Auth_eq_sending]
  refine accessing_of_sending (Auth password) rfl fun answer => ?_
  cases answer with
  | none => exact nullRead_bind _
  | some reply =>
      refine Eq.trans ?_ (afterReply_of_some (Auth password) (over_Auth reply)).symm
      by_cases herror : reply.type = .ERROR
      · simp [herror, returns, ReplyReport.failure]
      · simp [herror, returns, ReplyReport.success]

/-- **An operation and its reply.** An operation of RedisMgr is its command and the accesses to its
reply. -/
theorem result_eq_accessing : (op.result : RedisProgram κ RedisResult) = op.accessing := by
  cases op with
  | Get key value =>
      exact accessing_of_text (Get key value) over_Get_null over_Get rfl
        fun reply => LawfulMonad.bind_assoc _ _ _
  | Set key value => exact result_Set key value
  | Auth password => exact result_Auth password
  | LPush key value =>
      exact accessing_of_test (LPush key value) over_push_null over_push fun report => rfl
  | LPop key value =>
      exact accessing_of_text (LPop key value) over_unlessNil_null over_unlessNil rfl
        fun reply => LawfulMonad.bind_assoc _ _ _
  | RPush key value =>
      exact accessing_of_test (RPush key value) over_push_null over_push fun report => rfl
  | RPop key value =>
      exact accessing_of_text (RPop key value) over_unlessNil_null over_unlessNil rfl
        fun reply => LawfulMonad.bind_assoc _ _ _
  | HSet key hkey value =>
      exact accessing_of_test (HSet key hkey value) over_ifInteger_null over_ifInteger fun report => rfl
  | HSetLen key hkey hvalue hvaluelen =>
      exact accessing_of_test (HSetLen key hkey hvalue hvaluelen) over_ifInteger_null over_ifInteger
        fun report => rfl
  | HGet key hkey =>
      exact accessing_of_text (HGet key hkey) over_unlessNil_null over_unlessNil rfl fun reply => rfl
  | Del key => exact accessing_of_test (Del key) over_ifInteger_null over_ifInteger fun report => rfl
  | ExistsKey key =>
      exact accessing_of_test (ExistsKey key) over_ExistsKey_null over_ExistsKey fun report => rfl

/-! ### What is asked of an operation -/

def IsSuccess : RedisOp → HiredisReply → Prop
  | Get _ _, received => received.object.type = .STRING
  | Set _ _, received => received = .STATUS (ascii "OK")
  | Auth _, received => received.object.type ≠ .ERROR
  | LPop _ _, received => received.object.type = .STRING
  | RPop _ _, received => received.object.type = .STRING
  | HGet _ _, received => received.object.type = .STRING
  | _, received => received.object.type = .INTEGER

/-- Success is reported for a successful reply only, a value is the text of a `STRING` reply, and the
reply is freed with the type it came with. -/
structure Allows (op : RedisOp) (reply : Option HiredisReply) (report : ReplyReport)
    (cell : ReplyCell) : Prop where
  success : report.ok = true → ∃ received ∈ reply, op.IsSuccess received
  value : ∀ value ∈ report.value, ∃ str, reply = some (.STRING str) ∧ value = c_str str
  type : ∀ received ∈ reply, cell.freed = some received.object.type.code

/-- The accesses to the reply all have a meaning, and what comes of them is allowed. -/
def MindsReply (op : RedisOp) (reply : Option HiredisReply) : Prop :=
  ∃ report cell, op.afterCommand.over (reply.map HiredisReply.object) = some (report, cell) ∧
    op.Allows reply report cell

/-- The replies that an operation treats as it should. -/
def Expects : RedisOp → Option HiredisReply → Prop
  | Set _ _, reply => reply = none
  | Auth _, reply => reply ≠ none
  | LPop _ _, reply => ∀ received ∈ reply, received.object.type = .NIL ∨ received.object.type = .STRING
  | RPop _ _, reply => ∀ received ∈ reply, received.object.type = .NIL ∨ received.object.type = .STRING
  | HGet _ _, reply => ∀ received ∈ reply, received.object.type = .NIL ∨ received.object.type = .STRING
  | _, _ => True

variable {reply : Option HiredisReply} {received : HiredisReply} {report : ReplyReport}
  {cell : ReplyCell} {op : RedisOp}

theorem mindsReply_iff_allows
    (hover : op.afterCommand.over (reply.map HiredisReply.object) = some (report, cell)) :
    op.MindsReply reply ↔ op.Allows reply report cell := by
  constructor
  · rintro ⟨other, place, hother, hallows⟩
    rw [hover, Option.some.injEq, Prod.mk.injEq] at hother
    obtain ⟨rfl, rfl⟩ := hother
    exact hallows
  · intro hallows
    exact ⟨report, cell, hover, hallows⟩

theorem not_mindsReply_of_none
    (hover : op.afterCommand.over (reply.map HiredisReply.object) = none) : ¬ op.MindsReply reply := by
  rintro ⟨report, cell, hother, -⟩
  rw [hover] at hother
  cases hother

theorem mindsReply_null (hover : op.afterCommand.over none = some (.failure, .null)) :
    op.MindsReply none :=
  ⟨.failure, .null, hover, ⟨Bool.noConfusion, nofun, nofun⟩⟩

/-- The type is kept, so it is left to see what is reported. -/
theorem mindsReply_of_freed (hover : op.afterCommand.over (some received.object) =
      some (report, .freedAs received.object received.object.type.code))
    (hsuccess : report.ok = true → op.IsSuccess received)
    (hvalue : ∀ value ∈ report.value, ∃ str, received = .STRING str ∧ value = c_str str) :
    op.MindsReply (some received) := by
  refine ⟨report, _, hover, fun hok => ⟨received, rfl, hsuccess hok⟩, fun value hmem => ?_, ?_⟩
  · obtain ⟨str, rfl, htext⟩ := hvalue value hmem
    exact ⟨str, rfl, htext⟩
  · rintro same ⟨⟩
    rfl

theorem mindsReply_failure (hover : op.afterCommand.over (some received.object) =
    some (.failure, .freedAs received.object received.object.type.code)) :
    op.MindsReply (some received) :=
  mindsReply_of_freed hover Bool.noConfusion nofun

theorem mindsReply_success (hover : op.afterCommand.over (some received.object) =
      some (.success, .freedAs received.object received.object.type.code))
    (hsuccess : op.IsSuccess received) : op.MindsReply (some received) :=
  mindsReply_of_freed hover (fun _ => hsuccess) nofun

theorem mindsReply_of_test (op : RedisOp) {accepts : redisReply → Prop} [DecidablePred accepts]
    (hover : ∀ reply, op.afterCommand.over (some reply) =
      some (if accepts reply then .success else .failure, .freedAs reply reply.type.code))
    (haccepts : ∀ received : HiredisReply, accepts received.object → op.IsSuccess received)
    (received : HiredisReply) : op.MindsReply (some received) := by
  have hreceived := hover received.object
  by_cases hobject : accepts received.object
  · rw [if_pos hobject] at hreceived
    exact mindsReply_success hreceived (haccepts received hobject)
  · rw [if_neg hobject] at hreceived
    exact mindsReply_failure hreceived

theorem mindsReply_of_some (op : RedisOp) (hnull : op.afterCommand.over none = some (.failure, .null))
    (hsome : ∀ received, op.MindsReply (some received)) (reply : Option HiredisReply) :
    op.MindsReply reply := by
  cases reply with
  | none => exact mindsReply_null hnull
  | some received => exact hsome received

theorem mindsReply_string {str : Bytes}
    (hover : op.afterCommand.over (some (HiredisReply.STRING str).object) =
      some (.found (c_str str), .freedAs (HiredisReply.STRING str).object ReplyType.STRING.code))
    (hsuccess : op.IsSuccess (.STRING str)) : op.MindsReply (some (.STRING str)) := by
  refine mindsReply_of_freed hover (fun _ => hsuccess) ?_
  rintro value ⟨⟩
  exact ⟨str, rfl, rfl⟩

theorem not_mindsReply_found {value : Bytes}
    (hover : op.afterCommand.over (some received.object) = some (.found value, cell))
    (hstring : received.object.type ≠ .STRING) : ¬ op.MindsReply (some received) := by
  intro hminds
  obtain ⟨str, hreceived, -⟩ := ((mindsReply_iff_allows hover).mp hminds).value value rfl
  rw [Option.some.inj hreceived] at hstring
  exact hstring rfl

theorem mindsReply_Get (key value : Bytes) (received : HiredisReply) :
    (Get key value).MindsReply (some received) := by
  have hover : (Get key value).afterCommand.over (some received.object) = _ := over_Get received.object
  cases received with
  | STRING str => exact mindsReply_string hover rfl
  | _ => exact mindsReply_failure hover

theorem mindsReply_unlessNil_iff (hop : op.afterCommand = unlessNil)
    (hsuccess : ∀ str, op.IsSuccess (.STRING str)) :
    op.MindsReply reply ↔
      ∀ received ∈ reply, received.object.type = .NIL ∨ received.object.type = .STRING := by
  cases reply with
  | none =>
      refine iff_of_true (mindsReply_null ?_) nofun
      rw [hop]
      exact over_unlessNil_null
  | some received =>
      simp only [Option.mem_def, Option.some.injEq, forall_eq']
      have hover := over_unlessNil received.object
      rw [← hop] at hover
      cases received with
      | STRING str => exact iff_of_true (mindsReply_string hover (hsuccess str)) (.inr rfl)
      | NIL => exact iff_of_true (mindsReply_failure hover) (.inl rfl)
      | STATUS str =>
          refine iff_of_false (not_mindsReply_found hover ?_) ?_ <;> simp [HiredisReply.object]
      | ERROR str =>
          refine iff_of_false (not_mindsReply_found hover ?_) ?_ <;> simp [HiredisReply.object]
      | INTEGER integer =>
          exact iff_of_false (not_mindsReply_of_none hover) (by simp [HiredisReply.object])
      | ARRAY => exact iff_of_false (not_mindsReply_of_none hover) (by simp [HiredisReply.object])

theorem mindsReply_Auth_iff (password : Bytes) :
    (Auth password).MindsReply reply ↔ reply ≠ none := by
  cases reply with
  | none => exact iff_of_false (not_mindsReply_of_none over_Auth_null) (not_not.mpr rfl)
  | some received =>
      refine iff_of_true ?_ (Option.some_ne_none received)
      exact mindsReply_of_test (Auth password) over_Auth (fun received haccepts => haccepts) received

theorem mindsReply_ifInteger (hop : op.afterCommand = ifInteger)
    (hsuccess : ∀ received, received.object.type = .INTEGER → op.IsSuccess received) :
    op.MindsReply reply :=
  mindsReply_of_some op (hop ▸ over_ifInteger_null)
    (mindsReply_of_test op (hop ▸ over_ifInteger) hsuccess) reply

theorem mindsReply_push (hop : op.afterCommand = push)
    (hsuccess : ∀ received, received.object.type = .INTEGER → op.IsSuccess received) :
    op.MindsReply reply := by
  refine mindsReply_of_some op (hop ▸ over_push_null) ?_ reply
  refine mindsReply_of_test op (hop ▸ over_push) fun received haccepts => hsuccess received ?_
  exact not_not.mp (not_or.mp haccepts).1

theorem mindsReply_ExistsKey (key : Bytes) : (ExistsKey key).MindsReply reply := by
  refine mindsReply_of_some (ExistsKey key) over_ExistsKey_null ?_ reply
  refine mindsReply_of_test (ExistsKey key) over_ExistsKey fun received haccepts => ?_
  exact not_not.mp (not_or.mp haccepts).1

/-- `Set` frees with the type 1 or 0 what has come as a `STATUS`, an `ERROR` or a `STRING`; the type of
a `STRING` is 1, but no success of a `SET`. -/
theorem not_mindsReply_Set (key value : Bytes) (received : HiredisReply) :
    ¬ (Set key value).MindsReply (some received) := by
  intro hminds
  have hover : (Set key value).afterCommand.over (some received.object) = _ := over_Set received.object
  cases hstr : received.object.str with
  | none =>
      rw [hstr] at hover
      exact not_mindsReply_of_none hover hminds
  | some str =>
      rw [hstr, Option.map_some] at hover
      by_cases hok : c_str str = ascii "OK" ∨ c_str str = ascii "ok"
      · rw [if_pos hok] at hover
        have hallows := (mindsReply_iff_allows hover).mp hminds
        obtain ⟨same, hsame, hsuccess⟩ := hallows.success rfl
        have hfreed := hallows.type same hsame
        rw [show same = .STATUS (ascii "OK") from hsuccess] at hfreed
        have htype : (1 : Int) = 5 := Option.some.inj hfreed
        exact absurd htype (by decide)
      · rw [if_neg hok] at hover
        have hfreed := ((mindsReply_iff_allows hover).mp hminds).type received rfl
        cases received <;> cases hfreed

/-- **Replies of every type.** An operation treats a reply as its type allows exactly where it expects
it. -/
theorem mindsReply_iff_expects (op : RedisOp) (reply : Option HiredisReply) :
    op.MindsReply reply ↔ op.Expects reply := by
  cases op with
  | Get key value =>
      refine iff_of_true ?_ trivial
      exact mindsReply_of_some (Get key value) over_Get_null (mindsReply_Get key value) reply
  | Set key value =>
      cases reply with
      | none => exact iff_of_true (mindsReply_null over_Set_null) rfl
      | some received => exact iff_of_false (not_mindsReply_Set key value received) nofun
  | Auth password => exact mindsReply_Auth_iff password
  | LPush key value => exact iff_of_true (mindsReply_push rfl fun received htype => htype) trivial
  | LPop key value => exact mindsReply_unlessNil_iff rfl fun str => rfl
  | RPush key value => exact iff_of_true (mindsReply_push rfl fun received htype => htype) trivial
  | RPop key value => exact mindsReply_unlessNil_iff rfl fun str => rfl
  | HSet key hkey value =>
      exact iff_of_true (mindsReply_ifInteger rfl fun received htype => htype) trivial
  | HSetLen key hkey hvalue hvaluelen =>
      exact iff_of_true (mindsReply_ifInteger rfl fun received htype => htype) trivial
  | HGet key hkey => exact mindsReply_unlessNil_iff rfl fun str => rfl
  | Del key => exact iff_of_true (mindsReply_ifInteger rfl fun received htype => htype) trivial
  | ExistsKey key => exact iff_of_true (mindsReply_ExistsKey key) trivial

/-- A `logincount` that is no hash: `HGet` gives out the text of the error. An accepted `SET`: the type
of the reply has become 1. No reply to an `AUTH`: it is read all the same. -/
theorem not_mindsReply_wrongType :
    ¬ (HGet (ascii "logincount") (ascii "chatserver1")).MindsReply (some (.ERROR (ascii
        "WRONGTYPE Operation against a key holding the wrong kind of value"))) ∧
      ¬ (Set (ascii "logincount") (ascii "1")).MindsReply (some (.STATUS (ascii "OK"))) ∧
      ¬ (Auth (ascii "123456")).MindsReply none := by
  refine ⟨?_, not_mindsReply_Set _ _ _, not_mindsReply_of_none over_Auth_null⟩
  exact not_mindsReply_found (over_unlessNil _) nofun

end RedisOp

end QuickChat
