import QuickChat.Chat.CServer

/-!
# When a session is cleared

`ClearSession` undoes two things: the entry of the session in `sessions_`, and the entry of its user
in the user manager. The first is undone for good unless the accept thread inserts the session after
it has been cleared. The second is the entry of the uid that the session carries, and not the entries
that point to the session.
-/

namespace QuickChat

open Machine

/-! ### Sessions that are cleared before they are inserted -/

namespace AcceptLoop

variable {Id : Type} [DecidableEq Id] {loop next : AcceptLoop Id} {event : Event Id}
  {events : List (Event Id)}

theorem step_cases (hstep : step loop event = some next) :
    (∃ id, event = .Start id ∧ loop.accepting = none ∧ id ∉ loop.started ∧
        next = { loop with accepting := some id, started := Insert.insert id loop.started }) ∨
      (∃ id, event = .insert ∧ loop.accepting = some id ∧
        next = { loop with server := loop.server.insert id, accepting := none }) ∨
      (event = .acceptFailed ∧ next = loop) ∨
      (∃ id, event = .Close id ∧ id ∈ loop.started ∧
        next = { loop with
          handlers := id :: loop.handlers, closed := Insert.insert id loop.closed }) ∨
      ∃ id, event = .ClearSession id ∧ id ∈ loop.handlers ∧
        next = { loop with
          server := loop.server.ClearSession id
          handlers := loop.handlers.erase id, cleared := Insert.insert id loop.cleared } := by
  cases event with
  | Start id =>
      rw [step, Option.ite_none_right_eq_some, Option.some.injEq] at hstep
      exact .inl ⟨id, rfl, hstep.1.1, hstep.1.2, hstep.2.symm⟩
  | insert =>
      rw [step] at hstep
      split at hstep
      · exact absurd hstep (by simp)
      · rename_i id haccepting
        exact .inr (.inl ⟨id, rfl, haccepting, (Option.some.inj hstep).symm⟩)
  | acceptFailed =>
      rw [step, Option.ite_none_right_eq_some, Option.some.injEq] at hstep
      exact .inr (.inr (.inl ⟨rfl, hstep.2.symm⟩))
  | Close id =>
      rw [step, Option.ite_none_right_eq_some, Option.some.injEq] at hstep
      exact .inr (.inr (.inr (.inl ⟨id, rfl, hstep.1, hstep.2.symm⟩)))
  | ClearSession id =>
      rw [step, Option.ite_none_right_eq_some, Option.some.injEq] at hstep
      exact .inr (.inr (.inr (.inr ⟨id, rfl, hstep.1, hstep.2.symm⟩)))

/-- Where a session is: it waits for its insertion, stands in `sessions_`, or has been cleared. -/
structure Located (loop : AcceptLoop Id) : Prop where
  sessions : loop.server.sessions_ ⊆ loop.started
  accepting : ∀ id, loop.accepting = some id → id ∈ loop.started
  closed : loop.closed ⊆ loop.started
  handlers : ∀ id ∈ loop.handlers, id ∈ loop.closed
  cleared : loop.cleared ⊆ loop.closed
  fate : ∀ id ∈ loop.started,
    loop.accepting = some id ∨ id ∈ loop.server.sessions_ ∨ id ∈ loop.cleared
  failing : ∀ id ∈ loop.closed, id ∈ loop.handlers ∨ id ∈ loop.cleared

omit [DecidableEq Id] in
theorem located_init : Located (init : AcceptLoop Id) := by
  constructor <;> simp [init, CServer.init]

/-- No step loses a session: it is moved from one of the three places to the next. -/
theorem Located.step (hloop : Located loop) (hstep : step loop event = some next) :
    Located next := by
  obtain ⟨hsessions, haccepting, hclosed, hhandlers, hcleared, hfate, hfailing⟩ := hloop
  rcases step_cases hstep with ⟨id, -, hnone, -, rfl⟩ | ⟨id, -, hsome, rfl⟩ | ⟨-, rfl⟩ |
    ⟨id, -, hstarted, rfl⟩ | ⟨id, -, hmem, rfl⟩
  · constructor <;> grind
  · constructor <;> grind [CServer.sessions_insert]
  · exact ⟨hsessions, haccepting, hclosed, hhandlers, hcleared, hfate, hfailing⟩
  · constructor <;> grind
  · constructor <;> grind [CServer.sessions_ClearSession]

/-- No session that has been cleared is in `sessions_`; and once every handler has run, those in it
are the ones that are still reading. -/
structure Cleaned (loop : AcceptLoop Id) : Prop where
  absent : ∀ id ∈ loop.cleared, id ∉ loop.server.sessions_
  reading : loop.accepting = none → loop.handlers = [] →
    loop.server.sessions_ = loop.started \ loop.closed

theorem Located.cleaned_iff (hloop : Located loop) :
    Cleaned loop ↔ ∀ id ∈ loop.cleared, id ∉ loop.server.sessions_ := by
  refine ⟨Cleaned.absent, fun habsent => ⟨habsent, fun hidle hdone => ?_⟩⟩
  ext id
  rw [Finset.mem_sdiff]
  constructor
  · intro hmem
    refine ⟨hloop.sessions hmem, fun hclosed => ?_⟩
    rcases hloop.failing id hclosed with hhandler | hcleared
    · rw [hdone] at hhandler
      exact List.not_mem_nil hhandler
    · exact habsent id hcleared hmem
  · rintro ⟨hstarted, hopen⟩
    rcases hloop.fate id hstarted with haccepting | hmem | hcleared
    · rw [hidle] at haccepting
      exact absurd haccepting (by simp)
    · exact hmem
    · exact absurd (hloop.cleared hcleared) hopen

def InsertsUncleared (loop : AcceptLoop Id) (event : Event Id) : Prop :=
  event = .insert → ∀ id ∈ loop.accepting, id ∉ loop.cleared

instance (loop : AcceptLoop Id) (event : Event Id) : Decidable (InsertsUncleared loop event) :=
  inferInstanceAs (Decidable (_ → _))

/-- Only the insertion of a session that has been cleared brings it back. -/
theorem Located.step_iff (hloop : Located loop) (hclean : Cleaned loop)
    (hstep : AcceptLoop.step loop event = some next) :
    Cleaned next ↔ InsertsUncleared loop event := by
  rw [(hloop.step hstep).cleaned_iff]
  have habsent := hclean.absent
  unfold InsertsUncleared
  rcases step_cases hstep with ⟨id, rfl, hnone, -, rfl⟩ | ⟨id, rfl, hsome, rfl⟩ | ⟨rfl, rfl⟩ |
    ⟨id, rfl, hstarted, rfl⟩ | ⟨id, rfl, hmem, rfl⟩
  · exact iff_of_true habsent (by simp)
  · constructor
    · intro hnext _ other hother hcleared
      rw [hsome, Option.mem_some_iff] at hother
      subst hother
      exact hnext id hcleared (Finset.mem_insert_self _ _)
    · intro huncleared other hcleared hmem
      rcases Finset.mem_insert.mp hmem with rfl | hmem
      · exact huncleared rfl other hsome hcleared
      · exact habsent other hcleared hmem
  · exact iff_of_true habsent (by simp)
  · exact iff_of_true habsent (by simp)
  · refine iff_of_true (fun other hcleared hmem => ?_) (by simp)
    rw [CServer.sessions_ClearSession, Finset.mem_erase] at hmem
    rcases Finset.mem_insert.mp hcleared with rfl | hcleared
    · exact hmem.1 rfl
    · exact habsent other hcleared hmem.2

/-- **Cleared for good.** Throughout a run no cleared session is in `sessions_`, and those in it after
all handlers have run are those that are still reading, exactly if no session is inserted that has
been cleared before. -/
theorem cleaned_throughout_iff (hrun : run step init events = some loop) :
    Throughout step init events Cleaned ↔ EachStep step init events InsertsUncleared :=
  throughout_iff_eachStep located_init (fun _ _ _ hstate hstep => hstate.step hstep)
    (located_init.cleaned_iff.mpr (by simp [init]))
    (fun _ _ _ hstate hclean hstep => hstate.step_iff hclean hstep) hrun

theorem cleaned_disconnect :
    ∃ loop, run step init [Event.Start 1, .insert, .Start 2, .Close 1, .ClearSession 1, .insert]
        = some loop ∧
      Throughout step init [Event.Start 1, .insert, .Start 2, .Close 1, .ClearSession 1, .insert]
        Cleaned := by
  refine ⟨_, rfl, (cleaned_throughout_iff rfl).mpr ?_⟩
  decide

/-- The peer disconnects before its session is inserted, and the session stays for ever. -/
theorem cleared_session_stays :
    ∃ loop, run step init [Event.Start 1, .Close 1, .ClearSession 1, .insert] = some loop ∧
      1 ∈ loop.cleared ∧ 1 ∈ loop.server.sessions_ ∧
      ¬ Throughout step init [Event.Start 1, .Close 1, .ClearSession 1, .insert] Cleaned := by
  refine ⟨_, rfl, by decide, by decide, fun hclean => ?_⟩
  exact (hclean _ List.prefix_rfl _ rfl).absent 1 (by decide) (by decide)

end AcceptLoop

/-! ### Users whose entry is removed -/

namespace CServer

variable {Id : Type} [DecidableEq Id] {server : CServer Id} {id : Id}

def RemovesOwnEntries (server : CServer Id) (id : Id) : Prop :=
  ∀ uid, (server.ClearSession id).userMgr.GetSession uid =
    if server.userMgr.GetSession uid = some id then none else server.userMgr.GetSession uid

/-- The user manager has the session under the uid that it carries, or not at all: no other session
has taken over the uid, no entry is left under another one, and a session that is no longer in
`sessions_` has none. A session that has never logged in carries the uid 0. -/
structure CarriesItsUid (server : CServer Id) (id : Id) : Prop where
  own : id ∈ server.sessions_ → ∀ other, server.userMgr.GetSession (server.GetUserId id) = some other →
    other = id
  only : ∀ uid, server.userMgr.GetSession uid = some id →
    id ∈ server.sessions_ ∧ uid = server.GetUserId id

/-- What is removed is under the uid that the session carries. -/
theorem removesOwnEntries_iff : RemovesOwnEntries server id ↔ CarriesItsUid server id := by
  unfold RemovesOwnEntries
  constructor
  · intro hexact
    refine ⟨fun hmem other hother => ?_, fun uid huid => ?_⟩
    · have hremoved := hexact (server.GetUserId id)
      rw [GetSession_ClearSession, if_pos ⟨hmem, rfl⟩, hother] at hremoved
      by_contra hne
      rw [if_neg fun heq => hne (Option.some.inj heq)] at hremoved
      exact absurd hremoved (by simp)
    · have hremoved := hexact uid
      rw [GetSession_ClearSession, if_pos huid, huid] at hremoved
      by_contra hcleared
      rw [if_neg hcleared] at hremoved
      exact absurd hremoved (by simp)
  · rintro ⟨hown, honly⟩ uid
    rw [GetSession_ClearSession]
    split_ifs with hcleared hpoints hpoints
    · rfl
    · obtain ⟨hmem, rfl⟩ := hcleared
      cases hsession : server.userMgr.GetSession (server.GetUserId id) with
      | none => rfl
      | some other =>
          rw [hown hmem other hsession] at hsession
          exact absurd hsession hpoints
    · exact absurd (honly uid hpoints) hcleared
    · rfl

end CServer

namespace LoginServer

open CServer

variable {Id : Type} [DecidableEq Id] {logins next : LoginServer Id} {event : Event Id}
  {past events : List (Event Id)} {id : Id} {uid : Int32}

theorem step_cases (hstep : step logins event = some next) :
    (∃ id, event = .accept id ∧ next.server = logins.server.insert id) ∨
      (∃ id uid, event = .login id uid ∧ next.server = logins.server.login id uid) ∨
      ∃ id, event = .ClearSession id ∧ next.server = logins.server.ClearSession id := by
  cases event with
  | accept id =>
      rw [step, Option.ite_none_left_eq_some, Option.some.injEq] at hstep
      exact .inl ⟨id, rfl, hstep.2 ▸ rfl⟩
  | login id uid =>
      rw [step, Option.ite_none_right_eq_some, Option.some.injEq] at hstep
      exact .inr (.inl ⟨id, uid, rfl, hstep.2 ▸ rfl⟩)
  | ClearSession id =>
      rw [step, Option.some.injEq] at hstep
      exact .inr (.inr ⟨id, rfl, hstep ▸ rfl⟩)

/-! ### What the events say of the maps -/

def Registered (past : List (Event Id)) (id : Id) : Prop :=
  Since (· = .accept id) (· ≠ .ClearSession id) past

/-- The last login as the uid was on the session, and the session has not been cleared since. -/
def LoggedIn (past : List (Event Id)) (uid : Int32) (id : Id) : Prop :=
  Since (· = .login id uid)
    (fun later => later ≠ .ClearSession id ∧ ∀ other, later ≠ .login other uid) past

/-- The uid of the last login on the session, 0 if it has never logged in. -/
def uidOf (past : List (Event Id)) (id : Id) : Int32 :=
  past.foldl (fun uid event =>
    match event with
    | .login other uid' => if other = id then uid' else uid
    | _ => uid) 0

/-- What the user manager is for: a uid has the session that it logged in on last, until that session
is cleared. -/
def directory : List (Event Id) → Int32 → Option Id :=
  List.foldl (fun entries event =>
    match event with
    | .accept _ => entries
    | .login id uid => Function.update entries uid (some id)
    | .ClearSession id => fun uid => if entries uid = some id then none else entries uid)
    fun _ => none

/-- The last event about the uid settles what the directory has. -/
theorem directory_eq_some_iff : directory past uid = some id ↔ LoggedIn past uid id := by
  induction past using List.reverseRecOn with
  | nil => exact iff_of_false (by simp [directory]) not_since_nil
  | append_singleton past event ih =>
      rw [LoggedIn, since_concat, ← LoggedIn, ← ih, directory, List.foldl_concat, ← directory]
      cases event with
      | accept other => simp
      | login other uid' =>
          by_cases huid : uid = uid'
          · subst huid
            simp only [Function.update_self, Option.some.injEq, Event.login.injEq, and_true, ne_eq,
              reduceCtorEq, not_false_eq_true, true_and]
            exact ⟨Or.inl, fun h => h.elim (fun heq => heq) fun hlogin => absurd rfl (hlogin.1 other)⟩
          · simp [Function.update_of_ne huid, Ne.symm huid]
      | ClearSession other =>
          dsimp only
          by_cases hother : other = id
          · subst hother
            split_ifs with hentry <;> simp [hentry]
          · split_ifs with hentry
            · simp [hentry, hother]
            · simp [hother]

/-- `sessions_` has a session from its accept to its next `ClearSession`. -/
theorem mem_sessions_iff (id : Id) (hrun : run step init events = some logins) :
    id ∈ logins.server.sessions_ ↔ Registered events id := by
  refine run_history (P := fun events logins => id ∈ logins.server.sessions_ ↔ Registered events id)
    (iff_of_false (Finset.notMem_empty id) not_since_nil) ?_ hrun
  intro events state event next hstate hstep
  rw [Registered, since_concat, ← Registered, ← hstate]
  rcases step_cases hstep with ⟨other, rfl, hnext⟩ | ⟨other, uid, rfl, hnext⟩ | ⟨other, rfl, hnext⟩
  · simp [hnext, eq_comm]
  · simp [hnext, login, SetUserId]
  · simp [hnext, Finset.mem_erase, eq_comm]

theorem GetUserId_eq_uidOf (id : Id) (hrun : run step init events = some logins) :
    logins.server.GetUserId id = uidOf events id := by
  refine run_history (P := fun events logins => logins.server.GetUserId id = uidOf events id) rfl
    ?_ hrun
  intro events state event next hstate hstep
  rw [uidOf, List.foldl_concat, ← uidOf, ← hstate]
  rcases step_cases hstep with ⟨other, rfl, hnext⟩ | ⟨other, uid, rfl, hnext⟩ | ⟨other, rfl, hnext⟩
  · rw [hnext]
    rfl
  · rw [hnext]
    exact (Function.update_apply _ _ _ _).trans (if_congr eq_comm rfl rfl)
  · rw [hnext]
    rfl

/-- As long as every session that is cleared loses its own entries, the user manager is the
directory. -/
theorem GetSession_eq_directory
    (hexact : EachStep step init events
      (fun state event => ∀ id, event = .ClearSession id → RemovesOwnEntries state.server id))
    (hrun : run step init events = some logins) :
    logins.server.userMgr.GetSession = directory events := by
  induction events using List.reverseRecOn generalizing logins with
  | nil =>
      rw [run_nil, Option.some.injEq] at hrun
      exact hrun ▸ rfl
  | append_singleton events event ih =>
      obtain ⟨middle, hmiddle, hlast⟩ := run_concat_eq_some.mp hrun
      obtain ⟨hbefore, hevent⟩ := (eachStep_concat hmiddle).mp hexact
      rw [directory, List.foldl_concat, ← directory, ← ih hbefore hmiddle]
      rcases step_cases hlast with ⟨id, rfl, hnext⟩ | ⟨id, uid, rfl, hnext⟩ | ⟨id, rfl, hnext⟩
      · rw [hnext]
        rfl
      · rw [hnext]
        rfl
      · rw [hnext]
        exact funext (hevent id rfl)

/-- The session is logged in, if at all, as the uid of its last login and while it is registered; and
while it is, no other session is logged in as that uid. -/
structure DropsItsOwn (past : List (Event Id)) (id : Id) : Prop where
  own : Registered past id → ∀ other, LoggedIn past (uidOf past id) other → other = id
  only : ∀ uid, LoggedIn past uid id → Registered past id ∧ uid = uidOf past id

/-- **One clear.** After a run in which the entries were removed rightly the maps are what the events
say, so whether the next clear removes its own entries is a matter of the logins before it. -/
theorem removesOwnEntries_iff_dropsItsOwn
    (hexact : EachStep step init events
      (fun state event => ∀ id, event = .ClearSession id → RemovesOwnEntries state.server id))
    (hrun : run step init events = some logins) :
    RemovesOwnEntries logins.server id ↔ DropsItsOwn events id := by
  have hentry (uid : Int32) (other : Id) :
      logins.server.userMgr.GetSession uid = some other ↔ LoggedIn events uid other := by
    rw [GetSession_eq_directory hexact hrun, directory_eq_some_iff]
  have hmem := mem_sessions_iff id hrun
  have huid := GetUserId_eq_uidOf id hrun
  rw [CServer.removesOwnEntries_iff]
  constructor
  · rintro ⟨hown, honly⟩
    refine ⟨fun hregistered other hother => ?_, fun uid hlogin => ?_⟩
    · exact hown (hmem.mpr hregistered) other ((hentry _ _).mpr (huid.symm ▸ hother))
    · obtain ⟨hsession, rfl⟩ := honly uid ((hentry _ _).mpr hlogin)
      exact ⟨hmem.mp hsession, huid⟩
  · rintro ⟨hown, honly⟩
    refine ⟨fun hsession other hother => ?_, fun uid hlogin => ?_⟩
    · exact hown (hmem.mp hsession) other (huid ▸ (hentry _ _).mp hother)
    · obtain ⟨hregistered, rfl⟩ := honly uid ((hentry _ _).mp hlogin)
      exact ⟨hmem.mpr hregistered, huid.symm⟩

/-- **Whose entry is removed.** In a run each `ClearSession` removes exactly the entries of its
session, if and only if each comes after logins that leave the session logged in as the uid of its
last login, or not at all, and no other session as that uid. -/
theorem clears_exactly_iff (hrun : run step init events = some logins) :
    EachStep step init events
        (fun state event => ∀ id, event = .ClearSession id → RemovesOwnEntries state.server id) ↔
      Preceded (fun past event => ∀ id, event = .ClearSession id → DropsItsOwn past id) events := by
  induction events using List.reverseRecOn generalizing logins with
  | nil => exact iff_of_true eachStep_nil preceded_nil
  | append_singleton events event ih =>
      obtain ⟨middle, hmiddle, hlast⟩ := run_concat_eq_some.mp hrun
      rw [eachStep_concat hmiddle, preceded_concat, ← ih hmiddle]
      refine and_congr_right fun hbefore => forall₂_congr fun id _ => ?_
      exact removesOwnEntries_iff_dropsItsOwn hbefore hmiddle

/-- A user logs in again after the first connection has dropped, and then drops too. -/
theorem clears_exactly_relogin :
    EachStep step init
        [Event.accept 1, .login 1 7, .ClearSession 1, .accept 2, .login 2 7, .ClearSession 2]
        (fun state event => ∀ id, event = .ClearSession id → RemovesOwnEntries state.server id) := by
  have hdrops (past : List (Event Nat)) (id : Nat) (hregistered : Registered past id)
      (hentry : ∀ uid, directory past uid = if uid = uidOf past id then some id else none) :
      DropsItsOwn past id := by
    refine ⟨fun _ other hother => ?_, fun uid hlogin => ⟨hregistered, ?_⟩⟩
    · rw [← directory_eq_some_iff, hentry, if_pos rfl] at hother
      exact (Option.some.inj hother).symm
    · rw [← directory_eq_some_iff, hentry] at hlogin
      by_contra huid
      exact absurd hlogin (by simp [huid])
  refine (clears_exactly_iff rfl).mpr ?_
  change Preceded _ ([] ++ [Event.accept 1] ++ [Event.login 1 7] ++ [Event.ClearSession 1] ++
    [Event.accept 2] ++ [Event.login 2 7] ++ [Event.ClearSession 2])
  simp only [preceded_concat, preceded_nil, reduceCtorEq, false_implies, implies_true, and_true,
    true_and, Event.ClearSession.injEq, forall_eq']
  constructor
  · refine hdrops _ 1 ?_ fun uid => ?_
    · simp only [Registered, since_concat]
      simp
    · simp [directory, uidOf, Function.update_apply]
  · refine hdrops _ 2 ?_ fun uid => ?_
    · simp only [Registered, since_concat]
      simp
    · simp only [directory, uidOf, Function.update_apply, List.foldl, List.nil_append,
        List.cons_append]
      split_ifs <;> simp_all

/-- A user logs in again on a second connection, and loses it when the first one drops. -/
theorem newer_session_removed :
    ∃ logins, run step init [Event.accept 1, .login 1 7, .accept 2, .login 2 7] = some logins ∧
      logins.server.userMgr.GetSession 7 = some 2 ∧
      (logins.server.ClearSession 1).userMgr.GetSession 7 = none ∧
      ¬ EachStep step init [Event.accept 1, .login 1 7, .accept 2, .login 2 7, .ClearSession 1]
        (fun state event => ∀ id, event = .ClearSession id → RemovesOwnEntries state.server id) := by
  refine ⟨_, rfl, by decide, by decide, fun hexact => ?_⟩
  have hremoved := hexact [.accept 1, .login 1 7, .accept 2, .login 2 7] _ List.prefix_rfl _ rfl 1 rfl 7
  exact absurd hremoved (by decide)

end LoginServer

end QuickChat
