import QuickChat.Proof.ServerTable
import QuickChat.Status.StatusCalls

/-!
# Replies from one server

The reference that a call holds is to the first entry, so a selection for another call disturbs it
when it puts a server there that differs in what the call has yet to read. Which server a selection
puts there, the counts say: the last one whose count is below those of all before it.
-/

namespace QuickChat

open Text

namespace StatusServiceImpl

variable {count : Bytes → Bytes} {config servers_ next : ServerTable}
  {result : Except StdException ChatServer}

/-- The servers with a count below `least` and below those of all before them, up to a count that
`stoi` rejects. -/
def overtakersFrom (count : Bytes → Bytes) (least : Int) : ServerTable → List ChatServer
  | [] => []
  | (_, server) :: rest =>
      match loginCount (count server.name) with
      | .error _ => []
      | .ok n =>
          if n < least then server :: overtakersFrom count n rest
          else overtakersFrom count least rest

def overtakers (count : Bytes → Bytes) : ServerTable → List ChatServer
  | [] => []
  | (_, first) :: rest =>
      match loginCount (count first.name) with
      | .error _ => []
      | .ok least => overtakersFrom count least rest

theorem mem_of_mem_overtakersFrom {least : Int} {server : ChatServer}
    (hserver : server ∈ overtakersFrom count least servers_) :
    ∃ entry ∈ servers_, entry.2 = server := by
  induction servers_ generalizing least with
  | nil => exact absurd hserver List.not_mem_nil
  | cons entry rest ih =>
      obtain ⟨key, other⟩ := entry
      have htail {least : Int} (hrest : server ∈ overtakersFrom count least rest) :
          ∃ entry ∈ (key, other) :: rest, entry.2 = server := by
        obtain ⟨entry, hentry, heq⟩ := ih hrest
        exact ⟨entry, List.mem_cons_of_mem _ hentry, heq⟩
      rw [overtakersFrom] at hserver
      cases hcount : loginCount (count other.name) with
      | error e => simp [hcount] at hserver
      | ok n =>
          simp only [hcount] at hserver
          by_cases hless : n < least
          · rw [if_pos hless, List.mem_cons] at hserver
            rcases hserver with rfl | hrest
            · exact ⟨_, List.mem_cons_self, rfl⟩
            · exact htail hrest
          · rw [if_neg hless] at hserver
            exact htail hserver

theorem mem_of_mem_overtakers {server : ChatServer} (hserver : server ∈ overtakers count servers_) :
    ∃ entry ∈ servers_, entry.2 = server := by
  cases servers_ with
  | nil => exact absurd hserver List.not_mem_nil
  | cons entry rest =>
      obtain ⟨key, first⟩ := entry
      rw [overtakers] at hserver
      split at hserver
      · exact absurd hserver List.not_mem_nil
      · obtain ⟨entry, hentry, heq⟩ := mem_of_mem_overtakersFrom hserver
        exact ⟨entry, List.mem_cons_of_mem _ hentry, heq⟩

/-- The loop leaves the last overtaker in `minServer`. It skips an entry for its name when that entry
could not overtake: it has the count of `minServer`. -/
theorem visitWith_overtakers {minServer : ChatServer} (rest : ServerTable)
    (hmin : loginCount (count minServer.name) = .ok minServer.con_count) :
    ∃ n, (visitWith count minServer rest).2.1 =
      { (overtakersFrom count minServer.con_count rest).getLast?.getD minServer with
        con_count := n } := by
  induction rest generalizing minServer with
  | nil => exact ⟨minServer.con_count, rfl⟩
  | cons entry rest ih =>
      obtain ⟨key, server⟩ := entry
      rw [visitWith, overtakersFrom, loadCount_eq]
      by_cases hname : server.name = minServer.name
      · rw [if_pos hname, hname, hmin]
        simp only [lt_irrefl, if_false]
        exact ih hmin
      rw [if_neg hname]
      cases hcount : loginCount (count server.name) with
      | error e => exact ⟨minServer.con_count, rfl⟩
      | ok n =>
          simp only [Except.map]
          by_cases hless : n < minServer.con_count
          · rw [if_pos hless, if_pos hless]
            have hnext : loginCount (count ({ server with con_count := n } : ChatServer).name)
                = .ok ({ server with con_count := n } : ChatServer).con_count := hcount
            obtain ⟨n', hn'⟩ := ih hnext
            refine ⟨n', hn'.trans ?_⟩
            rw [List.getLast?_cons]
            cases (overtakersFrom count n rest).getLast? <;> rfl
          · rw [if_neg hless, if_neg hless]
            exact ih hmin

/-- What a selection makes of the first entry, of the others, and of the call. -/
structure Selection (count : Bytes → Bytes) (servers_ : ServerTable)
    (result : Except StdException ChatServer) (next : ServerTable) (first minServer : ChatServer) :
    Prop where
  before : StatusCalls.minServer servers_ = some first
  after : StatusCalls.minServer next = some minServer
  last : ∃ n, minServer = { (overtakers count servers_).getLast?.getD first with con_count := n }
  rest : next.tail.map identity = servers_.tail.map identity
  selected : ∀ server, result = .ok server → server = minServer

/-- The first entry ends up as the last of those that overtook it, and is what the call selects. -/
theorem selection_of_selectWith (hselect : selectWith count servers_ = some (result, next)) :
    ∃ first minServer, Selection count servers_ result next first minServer := by
  cases servers_ with
  | nil => exact absurd hselect (by simp [selectWith])
  | cons entry rest =>
      obtain ⟨key, first⟩ := entry
      rw [selectWith, loadCount_eq] at hselect
      cases hcount : loginCount (count first.name) with
      | error e =>
          simp only [hcount, Except.map, Option.some.injEq, Prod.mk.injEq] at hselect
          obtain ⟨rfl, rfl⟩ := hselect
          refine ⟨first, first, rfl, rfl, ⟨first.con_count, ?_⟩, rfl, by simp⟩
          rw [overtakers, hcount]
          rfl
      | ok least =>
          simp only [hcount, Except.map, Option.some.injEq, Prod.mk.injEq] at hselect
          obtain ⟨rfl, rfl⟩ := hselect
          have hstart : loginCount (count ({ first with con_count := least } : ChatServer).name)
              = .ok ({ first with con_count := least } : ChatServer).con_count := hcount
          obtain ⟨n, hn⟩ := visitWith_overtakers rest hstart
          refine ⟨first, _, rfl, rfl, ⟨n, hn.trans ?_⟩, visitWith_identity _ _ _, ?_⟩
          · rw [overtakers, hcount]
            cases (overtakersFrom count least rest).getLast? <;> rfl
          · intro server hresult
            split at hresult
            · cases hresult
            · exact (Except.ok.inj hresult).symm

end StatusServiceImpl

/-! ### The calls -/

open StatusServiceImpl

def Known (config : ServerTable) (server : ChatServer) : Prop :=
  ∃ entry ∈ config, server.name = entry.2.name ∧ server.host = entry.2.host ∧
    server.port = entry.2.port

theorem Known.of_identity {config : ServerTable} {entry entry' : Bytes × ChatServer}
    (hentry : Known config entry.2) (hidentity : identity entry' = identity entry) :
    Known config entry'.2 := by
  obtain ⟨other, hother, hname, hhost, hport⟩ := hentry
  simp only [identity, Prod.mk.injEq] at hidentity
  exact ⟨other, hother, hidentity.2.1.trans hname, hidentity.2.2.1.trans hhost,
    hidentity.2.2.2.trans hport⟩

/-- Only whole entries are moved, so a table of configured ones stays one. -/
theorem known_selection {config : ServerTable} {count : Bytes → Bytes} {servers_ next : ServerTable}
    {result : Except StdException ChatServer} {first server : ChatServer}
    (hselection : Selection count servers_ result next first server)
    (hservers : ∀ entry ∈ servers_, Known config entry.2) :
    Known config server ∧ ∀ entry ∈ next, Known config entry.2 := by
  obtain ⟨hbefore, hafter, ⟨n, hlast⟩, hrest, -⟩ := hselection
  have hserver : Known config server := by
    rw [hlast]
    cases hovertaker : (overtakers count servers_).getLast? with
    | none =>
        obtain ⟨entry, hentry, rfl⟩ := Option.map_eq_some_iff.mp hbefore
        exact hservers entry (List.mem_of_mem_head? hentry)
    | some overtaker =>
        obtain ⟨entry, hentry, rfl⟩ :=
          mem_of_mem_overtakers (List.mem_of_getLast? hovertaker)
        exact hservers entry hentry
  refine ⟨hserver, fun entry hentry => ?_⟩
  cases next with
  | nil => exact absurd hentry List.not_mem_nil
  | cons head rest =>
      rcases List.mem_cons.mp hentry with rfl | hentry
      · rwa [show entry.2 = server from Option.some.inj hafter]
      · have hidentity : identity entry ∈ servers_.tail.map identity :=
          hrest ▸ List.mem_map_of_mem hentry
        obtain ⟨other, hother, heq⟩ := List.mem_map.mp hidentity
        exact (hservers other (List.mem_of_mem_tail hother)).of_identity heq.symm

namespace CallProgress

def unread : CallProgress → List (ChatServer → Bytes)
  | entered => []
  | selected _ => [ChatServer.host, ChatServer.port]
  | hostRead _ _ => [ChatServer.port]
  | replied _ _ => []
  | thrown _ => []

theorem unread_con_count {call : CallProgress} {field : ChatServer → Bytes}
    (hfield : field ∈ call.unread) {server : ChatServer} {n : Int} :
    field { server with con_count := n } = field server := by
  cases call with
  | entered => simp [unread] at hfield
  | selected selected =>
      simp only [unread, List.mem_cons, List.not_mem_nil, or_false] at hfield
      rcases hfield with rfl | rfl <;> rfl
  | hostRead selected host =>
      obtain rfl := List.mem_singleton.mp hfield
      rfl
  | replied selected reply => simp [unread] at hfield
  | thrown e => simp [unread] at hfield

def server? : CallProgress → Option ChatServer
  | entered => none
  | selected server => some server
  | hostRead server _ => some server
  | replied server _ => some server
  | thrown _ => none

/-- What the call has read is its server's, and what it would go on to read. -/
def Right (first : Option ChatServer) : CallProgress → Prop
  | entered => True
  | selected server => ∃ entry, first = some entry ∧ entry.host = server.host ∧ entry.port = server.port
  | hostRead server host => host = server.host ∧ ∃ entry, first = some entry ∧ entry.port = server.port
  | replied server reply => reply.host = server.host ∧ reply.port = server.port
  | thrown _ => True

/-- A reply has the error 0 and a token that was made for it. -/
def Issued : CallProgress → Prop
  | .replied _ reply => reply.error = 0 ∧ ∃ uuid, reply.token = generate_unique_string uuid
  | _ => True

/-- The host that the call has read is its server's, and so is the one that it would read. -/
def HostRight (first : Option ChatServer) : CallProgress → Prop
  | .selected server => ∃ entry, first = some entry ∧ entry.host = server.host
  | .hostRead server host => host = server.host
  | .replied server reply => reply.host = server.host
  | _ => True

/-- A call is disturbed by a new first entry exactly in the fields that it has yet to read. -/
theorem right_iff {first server : ChatServer} {call : CallProgress}
    (hcall : call.Right (some first)) :
    call.Right (some server) ↔ ∀ field ∈ call.unread, field server = field first := by
  cases call with
  | entered => simp [Right, unread]
  | selected selected =>
      obtain ⟨_, hfirst, hhost, hport⟩ := hcall
      obtain rfl := Option.some.inj hfirst
      simp [Right, unread, hhost, hport]
  | hostRead selected host =>
      obtain ⟨hhost, _, hfirst, hport⟩ := hcall
      obtain rfl := Option.some.inj hfirst
      simp [Right, unread, hhost, hport]
  | replied selected reply => exact iff_of_true hcall (by simp [unread])
  | thrown e => simp [Right, unread]

end CallProgress

theorem forall_mem_set {α : Type} {P : α → Prop} {l : List α} {i : Nat} {old new : α}
    (hget : l[i]? = some old) (hold : P old) (hnew : P new) :
    (∀ a ∈ l.set i new, P a) ↔ ∀ a ∈ l, P a := by
  constructor
  · intro hset a ha
    obtain ⟨j, hj⟩ := List.mem_iff_getElem?.mp ha
    by_cases hij : i = j
    · rw [← hij, hget, Option.some.injEq] at hj
      exact hj ▸ hold
    · refine hset a (List.mem_iff_getElem?.mpr ⟨j, ?_⟩)
      rw [List.getElem?_set_ne hij, hj]
  · intro hall a ha
    rcases List.mem_or_eq_of_mem_set ha with hmem | rfl
    · exact hall a hmem
    · exact hnew

namespace StatusCalls

variable {config : ServerTable} {state next : StatusCalls} {event : StatusStep}

structure AllKnown (config : ServerTable) (state : StatusCalls) : Prop where
  servers_ : ∀ entry ∈ state.servers_, Known config entry.2
  calls : ∀ call ∈ state.calls, ∀ server ∈ call.server?, Known config server

/-- Each reply has the host and port of the configured server that its call selected, and what a call
has yet to read is still that server's. -/
structure WholeReplies (config : ServerTable) (state : StatusCalls) : Prop where
  known : ∀ call ∈ state.calls, ∀ server ∈ call.server?, Known config server
  right : ∀ call ∈ state.calls, call.Right (minServer state.servers_)

/-- A selection puts no server in the first place that differs from the one there in a field that
some call has yet to read. -/
def Undisturbed (state : StatusCalls) : StatusStep → Prop
  | .select _ redis =>
      ∀ call ∈ state.calls, ∀ field ∈ call.unread, ∀ first ∈ minServer state.servers_,
        ∀ server ∈ (overtakers (redis.hashText LOGIN_COUNT) state.servers_).getLast?,
          field server = field first
  | _ => True

instance (state : StatusCalls) : (event : StatusStep) → Decidable (Undisturbed state event)
  | .select _ redis =>
      inferInstanceAs (Decidable (∀ call ∈ state.calls, ∀ field ∈ call.unread,
        ∀ first ∈ minServer state.servers_,
          ∀ server ∈ (overtakers (redis.hashText LOGIN_COUNT) state.servers_).getLast?,
            field server = field first))
  | .call => isTrue trivial
  | .readHost _ => isTrue trivial
  | .readPort _ _ => isTrue trivial

inductive Steps (state : StatusCalls) : StatusStep → StatusCalls → Prop where
  | call : Steps state .call { state with calls := state.calls ++ [.entered] }
  | select {i : Nat} {redis : Redis} {result : Except StdException ChatServer}
      {servers_ : ServerTable} {first server : ChatServer} (hcall : state.calls[i]? = some .entered)
      (hselection :
        Selection (redis.hashText LOGIN_COUNT) state.servers_ result servers_ first server) :
      Steps state (.select i redis) ⟨servers_, state.calls.set i (selection result)⟩
  | readHost {i : Nat} {server first : ChatServer} (hcall : state.calls[i]? = some (.selected server))
      (hfirst : minServer state.servers_ = some first) :
      Steps state (.readHost i) { state with calls := state.calls.set i (.hostRead server first.host) }
  | readPort {i : Nat} {uuid : Uuid} {server first : ChatServer} {host : Bytes}
      (hcall : state.calls[i]? = some (.hostRead server host))
      (hfirst : minServer state.servers_ = some first) :
      Steps state (.readPort i uuid) { state with calls := state.calls.set i (.replied server
        ⟨ErrorCodes.Success.value, host, first.port, generate_unique_string uuid⟩) }

/-- **Inversion of a step.** -/
theorem steps_of_step (hstep : step state event = some next) : Steps state event next := by
  cases event with
  | call =>
      obtain rfl := Option.some.inj hstep
      exact .call
  | select i redis =>
      simp only [step] at hstep
      split at hstep
      · rename_i hcall
        rw [run_getChatServer, Option.map_map] at hstep
        obtain ⟨⟨result, servers_⟩, hselect, rfl⟩ := Option.map_eq_some_iff.mp hstep
        obtain ⟨first, server, hselection⟩ := selection_of_selectWith hselect
        exact .select hcall hselection
      · cases hstep
  | readHost i =>
      simp only [step] at hstep
      split at hstep
      · rename_i server first hcall hfirst
        obtain rfl := Option.some.inj hstep
        exact .readHost hcall hfirst
      · cases hstep
  | readPort i uuid =>
      simp only [step] at hstep
      split at hstep
      · rename_i server host first hcall hfirst
        obtain rfl := Option.some.inj hstep
        exact .readPort hcall hfirst
      · cases hstep

theorem AllKnown.step (hstate : AllKnown config state) (hstep : step state event = some next) :
    AllKnown config next := by
  obtain ⟨hservers, hcalls⟩ := hstate
  -- A call that goes on keeps its server, and one that has none gets the selected one.
  have hset {i : Nat} {call : CallProgress} (hcall : ∀ server ∈ call.server?, Known config server) :
      ∀ other ∈ state.calls.set i call, ∀ server ∈ other.server?, Known config server := by
    intro other hother
    rcases List.mem_or_eq_of_mem_set hother with hold | rfl
    · exact hcalls other hold
    · exact hcall
  cases steps_of_step hstep with
  | call =>
      refine ⟨hservers, List.forall_mem_append.mpr ⟨hcalls, ?_⟩⟩
      simp [CallProgress.server?]
  | select hcall hselection =>
      obtain ⟨hserver, hnext⟩ := known_selection hselection hservers
      refine ⟨hnext, hset fun selected hselected => ?_⟩
      rename_i result _ _ _
      cases result with
      | error e => exact absurd hselected (by simp [selection, CallProgress.server?])
      | ok returned =>
          obtain rfl := Option.some.inj hselected
          exact hselection.selected returned rfl ▸ hserver
  | readHost hcall hfirst =>
      have hserver := hcalls _ (List.mem_of_getElem? hcall)
      exact ⟨hservers, hset hserver⟩
  | readPort hcall hfirst =>
      have hserver := hcalls _ (List.mem_of_getElem? hcall)
      exact ⟨hservers, hset hserver⟩

/-- **One step.** Only a selection can change what the others are about to read. -/
theorem right_step_iff (hstate : ∀ call ∈ state.calls, call.Right (minServer state.servers_))
    (hstep : step state event = some next) :
    (∀ call ∈ next.calls, call.Right (minServer next.servers_)) ↔ Undisturbed state event := by
  cases steps_of_step hstep with
  | call =>
      refine iff_of_true (List.forall_mem_append.mpr ⟨hstate, ?_⟩) trivial
      simp [CallProgress.Right]
  | @select i redis result servers_ first server hcall hselection =>
      obtain ⟨hbefore, hafter, ⟨n, hlast⟩, -, hselected⟩ := hselection
      have hentered : CallProgress.Right (some server) .entered := trivial
      have hnew : (selection result).Right (some server) := by
        cases result with
        | error e => trivial
        | ok returned =>
            have heq := hselected returned rfl
            exact ⟨server, rfl, by rw [heq], by rw [heq]⟩
      rw [hafter, forall_mem_set hcall hentered hnew]
      rw [hbefore] at hstate
      unfold Undisturbed
      refine forall₂_congr fun call hmem => ?_
      rw [CallProgress.right_iff (hstate call hmem), hbefore]
      refine forall₂_congr fun field hfield => ?_
      have hcount : field server = field
          ((overtakers (redis.hashText LOGIN_COUNT) state.servers_).getLast?.getD first) := by
        rw [hlast]
        exact CallProgress.unread_con_count hfield
      rw [hcount]
      cases (overtakers (redis.hashText LOGIN_COUNT) state.servers_).getLast? with
      | none => simp
      | some overtaker => simp
  | @readHost i server first hcall hfirst =>
      refine iff_of_true ?_ trivial
      have hcurrent := hstate _ (List.mem_of_getElem? hcall)
      refine (forall_mem_set hcall hcurrent ?_).mpr hstate
      obtain ⟨entry, hentry, hhost, hport⟩ := hcurrent
      rw [hfirst, Option.some.injEq] at hentry
      exact ⟨hentry ▸ hhost, entry, hentry ▸ hfirst, hport⟩
  | @readPort i uuid server first host hcall hfirst =>
      refine iff_of_true ?_ trivial
      have hcurrent := hstate _ (List.mem_of_getElem? hcall)
      refine (forall_mem_set hcall hcurrent ?_).mpr hstate
      obtain ⟨hhost, entry, hentry, hport⟩ := hcurrent
      rw [hfirst, Option.some.injEq] at hentry
      exact ⟨hhost, hentry ▸ hport⟩

/-! ### The host of one call -/

section Host

variable {i : Nat}

/-- A selection does not put a server with another host in the first place while the call has selected
its server and not read the host. -/
def KeepsHost (i : Nat) (state : StatusCalls) : StatusStep → Prop
  | .select _ redis =>
      ∀ selected, state.calls[i]? = some (.selected selected) →
        ∀ first ∈ minServer state.servers_,
          ∀ server ∈ (overtakers (redis.hashText LOGIN_COUNT) state.servers_).getLast?,
            server.host = first.host
  | _ => True

theorem issued_selection (result : Except StdException ChatServer) : (selection result).Issued := by
  cases result <;> trivial

theorem issued_step (hstate : ∀ call ∈ state.calls, call.Issued)
    (hstep : step state event = some next) : ∀ call ∈ next.calls, call.Issued := by
  have hset {i : Nat} {call : CallProgress} (hcall : call.Issued) :
      ∀ other ∈ state.calls.set i call, other.Issued := by
    intro other hother
    rcases List.mem_or_eq_of_mem_set hother with hold | rfl
    · exact hstate other hold
    · exact hcall
  cases steps_of_step hstep with
  | call => exact List.forall_mem_append.mpr ⟨hstate, by simp [CallProgress.Issued]⟩
  | select hcall hselection => exact hset (issued_selection _)
  | readHost hcall hfirst => exact hset trivial
  | readPort hcall hfirst => exact hset ⟨rfl, _, rfl⟩

abbrev HostKept (i : Nat) (state : StatusCalls) : Prop :=
  ∀ call ∈ state.calls[i]?, call.HostRight (minServer state.servers_)

/-- What one call does is nothing to the call that is watched. -/
theorem hostKept_set {j : Nat} {servers_ : ServerTable} {old new : CallProgress}
    (hold : state.calls[j]? = some old) (hnew : new.HostRight (minServer servers_))
    (hothers : ∀ call ∈ state.calls[i]?, i ≠ j → call.HostRight (minServer servers_)) :
    HostKept i ⟨servers_, state.calls.set j new⟩ := by
  intro call hcall
  by_cases hij : j = i
  · subst hij
    rw [List.getElem?_set_self (List.getElem?_eq_some_iff.mp hold).1] at hcall
    exact Option.some.inj hcall ▸ hnew
  · rw [List.getElem?_set_ne hij] at hcall
    exact hothers call hcall (Ne.symm hij)

/-- **One step.** It leaves a call with the right host exactly if it keeps the host for the call. -/
theorem hostKept_step_iff (hstate : HostKept i state) (hstep : step state event = some next) :
    HostKept i next ↔ KeepsHost i state event := by
  cases steps_of_step hstep with
  | call =>
      refine iff_of_true (fun call hcall => ?_) trivial
      rw [List.getElem?_append] at hcall
      split at hcall
      · exact hstate call hcall
      · rw [List.getElem?_singleton] at hcall
        obtain ⟨-, hentered⟩ := Option.ite_none_right_eq_some.mp hcall
        obtain rfl := Option.some.inj hentered
        trivial
  | @select j redis result servers_ first server hcall hselection =>
      obtain ⟨hbefore, hafter, ⟨n, hlast⟩, -, hselected⟩ := hselection
      have hhost : server.host =
          ((overtakers (redis.hashText LOGIN_COUNT) state.servers_).getLast?.getD first).host := by
        rw [hlast]
      have hnew : (selection result).HostRight (minServer servers_) := by
        cases result with
        | error e => trivial
        | ok returned => exact ⟨server, hafter, congrArg _ (hselected returned rfl).symm⟩
      constructor
      · intro hnext selected hget first' hfirst' overtaker hovertaker
        obtain rfl := Option.some.inj (hbefore.symm.trans hfirst')
        have hij : i ≠ j := by
          rintro rfl
          exact absurd (hget.symm.trans hcall) (by simp)
        have hkept := hnext (.selected selected)
          ((List.getElem?_set_ne (Ne.symm hij)).trans hget)
        obtain ⟨entry, hentry, hright⟩ := hkept
        obtain ⟨entry', hentry', hright'⟩ := hstate _ hget
        obtain rfl := Option.some.inj (hafter.symm.trans hentry)
        obtain rfl := Option.some.inj (hbefore.symm.trans hentry')
        rw [Option.mem_def.mp hovertaker, Option.getD_some] at hhost
        rw [← hhost, hright, hright']
      · intro hkeeps
        refine hostKept_set hcall hnew fun call hget _ => ?_
        cases call with
        | selected selected =>
            obtain ⟨entry, hentry, hright⟩ := hstate _ hget
            obtain rfl := Option.some.inj (hbefore.symm.trans hentry)
            refine ⟨server, hafter, hhost.trans (Eq.trans ?_ hright)⟩
            have hovertaker := hkeeps selected hget first hbefore
            cases hlast' : (overtakers (redis.hashText LOGIN_COUNT) state.servers_).getLast? with
            | none => rfl
            | some overtaker => exact hovertaker overtaker hlast'
        | hostRead selected host => exact hstate _ hget
        | replied selected reply => exact hstate _ hget
        | entered => trivial
        | thrown e => trivial
  | @readHost j server first hcall hfirst =>
      refine iff_of_true ?_ trivial
      by_cases hij : i = j
      · subst hij
        obtain ⟨entry, hentry, hright⟩ := hstate _ hcall
        obtain rfl := Option.some.inj (hfirst.symm.trans hentry)
        exact hostKept_set hcall hright fun call hget _ => hstate call hget
      · intro call hget
        rw [List.getElem?_set_ne (Ne.symm hij)] at hget
        exact hstate call hget
  | @readPort j uuid server first host hcall hfirst =>
      refine iff_of_true ?_ trivial
      by_cases hij : i = j
      · subst hij
        have hright : host = server.host := hstate _ hcall
        exact hostKept_set hcall hright fun call hget _ => hstate call hget
      · intro call hget
        rw [List.getElem?_set_ne (Ne.symm hij)] at hget
        exact hstate call hget

/-- The call has the right host in every state of a run exactly if every step keeps it. -/
theorem hostKept_throughout_iff {events : List StatusStep}
    (hrun : Machine.run step (start config) events = some state) :
    Machine.Throughout step (start config) events (HostKept i) ↔
      Machine.EachStep step (start config) events (KeepsHost i) := by
  refine Machine.throughout_iff_eachStep (I := fun _ => True) trivial (fun _ _ _ _ _ => trivial) ?_
    (fun _ _ _ _ hstate hstep => hostKept_step_iff hstate hstep) hrun
  simp [HostKept, start]

theorem allKnown_of_run {events : List StatusStep}
    (hrun : Machine.run step (start config) events = some state) : AllKnown config state := by
  refine Machine.run_invariant ?_ (fun _ _ _ hstate hstep => hstate.step hstep) hrun
  exact ⟨fun entry hentry => ⟨entry, hentry, rfl, rfl, rfl⟩, by simp [start]⟩

theorem issued_of_run {events : List StatusStep}
    (hrun : Machine.run step (start config) events = some state) :
    ∀ call ∈ state.calls, call.Issued :=
  Machine.run_invariant (P := fun state => ∀ call ∈ state.calls, CallProgress.Issued call)
    (by simp [start]) (fun _ _ _ hstate hstep => issued_step hstate hstep) hrun

end Host

/-- **When the replies are whole.** In every run of parallel calls on the constructor's table, in any
order of iteration and with any login counts at each selection, every reply is whole in every state,
and so would be every reply under way, exactly if no selection disturbs a call. -/
theorem wholeReplies_iff {cfg : ConfigMgr} (hconfig : config.Perm (new cfg)) {events : List StatusStep}
    (hrun : Machine.run step (start config) events = some state) :
    Machine.Throughout step (start config) events (WholeReplies (new cfg)) ↔
      Machine.EachStep step (start config) events Undisturbed := by
  have hstart : AllKnown (new cfg) (start config) := by
    refine ⟨fun entry hentry => ⟨entry, hconfig.mem_iff.mp hentry, rfl, rfl, rfl⟩, ?_⟩
    simp [start]
  refine Machine.throughout_iff_eachStep hstart (fun _ _ _ hstate hstep => hstate.step hstep)
    ⟨hstart.calls, by simp [start]⟩ ?_ hrun
  intro state event next hknown hstate hstep
  rw [← right_step_iff hstate.right hstep]
  exact ⟨WholeReplies.right, WholeReplies.mk (hknown.step hstep).calls⟩

def countsOf (a b : Bytes) : Redis :=
  Redis.init.put LOGIN_COUNT (some (StatusServer.counts a b))

def zeroUuid : Uuid := ⟨List.replicate 16 0, rfl⟩

def twoCalls (second : Redis) : List StatusStep :=
  [.call, .call, .select 0 (countsOf (ascii "1") (ascii "5")), .readHost 0, .select 1 second,
    .readPort 0 zeroUuid, .readHost 1, .readPort 1 zeroUuid]

theorem wholeReplies_same_counts :
    ∃ state, Machine.run step (start (new StatusServer.twoServers))
        (twoCalls (countsOf (ascii "1") (ascii "5"))) = some state ∧
      Machine.Throughout step (start (new StatusServer.twoServers))
        (twoCalls (countsOf (ascii "1") (ascii "5")))
        (WholeReplies (new StatusServer.twoServers)) := by
  refine ⟨_, rfl, (wholeReplies_iff (List.Perm.refl _) rfl).mpr ?_⟩
  decide +kernel

/-- The second call overwrites A by B, and the reply to the first has the host of A and the port of
B. -/
theorem reply_torn :
    ∃ state server reply, Machine.run step (start (new StatusServer.twoServers))
        (twoCalls (countsOf (ascii "5") (ascii "1"))) = some state ∧
      .replied server reply ∈ state.calls ∧
      reply.host = server.host ∧ reply.port ≠ server.port ∧
      ∀ entry ∈ new StatusServer.twoServers,
        ¬ (reply.host = entry.2.host ∧ reply.port = entry.2.port) := by
  refine ⟨_, _, _, rfl, List.mem_cons_self, rfl, ?_, ?_⟩
  · decide
  · decide

end StatusCalls

end QuickChat
