import QuickChat.Common.MySqlPool

/-!
# What the check does to the pool

A connection that answers is marked, one that does not is opened anew, and one that was used a moment
ago is not asked. The one thing that the `catch` block does not catch is its own failure: where a
connection cannot be opened anew, the exception leaves the function, and with it the loop.
-/

namespace QuickChat

namespace MySqlPool

variable {ο κ : Type} {timestamp : Int} {con con' : SqlConnection ο κ}
  {pool pool' : List (SqlConnection ο κ)} {trace : CheckTrace κ}

/-- The connector raises an SQLException while a connection is opened anew. -/
def Refused : ((effect : CheckEffect κ) × effect.Reply) → Prop
  | ⟨.connect, reply⟩ => ∃ e, reply = Except.error e
  | ⟨.setSchema _, reply⟩ => ∃ e, reply = Except.error e
  | _ => False

inductive Unanswered (con : κ) : CheckTrace κ → Prop where
  | createStatement (e : SQLException) : Unanswered con [⟨.createStatement con, .error e⟩]
  | executeQuery (e : SQLException) :
      Unanswered con [⟨.createStatement con, .ok ()⟩, ⟨.executeQuery con "SELECT 1", .error e⟩]

/-- What is to become of a connection, by what the connector answers for it. -/
inductive Maintained (timestamp : Int) (con : SqlConnection ο κ) :
    CheckTrace κ → SqlConnection ο κ → Prop where
  | recent (hrecent : timestamp - con.last_oper_time_ < 5) : Maintained timestamp con [] con
  | answered (hold : ¬ timestamp - con.last_oper_time_ < 5) :
      Maintained timestamp con
        [⟨.createStatement con.con_, .ok ()⟩, ⟨.executeQuery con.con_ "SELECT 1", .ok ()⟩]
        { con with last_oper_time_ := timestamp }
  | reopened (hold : ¬ timestamp - con.last_oper_time_ < 5) {asked : CheckTrace κ}
      (hasked : Unanswered con.con_ asked) (newcon : κ) :
      Maintained timestamp con (asked ++ [⟨.connect, .ok newcon⟩, ⟨.setSchema newcon, .ok ()⟩])
        { con with con_ := newcon, last_oper_time_ := timestamp }
  | unopened (hold : ¬ timestamp - con.last_oper_time_ < 5) {asked : CheckTrace κ}
      (hasked : Unanswered con.con_ asked) (e : SQLException) :
      Maintained timestamp con (asked ++ [⟨.connect, .error e⟩]) con
  | unselected (hold : ¬ timestamp - con.last_oper_time_ < 5) {asked : CheckTrace κ}
      (hasked : Unanswered con.con_ asked) (newcon : κ) (e : SQLException) :
      Maintained timestamp con (asked ++ [⟨.connect, .ok newcon⟩, ⟨.setSchema newcon, .error e⟩]) con

inductive Maintains (timestamp : Int) :
    List (SqlConnection ο κ) → CheckTrace κ → List (SqlConnection ο κ) → Prop where
  | nil : Maintains timestamp [] [] []
  | cons {con con' : SqlConnection ο κ} {pool pool' : List (SqlConnection ο κ)}
      {seen trace : CheckTrace κ} (hcon : Maintained timestamp con seen con')
      (hpool : Maintains timestamp pool trace pool') :
      Maintains timestamp (con :: pool) (seen ++ trace) (con' :: pool')

/-- The function has returned, and the pool holds its objects in their order, each maintained. -/
def KeepsPool (pool : List (SqlConnection ο κ)) (trace : CheckTrace κ)
    (outcome : Option (List (SqlConnection ο κ) × Option SQLException)) : Prop :=
  ∃ (timestamp : Int) (visits : CheckTrace κ) (pool' : List (SqlConnection ο κ)),
    trace = ⟨.now, timestamp⟩ :: visits ∧ outcome = some (pool', none) ∧
      pool'.map (·.object) = pool.map (·.object) ∧ Maintains timestamp pool visits pool'

theorem Maintained.object_eq (hcon : Maintained timestamp con trace con') :
    con'.object = con.object := by
  cases hcon with
  | recent hrecent => rfl
  | answered hold => rfl
  | reopened hold hasked newcon => rfl
  | unopened hold hasked e => rfl
  | unselected hold hasked newcon e => rfl

theorem Maintains.objects_eq (hpool : Maintains timestamp pool trace pool') :
    pool'.map (·.object) = pool.map (·.object) := by
  induction hpool with
  | nil => rfl
  | cons hcon _ ih => rw [List.map_cons, List.map_cons, hcon.object_eq, ih]

/-! ### One turn -/

instance (con : κ) : Nonempty (CheckEffect.createStatement con).Reply := ⟨Except.ok ()⟩

instance (con : κ) (sql : String) : Nonempty (CheckEffect.executeQuery con sql).Reply :=
  ⟨Except.ok ()⟩

instance : Nonempty (CheckEffect.connect : CheckEffect κ).Reply := ⟨Except.error .raised⟩

instance (con : κ) : Nonempty (CheckEffect.setSchema con).Reply := ⟨Except.ok ()⟩

instance : Nonempty (CheckEffect.now : CheckEffect κ).Reply := ⟨(0 : Int)⟩

theorem ask_run (con : κ) :
    (ask con).run = .call (.createStatement con) fun (reply : Except SQLException Unit) =>
      match reply with
      | .ok _ => .call (.executeQuery con "SELECT 1") .ret
      | .error e => .ret (.error e) := by
  apply congrArg (Program.call _)
  funext reply
  cases reply with
  | ok _ => rfl
  | error e => rfl

theorem reopen_run :
    (reopen : CheckTry κ κ).run = .call .connect fun (reply : Except SQLException κ) =>
      match reply with
      | .ok newcon => .call (.setSchema newcon) fun (reply : Except SQLException Unit) =>
          match reply with
          | .ok _ => .ret (.ok newcon)
          | .error e => .ret (.error e)
      | .error e => .ret (.error e) := by
  apply congrArg (Program.call _)
  funext reply
  cases reply with
  | ok newcon =>
      apply congrArg (Program.call _)
      funext reply
      cases reply with
      | ok _ => rfl
      | error e => rfl
  | error e => rfl

/-- A connection answers, or an exception leaves the first `try`. -/
theorem ask_ends {con : κ} {outcome : Option (Except SQLException Unit)}
    (hends : (ask con).run.Ends trace outcome) :
    (outcome = some (.ok ()) ∧
        trace = [⟨.createStatement con, .ok ()⟩, ⟨.executeQuery con "SELECT 1", .ok ()⟩]) ∨
      ∃ e, outcome = some (.error e) ∧ Unanswered con trace := by
  rw [ask_run] at hends
  obtain ⟨created, rest, rfl, hrest⟩ := Program.ends_call_iff_of_nonempty.mp hends
  cases created with
  | error e =>
      obtain ⟨rfl, rfl⟩ := Program.ends_ret_iff.mp hrest
      exact .inr ⟨e, rfl, .createStatement e⟩
  | ok _ =>
      obtain ⟨queried, last, rfl, hlast⟩ := Program.ends_call_iff_of_nonempty.mp hrest
      obtain ⟨rfl, rfl⟩ := Program.ends_ret_iff.mp hlast
      cases queried with
      | error e => exact .inr ⟨e, rfl, .executeQuery e⟩
      | ok _ => exact .inl ⟨rfl, rfl⟩

/-- A connection is opened anew, or an exception leaves the `catch` block, where nothing catches it. -/
theorem reopen_ends {outcome : Option (Except SQLException κ)}
    (hends : (reopen : CheckTry κ κ).run.Ends trace outcome) :
    (∃ newcon, outcome = some (.ok newcon) ∧
        trace = [⟨.connect, .ok newcon⟩, ⟨.setSchema newcon, .ok ()⟩]) ∨
      ∃ e, outcome = some (.error e) ∧ ∃ entry ∈ trace, Refused entry := by
  rw [reopen_run] at hends
  obtain ⟨connected, rest, rfl, hrest⟩ := Program.ends_call_iff_of_nonempty.mp hends
  cases connected with
  | error e =>
      obtain ⟨rfl, rfl⟩ := Program.ends_ret_iff.mp hrest
      exact .inr ⟨e, rfl, _, List.mem_cons_self, e, rfl⟩
  | ok newcon =>
      obtain ⟨selected, last, rfl, hlast⟩ := Program.ends_call_iff_of_nonempty.mp hrest
      cases selected with
      | error e =>
          obtain ⟨rfl, rfl⟩ := Program.ends_ret_iff.mp hlast
          exact .inr ⟨e, rfl, _, List.mem_cons_of_mem _ List.mem_cons_self, e, rfl⟩
      | ok _ =>
          obtain ⟨rfl, rfl⟩ := Program.ends_ret_iff.mp hlast
          exact .inl ⟨newcon, rfl, rfl⟩

theorem not_refused_of_unanswered {con : κ} (htrace : Unanswered con trace) :
    ∀ entry ∈ trace, ¬ Refused entry := by
  cases htrace with
  | createStatement e => simp [Refused]
  | executeQuery e => simp [Refused]

theorem not_refused_of_opened (newcon : κ) :
    ∀ entry ∈ ([⟨.connect, .ok newcon⟩, ⟨.setSchema newcon, .ok ()⟩] : CheckTrace κ),
      ¬ Refused entry := by
  simp [Refused]

/-- **One connection.** It is put back, by the `Defer`, also when an exception leaves the turn. -/
theorem checkOne_ends {outcome : Option (Option (SqlConnection ο κ) × Option SQLException)}
    (hends : (checkOne timestamp con).Ends trace outcome) :
    (∃ con', outcome = some (some con', none) ∧ Maintained timestamp con trace con' ∧
        ∀ entry ∈ trace, ¬ Refused entry) ∨
      ∃ e, outcome = some (some con, some e) ∧ ∃ entry ∈ trace, Refused entry := by
  unfold checkOne at hends
  by_cases hrecent : timestamp - con.last_oper_time_ < 5
  · rw [if_pos hrecent] at hends
    obtain ⟨rfl, rfl⟩ := Program.ends_ret_iff.mp hends
    exact .inl ⟨con, rfl, .recent hrecent, by simp⟩
  · rw [if_neg hrecent] at hends
    rcases Program.ends_bind_iff.mp hends with ⟨hasked, -⟩ | ⟨answer, asked, rest, rfl, hasked, hrest⟩
    · rcases ask_ends hasked with ⟨hnone, -⟩ | ⟨e, hnone, -⟩
      · exact absurd hnone (by simp)
      · exact absurd hnone (by simp)
    · rcases ask_ends hasked with ⟨hanswer, rfl⟩ | ⟨e, hanswer, hunanswered⟩
      · obtain rfl := Option.some.inj hanswer
        obtain ⟨rfl, rfl⟩ := Program.ends_ret_iff.mp hrest
        exact .inl ⟨_, rfl, .answered hrecent, by simp [Refused]⟩
      · obtain rfl := Option.some.inj hanswer
        have hquiet := not_refused_of_unanswered hunanswered
        rcases Program.ends_bind_iff.mp hrest with
          ⟨hreopened, -⟩ | ⟨result, reopened, last, rfl, hreopened, hlast⟩
        · rcases reopen_ends hreopened with ⟨newcon, hnone, -⟩ | ⟨e, hnone, -⟩
          · exact absurd hnone (by simp)
          · exact absurd hnone (by simp)
        · rcases reopen_ends hreopened with ⟨newcon, hresult, rfl⟩ | ⟨e, hresult, entry, hentry, hrefused⟩
          · obtain rfl := Option.some.inj hresult
            obtain ⟨rfl, rfl⟩ := Program.ends_ret_iff.mp hlast
            refine .inl ⟨_, rfl, ?_, ?_⟩
            · rw [List.append_nil]
              exact .reopened hrecent hunanswered newcon
            · rw [List.append_nil]
              intro entry hentry
              rcases List.mem_append.mp hentry with hasked | hopened
              · exact hquiet entry hasked
              · exact not_refused_of_opened newcon entry hopened
          · obtain rfl := Option.some.inj hresult
            obtain ⟨rfl, rfl⟩ := Program.ends_ret_iff.mp hlast
            refine .inr ⟨e, rfl, entry, ?_, hrefused⟩
            exact List.mem_append_right _ (List.mem_append_left _ hentry)

/-! ### The loop -/

theorem more_ends {outcome : Option Bool}
    (hends : (return true : CheckProgram κ Bool).Ends trace outcome) :
    trace = [] ∧ outcome = some true :=
  Program.ends_ret_iff.mp hends

/-- By induction on the queue: an exception ends the loop with the rest not looked at. -/
theorem turns_ends {passed : Option (Sweep.Passed (SqlConnection ο κ) SQLException)}
    (hturns : Sweep.Turns (return true) (checkOne timestamp) pool trace passed) :
    (∃ pool', passed = some ⟨pool', [], none⟩ ∧ Maintains timestamp pool trace pool' ∧
        ∀ entry ∈ trace, ¬ Refused entry) ∨
      ∃ back left e, passed = some ⟨back, left, some e⟩ ∧ ∃ entry ∈ trace, Refused entry := by
  induction hturns with
  | finished => exact .inl ⟨[], rfl, .nil, by simp⟩
  | unasked hmore => exact absurd (more_ends hmore).2 (by simp)
  | stopped hmore => exact absurd (more_ends hmore).2 (by simp)
  | stuck hmore hvisit =>
      rcases checkOne_ends hvisit with ⟨con', hnone, -⟩ | ⟨e, hnone, -⟩
      · exact absurd hnone (by simp)
      · exact absurd hnone (by simp)
  | raised hmore hvisit =>
      obtain ⟨rfl, -⟩ := more_ends hmore
      rcases checkOne_ends hvisit with ⟨con', hresult, -⟩ | ⟨e, hresult, hrefused⟩
      · exact absurd hresult (by simp)
      · exact .inr ⟨_, _, _, rfl, hrefused⟩
  | visited hmore hvisit hrest ih =>
      obtain ⟨rfl, -⟩ := more_ends hmore
      rw [List.nil_append]
      rcases checkOne_ends hvisit with ⟨con', hresult, hcon, hquiet⟩ | ⟨e, hresult, -⟩
      · obtain ⟨rfl, -⟩ := Prod.mk.inj (Option.some.inj hresult)
        rcases ih with ⟨pool', rfl, hpool, hrest⟩ | ⟨back, left, e, rfl, entry, hentry, hrefused⟩
        · refine .inl ⟨con' :: pool', rfl, .cons hcon hpool, fun entry hentry => ?_⟩
          rcases List.mem_append.mp hentry with hseen | htail
          · exact hquiet entry hseen
          · exact hrest entry htail
        · exact .inr ⟨_, _, _, rfl, entry, List.mem_append_right _ hentry, hrefused⟩
      · exact absurd hresult (by simp)

/-- **When the check keeps the pool whole.** It returns, with the same connections in the same order and
each of them maintained, exactly if none that does not answer is refused when it is opened anew. -/
theorem keepsPool_iff {outcome : Option (List (SqlConnection ο κ) × Option SQLException)}
    (hends : (checkConnection pool).Ends trace outcome) :
    KeepsPool pool trace outcome ↔ ∀ entry ∈ trace, ¬ Refused entry := by
  obtain ⟨timestamp, visits, rfl, hvisits⟩ := Program.ends_call_iff_of_nonempty.mp hends
  have hloop : (Sweep.loop (return true) (checkOne timestamp) emptyFront pool.length
      (pool ++ [])).Ends visits outcome := by
    rw [List.append_nil]
    exact hvisits
  obtain ⟨passed, hturns, rfl⟩ := Sweep.turns_of_ends hloop
  rcases turns_ends hturns with ⟨pool', rfl, hpool, hquiet⟩ | ⟨back, left, e, rfl, entry, hentry, hrefused⟩
  · have hkeeps : KeepsPool pool (⟨.now, timestamp⟩ :: visits)
        ((some ⟨pool', [], none⟩ : Option (Sweep.Passed _ SQLException)).map (·.queue [])) :=
      ⟨timestamp, visits, pool', rfl, rfl, hpool.objects_eq, hpool⟩
    refine ⟨fun _ entry hentry => ?_, fun _ => hkeeps⟩
    rcases List.mem_cons.mp hentry with rfl | hentry
    · exact not_false
    · exact hquiet entry hentry
  · constructor
    · rintro ⟨_, _, _, -, houtcome, -⟩
      have herror := (Prod.mk.inj (Option.some.inj houtcome)).2
      exact absurd herror (by simp)
    · intro hquiet
      exact absurd hrefused (hquiet entry (List.mem_cons_of_mem _ hentry))

def databaseDown : CheckTrace Nat :=
  [⟨.now, (60 : Int)⟩, ⟨.createStatement 1, .error .raised⟩, ⟨.connect, .error .raised⟩]

def databaseBack : CheckTrace Nat :=
  [⟨.now, (60 : Int)⟩, ⟨.createStatement 1, .error .raised⟩, ⟨.connect, .ok 2⟩,
    ⟨.setSchema 2, .ok ()⟩]

def oneConnection : List (SqlConnection Nat Nat) := [⟨0, 1, 0⟩]

theorem keepsPool_databaseBack :
    KeepsPool oneConnection databaseBack (some ([⟨0, 2, 60⟩], none)) := by
  have hends : (checkConnection oneConnection).Ends databaseBack (some ([⟨0, 2, 60⟩], none)) :=
    .call (.call (.call (.call (.ret _))))
  exact (keepsPool_iff hends).mpr (by simp [databaseBack, Refused])

theorem not_keepsPool_databaseDown :
    ¬ ∀ (pool : List (SqlConnection Nat Nat)) (trace : CheckTrace Nat)
        (outcome : Option (List (SqlConnection Nat Nat) × Option SQLException)),
      (checkConnection pool).Ends trace outcome → KeepsPool pool trace outcome := by
  intro hall
  have hends : (checkConnection oneConnection).Ends databaseDown
      (some (oneConnection, some .raised)) := .call (.call (.call (.ret _)))
  obtain ⟨_, _, _, -, houtcome, -⟩ := hall _ _ _ hends
  exact absurd (Prod.mk.inj (Option.some.inj houtcome)).2 (by simp)

end MySqlPool

end QuickChat
