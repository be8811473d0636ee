import Mathlib.Data.Set.Insert
import QuickChat.Lib.Expiring
import QuickChat.Lib.Machine

/-!
# Accounts behind a code

A registry keeps accounts, each with a name, an address and a secret. Whoever opens an account, or
sets a new secret for one, shows the code that was last sent to the box of the address, while it is
live. A name and an address open one account each.

So every account of a run was opened by a request with a live code for its address, or it was there from
the start, and its secret is the one of the last request with a live code for it.
-/

namespace Registry

open Expiring

structure Account (ν μ π : Type*) where
  name : ν
  address : μ
  secret : π

/-- A request that is not served shows a code to no effect. -/
inductive Event (ν μ π β χ : Type*) where
  | code (event : Expiring.Event β χ)
  | register (account : Account ν μ π) (code : χ) (served : Bool)
  | reset (account : Account ν μ π) (code : χ) (served : Bool)
  | skip

structure State (ν μ π β χ : Type*) where
  codes : List (Expiring.Event β χ)
  accounts : Set (Account ν μ π)

variable {ν μ π β χ : Type*} {ttl : Nat} {box : μ → β} {accounts initial : Set (Account ν μ π)}
  {account other : Account ν μ π} {state next : State ν μ π β χ} {event : Event ν μ π β χ}
  {before after events : List (Event ν μ π β χ)}

def Account.Same (account other : Account ν μ π) : Prop :=
  account.name = other.name ∧ account.address = other.address

def Free (accounts : Set (Account ν μ π)) (account : Account ν μ π) : Prop :=
  ∀ other ∈ accounts, other.name ≠ account.name ∧ other.address ≠ account.address

/-- The account takes the place of the one with its name and address, if there is one. -/
def replace (accounts : Set (Account ν μ π)) (account : Account ν μ π) : Set (Account ν μ π) :=
  {other | (other ∈ accounts ∧ ¬ other.Same account) ∨
    (other = account ∧ ∃ old ∈ accounts, old.Same account)}

theorem replace_of_forall_not_same (hnone : ∀ old ∈ accounts, ¬ old.Same account) :
    replace accounts account = accounts := by
  ext other
  constructor
  · rintro (⟨hother, -⟩ | ⟨-, old, hold, hsame⟩)
    · exact hother
    · exact absurd hsame (hnone old hold)
  · intro hother
    exact .inl ⟨hother, hnone other hother⟩

open Classical in
noncomputable def step (ttl : Nat) (box : μ → β) (state : State ν μ π β χ) :
    Event ν μ π β χ → Option (State ν μ π β χ)
  | .code event => some { state with codes := state.codes ++ [event] }
  | .register account code served =>
      if served = true ∧ Live ttl state.codes (box account.address) code ∧
          Free state.accounts account then
        some { state with accounts := insert account state.accounts }
      else some state
  | .reset account code served =>
      if served = true ∧ Live ttl state.codes (box account.address) code then
        some { state with accounts := replace state.accounts account }
      else some state
  | .skip => some state

theorem step_register_of_refused {code : χ} {served : Bool}
    (hrefused : served = true → Live ttl state.codes (box account.address) code →
      ¬ Free state.accounts account) :
    step ttl box state (.register account code served) = some state :=
  if_neg fun ⟨hserved, hlive, hfree⟩ => hrefused hserved hlive hfree

theorem step_reset_of_refused {code : χ} {served : Bool}
    (hrefused : served = true → Live ttl state.codes (box account.address) code →
      ∀ old ∈ state.accounts, ¬ old.Same account) :
    step ttl box state (.reset account code served) = some state := by
  rw [step]
  split
  · rename_i hserved
    rw [replace_of_forall_not_same (hrefused hserved.1 hserved.2)]
  · rfl

/-! ### One owner -/

def Distinct (accounts : Set (Account ν μ π)) : Prop :=
  ∀ account ∈ accounts, ∀ other ∈ accounts,
    account.name = other.name ∨ account.address = other.address → account = other

theorem Distinct.insert (hdistinct : Distinct accounts) (hfree : Free accounts account) :
    Distinct (insert account accounts) := by
  have hnew (other : Account ν μ π) (hother : other ∈ accounts) :
      ¬ (other.name = account.name ∨ other.address = account.address) := by
    rintro (hname | haddress)
    · exact (hfree other hother).1 hname
    · exact (hfree other hother).2 haddress
  rintro first (rfl | hfirst) second (rfl | hsecond) hshared
  · rfl
  · exact absurd (hshared.imp Eq.symm Eq.symm) (hnew second hsecond)
  · exact absurd hshared (hnew first hfirst)
  · exact hdistinct first hfirst second hsecond hshared

theorem Distinct.replace (hdistinct : Distinct accounts) : Distinct (replace accounts account) := by
  have hsame (other old : Account ν μ π) (hother : other ∈ accounts) (hold : old ∈ accounts)
      (hsame : old.Same account)
      (hshared : other.name = account.name ∨ other.address = account.address) :
      other.Same account := by
    rw [← hsame.1, ← hsame.2] at hshared
    rw [hdistinct other hother old hold hshared]
    exact hsame
  rintro first (⟨hfirst, hother⟩ | ⟨rfl, old, hold, hold'⟩)
    second (⟨hsecond, hother'⟩ | ⟨rfl, old', hold₂, hold₂'⟩) hshared
  · exact hdistinct first hfirst second hsecond hshared
  · exact absurd (hsame first old' hfirst hold₂ hold₂' hshared) hother
  · exact absurd (hsame second old hsecond hold hold' (hshared.imp Eq.symm Eq.symm)) hother'
  · rfl

def codesOf (events : List (Event ν μ π β χ)) : List (Expiring.Event β χ) :=
  events.filterMap fun
    | .code event => some event
    | _ => none

def Shown (ttl : Nat) (box : μ → β) (before : List (Event ν μ π β χ)) (address : μ) (code : χ) : Prop :=
  Live ttl (codesOf before) (box address) code

/-- Behind the events before it, the event registers the account, with this secret or another one. -/
def Opens (ttl : Nat) (box : μ → β) (before : List (Event ν μ π β χ)) (account : Account ν μ π)
    (event : Event ν μ π β χ) : Prop :=
  ∃ secret code, event = .register { account with secret := secret } code true ∧
    Shown ttl box before account.address code

def Resets (ttl : Nat) (box : μ → β) (before : List (Event ν μ π β χ)) (account : Account ν μ π)
    (event : Event ν μ π β χ) : Prop :=
  ∃ secret code, event = .reset { account with secret := secret } code true ∧
    Shown ttl box before account.address code

def Sets (ttl : Nat) (box : μ → β) (before : List (Event ν μ π β χ)) (account : Account ν μ π)
    (event : Event ν μ π β χ) : Prop :=
  ∃ code, (event = .register account code true ∨ event = .reset account code true) ∧
    Shown ttl box before account.address code

def NoReset (ttl : Nat) (box : μ → β) (before after : List (Event ν μ π β χ))
    (account : Account ν μ π) : Prop :=
  ∀ between event rest, after = between ++ event :: rest →
    ¬ Resets ttl box (before ++ between) account event

/-- The account is as it was at the start, or was opened and has its secret from the last request for
it. -/
structure Vouched (ttl : Nat) (box : μ → β) (initial : Set (Account ν μ π))
    (events : List (Event ν μ π β χ)) (account : Account ν μ π) : Prop where
  opened : (∃ old ∈ initial, old.Same account) ∨
    ∃ before event after, events = before ++ event :: after ∧ Opens ttl box before account event
  secret : (account ∈ initial ∧ NoReset ttl box [] events account) ∨
    ∃ before event after, events = before ++ event :: after ∧ Sets ttl box before account event ∧
      NoReset ttl box (before ++ [event]) after account

theorem noReset_nil : NoReset ttl box before [] account := by
  intro between event rest hsplit
  exact absurd hsplit.symm (by simp)

theorem NoReset.concat (hnone : NoReset ttl box before after account)
    (hevent : ¬ Resets ttl box (before ++ after) account event) :
    NoReset ttl box before (after ++ [event]) account := by
  intro between other rest hsplit
  rcases List.eq_nil_or_concat rest with rfl | ⟨rest, last, rfl⟩
  · obtain ⟨rfl, hother⟩ := List.append_inj' hsplit rfl
    obtain rfl := List.singleton_inj.mp hother
    exact hevent
  · rw [List.concat_eq_append, ← List.cons_append, ← List.append_assoc] at hsplit
    obtain ⟨hafter, -⟩ := List.append_inj' hsplit rfl
    exact hnone between other rest hafter

theorem Vouched.concat (hvouched : Vouched ttl box initial events account)
    (hevent : ¬ Resets ttl box events account event) :
    Vouched ttl box initial (events ++ [event]) account := by
  constructor
  · apply hvouched.opened.imp_right
    rintro ⟨before, first, after, rfl, hopens⟩
    exact ⟨before, first, after ++ [event], by simp, hopens⟩
  · refine hvouched.secret.imp (fun ⟨hinitial, hnone⟩ => ⟨hinitial, hnone.concat hevent⟩) ?_
    rintro ⟨before, first, after, rfl, hsets, hnone⟩
    refine ⟨before, first, after ++ [event], by simp, hsets, hnone.concat ?_⟩
    rwa [List.append_assoc, List.singleton_append]

theorem Opens.of_same (hsame : other.Same account) (hopens : Opens ttl box before other event) :
    Opens ttl box before account event := by
  obtain ⟨name, address, secret⟩ := account
  obtain ⟨rfl, rfl⟩ := hsame
  exact hopens

/-- Before the event the accounts are vouched for, and it is a reset of `account` with a live code. -/
theorem Vouched.reset {code : χ} (hother : Vouched ttl box initial events other)
    (hsame : other.Same account) (hcode : Shown ttl box events account.address code) :
    Vouched ttl box initial (events ++ [.reset account code true]) account := by
  constructor
  · rcases hother.opened with ⟨old, hold, hold'⟩ | ⟨before, event, after, rfl, hopens⟩
    · exact .inl ⟨old, hold, hold'.1.trans hsame.1, hold'.2.trans hsame.2⟩
    · refine .inr ⟨before, event, after ++ [.reset account code true], ?_, hopens.of_same hsame⟩
      rw [List.append_assoc, List.cons_append]
  · exact .inr ⟨events, _, [], rfl, ⟨code, .inr rfl, hcode⟩, noReset_nil⟩

theorem vouched_register {code : χ} (hcode : Shown ttl box events account.address code) :
    Vouched ttl box initial (events ++ [.register account code true]) account :=
  ⟨.inr ⟨events, _, [], rfl, account.secret, code, rfl, hcode⟩,
    .inr ⟨events, _, [], rfl, ⟨code, .inl rfl, hcode⟩, noReset_nil⟩⟩

structure Known (ttl : Nat) (box : μ → β) (initial : Set (Account ν μ π))
    (events : List (Event ν μ π β χ)) (state : State ν μ π β χ) : Prop where
  codes : state.codes = codesOf events
  accounts : ∀ account ∈ state.accounts, Vouched ttl box initial events account

theorem Known.unchanged (hknown : Known ttl box initial events state)
    (hcodes : codesOf (events ++ [event]) = codesOf events)
    (hevent : ∀ account, ¬ Resets ttl box events account event) :
    Known ttl box initial (events ++ [event]) state :=
  ⟨hknown.codes.trans hcodes.symm, fun account haccount =>
    (hknown.accounts account haccount).concat (hevent account)⟩

theorem codesOf_concat (events : List (Event ν μ π β χ)) (event : Event ν μ π β χ) :
    codesOf (events ++ [event]) = codesOf events ++ codesOf [event] :=
  List.filterMap_append

/-- **One event.** A code is remembered under its address, and an account changes by what shows it. -/
theorem Known.step (hknown : Known ttl box initial events state)
    (hstep : Registry.step ttl box state event = some next) :
    Known ttl box initial (events ++ [event]) next := by
  cases event with
  | code event =>
      obtain rfl := Option.some.inj hstep
      constructor
      · rw [codesOf_concat, ← hknown.codes]
        rfl
      · intro account haccount
        refine (hknown.accounts account haccount).concat ?_
        rintro ⟨secret, code, hreset, -⟩
        exact absurd hreset (by simp)
  | register account code served =>
      have hreset (other : Account ν μ π) :
          ¬ Resets ttl box events other (.register account code served) := by
        rintro ⟨secret, code', hreset, -⟩
        exact absurd hreset (by simp)
      have hcodes : codesOf (events ++ [.register account code served]) = codesOf events := by
        rw [codesOf_concat]
        exact List.append_nil _
      rw [Registry.step] at hstep
      split at hstep
      · rename_i hregister
        obtain ⟨rfl, hlive, -⟩ := hregister
        obtain rfl := Option.some.inj hstep
        rw [hknown.codes] at hlive
        refine ⟨hknown.codes.trans hcodes.symm, ?_⟩
        rintro other (rfl | hother)
        · exact vouched_register hlive
        · exact (hknown.accounts other hother).concat (hreset other)
      · obtain rfl := Option.some.inj hstep
        exact hknown.unchanged hcodes hreset
  | reset account code served =>
      have hcodes : codesOf (events ++ [.reset account code served]) = codesOf events := by
        rw [codesOf_concat]
        exact List.append_nil _
      have hreset {other : Account ν μ π}
          (hresets : Resets ttl box events other (.reset account code served)) :
          (served = true ∧ Live ttl state.codes (box account.address) code) ∧ other.Same account := by
        obtain ⟨secret, code', hevent, hshown⟩ := hresets
        obtain ⟨rfl, rfl, rfl⟩ := Event.reset.inj hevent
        rw [hknown.codes]
        exact ⟨⟨rfl, hshown⟩, rfl, rfl⟩
      rw [Registry.step] at hstep
      split at hstep
      · rename_i hserved
        obtain ⟨rfl, hlive⟩ := hserved
        obtain rfl := Option.some.inj hstep
        rw [hknown.codes] at hlive
        refine ⟨hknown.codes.trans hcodes.symm, ?_⟩
        rintro other (⟨hother, hdiffers⟩ | ⟨rfl, old, hold, hsame⟩)
        · exact (hknown.accounts other hother).concat fun hresets => hdiffers (hreset hresets).2
        · exact (hknown.accounts old hold).reset hsame hlive
      · rename_i hserved
        obtain rfl := Option.some.inj hstep
        exact hknown.unchanged hcodes fun other hresets => hserved (hreset hresets).1
  | skip =>
      obtain rfl := Option.some.inj hstep
      refine hknown.unchanged ?_ ?_
      · rw [codesOf_concat]
        exact List.append_nil _
      · rintro account ⟨secret, code, hreset, -⟩
        exact absurd hreset (by simp)

end Registry
