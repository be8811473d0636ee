import QuickChat.Proof.VerifyCode
import QuickChat.Verify.ConfigParser

/-!
# The prefix of the keys

The verification server stores a code under its prefix and the email, and the handlers look under
theirs. They are the same keys for every email if they are for one, that is if the prefixes agree. The
one server reads its prefix from the section `redis`, the other from the section `Redis`.
-/

namespace QuickChat

open Text

/-! ### Keys and prefixes -/

/-- Storing a code for the email changes what is under the key. -/
def VerifyService.Stores (VERIFY_PREFIX email key : Bytes) : Prop :=
  ∃ choices redis, (GetVerifyCode VERIFY_PREFIX email choices redis).2.entries key ≠ redis.entries key

theorem VerifyService.stores_iff {VERIFY_PREFIX email key : Bytes} :
    Stores VERIFY_PREFIX email key ↔ key = VERIFY_PREFIX ++ email := by
  constructor
  · rintro ⟨choices, redis, hchanged⟩
    by_contra hne
    rw [redis_of_GetVerifyCode] at hchanged
    exact hchanged (Function.update_of_ne hne _ _)
  · rintro rfl
    refine ⟨fun _ => 0, Redis.init, ?_⟩
    rw [redis_of_GetVerifyCode]
    simp [Redis.put, Redis.init]

namespace LogicSystem

def LooksUp (handler : GateHandler Bool) (key : Bytes) : Prop :=
  ¬ handler.run.Avoids fun call => call = .RedisGet key

variable {α β : Type} {P : GateCall → Prop} {cfg : ConfigMgr} {parse : Bytes → Option JsonValue}
  {body email key : Bytes} {src_root : JsonValue}

theorem avoids_bind {handler : GateHandler α} {second : α → GateHandler β}
    (hhandler : handler.run.Avoids P) (hsecond : ∀ value, (second value).run.Avoids P) :
    (handler >>= second).run.Avoids P := by
  rw [ExceptT.run_bind]
  refine hhandler.bind fun result => ?_
  cases result with
  | error e => exact trivial
  | ok value => exact hsecond value

theorem avoids_call {call : GateCall} (hcall : ¬ P call) :
    (ExceptT.lift (Program.perform call) : GateHandler call.Answer).run.Avoids P :=
  ⟨hcall, fun _ => trivial⟩

theorem avoids_field {name : String} {second : Bytes → GateHandler α}
    (hsecond : ∀ value, (second value).run.Avoids P) :
    (field src_root name >>= second).run.Avoids P :=
  avoids_bind trivial hsecond

theorem field_bind_ok {name : String} {value : Bytes} (hfield : src_root.field name = .ok value)
    (second : Bytes → GateHandler α) : field src_root name >>= second = second value := by
  rw [field, hfield]
  rfl

theorem avoids_respond (root : JsonValue) :
    (do respond root; return true : GateHandler Bool).run.Avoids fun call => call = .RedisGet key :=
  avoids_bind (avoids_call (by simp)) fun _ => trivial

theorem avoids_verification {next : Bytes → GateHandler Bool}
    (hkey : GateServer.verifyKey cfg email ≠ key)
    (hnext : ∀ code, (next code).run.Avoids fun call => call = .RedisGet key) :
    (verification cfg src_root email next).run.Avoids fun call => call = .RedisGet key := by
  refine avoids_bind (avoids_call fun heq => hkey (GateCall.RedisGet.inj heq)) ?_
  rintro ⟨b_get_verify, verify_code⟩
  dsimp only
  split
  · exact avoids_respond _
  · refine avoids_field fun verifycode => ?_
    split
    · exact avoids_respond _
    · exact hnext verifycode

theorem avoids_user_register (hparse : parse body = some src_root)
    (hemail : src_root.field "email" = .ok email) (hkey : GateServer.verifyKey cfg email ≠ key) :
    (user_register cfg parse body).run.Avoids fun call => call = .RedisGet key := by
  unfold user_register
  simp only [hparse, field_bind_ok hemail]
  refine avoids_field fun name => avoids_field fun pwd => avoids_field fun confirm => ?_
  have hverification :
      (verification cfg src_root email (user_register_verified email name pwd confirm)).run.Avoids
        fun call => call = .RedisGet key := by
    refine avoids_verification hkey fun verifycode => avoids_bind (avoids_call (by simp)) fun uid => ?_
    split
    · exact avoids_respond _
    · exact avoids_respond _
  split
  · exact avoids_bind (avoids_call (by simp)) fun _ => hverification
  · exact hverification

theorem avoids_reset_pwd (hparse : parse body = some src_root)
    (hemail : src_root.field "email" = .ok email) (hkey : GateServer.verifyKey cfg email ≠ key) :
    (reset_pwd cfg parse body).run.Avoids fun call => call = .RedisGet key := by
  unfold reset_pwd
  simp only [hparse, field_bind_ok hemail]
  refine avoids_field fun name => avoids_field fun pwd => avoids_verification hkey fun verifycode => ?_
  refine avoids_bind (avoids_call (by simp)) fun email_valid => ?_
  split
  · exact avoids_respond _
  · refine avoids_bind (avoids_call (by simp)) fun b_up => ?_
    split
    · exact avoids_respond _
    · exact avoids_respond _

end LogicSystem

/-- For every email, a code is stored under the key under which the handlers look for it. -/
def KeysAgree (VERIFY_PREFIX : Bytes) (cfg : ConfigMgr) : Prop :=
  ∀ (parse : Bytes → Option JsonValue) (body email stored sought : Bytes) (src_root : JsonValue),
    parse body = some src_root → src_root.field "email" = .ok email →
    VerifyService.Stores VERIFY_PREFIX email stored →
    LogicSystem.LooksUp (LogicSystem.user_register cfg parse body) sought ∨
      LogicSystem.LooksUp (LogicSystem.reset_pwd cfg parse body) sought →
    stored = sought

/-- The email comes last in both keys, so the prefixes have to be one. -/
theorem keysAgree_iff_eq {VERIFY_PREFIX : Bytes} {cfg : ConfigMgr} :
    KeysAgree VERIFY_PREFIX cfg ↔ VERIFY_PREFIX = cfg.value "Redis" "verify_prefix" := by
  constructor
  · intro hagree
    have hlooks : LogicSystem.LooksUp (LogicSystem.reset_pwd cfg (fun _ => some .null) [])
        (GateServer.verifyKey cfg []) := fun havoids => havoids.1 rfl
    have hsame := hagree (fun _ => some .null) [] [] (VERIFY_PREFIX ++ []) _ .null rfl rfl
      (VerifyService.stores_iff.mpr rfl) (.inr hlooks)
    exact List.append_cancel_right hsame
  · rintro rfl parse body email stored sought src_root hparse hemail hstores hlooks
    rw [VerifyService.stores_iff.mp hstores]
    by_contra hne
    rcases hlooks with hlooks | hlooks
    · exact hlooks (LogicSystem.avoids_user_register hparse hemail hne)
    · exact hlooks (LogicSystem.avoids_reset_pwd hparse hemail hne)

/-! ### The two readings of the file -/

namespace ConfigParser

variable {optionxform : Bytes → Bytes} {file : IniFile} {config : ConfigParser}

/-- What an option of a section of the file is for `ConfigParser`: the section's own, or else that of
`DEFAULT`. -/
def visible (optionxform : Bytes → Bytes) (file : IniFile) (section_name option : Bytes) :
    Option Bytes :=
  (file.lookup section_name).bind fun options =>
    ((options ++ (file.filter fun entry => entry.1 = DEFAULTSECT).flatMap Prod.snd).find? fun entry =>
      optionxform entry.1 = option).map Prod.snd

theorem lookup_map {α β : Type} {f : α → β} {key : Bytes} (entries : List (Bytes × α)) :
    (entries.map fun entry => (entry.1, f entry.2)).lookup key = (entries.lookup key).map f := by
  induction entries with
  | nil => rfl
  | cons entry entries ih =>
      rw [List.map_cons, List.lookup_cons, List.lookup_cons, ih]
      split <;> rfl

theorem lookup_filter {α : Type} {other key : Bytes} (hkey : key ≠ other)
    (entries : List (Bytes × α)) :
    (entries.filter fun entry => entry.1 ≠ other).lookup key = entries.lookup key := by
  induction entries with
  | nil => rfl
  | cons entry entries ih =>
      by_cases hentry : entry.1 = other
      · rw [List.filter_cons_of_neg (by simp [hentry]), ih, List.lookup_cons, beq_false_of_ne]
        rwa [hentry]
      · rw [List.filter_cons_of_pos (by simp [hentry]), List.lookup_cons, List.lookup_cons, ih]

theorem lookup_optionxform {key : Bytes} (options : List (Bytes × Bytes)) :
    (options.map fun option => (optionxform option.1, option.2)).lookup key
      = (options.find? fun option => optionxform option.1 = key).map Prod.snd := by
  induction options with
  | nil => rfl
  | cons option options ih =>
      rw [List.map_cons, List.lookup_cons, List.find?_cons, ih]
      by_cases hkey : optionxform option.1 = key
      · simp [hkey]
      · simp [hkey, Ne.symm hkey, beq_false_of_ne]

theorem defaults_optionxform :
    ((file.map fun entry => (entry.1, entry.2.map fun option =>
        (optionxform option.1, option.2))).filter fun entry => entry.1 = DEFAULTSECT).flatMap Prod.snd
      = ((file.filter fun entry => entry.1 = DEFAULTSECT).flatMap Prod.snd).map fun option =>
          (optionxform option.1, option.2) := by
  rw [List.filter_map, List.flatMap_map, List.map_flatMap]
  rfl

/-- The parser has for a section what the file says of it, before the defaults. -/
theorem unify_of_read (hread : read optionxform file = .ok config) {section_name : Bytes}
    (hsection : section_name ≠ DEFAULTSECT) :
    config._unify_values section_name =
      (file.lookup section_name).map fun _ => visible optionxform file section_name := by
  simp only [read] at hread
  split at hread
  · obtain rfl := Except.ok.inj hread
    rw [_unify_values, if_neg hsection, lookup_filter hsection, lookup_map, Option.map_map]
    cases hlookup : file.lookup section_name with
    | none => rfl
    | some options =>
        refine congrArg some (funext fun option => ?_)
        have hvisible : visible optionxform file section_name option =
            ((options ++ (file.filter fun entry => entry.1 = DEFAULTSECT).flatMap Prod.snd).find?
              fun entry => optionxform entry.1 = option).map Prod.snd := by
          rw [visible, hlookup, Option.bind_some]
        beta_reduce
        rw [hvisible, Function.comp_apply, Option.orElse_eq_orElse, Option.orElse_eq_or,
          defaults_optionxform, ← List.lookup_append, ← List.map_append, lookup_optionxform]
  · exact absurd hread (by simp)

/-- A value is found in the section, or in the defaults, or there is none. -/
theorem get_of_read (hread : read optionxform file = .ok config) {section_name option : String}
    (hsection : ascii section_name ≠ DEFAULTSECT) :
    config.get optionxform section_name option =
      match visible optionxform file (ascii section_name) (optionxform (ascii option)) with
      | none => .ok none
      | some value => (interpolate optionxform (visible optionxform file (ascii section_name))
          MAX_INTERPOLATION_DEPTH value).map some := by
  rw [get, unify_of_read hread hsection]
  cases hlookup : file.lookup (ascii section_name) with
  | none => rw [visible, hlookup]; rfl
  | some options => rfl

end ConfigParser

theorem except_bind_eq_ok {ε α β : Type} {first : Except ε α} {second : α → Except ε β} {result : β}
    (hbind : first >>= second = .ok result) : ∃ value, first = .ok value ∧ second value = .ok result := by
  cases first with
  | error e => exact absurd hbind (by simp [bind, Except.bind])
  | ok value => exact ⟨value, rfl, hbind⟩

/-- The fallback is for an option that is missing. -/
theorem prefix_of_serve {optionxform : Bytes → Bytes} {config : ConfigParser} {served : ServeConfig}
    (hserve : serve optionxform config = .ok served) :
    ∃ value, config.get optionxform "redis" "verify_prefix" = .ok value ∧
      served.VERIFY_PREFIX = value.getD (ascii "verify:") := by
  obtain ⟨port, -, hserve⟩ := except_bind_eq_ok hserve
  obtain ⟨redis_host, -, hserve⟩ := except_bind_eq_ok hserve
  obtain ⟨redis_port, -, hserve⟩ := except_bind_eq_ok hserve
  obtain ⟨value, hget, hserve⟩ := except_bind_eq_ok hserve
  obtain rfl := Except.ok.inj hserve
  exact ⟨value, hget, rfl⟩

/-- The prefix of `Redis` is the fallback, where Python finds none in `redis`, and else what Python
makes of the one that it finds. -/
def PrefixesAgree (optionxform : Bytes → Bytes) (file : IniFile) : Prop :=
  let sought := (((file.lookup (ascii "Redis")).getD []).lookup (ascii "verify_prefix")).getD []
  match ConfigParser.visible optionxform file (ascii "redis") (ascii "verify_prefix") with
  | none => sought = ascii "verify:"
  | some value =>
      ConfigParser.interpolate optionxform (ConfigParser.visible optionxform file (ascii "redis"))
        ConfigParser.MAX_INTERPOLATION_DEPTH value = .ok sought

variable {optionxform : Bytes → Bytes} {file : IniFile} {cfg : ConfigMgr} {config : ConfigParser}
  {served : ServeConfig}

theorem value_of_new (hcfg : ConfigMgr.new file = some cfg) (section_name key : String) :
    cfg.value section_name key =
      (((file.lookup (ascii section_name)).getD []).lookup (ascii key)).getD [] := by
  rw [ConfigMgr.new, Option.ite_none_right_eq_some, Option.some.injEq] at hcfg
  obtain ⟨-, rfl⟩ := hcfg
  rfl

/-- **One key for a code.** When both servers have read a file, they agree on the keys of the codes
exactly if the prefix that Python finds in `redis`, or the fallback, is that of `ConfigMgr` in
`Redis`. -/
theorem keysAgree_iff
    (hlower : optionxform (ascii "verify_prefix") = ascii "verify_prefix")
    (hcfg : ConfigMgr.new file = some cfg)
    (hread : ConfigParser.read optionxform file = .ok config)
    (hserve : serve optionxform config = .ok served) :
    KeysAgree served.VERIFY_PREFIX cfg ↔ PrefixesAgree optionxform file := by
  obtain ⟨value, hget, hprefix⟩ := prefix_of_serve hserve
  rw [keysAgree_iff_eq, hprefix, value_of_new hcfg, PrefixesAgree]
  rw [ConfigParser.get_of_read hread (by decide), hlower] at hget
  cases hvisible : ConfigParser.visible optionxform file (ascii "redis") (ascii "verify_prefix") with
  | none =>
      rw [hvisible] at hget
      obtain rfl := Except.ok.inj hget
      exact eq_comm
  | some raw =>
      simp only [hvisible] at hget ⊢
      cases hraw : ConfigParser.interpolate optionxform
          (ConfigParser.visible optionxform file (ascii "redis"))
          ConfigParser.MAX_INTERPOLATION_DEPTH raw with
      | error e =>
          rw [hraw] at hget
          exact absurd hget (by simp [Except.map])
      | ok text =>
          rw [hraw] at hget
          obtain rfl := Except.ok.inj hget
          rw [Option.getD_some, Except.ok.injEq]

def lower (name : Bytes) : Bytes := name.map fun b => if 65 ≤ b ∧ b ≤ 90 then b + 32 else b

def twoPrefixes : IniFile :=
  [(ascii "VerifyServer", [(ascii "Port", ascii "50051")]),
    (ascii "Redis", [(ascii "verify_prefix", ascii "code_")]),
    (ascii "redis", [(ascii "Verify_Prefix", ascii "code_")])]

theorem keysAgree_twoPrefixes :
    ∃ cfg config served, ConfigMgr.new twoPrefixes = some cfg ∧
      ConfigParser.read lower twoPrefixes = .ok config ∧ serve lower config = .ok served ∧
      KeysAgree served.VERIFY_PREFIX cfg := by
  refine ⟨_, _, _, rfl, rfl, rfl, ?_⟩
  exact (@keysAgree_iff lower twoPrefixes _ _ _ (by decide) rfl rfl rfl).mpr rfl

def otherPrefix : IniFile :=
  [(ascii "VerifyServer", [(ascii "Port", ascii "50051")]),
    (ascii "Redis", [(ascii "verify_prefix", ascii "code_")])]

theorem keys_differ :
    ∃ cfg config served, ConfigMgr.new otherPrefix = some cfg ∧
      ConfigParser.read lower otherPrefix = .ok config ∧ serve lower config = .ok served ∧
      served.VERIFY_PREFIX = ascii "verify:" ∧ ¬ KeysAgree served.VERIFY_PREFIX cfg := by
  refine ⟨_, _, _, rfl, rfl, rfl, rfl, fun hagree => ?_⟩
  exact absurd (keysAgree_iff_eq.mp hagree) (by decide)

end QuickChat
