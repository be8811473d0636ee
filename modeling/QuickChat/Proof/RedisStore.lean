import QuickChat.Proof.RedisOps

/-!
# Where RedisMgr is a store over bytes

`RedisMgr` is a store for the operations that are not mangled: neither their arguments nor what is
stored has a NUL. For a value without NUL the two overloads of `HSet` are one operation.
-/

namespace QuickChat

open Text

/-! ### Bytes without NUL -/

def RedisValue.Clean : RedisValue → Prop
  | string s => (0 : UInt8) ∉ s
  | list xs => ∀ x ∈ xs, (0 : UInt8) ∉ x
  | hash fields => ∀ field value, fields field = some value → (0 : UInt8) ∉ field ∧ (0 : UInt8) ∉ value

def ByteStore.Clean (store : ByteStore) : Prop :=
  ∀ key value, store key = some value → (0 : UInt8) ∉ key ∧ value.Clean

namespace RedisOp

variable {op : RedisOp} {db next : Redis} {store : ByteStore} {result : RedisResult}
  {found value : Option RedisValue}

/-- No argument that Redis gets as a C string has a NUL, nor has a value of a hash. A key with a NUL
that is only looked for or deleted does no harm when there is nothing under the part before it. -/
def Unmangled (db : Redis) : RedisOp → Prop
  | Get key _ => (0 : UInt8) ∉ key
  | Set key value => (0 : UInt8) ∉ key ∧ (0 : UInt8) ∉ value
  | Auth _ => True
  | LPush key value => (0 : UInt8) ∉ key ∧ (0 : UInt8) ∉ value
  | LPop key _ => (0 : UInt8) ∉ key
  | RPush key value => (0 : UInt8) ∉ key ∧ (0 : UInt8) ∉ value
  | RPop key _ => (0 : UInt8) ∉ key
  | HSet key hkey value => (0 : UInt8) ∉ key ∧ (0 : UInt8) ∉ hkey ∧ (0 : UInt8) ∉ value
  | HSetLen key hkey hvalue hvaluelen =>
      (0 : UInt8) ∉ key ∧ (0 : UInt8) ∉ hkey ∧ (0 : UInt8) ∉ hvalue.take hvaluelen
  | HGet _ _ => True
  | Del key => (0 : UInt8) ∉ key ∨ db.lookup (c_str key) = none
  | ExistsKey key => (0 : UInt8) ∉ key ∨ db.lookup (c_str key) = none

instance (db : Redis) : (op : RedisOp) → Decidable (Unmangled db op)
  | Get key _ => inferInstanceAs (Decidable ((0 : UInt8) ∉ key))
  | Set key value => inferInstanceAs (Decidable ((0 : UInt8) ∉ key ∧ (0 : UInt8) ∉ value))
  | Auth _ => isTrue trivial
  | LPush key value => inferInstanceAs (Decidable ((0 : UInt8) ∉ key ∧ (0 : UInt8) ∉ value))
  | LPop key _ => inferInstanceAs (Decidable ((0 : UInt8) ∉ key))
  | RPush key value => inferInstanceAs (Decidable ((0 : UInt8) ∉ key ∧ (0 : UInt8) ∉ value))
  | RPop key _ => inferInstanceAs (Decidable ((0 : UInt8) ∉ key))
  | HSet key hkey value =>
      inferInstanceAs (Decidable ((0 : UInt8) ∉ key ∧ (0 : UInt8) ∉ hkey ∧ (0 : UInt8) ∉ value))
  | HSetLen key hkey hvalue hvaluelen =>
      inferInstanceAs (Decidable ((0 : UInt8) ∉ key ∧ (0 : UInt8) ∉ hkey ∧
        (0 : UInt8) ∉ hvalue.take hvaluelen))
  | HGet _ _ => isTrue trivial
  | Del key => inferInstanceAs (Decidable ((0 : UInt8) ∉ key ∨ db.lookup (c_str key) = none))
  | ExistsKey key => inferInstanceAs (Decidable ((0 : UInt8) ∉ key ∨ db.lookup (c_str key) = none))

/-- For the bytes that the operation writes to a hash, the two overloads are one operation. -/
def OverloadsAgree (db : Redis) : RedisOp → Prop
  | HSet key hkey value =>
      RedisMgr.run (RedisMgr.HSet key hkey value) db =
        RedisMgr.run (RedisMgr.HSetLen key hkey value value.length) db
  | HSetLen key hkey hvalue hvaluelen =>
      RedisMgr.run (RedisMgr.HSet key hkey (hvalue.take hvaluelen)) db =
        RedisMgr.run (RedisMgr.HSetLen key hkey hvalue hvaluelen) db
  | _ => True

theorem mem_of_unconsHead {xs rest : List Bytes} {x : Bytes}
    (htake : Redis.unconsHead xs = some (x, rest)) : x ∈ xs ∧ rest ⊆ xs := by
  cases xs with
  | nil => simp [Redis.unconsHead] at htake
  | cons y ys =>
      obtain ⟨rfl, rfl⟩ := Prod.mk.inj (Option.some.inj htake)
      exact ⟨List.mem_cons_self, List.subset_cons_self _ _⟩

theorem mem_of_unconsLast {xs rest : List Bytes} {x : Bytes}
    (htake : Redis.unconsLast xs = some (x, rest)) : x ∈ xs ∧ rest ⊆ xs := by
  obtain ⟨y, hlast, htaken⟩ := Option.map_eq_some_iff.mp htake
  obtain ⟨rfl, rfl⟩ := Prod.mk.inj htaken
  exact ⟨List.mem_of_getLast? hlast, List.dropLast_subset xs⟩

theorem clean_ofList {xs : List Bytes} (hxs : ∀ x ∈ xs, (0 : UInt8) ∉ x) :
    ∀ stored, ofList xs = some stored → stored.Clean := by
  intro stored hstored
  cases xs with
  | nil => cases hstored
  | cons y ys =>
      obtain rfl := Option.some.inj hstored
      exact hxs

theorem clean_update {fields : Bytes → Option Bytes} {field text : Bytes}
    (hfields : (RedisValue.hash fields).Clean) (hfield : (0 : UInt8) ∉ field)
    (htext : (0 : UInt8) ∉ text) :
    (RedisValue.hash (Function.update fields field (some text))).Clean := by
  intro other value hvalue
  by_cases hother : other = field
  · rw [hother, Function.update_self, Option.some.injEq] at hvalue
    exact ⟨hother ▸ hfield, hvalue ▸ htext⟩
  · rw [Function.update_of_ne hother] at hvalue
    exact hfields other value hvalue

inductive Effect : RedisOp → Option RedisValue → RedisResult → Option RedisValue → Prop where
  | get {key out s : Bytes} :
      Effect (Get key out) (some (.string s)) (.read true s) (some (.string s))
  | set {key s : Bytes} {found : Option RedisValue} :
      Effect (Set key s) found (.done true) (some (.string s))
  | lpush {key x : Bytes} {found : Option RedisValue} {xs : List Bytes}
      (hfound : found = none ∧ xs = [] ∨ found = some (.list xs)) :
      Effect (LPush key x) found (.done true) (some (.list (x :: xs)))
  | rpush {key x : Bytes} {found : Option RedisValue} {xs : List Bytes}
      (hfound : found = none ∧ xs = [] ∨ found = some (.list xs)) :
      Effect (RPush key x) found (.done true) (some (.list (xs ++ [x])))
  | lpop {key out x : Bytes} {xs rest : List Bytes} (hx : x ∈ xs) (hrest : rest ⊆ xs) :
      Effect (LPop key out) (some (.list xs)) (.read true x) (ofList rest)
  | rpop {key out x : Bytes} {xs rest : List Bytes} (hx : x ∈ xs) (hrest : rest ⊆ xs) :
      Effect (RPop key out) (some (.list xs)) (.read true x) (ofList rest)
  | hset {key hkey text : Bytes} {found : Option RedisValue} {fields : Bytes → Option Bytes}
      (hfound : found = none ∧ fields = (fun _ => none) ∨ found = some (.hash fields)) :
      Effect (HSet key hkey text) found (.done true)
        (some (.hash (Function.update fields hkey (some text))))
  | hsetLen {key hkey hvalue : Bytes} {hvaluelen : Nat} {found : Option RedisValue}
      {fields : Bytes → Option Bytes}
      (hfound : found = none ∧ fields = (fun _ => none) ∨ found = some (.hash fields)) :
      Effect (HSetLen key hkey hvalue hvaluelen) found (.done true)
        (some (.hash (Function.update fields hkey (some (hvalue.take hvaluelen)))))
  | hget {key hkey text : Bytes} {fields : Bytes → Option Bytes} (hfield : fields hkey = some text) :
      Effect (HGet key hkey) (some (.hash fields)) (.text text) (some (.hash fields))
  | del {key : Bytes} {found : Option RedisValue} : Effect (Del key) found (.done true) none
  | existsKey {key : Bytes} {found : Option RedisValue} :
      Effect (ExistsKey key) found (.done found.isSome) found

theorem effect_of_onValue (honValue : op.onValue found = some (result, value)) :
    Effect op found result value := by
  cases op with
  | Get key out =>
      cases found with
      | none => cases honValue
      | some stored =>
          cases stored with
          | string s => cases honValue; exact .get
          | list xs => cases honValue
          | hash fields => cases honValue
  | Set key s => cases honValue; exact .set
  | Auth password => cases honValue
  | LPush key x =>
      cases found with
      | none => cases honValue; exact .lpush (.inl ⟨rfl, rfl⟩)
      | some stored =>
          cases stored with
          | string s => cases honValue
          | list xs => cases honValue; exact .lpush (.inr rfl)
          | hash fields => cases honValue
  | RPush key x =>
      cases found with
      | none => cases honValue; exact .rpush (.inl ⟨rfl, rfl⟩)
      | some stored =>
          cases stored with
          | string s => cases honValue
          | list xs => cases honValue; exact .rpush (.inr rfl)
          | hash fields => cases honValue
  | LPop key out =>
      cases found with
      | none => cases honValue
      | some stored =>
          cases stored with
          | string s => cases honValue
          | list xs =>
              obtain ⟨⟨x, rest⟩, htake, heq⟩ := Option.map_eq_some_iff.mp honValue
              obtain ⟨hx, hrest⟩ := mem_of_unconsHead htake
              cases heq
              exact .lpop hx hrest
          | hash fields => cases honValue
  | RPop key out =>
      cases found with
      | none => cases honValue
      | some stored =>
          cases stored with
          | string s => cases honValue
          | list xs =>
              obtain ⟨⟨x, rest⟩, htake, heq⟩ := Option.map_eq_some_iff.mp honValue
              obtain ⟨hx, hrest⟩ := mem_of_unconsLast htake
              cases heq
              exact .rpop hx hrest
          | hash fields => cases honValue
  | HSet key hkey text =>
      cases found with
      | none => cases honValue; exact .hset (.inl ⟨rfl, rfl⟩)
      | some stored =>
          cases stored with
          | string s => cases honValue
          | list xs => cases honValue
          | hash fields => cases honValue; exact .hset (.inr rfl)
  | HSetLen key hkey hvalue hvaluelen =>
      cases found with
      | none => cases honValue; exact .hsetLen (.inl ⟨rfl, rfl⟩)
      | some stored =>
          cases stored with
          | string s => cases honValue
          | list xs => cases honValue
          | hash fields => cases honValue; exact .hsetLen (.inr rfl)
  | HGet key hkey =>
      cases found with
      | none => cases honValue
      | some stored =>
          cases stored with
          | string s => cases honValue
          | list xs => cases honValue
          | hash fields =>
              obtain ⟨text, hfield, heq⟩ := Option.map_eq_some_iff.mp honValue
              cases heq
              exact .hget hfield
  | Del key => cases honValue; exact .del
  | ExistsKey key => cases honValue; exact .existsKey

theorem clean_of_found {xs : List Bytes} (hfound : ∀ stored, found = some stored → stored.Clean)
    (hlist : found = none ∧ xs = [] ∨ found = some (.list xs)) : ∀ x ∈ xs, (0 : UInt8) ∉ x := by
  rcases hlist with ⟨-, rfl⟩ | hlist
  · simp
  · exact hfound _ hlist

theorem clean_of_found_hash {fields : Bytes → Option Bytes}
    (hfound : ∀ stored, found = some stored → stored.Clean)
    (hhash : found = none ∧ fields = (fun _ => none) ∨ found = some (.hash fields)) :
    (RedisValue.hash fields).Clean := by
  rcases hhash with ⟨-, rfl⟩ | hhash
  · intro field text hfield
    cases hfield
  · exact hfound _ hhash

theorem cut_of_clean (hfound : ∀ stored, found = some stored → stored.Clean)
    (honValue : op.onValue found = some (result, value)) : result.cut = result := by
  cases effect_of_onValue honValue with
  | get => exact congrArg (RedisResult.read true) (c_str_of_not_mem (hfound _ rfl))
  | lpop hx hrest => exact congrArg (RedisResult.read true) (c_str_of_not_mem (hfound _ rfl _ hx))
  | rpop hx hrest => exact congrArg (RedisResult.read true) (c_str_of_not_mem (hfound _ rfl _ hx))
  | hget hfield => exact congrArg RedisResult.text (c_str_of_not_mem (hfound _ rfl _ _ hfield).2)
  | _ => rfl

theorem clean_onValue (hfound : ∀ stored, found = some stored → stored.Clean)
    (hplain : op.Unmangled db) (honValue : op.onValue found = some (result, value)) :
    ∀ stored, value = some stored → stored.Clean := by
  intro stored hstored
  cases effect_of_onValue honValue with
  | get => exact hfound _ hstored
  | set =>
      obtain rfl := Option.some.inj hstored
      exact hplain.2
  | lpush hlist =>
      obtain rfl := Option.some.inj hstored
      exact List.forall_mem_cons.mpr ⟨hplain.2, clean_of_found hfound hlist⟩
  | rpush hlist =>
      obtain rfl := Option.some.inj hstored
      refine List.forall_mem_append.mpr ⟨clean_of_found hfound hlist, ?_⟩
      exact List.forall_mem_singleton.mpr hplain.2
  | lpop hx hrest => exact clean_ofList (fun y hy => hfound _ rfl y (hrest hy)) stored hstored
  | rpop hx hrest => exact clean_ofList (fun y hy => hfound _ rfl y (hrest hy)) stored hstored
  | hset hhash =>
      obtain rfl := Option.some.inj hstored
      exact clean_update (clean_of_found_hash hfound hhash) hplain.2.1 hplain.2.2
  | hsetLen hhash =>
      obtain rfl := Option.some.inj hstored
      exact clean_update (clean_of_found_hash hfound hhash) hplain.2.1 hplain.2.2
  | hget hfield => exact hfound _ hstored
  | del => cases hstored
  | existsKey => exact hfound _ hstored

/-! ### One operation -/

theorem apply_eq_some_iff {after : ByteStore} :
    store.apply op = some (result, after) ↔
      ∃ value, op.onValue (store op.key) = some (result, value) ∧
        after = Function.update store op.key value := by
  rw [ByteStore.apply, Option.map_eq_some_iff]
  constructor
  · rintro ⟨⟨other, value⟩, honValue, heq⟩
    obtain ⟨rfl, rfl⟩ := Prod.mk.inj heq
    exact ⟨value, honValue, rfl⟩
  · rintro ⟨value, honValue, rfl⟩
    exact ⟨(result, value), honValue, rfl⟩

section Step

variable (hclean : ByteStore.Clean db.lookup) (hacts : Acts op db result value next)

include hclean hacts

theorem apply_of_sent_eq (hsent : op.sent = op) :
    ByteStore.apply db.lookup op = some (result.cut, next.lookup) := by
  have honValue := hacts.onValue
  have hlookup := hacts.lookup
  rw [hsent] at honValue hlookup
  have hcut := cut_of_clean (fun stored hstored => (hclean _ _ hstored).2) honValue
  exact apply_eq_some_iff.mpr ⟨value, hcut.symm ▸ honValue, hlookup⟩

/-- Nothing is under a key with a NUL, and Redis does not come to put anything there. -/
theorem onValue_of_mangled_key (happly : ByteStore.apply db.lookup op = some (result.cut, next.lookup))
    (hkey : (0 : UInt8) ∈ op.key) (hsent : op.sent.key ≠ op.key) :
    op.onValue none = some (result.cut, none) := by
  obtain ⟨value', honValue, hnext⟩ := apply_eq_some_iff.mp happly
  have hnone : db.lookup op.key = none := by
    cases hlookup : db.lookup op.key with
    | none => rfl
    | some stored => exact absurd hkey (hclean _ _ hlookup).1
  have hvalue : value' = none := by
    have hat := congrFun hnext op.key
    rw [hacts.lookup, Function.update_self, Function.update_of_ne hsent.symm, hnone] at hat
    exact hat.symm
  rwa [hnone, hvalue] at honValue

omit hclean in
theorem onValue_of_plain_key (happly : ByteStore.apply db.lookup op = some (result.cut, next.lookup))
    (hsent : op.sent.key = op.key) : op.onValue (db.lookup op.key) = some (result.cut, value) := by
  obtain ⟨value', honValue, hnext⟩ := apply_eq_some_iff.mp happly
  rw [hacts.lookup, hsent] at hnext
  rwa [Function.update_injective _ _ hnext]

end Step

theorem c_str_ne_self {s : Bytes} (hs : (0 : UInt8) ∈ s) : c_str s ≠ s :=
  fun heq => c_str_eq_self_iff.mp heq hs

theorem not_mem_key_of_onValue {stored : RedisValue} (hplain : op.Unmangled db)
    (honValue : op.onValue none = some (result, some stored)) : (0 : UInt8) ∉ op.key := by
  cases effect_of_onValue honValue with
  | set => exact hplain.1
  | lpush hfound => exact hplain.1
  | rpush hfound => exact hplain.1
  | hset hfound => exact hplain.1
  | hsetLen hfound => exact hplain.1

theorem eq_c_str_of_hash {fields fields' : Bytes → Option Bytes} {hkey text text' : Bytes}
    (hfields : (RedisValue.hash fields).Clean)
    (heq : Function.update fields' hkey (some text) =
      Function.update fields (c_str hkey) (some text')) : (0 : UInt8) ∉ hkey ∧ text = text' := by
  have hat := congrFun heq hkey
  rw [Function.update_self] at hat
  by_cases hplain : (0 : UInt8) ∉ hkey
  · rw [c_str_of_not_mem hplain, Function.update_self, Option.some.injEq] at hat
    exact ⟨hplain, hat⟩
  · rw [Function.update_of_ne (c_str_ne_self (not_not.mp hplain)).symm] at hat
    exact absurd (hfields hkey text hat.symm).1 hplain

theorem list_of_LPush {key x : Bytes} (honValue : (LPush key x).onValue found = some (result, value)) :
    ∃ xs, value = some (.list (x :: xs)) := by
  cases effect_of_onValue honValue with
  | lpush hfound => exact ⟨_, rfl⟩

theorem list_of_RPush {key x : Bytes} (honValue : (RPush key x).onValue found = some (result, value)) :
    ∃ xs, value = some (.list (xs ++ [x])) := by
  cases effect_of_onValue honValue with
  | rpush hfound => exact ⟨_, rfl⟩

theorem hash_of_HSet {key hkey text : Bytes} (hfound : ∀ stored, found = some stored → stored.Clean)
    (honValue : (HSet key hkey text).onValue found = some (result, value)) :
    ∃ fields, (RedisValue.hash fields).Clean ∧
      value = some (.hash (Function.update fields hkey (some text))) := by
  cases effect_of_onValue honValue with
  | hset hhash => exact ⟨_, clean_of_found_hash hfound hhash, rfl⟩

theorem hash_of_HSetLen {key hkey hvalue : Bytes} {hvaluelen : Nat}
    (hfound : ∀ stored, found = some stored → stored.Clean)
    (honValue : (HSetLen key hkey hvalue hvaluelen).onValue found = some (result, value)) :
    ∃ fields, (RedisValue.hash fields).Clean ∧
      value = some (.hash (Function.update fields hkey (some (hvalue.take hvaluelen)))) := by
  cases effect_of_onValue honValue with
  | hsetLen hhash => exact ⟨_, clean_of_found_hash hfound hhash, rfl⟩

/-! The overloads -/

theorem hset_injective {key field text text' : Bytes}
    (hreply : (db.hset key field text).1.type ≠ .ERROR)
    (hreply' : (db.hset key field text').1.type ≠ .ERROR)
    (heq : (db.hset key field text).2 = (db.hset key field text').2) : text = text' := by
  have hfield {text : Bytes} (hreply : (db.hset key field text).1.type ≠ .ERROR) :
      ∃ fields, (db.hset key field text).2.lookup key = some (.hash fields) ∧
        fields field = some text := by
    obtain ⟨-, hleaves | ⟨fields, hleaves⟩⟩ := Redis.hset_cases hreply
    · refine ⟨_, (congrFun hleaves.left key).trans (Function.update_self _ _ _), ?_⟩
      exact Function.update_self _ _ _
    · refine ⟨_, (congrFun hleaves.left key).trans (Function.update_self _ _ _), ?_⟩
      exact Function.update_self _ _ _
  obtain ⟨fields, hlookup, htext⟩ := hfield hreply
  obtain ⟨fields', hlookup', htext'⟩ := hfield hreply'
  rw [← heq, hlookup, Option.some.injEq, RedisValue.hash.injEq] at hlookup'
  rw [hlookup', htext'] at htext
  exact (Option.some.inj htext).symm

theorem hset_refused {key field text : Bytes} (text' : Bytes)
    (hreply : (db.hset key field text).1.type ≠ .ERROR) :
    (db.hset key field text').1.type ≠ .ERROR := by
  rw [Redis.hset] at hreply ⊢
  cases hlookup : db.lookup key with
  | none => simp [redisReply.ofInteger]
  | some stored =>
      cases stored with
      | string s => simp [hlookup, Redis.wrongType, redisReply.error] at hreply
      | list xs => simp [hlookup, Redis.wrongType, redisReply.error] at hreply
      | hash fields => simp [redisReply.ofInteger]

theorem overloads_iff {key hkey text : Bytes}
    (hreply : (db.hset (c_str key) (c_str hkey) text).1.type ≠ .ERROR) :
    some (decide ((db.hset (c_str key) (c_str hkey) (c_str text)).1.type = ReplyType.INTEGER),
        (db.hset (c_str key) (c_str hkey) (c_str text)).2) =
      some (decide ((db.hset (c_str key) (c_str hkey) text).1.type = ReplyType.INTEGER),
        (db.hset (c_str key) (c_str hkey) text).2) ↔ (0 : UInt8) ∉ text := by
  constructor
  · intro heq
    have hstore := (Prod.mk.inj (Option.some.inj heq)).2
    exact c_str_eq_self_iff.mp (hset_injective (hset_refused _ hreply) hreply hstore)
  · intro htext
    rw [c_str_of_not_mem htext]

def Faithful (db : Redis) (op : RedisOp) (result : RedisResult) (next : Redis) : Prop :=
  ByteStore.apply db.lookup op = some (result, next.lookup) ∧ OverloadsAgree db op

section Step

variable (hclean : ByteStore.Clean db.lookup) (hacts : Acts op db result value next)

include hclean hacts

theorem not_mem_key_of_apply
    (happly : ByteStore.apply db.lookup op = some (result.cut, next.lookup))
    (hsent : op.sent.key = c_str op.key) (hnone : ∀ result, op.onValue none ≠ some (result, none)) :
    (0 : UInt8) ∉ op.key := by
  intro hkey
  have hne : op.sent.key ≠ op.key := hsent ▸ c_str_ne_self hkey
  exact hnone _ (onValue_of_mangled_key hclean hacts happly hkey hne)

omit hacts in
theorem clean_lookup (key : Bytes) : ∀ stored, db.lookup key = some stored → stored.Clean :=
  fun stored hstored => (hclean key stored hstored).2

end Step

variable {key hkey text out : Bytes} (hclean : ByteStore.Clean db.lookup)

include hclean

theorem faithful_of_key (hacts : Acts op db result value next) (hkey : op.sent.key = c_str op.key)
    (hnone : ∀ result, op.onValue none ≠ some (result, none))
    (hsent : (0 : UInt8) ∉ op.key → op.sent = op) (hagree : OverloadsAgree db op) :
    Faithful db op result.cut next ↔ (0 : UInt8) ∉ op.key := by
  constructor
  · rintro ⟨happly, -⟩
    exact not_mem_key_of_apply hclean hacts happly hkey hnone
  · intro hplain
    exact ⟨apply_of_sent_eq hclean hacts (hsent hplain), hagree⟩

theorem faithful_Get (hacts : Acts (Get key out) db result value next) :
    Faithful db (Get key out) result.cut next ↔ Unmangled db (Get key out) :=
  faithful_of_key hclean hacts rfl (by simp [RedisOp.onValue])
    (fun hkey => congrArg (Get · out) (c_str_of_not_mem hkey)) trivial

theorem faithful_LPop (hacts : Acts (LPop key out) db result value next) :
    Faithful db (LPop key out) result.cut next ↔ Unmangled db (LPop key out) :=
  faithful_of_key hclean hacts rfl (by simp [RedisOp.onValue])
    (fun hkey => congrArg (LPop · out) (c_str_of_not_mem hkey)) trivial

theorem faithful_RPop (hacts : Acts (RPop key out) db result value next) :
    Faithful db (RPop key out) result.cut next ↔ Unmangled db (RPop key out) :=
  faithful_of_key hclean hacts rfl (by simp [RedisOp.onValue])
    (fun hkey => congrArg (RPop · out) (c_str_of_not_mem hkey)) trivial

theorem faithful_of_text (hacts : Acts op db result value next) (hkey : op.sent.key = c_str op.key)
    (hnone : ∀ result, op.onValue none ≠ some (result, none))
    (hsent : (0 : UInt8) ∉ op.key → (0 : UInt8) ∉ text → op.sent = op)
    (htext : ∀ {found found' : Option RedisValue} {result result' : RedisResult},
      op.onValue found = some (result, value) → op.sent.onValue found' = some (result', value) →
        c_str text = text)
    (hagree : OverloadsAgree db op) :
    Faithful db op result.cut next ↔ (0 : UInt8) ∉ op.key ∧ (0 : UInt8) ∉ text := by
  constructor
  · rintro ⟨happly, -⟩
    have hplain := not_mem_key_of_apply hclean hacts happly hkey hnone
    have honValue := onValue_of_plain_key hacts happly (hkey.trans (c_str_of_not_mem hplain))
    exact ⟨hplain, c_str_eq_self_iff.mp (htext honValue hacts.onValue)⟩
  · rintro ⟨hplain, htext⟩
    exact ⟨apply_of_sent_eq hclean hacts (hsent hplain htext), hagree⟩

theorem faithful_Set (hacts : Acts (Set key text) db result value next) :
    Faithful db (Set key text) result.cut next ↔ Unmangled db (Set key text) := by
  refine faithful_of_text hclean hacts rfl (by simp [RedisOp.onValue]) ?_ ?_ trivial
  · intro hkey htext
    exact congrArg₂ Set (c_str_of_not_mem hkey) (c_str_of_not_mem htext)
  · intro _ _ _ _ honValue honSent
    have hvalue := (Prod.mk.inj (Option.some.inj honValue)).2
    have hsent := (Prod.mk.inj (Option.some.inj honSent)).2
    exact RedisValue.string.inj (Option.some.inj (hsent.trans hvalue.symm))

theorem faithful_LPush (hacts : Acts (LPush key text) db result value next) :
    Faithful db (LPush key text) result.cut next ↔ Unmangled db (LPush key text) := by
  refine faithful_of_text hclean hacts rfl (by simp [RedisOp.onValue]) ?_ ?_ trivial
  · intro hkey htext
    exact congrArg₂ LPush (c_str_of_not_mem hkey) (c_str_of_not_mem htext)
  · intro _ _ _ _ honValue honSent
    obtain ⟨xs, hvalue⟩ := list_of_LPush honValue
    obtain ⟨xs', hsent⟩ := list_of_LPush honSent
    have hlist := RedisValue.list.inj (Option.some.inj (hsent.symm.trans hvalue))
    exact (List.cons.inj hlist).1

theorem faithful_RPush (hacts : Acts (RPush key text) db result value next) :
    Faithful db (RPush key text) result.cut next ↔ Unmangled db (RPush key text) := by
  refine faithful_of_text hclean hacts rfl (by simp [RedisOp.onValue]) ?_ ?_ trivial
  · intro hkey htext
    exact congrArg₂ RPush (c_str_of_not_mem hkey) (c_str_of_not_mem htext)
  · intro _ _ _ _ honValue honSent
    obtain ⟨xs, hvalue⟩ := list_of_RPush honValue
    obtain ⟨xs', hsent⟩ := list_of_RPush honSent
    have hlist := RedisValue.list.inj (Option.some.inj (hsent.symm.trans hvalue))
    exact List.singleton_inj.mp (List.append_inj' hlist rfl).2

theorem faithful_HSet (hacts : Acts (HSet key hkey text) db result value next) :
    Faithful db (HSet key hkey text) result.cut next ↔ Unmangled db (HSet key hkey text) := by
  constructor
  · rintro ⟨happly, -⟩
    have hplain : (0 : UInt8) ∉ key :=
      not_mem_key_of_apply hclean hacts happly rfl (by simp [RedisOp.onValue])
    obtain ⟨fields, -, hvalue⟩ := hash_of_HSet (clean_lookup hclean key)
      (onValue_of_plain_key hacts happly (c_str_of_not_mem hplain))
    obtain ⟨fields', hfields, hvalue'⟩ := hash_of_HSet (clean_lookup hclean _) hacts.onValue
    have hhash := RedisValue.hash.inj (Option.some.inj (hvalue.symm.trans hvalue'))
    obtain ⟨hhkey, htext⟩ := eq_c_str_of_hash hfields hhash
    exact ⟨hplain, hhkey, c_str_eq_self_iff.mp htext.symm⟩
  · rintro ⟨hplain, hhkey, htext⟩
    have hsent : (HSet key hkey text).sent = HSet key hkey text := by
      rw [sent, c_str_of_not_mem hplain, c_str_of_not_mem hhkey, c_str_of_not_mem htext]
    refine ⟨apply_of_sent_eq hclean hacts hsent, ?_⟩
    rw [OverloadsAgree, RedisMgr.run_HSet, RedisMgr.run_HSetLen, List.take_length,
      c_str_of_not_mem htext]

/-- The overload with a length sends that many bytes, the other one those up to a NUL. -/
theorem faithful_HSetLen {hvaluelen : Nat}
    (hsucceeds : (HSetLen key hkey text hvaluelen).Succeeds db)
    (hacts : Acts (HSetLen key hkey text hvaluelen) db result value next) :
    Faithful db (HSetLen key hkey text hvaluelen) result.cut next ↔
      Unmangled db (HSetLen key hkey text hvaluelen) := by
  have hoverloads : OverloadsAgree db (HSetLen key hkey text hvaluelen) ↔
      (0 : UInt8) ∉ text.take hvaluelen := by
    rw [OverloadsAgree, RedisMgr.run_HSet, RedisMgr.run_HSetLen]
    exact overloads_iff hsucceeds.1
  constructor
  · rintro ⟨happly, hagree⟩
    have hplain : (0 : UInt8) ∉ key :=
      not_mem_key_of_apply hclean hacts happly rfl (by simp [RedisOp.onValue])
    obtain ⟨fields, -, hvalue⟩ := hash_of_HSetLen (clean_lookup hclean key)
      (onValue_of_plain_key hacts happly (c_str_of_not_mem hplain))
    obtain ⟨fields', hfields, hvalue'⟩ := hash_of_HSetLen (clean_lookup hclean _) hacts.onValue
    have hhash := RedisValue.hash.inj (Option.some.inj (hvalue.symm.trans hvalue'))
    exact ⟨hplain, (eq_c_str_of_hash hfields hhash).1, hoverloads.mp hagree⟩
  · rintro ⟨hplain, hhkey, htext⟩
    have hsent : (HSetLen key hkey text hvaluelen).sent = HSetLen key hkey text hvaluelen := by
      rw [sent, c_str_of_not_mem hplain, c_str_of_not_mem hhkey]
    exact ⟨apply_of_sent_eq hclean hacts hsent, hoverloads.mpr htext⟩

theorem faithful_HGet (hacts : Acts (HGet key hkey) db result value next) :
    Faithful db (HGet key hkey) result.cut next ↔ Unmangled db (HGet key hkey) :=
  iff_of_true ⟨apply_of_sent_eq hclean hacts rfl, trivial⟩ trivial

/-- A key with a NUL is not there, and neither is the part before it. -/
theorem apply_of_absent (hacts : Acts op db result value next) (hsent : op.sent.key = c_str op.key)
    (hmangled : (0 : UInt8) ∈ op.key) (habsent : db.lookup (c_str op.key) = none)
    (hvalue : value = none) (honValue : op.onValue none = some (result.cut, none)) :
    ByteStore.apply db.lookup op = some (result.cut, next.lookup) := by
  have hnone : db.lookup op.key = none := by
    cases hlookup : db.lookup op.key with
    | none => rfl
    | some stored => exact absurd hmangled (hclean _ _ hlookup).1
  refine apply_eq_some_iff.mpr ⟨none, hnone ▸ honValue, ?_⟩
  calc next.lookup = Function.update db.lookup (c_str op.key) none := by
        rw [hacts.lookup, hsent, hvalue]
    _ = db.lookup := by rw [← habsent, Function.update_eq_self]
    _ = Function.update db.lookup op.key none := by rw [← hnone, Function.update_eq_self]

theorem faithful_of_absent (hacts : Acts op db result value next)
    (hkey : op.sent.key = c_str op.key) (hsent : (0 : UInt8) ∉ op.key → op.sent = op)
    (hagree : OverloadsAgree db op)
    (hmangled : (0 : UInt8) ∈ op.key →
      ByteStore.apply db.lookup op = some (result.cut, next.lookup) → db.lookup (c_str op.key) = none)
    (habsent : db.lookup (c_str op.key) = none →
      value = none ∧ op.onValue none = some (result.cut, none)) :
    Faithful db op result.cut next ↔ (0 : UInt8) ∉ op.key ∨ db.lookup (c_str op.key) = none := by
  constructor
  · rintro ⟨happly, -⟩
    by_cases hplain : (0 : UInt8) ∈ op.key
    · exact .inr (hmangled hplain happly)
    · exact .inl hplain
  · intro hplain
    refine ⟨?_, hagree⟩
    by_cases hnul : (0 : UInt8) ∈ op.key
    · have hnone := hplain.resolve_left (not_not_intro hnul)
      obtain ⟨hvalue, honValue⟩ := habsent hnone
      exact apply_of_absent hclean hacts hkey hnul hnone hvalue honValue
    · exact apply_of_sent_eq hclean hacts (hsent hnul)

/-- A key with a NUL deletes what is under the part before it. -/
theorem faithful_Del (hacts : Acts (Del key) db result value next) :
    Faithful db (Del key) result.cut next ↔ Unmangled db (Del key) := by
  obtain ⟨hresult, hvalue⟩ := Prod.mk.inj (Option.some.inj hacts.onValue)
  refine faithful_of_absent hclean hacts rfl (fun hkey => congrArg Del (c_str_of_not_mem hkey))
    trivial ?_ ?_
  · intro hkey happly
    -- the key with the NUL keeps its value, and the part before it loses its own
    obtain ⟨value', honValue, hnext⟩ := apply_eq_some_iff.mp happly
    have hne : c_str key ≠ key := c_str_ne_self hkey
    calc db.lookup (c_str key)
        = Function.update db.lookup key value' (c_str key) := by rw [Function.update_of_ne hne]
      _ = next.lookup (c_str key) := congrFun hnext.symm (c_str key)
      _ = Function.update db.lookup (c_str key) value (c_str key) :=
          congrFun hacts.lookup (c_str key)
      _ = none := by rw [Function.update_self, hvalue]
  · intro _
    exact ⟨hvalue.symm, hresult ▸ rfl⟩

theorem faithful_ExistsKey (hacts : Acts (ExistsKey key) db result value next) :
    Faithful db (ExistsKey key) result.cut next ↔ Unmangled db (ExistsKey key) := by
  obtain ⟨hresult, hvalue⟩ := Prod.mk.inj (Option.some.inj hacts.onValue)
  refine faithful_of_absent hclean hacts rfl
    (fun hkey => congrArg ExistsKey (c_str_of_not_mem hkey)) trivial ?_ ?_
  · intro hkey happly
    have honValue := onValue_of_mangled_key hclean hacts happly hkey (c_str_ne_self hkey)
    rw [← hresult] at honValue
    simpa [RedisOp.onValue, RedisResult.cut, sent, RedisOp.key] using honValue
  · intro habsent
    refine ⟨hvalue.symm.trans habsent, ?_⟩
    rw [← hresult]
    change _ = some (RedisResult.done (db.lookup (c_str key)).isSome, none)
    rw [show db.lookup (c_str key) = none from habsent]
    rfl

/-- **One step.** A successful operation on a clean store is the operation of the byte store, and its
overloads agree, exactly if it is not mangled. -/
theorem faithful_iff (hsucceeds : op.Succeeds db) (hacts : Acts op db result value next) :
    Faithful db op result.cut next ↔ Unmangled db op := by
  cases op with
  | Get key out => exact faithful_Get hclean hacts
  | Set key text => exact faithful_Set hclean hacts
  | Auth password => exact absurd rfl hsucceeds.1
  | LPush key text => exact faithful_LPush hclean hacts
  | LPop key out => exact faithful_LPop hclean hacts
  | RPush key text => exact faithful_RPush hclean hacts
  | RPop key out => exact faithful_RPop hclean hacts
  | HSet key hkey text => exact faithful_HSet hclean hacts
  | HSetLen key hkey text hvaluelen => exact faithful_HSetLen hclean hsucceeds hacts
  | HGet key hkey => exact faithful_HGet hclean hacts
  | Del key => exact faithful_Del hclean hacts
  | ExistsKey key => exact faithful_ExistsKey hclean hacts

theorem clean_next (hplain : Unmangled db op)
    (happly : ByteStore.apply db.lookup op = some (result, next.lookup)) :
    ByteStore.Clean next.lookup := by
  obtain ⟨value', honValue, hnext⟩ := apply_eq_some_iff.mp happly
  intro key stored hstored
  by_cases hkey : key = op.key
  · rw [hkey, hnext, Function.update_self] at hstored
    refine ⟨?_, clean_onValue (clean_lookup hclean _) hplain honValue stored hstored⟩
    rw [hkey]
    cases hlookup : db.lookup op.key with
    | some found => exact (hclean _ _ hlookup).1
    | none =>
        rw [hlookup, hstored] at honValue
        exact not_mem_key_of_onValue hplain honValue
  · rw [hnext, Function.update_of_ne hkey] at hstored
    exact hclean key stored hstored

end RedisOp

/-! ### A run -/

namespace StoreRun

open RedisOp

variable {state next final : StoreRun} {op : RedisOp} {ops : List RedisOp}

def start (redis : Redis) : StoreRun := ⟨redis, []⟩

/-- After every part of the run, the byte store that is given the same operations has the same
content and has given the same results. -/
def AsStore (state : StoreRun) (ops : List RedisOp) : Prop :=
  ∀ first, first <+: ops → ∀ next, Machine.run step state first = some next →
    (ByteStore.run state.redis.lookup first).map
        (fun (results, store) => (state.results ++ results, store)) =
      some (next.results, next.redis.lookup)

theorem step_cases (hstep : step state op = some next) :
    op.Succeeds state.redis ∧ ∃ result value redis, Acts op state.redis result value redis ∧
      next = ⟨redis, state.results ++ [result.cut]⟩ := by
  rw [step, Option.ite_none_right_eq_some] at hstep
  obtain ⟨hsucceeds, hrun⟩ := hstep
  obtain ⟨result, value, redis, hacts⟩ := acts_of_succeeds hsucceeds
  rw [hacts.run, Option.map_some, Option.some.injEq] at hrun
  exact ⟨hsucceeds, result, value, redis, hacts, hrun.symm⟩

theorem asStore_nil : AsStore state [] := by
  intro first hfirst next hrun
  obtain rfl := List.prefix_nil.mp hfirst
  obtain rfl := Option.some.inj hrun
  simp [ByteStore.run]

/-- The store behind the first operation is the start of the rest. -/
theorem asStore_cons {result : RedisResult} {redis : Redis}
    (hstep : step state op = some ⟨redis, state.results ++ [result]⟩) :
    AsStore state (op :: ops) ↔
      ByteStore.apply state.redis.lookup op = some (result, redis.lookup) ∧
        AsStore ⟨redis, state.results ++ [result]⟩ ops := by
  constructor
  · intro hstore
    have happly : ByteStore.apply state.redis.lookup op = some (result, redis.lookup) := by
      have hone := hstore [op] (List.prefix_append [op] ops) _ (by rw [Machine.run_cons, hstep]; rfl)
      rw [ByteStore.run] at hone
      cases happly : ByteStore.apply state.redis.lookup op with
      | none => simp [happly] at hone
      | some applied =>
          obtain ⟨result', store⟩ := applied
          simpa [happly, ByteStore.run] using hone
    refine ⟨happly, fun first hfirst next hrun => ?_⟩
    have hmore := hstore (op :: first) (List.cons_prefix_cons.mpr ⟨rfl, hfirst⟩) next
      (by rw [Machine.run_cons, hstep]; exact hrun)
    rw [ByteStore.run, happly, Option.bind_some, Option.map_map] at hmore
    rw [← hmore]
    simp [Function.comp_def]
  · rintro ⟨happly, hrest⟩ first hfirst next hrun
    cases first with
    | nil =>
        obtain rfl := Option.some.inj hrun
        simp [ByteStore.run]
    | cons other first =>
        obtain ⟨rfl, hprefix⟩ := List.cons_prefix_cons.mp hfirst
        rw [Machine.run_cons, hstep] at hrun
        rw [← hrest first hprefix next hrun, ByteStore.run, happly, Option.bind_some, Option.map_map]
        simp [Function.comp_def]

/-- **When RedisMgr is a store.** In every run of successful operations, from a store with no NUL in
it, `RedisMgr` does after every step what the byte store does, and the two overloads of `HSet` have
one effect, exactly if no operation of the run is mangled. -/
theorem redisMgr_asStore_iff (hclean : ByteStore.Clean state.redis.lookup)
    (hrun : Machine.run step state ops = some final) :
    AsStore state ops ∧
        Machine.EachStep step state ops (fun state op => OverloadsAgree state.redis op) ↔
      Machine.EachStep step state ops (fun state op => Unmangled state.redis op) := by
  induction ops generalizing state with
  | nil => exact iff_of_true ⟨asStore_nil, Machine.eachStep_nil⟩ Machine.eachStep_nil
  | cons op ops ih =>
      rw [Machine.run_cons, Option.bind_eq_some_iff] at hrun
      obtain ⟨next, hstep, hrest⟩ := hrun
      obtain ⟨hsucceeds, result, value, redis, hacts, rfl⟩ := step_cases hstep
      have hone := faithful_iff hclean hsucceeds hacts
      rw [Machine.eachStep_cons, Machine.eachStep_cons, asStore_cons hstep, ← hone, hstep]
      simp only [Option.mem_some_iff, forall_eq']
      have hnext (hfaithful : Faithful state.redis op result.cut redis) :=
        ih (clean_next hclean (hone.mp hfaithful) hfaithful.1) hrest
      constructor
      · rintro ⟨⟨happly, hstore⟩, hagree, hrestAgree⟩
        have hfaithful : Faithful state.redis op result.cut redis := ⟨happly, hagree⟩
        exact ⟨hfaithful, (hnext hfaithful).mp ⟨hstore, hrestAgree⟩⟩
      · rintro ⟨hfaithful, hrestPlain⟩
        obtain ⟨hstore, hrestAgree⟩ := (hnext hfaithful).mpr hrestPlain
        exact ⟨⟨hfaithful.1, hstore⟩, hfaithful.2, hrestAgree⟩

theorem clean_init : ByteStore.Clean Redis.init.lookup := by
  intro key value hvalue
  cases hvalue

def plainOps : List RedisOp :=
  [.RPush [107] [], .RPush [107] [120], .LPop [107] [], .HSet [104] [102] [],
    .HSetLen [104] [103] [121, 122] 2, .HGet [104] [103], .Set [107, 107] [120],
    .Get [107, 107] [], .Del [107], .ExistsKey [107]]

theorem redisMgr_asStore_plain :
    ∃ final, Machine.run step (start Redis.init) plainOps = some final ∧
      AsStore (start Redis.init) plainOps := by
  have hsome : (Machine.run step (start Redis.init) plainOps).isSome := by decide +kernel
  obtain ⟨final, hrun⟩ := Option.isSome_iff_exists.mp hsome
  have hclean : ByteStore.Clean (start Redis.init).redis.lookup := clean_init
  refine ⟨final, hrun, ((redisMgr_asStore_iff hclean hrun).mpr ?_).1⟩
  decide +kernel

def mangledOps : List RedisOp := [.Set [107] [120], .Set [107, 0] [121], .Get [107] []]

/-- A `Set` under a key with a NUL changes what is under the part before it; and `HGet` cuts a value
that has been stored with its length. -/
theorem redisMgr_mangles :
    (∃ final, Machine.run step (start Redis.init) mangledOps = some final ∧
        final.results = [.done true, .done true, .read true [121]] ∧
        ¬ AsStore (start Redis.init) mangledOps) ∧
      ∃ final, Machine.run step (start Redis.init)
          [.HSetLen [104] [102] [121, 0, 122] 3, .HGet [104] [102]] = some final ∧
        final.results = [.done true, .text [121]] := by
  refine ⟨⟨_, rfl, rfl, fun hstore => ?_⟩, _, rfl, rfl⟩
  have hresults := congrArg (Option.map Prod.fst) (hstore _ List.prefix_rfl _ rfl)
  exact absurd hresults (by decide)

end StoreRun

end QuickChat
