import QuickChat.Proof.Query

/-!
# The query string that `UrlEncode` writes is read back

`UrlEncode` has no caller in the server; it is what a client is to apply to both sides of a pair. Its
output has no byte that separates pairs or the sides of a pair, so the parser finds the encoded
sides, and the map it builds is the one of the pairs, a later pair replacing an earlier one.
-/

namespace QuickChat

open Text

/-! ### Bytes -/

def isurlchar (b : UInt8) : Bool :=
  isalnum b || b == 45 || b == 95 || b == 46 || b == 126 || b == 43 || b == 37

theorem hex_of_nibble : ∀ n < 16, isalnum (ToHex (UInt8.ofNat n)) = true ∧
    FromHex (ToHex (UInt8.ofNat n)) = .ok (UInt8.ofNat n) := by
  decide

theorem high_eq (b : UInt8) : b >>> 4 = UInt8.ofNat (b.toNat / 16) := by
  apply UInt8.toNat_inj.mp
  have hb := b.toNat_lt
  have hquotient : b.toNat / 16 < 2 ^ 8 := by omega
  rw [UInt8.toNat_shiftRight, UInt8.toNat_ofNat', Nat.mod_eq_of_lt hquotient,
    Nat.shiftRight_eq_div_pow]
  rfl

theorem low_eq (b : UInt8) : b &&& 0x0F = UInt8.ofNat (b.toNat % 16) := by
  apply UInt8.toNat_inj.mp
  rw [UInt8.toNat_and, UInt8.toNat_ofNat', Nat.mod_eq_of_lt (by omega)]
  exact Nat.and_two_pow_sub_one_eq_mod b.toNat 4

theorem nibbles_eq (b : UInt8) : (b >>> 4) * 16 + (b &&& 0x0F) = b := by
  apply UInt8.toNat_inj.mp
  have hb := b.toNat_lt
  rw [high_eq, low_eq, UInt8.toNat_add, UInt8.toNat_mul, UInt8.toNat_ofNat', UInt8.toNat_ofNat',
    show (16 : UInt8).toNat = 16 from rfl]
  omega

theorem fromHex_high (b : UInt8) : FromHex (ToHex (b >>> 4)) = .ok (b >>> 4) := by
  have hb := b.toNat_lt
  rw [high_eq]
  exact (hex_of_nibble _ (by omega)).2

theorem fromHex_low (b : UInt8) : FromHex (ToHex (b &&& 0x0F)) = .ok (b &&& 0x0F) := by
  rw [low_eq]
  exact (hex_of_nibble _ (by omega)).2

def urlEncodeByte (b : UInt8) : Bytes :=
  if isalnum b ∨ b = 45 ∨ b = 95 ∨ b = 46 ∨ b = 126 then [b]
  else if b = 32 then [43]
  else [37, ToHex (b >>> 4), ToHex (b &&& 0x0F)]

theorem urlEncode_cons (b : UInt8) (str : Bytes) :
    UrlEncode (b :: str) = urlEncodeByte b ++ UrlEncode str := rfl

theorem isurlchar_of_mem_byte {b c : UInt8} (hc : c ∈ urlEncodeByte b) : isurlchar c = true := by
  unfold urlEncodeByte at hc
  split at hc
  · rename_i hplain
    rw [List.mem_singleton.mp hc]
    rcases hplain with halnum | rfl | rfl | rfl | rfl
    · simp [isurlchar, halnum]
    all_goals rfl
  · split at hc
    · rw [List.mem_singleton.mp hc]
      rfl
    · have hb := b.toNat_lt
      have hhigh := (hex_of_nibble (b.toNat / 16) (by omega)).1
      have hlow := (hex_of_nibble (b.toNat % 16) (by omega)).1
      rw [← high_eq] at hhigh
      rw [← low_eq] at hlow
      simp only [List.mem_cons, List.not_mem_nil, or_false] at hc
      rcases hc with rfl | rfl | rfl
      · rfl
      · simp [isurlchar, hhigh]
      · simp [isurlchar, hlow]

theorem urlDecode_plain {b : UInt8} (hplus : b ≠ 43) (hpercent : b ≠ 37) (rest : Bytes) :
    UrlDecode (b :: rest) = (UrlDecode rest).map (b :: ·) := by
  conv_lhs => unfold UrlDecode
  rw [if_neg hplus, if_neg hpercent]

theorem urlDecode_plus (rest : Bytes) : UrlDecode (43 :: rest) = (UrlDecode rest).map (32 :: ·) := by
  conv_lhs => unfold UrlDecode
  rw [if_pos rfl]

/-- What the encoder writes for a byte, the decoder reads as that byte and no further. -/
theorem urlDecode_byte (b : UInt8) (rest : Bytes) :
    UrlDecode (urlEncodeByte b ++ rest) = (UrlDecode rest).map (b :: ·) := by
  unfold urlEncodeByte
  split
  · rename_i hplain
    have hne : b ≠ 43 ∧ b ≠ 37 := by
      constructor
      all_goals
        rintro rfl
        exact absurd hplain (by decide)
    exact urlDecode_plain hne.1 hne.2 rest
  · split
    · rename_i hspace
      rw [hspace]
      exact urlDecode_plus rest
    · rw [List.cons_append, List.cons_append, List.cons_append, List.nil_append, UrlDecode,
        if_neg (by decide), if_pos rfl]
      simp only [fromHex_high, fromHex_low, nibbles_eq, bind, Except.bind]

/-! ### Strings -/

/-- **Decoding undoes encoding**, for a string of any bytes. -/
theorem urlDecode_urlEncode (str : Bytes) : UrlDecode (UrlEncode str) = .ok str := by
  induction str with
  | nil => rfl
  | cons b str ih =>
      rw [urlEncode_cons, urlDecode_byte, ih]
      rfl

theorem not_mem_urlEncode {c : UInt8} (hc : isurlchar c = false) (str : Bytes) :
    c ∉ UrlEncode str := by
  intro hmem
  obtain ⟨b, -, hb⟩ := List.mem_flatMap.mp hmem
  rw [isurlchar_of_mem_byte hb] at hc
  exact absurd hc (by decide)

namespace HttpConnection

theorem idxOf?_append_cons {before after : Bytes} {b : UInt8} (hb : b ∉ before) :
    (before ++ b :: after).idxOf? b = some before.length := by
  rw [List.idxOf?_eq_some_iff]
  refine ⟨by simp, by simp, ?_⟩
  intro j hj heq
  rw [List.getElem_append_left hj] at heq
  exact hb (heq ▸ List.getElem_mem hj)

theorem drop_append_cons (before after : Bytes) (b : UInt8) :
    (before ++ b :: after).drop (before.length + 1) = after := by
  have hlength : before.length + 1 = (before ++ [b]).length := by simp
  rw [List.append_cons, hlength]
  exact List.drop_left

/-! ### The map -/

/-- The map of a list of pairs: a later pair replaces an earlier one with the same key. -/
def paramMap (pairs : List (Bytes × Bytes)) : Bytes → Option Bytes :=
  pairs.foldl (fun map pair => Function.update map pair.1 (some pair.2)) fun _ => none

/-- The entries of `get_params_` are those of a map: its keys are distinct. -/
structure Represents (get_params_ : List (Bytes × Bytes)) (map : Bytes → Option Bytes) : Prop where
  nodup : (get_params_.map Prod.fst).Nodup
  lookup_eq : ∀ key, get_params_.lookup key = map key

theorem lookup_cons_ite (first second other : Bytes) (rest : List (Bytes × Bytes)) :
    ((first, second) :: rest).lookup other =
      if other = first then some second else rest.lookup other := by
  by_cases hother : other = first
  · simp [hother]
  · rw [List.lookup_cons, beq_eq_false_iff_ne.mpr hother, if_neg hother]

theorem lookup_eq_none_of_any {get_params_ : List (Bytes × Bytes)} {key : Bytes}
    (hany : ¬ get_params_.any (·.1 = key)) : get_params_.lookup key = none := by
  rw [List.lookup_eq_none_iff]
  intro elem helem
  simp only [List.any_eq_true, decide_eq_true_eq, not_exists, not_and] at hany
  simpa using Ne.symm (hany elem helem)

theorem lookup_map_replace (get_params_ : List (Bytes × Bytes)) (key value other : Bytes) :
    (get_params_.map fun elem => if elem.1 = key then (key, value) else elem).lookup other
      = if other = key then (get_params_.lookup key).map fun _ => value
        else get_params_.lookup other := by
  induction get_params_ with
  | nil => simp
  | cons elem rest ih =>
      obtain ⟨first, second⟩ := elem
      rw [List.map_cons, lookup_cons_ite, lookup_cons_ite]
      by_cases hfirst : first = key
      · subst hfirst
        rw [if_pos rfl, if_pos rfl, lookup_cons_ite, ih]
        by_cases hother : other = first
        · simp [hother]
        · simp [hother]
      · rw [if_neg hfirst, if_neg (Ne.symm hfirst), lookup_cons_ite, ih]
        by_cases hother : other = key
        · simp [hother, Ne.symm hfirst]
        · simp [hother]

theorem map_fst_replace (get_params_ : List (Bytes × Bytes)) (key value : Bytes) :
    (get_params_.map fun elem => if elem.1 = key then (key, value) else elem).map Prod.fst
      = get_params_.map Prod.fst := by
  rw [List.map_map]
  apply List.map_congr_left
  intro elem _
  by_cases helem : elem.1 = key
  · simp [helem]
  · simp [helem]

/-- A key that is there keeps its place, and its value changes. -/
theorem Represents.setParam {get_params_ : List (Bytes × Bytes)} {map : Bytes → Option Bytes}
    (hparams : Represents get_params_ map) (key value : Bytes) :
    Represents (setParam get_params_ key value) (Function.update map key (some value)) := by
  unfold HttpConnection.setParam
  by_cases hany : get_params_.any (·.1 = key)
  · rw [if_pos hany]
    refine ⟨(map_fst_replace _ _ _).symm ▸ hparams.nodup, fun other => ?_⟩
    rw [lookup_map_replace, Function.update_apply, hparams.lookup_eq, hparams.lookup_eq]
    by_cases hother : other = key
    · rw [if_pos hother, if_pos hother]
      obtain ⟨elem, helem, hkey⟩ := List.any_eq_true.mp hany
      cases hlookup : get_params_.lookup key with
      | none =>
          have hne := List.lookup_eq_none_iff.mp hlookup elem helem
          rw [decide_eq_true_eq] at hkey
          simp [hkey] at hne
      | some old => rw [← hparams.lookup_eq, hlookup, Option.map_some]
    · rw [if_neg hother, if_neg hother]
  · rw [if_neg hany]
    have hnone := lookup_eq_none_of_any hany
    refine ⟨?_, fun other => ?_⟩
    · rw [List.map_append, List.map_singleton, List.nodup_append]
      refine ⟨hparams.nodup, List.nodup_singleton _, fun first hfirst second hsecond => ?_⟩
      rw [List.mem_singleton.mp hsecond]
      rintro rfl
      obtain ⟨elem, helem, rfl⟩ := List.mem_map.mp hfirst
      exact hany (List.any_eq_true.mpr ⟨elem, helem, by simp⟩)
    · rw [List.lookup_append, Function.update_apply]
      by_cases hother : other = key
      · rw [hother, hnone]
        simp
      · rw [hparams.lookup_eq]
        simp [hother]

/-! ### The target -/

def encodePair (pair : Bytes × Bytes) : Bytes := UrlEncode pair.1 ++ 61 :: UrlEncode pair.2

def queryString (pairs : List (Bytes × Bytes)) : Bytes := [38].intercalate (pairs.map encodePair)

theorem addPair_encodePair (get_params_ : List (Bytes × Bytes)) (pair : Bytes × Bytes) :
    addPair get_params_ (encodePair pair) = .ok (setParam get_params_ pair.1 pair.2) := by
  have hkey : (61 : UInt8) ∉ UrlEncode pair.1 := not_mem_urlEncode (by decide) _
  rw [addPair, encodePair, idxOf?_append_cons hkey]
  simp only [List.take_left, drop_append_cons, urlDecode_urlEncode]
  rfl

theorem not_mem_encodePair (pair : Bytes × Bytes) : (38 : UInt8) ∉ encodePair pair := by
  have hside (str : Bytes) : (38 : UInt8) ∉ UrlEncode str := not_mem_urlEncode (by decide) str
  simp [encodePair, hside]

/-- Neither `&` nor `=` comes out of the encoder, so the pairs are found again. -/
theorem parseQuery_queryString (get_params_ : List (Bytes × Bytes)) (pairs : List (Bytes × Bytes)) :
    parseQuery get_params_ (queryString pairs)
      = .ok (pairs.foldl (fun params pair => setParam params pair.1 pair.2) get_params_) := by
  induction pairs generalizing get_params_ with
  | nil =>
      rw [queryString, List.map_nil, List.intercalate_nil, parseQuery]
      rfl
  | cons pair rest ih =>
      cases rest with
      | nil =>
          have hnone : (encodePair pair).idxOf? 38 = none :=
            List.idxOf?_eq_none_iff.mpr (not_mem_encodePair pair)
          have hne : encodePair pair ≠ [] := by simp [encodePair]
          rw [queryString, List.map_singleton, List.intercalate_singleton, parseQuery]
          split
          · rename_i pos hpos
            rw [hnone] at hpos
            exact absurd hpos (by simp)
          · rw [if_neg hne, addPair_encodePair]
            rfl
      | cons next rest =>
          have hjoin : queryString (pair :: next :: rest)
              = encodePair pair ++ 38 :: queryString (next :: rest) := by
            rw [queryString, List.map_cons, List.map_cons, List.intercalate_cons_cons, queryString,
              List.map_cons, List.append_assoc, List.singleton_append]
          have hsome : (encodePair pair ++ 38 :: queryString (next :: rest)).idxOf? 38
              = some (encodePair pair).length := by
            apply idxOf?_append_cons
            exact not_mem_encodePair pair
          rw [hjoin, parseQuery]
          split
          · rename_i pos hpos
            rw [hsome, Option.some.injEq] at hpos
            subst hpos
            rw [List.take_left, addPair_encodePair, drop_append_cons]
            exact ih (setParam get_params_ pair.1 pair.2)
          · rename_i hpos
            rw [hsome] at hpos
            exact absurd hpos (by simp)

theorem represents_foldl {get_params_ : List (Bytes × Bytes)} {map : Bytes → Option Bytes}
    (hparams : Represents get_params_ map) (pairs : List (Bytes × Bytes)) :
    Represents
      (pairs.foldl (fun params pair => HttpConnection.setParam params pair.1 pair.2) get_params_)
      (pairs.foldl (fun map pair => Function.update map pair.1 (some pair.2)) map) := by
  induction pairs generalizing get_params_ map with
  | nil => exact hparams
  | cons pair rest ih => exact ih (hparams.setParam pair.1 pair.2)

/-- **Query round trip.** The parsing of a path without `?` followed by the encoded pairs gives the
path and the map of the pairs. -/
theorem preParseGetParam_queryString {path : Bytes} (hpath : (63 : UInt8) ∉ path)
    (pairs : List (Bytes × Bytes)) {request_ : HttpRequest}
    (htarget : request_.target = path ++ 63 :: queryString pairs) :
    ∃ get_params_, (HttpConnection.new request_).PreParseGetParam = .ok ⟨request_, path, get_params_⟩ ∧
      Represents get_params_ (paramMap pairs) := by
  have hempty : Represents [] fun _ => none := ⟨List.nodup_nil, fun _ => rfl⟩
  refine ⟨_, ?_, represents_foldl hempty pairs⟩
  rw [PreParseGetParam, HttpConnection.new, htarget, idxOf?_append_cons hpath]
  simp only [List.take_left, drop_append_cons, parseQuery_queryString]
  rfl

/-- A key that occurs twice, and sides with separators and without any byte. -/
theorem preParseGetParam_queryString_twice :
    ∃ get_params_,
      (HttpConnection.new ⟨.get, ascii "/get_test?a+%26=%3D&=&a+%26=2", 11, []⟩).PreParseGetParam
        = .ok ⟨⟨.get, ascii "/get_test?a+%26=%3D&=&a+%26=2", 11, []⟩, ascii "/get_test", get_params_⟩ ∧
      Represents get_params_
        (paramMap [(ascii "a &", ascii "="), ([], []), (ascii "a &", ascii "2")]) :=
  preParseGetParam_queryString (by decide)
    [(ascii "a &", ascii "="), ([], []), (ascii "a &", ascii "2")] (by decide)

end HttpConnection

end QuickChat
