import QuickChat.Gate.HttpConnection

/-!
# Which query strings are decoded

An escape is decoded when letters or digits follow the percent sign. A pair is decoded when all its
escapes are, since the `=` between its sides is neither; a segment without `=` is not looked at.
-/

namespace QuickChat

/-- Every percent sign is followed by two letters or digits. -/
def Escaped (str : Bytes) : Prop :=
  ∀ before rest, str = before ++ 37 :: rest →
    ∃ high low after, rest = high :: low :: after ∧ isalnum high = true ∧ isalnum low = true

theorem fromHex_ok_iff {x : UInt8} : (∃ y, FromHex x = .ok y) ↔ isalnum x = true := by
  unfold FromHex isalnum
  split
  · rename_i hupper
    simp [hupper.1, hupper.2]
  · split
    · rename_i hlower
      simp [hlower.1, hlower.2]
    · split
      · rename_i hdigit
        simp [hdigit.1, hdigit.2]
      · rename_i hupper hlower hdigit
        simp only [reduceCtorEq, exists_false, Bool.or_eq_true, Bool.and_eq_true, decide_eq_true_eq,
          false_iff]
        tauto

theorem escaped_nil : Escaped [] := by
  intro before rest heq
  exact absurd heq.symm (by simp)

theorem escaped_cons_of_ne {b : UInt8} (hb : b ≠ 37) {rest : Bytes} :
    Escaped (b :: rest) ↔ Escaped rest := by
  constructor
  · intro hall before after heq
    exact hall (b :: before) after (by rw [heq, List.cons_append])
  · intro hall before after heq
    rcases List.cons_eq_append_iff.mp heq with ⟨rfl, hcons⟩ | ⟨before, rfl, hrest⟩
    · exact absurd (List.cons.inj hcons).1.symm hb
    · exact hall before after hrest

theorem escaped_escape {high low : UInt8} {rest : Bytes} :
    Escaped (37 :: high :: low :: rest) ↔
      isalnum high = true ∧ isalnum low = true ∧ Escaped rest := by
  have hpercent {b : UInt8} (hb : isalnum b = true) : b ≠ 37 := by
    rintro rfl
    exact absurd hb (by decide)
  constructor
  · intro hall
    obtain ⟨high', low', after, heq, hhigh, hlow⟩ := hall [] _ rfl
    obtain ⟨rfl, htail⟩ := List.cons.inj heq
    obtain ⟨rfl, -⟩ := List.cons.inj htail
    refine ⟨hhigh, hlow, fun before after hrest => ?_⟩
    exact hall (37 :: high :: low :: before) after (by rw [hrest]; rfl)
  · rintro ⟨hhigh, hlow, hall⟩ before after heq
    rcases List.cons_eq_append_iff.mp heq with ⟨rfl, hcons⟩ | ⟨before, rfl, hrest⟩
    · obtain ⟨-, rfl⟩ := List.cons.inj hcons
      exact ⟨high, low, rest, rfl, hhigh, hlow⟩
    · refine (escaped_cons_of_ne (hpercent hhigh)).mpr ((escaped_cons_of_ne (hpercent hlow)).mpr hall)
        before after hrest

theorem not_escaped_short {rest : Bytes} (hrest : ∀ high low after, rest ≠ high :: low :: after) :
    ¬ Escaped (37 :: rest) := by
  intro hall
  obtain ⟨high, low, after, heq, -⟩ := hall [] rest rfl
  exact hrest high low after heq

theorem map_ok_iff {ε α β : Type} {f : α → β} {result : Except ε α} :
    (∃ value, result.map f = .ok value) ↔ ∃ value, result = .ok value := by
  cases result with
  | error e => simp [Except.map]
  | ok value => simp [Except.map]

/-- A string is decoded exactly if each of its percent signs begins an escape. -/
theorem urlDecode_ok_iff (str : Bytes) : (∃ text, UrlDecode str = .ok text) ↔ Escaped str := by
  fun_induction UrlDecode str with
  | case1 => simp [escaped_nil]
  | case2 rest ih => rw [map_ok_iff, ih, escaped_cons_of_ne (by decide)]
  | case3 high low rest _ ih =>
      rw [escaped_escape, ← ih, ← fromHex_ok_iff, ← fromHex_ok_iff]
      cases hhigh : FromHex high with
      | error e => simp [bind, Except.bind]
      | ok high =>
          cases hlow : FromHex low with
          | error e => simp [bind, Except.bind]
          | ok low => simpa [bind, Except.bind] using map_ok_iff
  | case4 rest hshort => simpa using not_escaped_short hshort
  | case5 b rest _ hpercent ih => rw [map_ok_iff, ih, escaped_cons_of_ne hpercent]

/-- An `=` is no part of an escape, so the two sides can be looked at apart. -/
theorem escaped_append_eq {key value : Bytes} :
    Escaped (key ++ 61 :: value) ↔ Escaped key ∧ Escaped value := by
  constructor
  · intro hall
    refine ⟨fun before rest heq => ?_, fun before rest heq => ?_⟩
    · obtain ⟨high, low, after, htail, hhigh, hlow⟩ :=
        hall before (rest ++ 61 :: value) (by rw [heq, List.append_assoc, List.cons_append])
      have hne {b : UInt8} (hb : isalnum b = true) : b ≠ 61 := by
        rintro rfl
        exact absurd hb (by decide)
      match rest, htail with
      | [], htail => exact absurd (List.cons.inj htail).1.symm (hne hhigh)
      | [_], htail => exact absurd (List.cons.inj (List.cons.inj htail).2).1.symm (hne hlow)
      | first :: second :: rest, htail =>
          obtain ⟨rfl, hsecond⟩ := List.cons.inj htail
          obtain ⟨rfl, -⟩ := List.cons.inj hsecond
          exact ⟨first, second, rest, rfl, hhigh, hlow⟩
    · exact hall (key ++ 61 :: before) rest (by rw [heq, List.append_assoc, List.cons_append])
  · rintro ⟨hkey, hvalue⟩ before rest heq
    rcases List.append_eq_append_iff.mp heq with ⟨middle, rfl, hmiddle⟩ | ⟨middle, rfl, hmiddle⟩
    · rcases List.cons_eq_append_iff.mp hmiddle with ⟨rfl, hcons⟩ | ⟨middle, rfl, hrest⟩
      · exact absurd (List.cons.inj hcons).1 (by decide)
      · exact hvalue middle rest hrest
    · rcases List.cons_eq_append_iff.mp hmiddle with ⟨rfl, hcons⟩ | ⟨middle, rfl, hrest⟩
      · exact absurd (List.cons.inj hcons).1 (by decide)
      · obtain ⟨high, low, after, rfl, hhigh, hlow⟩ := hkey before middle rfl
        exact ⟨high, low, after ++ 61 :: value, hrest, hhigh, hlow⟩

/-! ### Pairs -/

namespace HttpConnection

variable {pair query_string : Bytes}

theorem split_of_idxOf? {s : Bytes} {b : UInt8} {pos : Nat} (hpos : s.idxOf? b = some pos) :
    s = s.take pos ++ b :: s.drop (pos + 1) ∧ b ∉ s.take pos := by
  obtain ⟨hlt, hget, hbefore⟩ := List.idxOf?_eq_some_iff.mp hpos
  constructor
  · rw [← hget, List.cons_getElem_drop_succ, List.take_append_drop]
  · intro hmem
    obtain ⟨j, hj, hjget⟩ := List.mem_iff_getElem.mp hmem
    rw [List.length_take] at hj
    rw [List.getElem_take] at hjget
    exact hbefore j (by omega) hjget

/-- A segment without an `=` is not decoded at all. -/
theorem addPair_ok_iff (get_params_ : List (Bytes × Bytes)) :
    (∃ params, addPair get_params_ pair = .ok params) ↔ (61 ∈ pair → Escaped pair) := by
  unfold addPair
  cases hpos : pair.idxOf? 61 with
  | none =>
      have hnot := List.idxOf?_eq_none_iff.mp hpos
      simp [hnot]
  | some eq_pos =>
      obtain ⟨hsplit, -⟩ := split_of_idxOf? hpos
      have hmem : 61 ∈ pair := hsplit ▸ List.mem_append_right _ List.mem_cons_self
      rw [imp_iff_right hmem]
      conv_rhs => rw [hsplit, escaped_append_eq, ← urlDecode_ok_iff, ← urlDecode_ok_iff]
      cases hkey : UrlDecode (pair.take eq_pos) with
      | error e => simp [bind, Except.bind, hkey]
      | ok key =>
          cases hvalue : UrlDecode (pair.drop (eq_pos + 1)) with
          | error e => simp [bind, Except.bind, hkey, hvalue]
          | ok value => simp [bind, Except.bind, hkey, hvalue, pure, Except.pure]

/-- The loop decodes each segment, and one that it cannot decode is the end of it. -/
theorem parseQuery_ok_iff (get_params_ : List (Bytes × Bytes)) :
    (∃ params, parseQuery get_params_ query_string = .ok params) ↔
      ∀ segment ∈ query_string.splitOn 38, 61 ∈ segment → Escaped segment := by
  fun_induction parseQuery get_params_ query_string with
  | case1 get_params_ query_string pos hpos ih =>
      obtain ⟨hsplit, hnot⟩ := split_of_idxOf? hpos
      have hsegments : query_string.splitOn 38 =
          query_string.take pos :: (query_string.drop (pos + 1)).splitOn 38 := by
        conv_lhs => rw [hsplit, List.splitOn_append_cons_self_of_not_mem hnot]
      rw [hsegments, List.forall_mem_cons, ← addPair_ok_iff get_params_]
      cases hpair : addPair get_params_ (query_string.take pos) with
      | error e => simp [bind, Except.bind]
      | ok params => simpa [bind, Except.bind] using ih params
  | case2 => simp
  | case3 get_params_ query_string hpos hne =>
      rw [addPair_ok_iff, List.splitOn_eq_singleton (List.idxOf?_eq_none_iff.mp hpos),
        List.forall_mem_singleton]

def querySegments (target : Bytes) : List Bytes :=
  match target.idxOf? 63 with
  | none => []
  | some query_pos => (target.drop (query_pos + 1)).splitOn 38

/-- **Which targets are parsed.** The parsing of a target comes to its end exactly if in every segment
of the query string that has an `=` each percent sign is followed by two letters or digits. -/
theorem preParseGetParam_ok_iff (con : HttpConnection) :
    (∃ parsed, con.PreParseGetParam = .ok parsed) ↔
      ∀ segment ∈ querySegments con.request_.target, 61 ∈ segment → Escaped segment := by
  unfold PreParseGetParam querySegments
  cases hpos : con.request_.target.idxOf? 63 with
  | none => simp [hpos]
  | some query_pos =>
      simp only [hpos]
      rw [← parseQuery_ok_iff con.get_params_]
      cases hquery : parseQuery con.get_params_ (con.request_.target.drop (query_pos + 1)) with
      | error e => simp [bind, Except.bind]
      | ok params => simp [bind, Except.bind, pure, Except.pure]

end HttpConnection

end QuickChat
