import QuickChat.Proof.Escapes
import QuickChat.Proof.QueryRoundTrip

/-!
# Query parsing against one uniform split

The parser cuts the query string at each `&` in a loop and reads what is left with a copy of the same
code. The reference splits it once: segments, those of them with an `=`, the two sides of each, and
the map of the decoded pairs, a later one replacing an earlier one.
-/

namespace QuickChat

open Text

/-! ### The first place of a byte -/

def before (b : UInt8) (s : Bytes) : Bytes := s.takeWhile (· ≠ b)

def behind (b : UInt8) (s : Bytes) : Bytes := (s.dropWhile (· ≠ b)).tail

variable {s : Bytes} {b : UInt8}

theorem takeWhile_ne_append {first : Bytes} (hfirst : b ∉ first) (second : Bytes) :
    (first ++ b :: second).takeWhile (· ≠ b) = first ∧
      (first ++ b :: second).dropWhile (· ≠ b) = b :: second := by
  have hall : ∀ c ∈ first, decide (c ≠ b) = true := by
    intro c hc
    exact decide_eq_true fun heq => hfirst (heq ▸ hc)
  constructor
  · rw [List.takeWhile_append_of_pos hall, List.takeWhile_cons_of_neg (by simp), List.append_nil]
  · rw [List.dropWhile_append_of_pos hall, List.dropWhile_cons_of_neg (by simp)]

theorem split_at_first {pos : Nat} (hpos : s.idxOf? b = some pos) :
    before b s = s.take pos ∧ behind b s = s.drop (pos + 1) := by
  obtain ⟨hsplit, hnot⟩ := HttpConnection.split_of_idxOf? hpos
  obtain ⟨htake, hdrop⟩ := takeWhile_ne_append hnot (s.drop (pos + 1))
  rw [← hsplit] at htake hdrop
  exact ⟨htake, by rw [behind, hdrop, List.tail_cons]⟩

theorem split_at_none (hs : b ∉ s) : before b s = s ∧ behind b s = [] := by
  have hall : ∀ c ∈ s, decide (c ≠ b) = true := by
    intro c hc
    exact decide_eq_true fun heq => hs (heq ▸ hc)
  refine ⟨List.takeWhile_eq_self_iff.mpr hall, ?_⟩
  rw [behind, List.dropWhile_eq_nil_iff.mpr hall, List.tail_nil]

/-! ### The reference -/

/-- The byte of every piece: a space for `+`, the byte HH for `%HH`. -/
def decoded (side : Bytes) : Bytes :=
  (urlPieces side).filterMap fun piece => piece.value.map UInt8.ofNat

/-- Each percent sign is followed by two hexadecimal digits. -/
def HexEscaped (side : Bytes) : Prop :=
  ∀ first rest, side = first ++ 37 :: rest →
    ∃ high low after, rest = high :: low :: after ∧
      (hexDigitValue high).isSome ∧ (hexDigitValue low).isSome

def hexEscapedHere : Bytes → Bool
  | [] => true
  | b :: rest =>
      b ≠ 37 || match rest with
        | high :: low :: _ => (hexDigitValue high).isSome && (hexDigitValue low).isSome
        | _ => false

/-- To look at every escape is to look at every place where one could begin. -/
theorem hexEscaped_iff_tails {side : Bytes} :
    HexEscaped side ↔ ∀ tail ∈ side.tails, hexEscapedHere tail = true := by
  have hhere {rest : Bytes} : hexEscapedHere (37 :: rest) = true ↔
      ∃ high low after, rest = high :: low :: after ∧
        (hexDigitValue high).isSome ∧ (hexDigitValue low).isSome := by
    match rest with
    | [] => simp [hexEscapedHere]
    | [_] => simp [hexEscapedHere]
    | high :: low :: after => simp [hexEscapedHere]
  constructor
  · intro hside tail htail
    obtain ⟨first, heq⟩ := (List.mem_tails _ _).mp htail
    cases tail with
    | nil => rfl
    | cons b rest =>
        by_cases hb : b = 37
        · subst hb
          exact hhere.mpr (hside first rest heq.symm)
        · simp [hexEscapedHere, hb]
  · intro hall first rest heq
    exact hhere.mp (hall _ ((List.mem_tails _ _).mpr ⟨first, heq.symm⟩))

instance (side : Bytes) : Decidable (HexEscaped side) :=
  decidable_of_iff _ hexEscaped_iff_tails.symm

def targetPairs (target : Bytes) : List (Bytes × Bytes) :=
  (((behind 63 target).splitOn 38).filter (61 ∈ ·)).map fun segment =>
    (before 61 segment, behind 61 segment)

def decodedPair (pair : Bytes × Bytes) : Bytes × Bytes := (decoded pair.1, decoded pair.2)

/-! ### One side -/

theorem mem_urlPieces {str : Bytes} {high low : UInt8} (hmem : .escape high low ∈ urlPieces str) :
    ∃ first rest, str = first ++ 37 :: high :: low :: rest := by
  fun_induction urlPieces str with
  | case1 => exact absurd hmem List.not_mem_nil
  | case2 first second rest ih =>
      rcases List.mem_cons.mp hmem with heq | hrest
      · obtain ⟨rfl, rfl⟩ := UrlPiece.escape.inj heq
        exact ⟨[], rest, rfl⟩
      · obtain ⟨front, after, rfl⟩ := ih hrest
        exact ⟨37 :: first :: second :: front, after, rfl⟩
  | case3 rest _ => exact absurd hmem (by simp)
  | case4 c rest _ ih =>
      obtain ⟨front, after, rfl⟩ := ih (List.mem_of_ne_of_mem (by simp) hmem)
      exact ⟨c :: front, after, rfl⟩

theorem of_hexDigitValue_isSome {c : UInt8} (hc : (hexDigitValue c).isSome) :
    isalnum c = true ∧ beyondF c = false := by
  have hlt := c.toNat_lt
  unfold hexDigitValue at hc
  unfold isalnum beyondF
  simp only [UInt8.le_iff_toNat_le, UInt8.reduceToNat, Bool.or_eq_true, Bool.and_eq_true,
    decide_eq_true_eq, Bool.or_eq_false_iff, Bool.and_eq_false_iff, decide_eq_false_iff_not] at hc ⊢
  grind

/-- With hexadecimal digits only, the decoder gives each escape its byte. -/
theorem urlDecode_eq_decoded {side : Bytes} (hside : HexEscaped side) :
    UrlDecode side = .ok (decoded side) := by
  have hescaped : Escaped side := by
    intro first rest heq
    obtain ⟨high, low, after, hrest, hhigh, hlow⟩ := hside first rest heq
    exact ⟨high, low, after, hrest, (of_hexDigitValue_isSome hhigh).1, (of_hexDigitValue_isSome hlow).1⟩
  obtain ⟨out, hout⟩ := (urlDecode_ok_iff side).mpr hescaped
  have hpieces := hout
  rw [urlDecode_eq_decodePieces, decodePieces_eq_ok_iff] at hpieces
  have hvalues : (urlPieces side).map UrlPiece.value = out.map fun b => some b.toNat := by
    refine (map_value_eq_iff hpieces).mpr (upToF_iff.mpr fun high low hmem => ?_)
    obtain ⟨first, rest, heq⟩ := mem_urlPieces hmem
    obtain ⟨high', low', after, hrest, hhigh, hlow⟩ := hside first _ heq
    obtain ⟨rfl, htail⟩ := List.cons.inj hrest
    obtain ⟨rfl, -⟩ := List.cons.inj htail
    exact ⟨(of_hexDigitValue_isSome hhigh).2, (of_hexDigitValue_isSome hlow).2⟩
  have hbytes :=
    calc decoded side
        = ((urlPieces side).map UrlPiece.value).filterMap (Option.map UInt8.ofNat) := by
          rw [List.filterMap_map]
          rfl
      _ = out := by
          rw [hvalues, List.filterMap_map]
          simp
  rw [hout, hbytes]

/-! ### The pairs -/

namespace HttpConnection

def segmentPairs (segment : Bytes) : List (Bytes × Bytes) :=
  if 61 ∈ segment then [decodedPair (before 61 segment, behind 61 segment)] else []

def insertAll (get_params_ : List (Bytes × Bytes)) (pairs : List (Bytes × Bytes)) :
    List (Bytes × Bytes) :=
  pairs.foldl (fun params pair => setParam params pair.1 pair.2) get_params_

theorem insertAll_append (get_params_ first second : List (Bytes × Bytes)) :
    insertAll get_params_ (first ++ second) = insertAll (insertAll get_params_ first) second :=
  List.foldl_append

variable {segment query_string : Bytes}

def SidesHexEscaped (segment : Bytes) : Prop :=
  61 ∈ segment → HexEscaped (before 61 segment) ∧ HexEscaped (behind 61 segment)

theorem addPair_eq_insertAll (hsides : SidesHexEscaped segment) (get_params_ : List (Bytes × Bytes)) :
    addPair get_params_ segment = .ok (insertAll get_params_ (segmentPairs segment)) := by
  unfold addPair segmentPairs
  cases hpos : segment.idxOf? 61 with
  | none =>
      rw [if_neg (List.idxOf?_eq_none_iff.mp hpos)]
      rfl
  | some eq_pos =>
      obtain ⟨hsplit, -⟩ := split_of_idxOf? hpos
      obtain ⟨hbefore, hbehind⟩ := split_at_first hpos
      have hmem : 61 ∈ segment := hsplit ▸ List.mem_append_right _ List.mem_cons_self
      obtain ⟨hkey, hvalue⟩ := hsides hmem
      rw [hbefore] at hkey
      rw [hbehind] at hvalue
      rw [if_pos hmem, hbefore, hbehind]
      dsimp only
      rw [urlDecode_eq_decoded hkey, urlDecode_eq_decoded hvalue]
      rfl

/-- The loop over the `&` is a split at them. -/
theorem parseQuery_eq_insertAll (get_params_ : List (Bytes × Bytes))
    (hsides : ∀ segment ∈ query_string.splitOn 38, SidesHexEscaped segment) :
    parseQuery get_params_ query_string
      = .ok (insertAll get_params_ ((query_string.splitOn 38).flatMap segmentPairs)) := by
  fun_induction parseQuery get_params_ query_string with
  | case1 get_params_ query_string pos hpos ih =>
      obtain ⟨hsplit, hnot⟩ := split_of_idxOf? hpos
      have hsegments : query_string.splitOn 38 =
          query_string.take pos :: (query_string.drop (pos + 1)).splitOn 38 := by
        conv_lhs => rw [hsplit, List.splitOn_append_cons_self_of_not_mem hnot]
      rw [hsegments] at hsides ⊢
      obtain ⟨hfirst, hrest⟩ := List.forall_mem_cons.mp hsides
      rw [addPair_eq_insertAll hfirst, List.flatMap_cons, insertAll_append]
      exact ih _ hrest
  | case2 => rfl
  | case3 get_params_ query_string hpos _ =>
      rw [List.splitOn_eq_singleton (List.idxOf?_eq_none_iff.mp hpos)] at hsides ⊢
      rw [addPair_eq_insertAll (List.forall_mem_singleton.mp hsides), List.flatMap_singleton]

theorem flatMap_segmentPairs (segments : List Bytes) :
    segments.flatMap segmentPairs
      = ((segments.filter (61 ∈ ·)).map fun segment => (before 61 segment, behind 61 segment)).map
          decodedPair := by
  induction segments with
  | nil => rfl
  | cons segment rest ih =>
      rw [List.flatMap_cons, ih, segmentPairs]
      by_cases hmem : 61 ∈ segment
      · rw [if_pos hmem, List.filter_cons_of_pos (by simpa using hmem), List.map_cons, List.map_cons,
          List.singleton_append]
      · rw [if_neg hmem, List.filter_cons_of_neg (by simpa using hmem), List.nil_append]

/-- **The parser computes the reference.** Of a target whose keys and values have only hexadecimal
escapes, a new connection gets the part before the first `?` and the map of the decoded pairs. -/
theorem preParseGetParam_eq_reference (request_ : HttpRequest)
    (htarget : ∀ pair ∈ targetPairs request_.target, HexEscaped pair.1 ∧ HexEscaped pair.2) :
    ∃ get_params_,
      (HttpConnection.new request_).PreParseGetParam
        = .ok ⟨request_, before 63 request_.target, get_params_⟩ ∧
      Represents get_params_ (paramMap ((targetPairs request_.target).map decodedPair)) := by
  have hempty : Represents [] fun _ => none := ⟨List.nodup_nil, fun _ => rfl⟩
  have hsides : ∀ segment ∈ (behind 63 request_.target).splitOn 38, SidesHexEscaped segment := by
    intro segment hsegment hmem
    apply htarget (before 61 segment, behind 61 segment)
    apply List.mem_map_of_mem
    exact List.mem_filter.mpr ⟨hsegment, by simpa using hmem⟩
  refine ⟨_, ?_, represents_foldl hempty _⟩
  rw [targetPairs, ← flatMap_segmentPairs]
  have hparse := parseQuery_eq_insertAll [] hsides
  unfold PreParseGetParam HttpConnection.new
  dsimp only
  cases hpos : request_.target.idxOf? 63 with
  | none =>
      obtain ⟨hbefore, hbehind⟩ := split_at_none (List.idxOf?_eq_none_iff.mp hpos)
      rw [hbefore, hbehind]
      rfl
  | some query_pos =>
      obtain ⟨hbefore, hbehind⟩ := split_at_first hpos
      rw [hbehind] at hparse ⊢
      rw [hbefore]
      dsimp only
      rw [hparse]
      rfl

/-- Empty segments, a segment without `=`, a second `=`, a second `?` and a key that occurs twice. -/
theorem preParseGetParam_eq_reference_edges :
    ∃ get_params_,
      (HttpConnection.new ⟨.get, ascii "/get_test?&a=1&&b&a=%3D?=+&", 11, []⟩).PreParseGetParam
        = .ok ⟨⟨.get, ascii "/get_test?&a=1&&b&a=%3D?=+&", 11, []⟩, ascii "/get_test", get_params_⟩ ∧
      Represents get_params_ (paramMap [(ascii "a", ascii "1"), (ascii "a", ascii "=?= ")]) := by
  have hpath : before 63 (ascii "/get_test?&a=1&&b&a=%3D?=+&") = ascii "/get_test" := by
    decide +kernel
  have hpairs : (targetPairs (ascii "/get_test?&a=1&&b&a=%3D?=+&")).map decodedPair
      = [(ascii "a", ascii "1"), (ascii "a", ascii "=?= ")] := by
    decide +kernel
  have htarget : ∀ pair ∈ targetPairs (ascii "/get_test?&a=1&&b&a=%3D?=+&"),
      HexEscaped pair.1 ∧ HexEscaped pair.2 := by
    decide +kernel
  have hmain := preParseGetParam_eq_reference
    ⟨.get, ascii "/get_test?&a=1&&b&a=%3D?=+&", 11, []⟩ htarget
  rw [hpath, hpairs] at hmain
  exact hmain

end HttpConnection

end QuickChat
