import QuickChat.Proof.Query

/-!
# The escapes that `UrlDecode` takes

The decoder takes a string apart from the left, so that the two bytes behind a percent sign are never
looked at again. `urlPieces` is that division; what the decoder writes for a piece is a byte, and it
is the byte that the escape spells exactly if both its digits are hexadecimal ones.
-/

namespace QuickChat

open Text

/-- What the decoder takes in one turn of its loop. -/
inductive UrlPiece where
  | plain (b : UInt8)
  | escape (high low : UInt8)
  /-- a percent sign with fewer than two bytes behind it -/
  | cut
  deriving DecidableEq, Repr

def urlPieces : Bytes → List UrlPiece
  | [] => []
  | b :: rest =>
      if b = 37 then
        match rest with
        | high :: low :: rest => .escape high low :: urlPieces rest
        | _ => [.cut]
      else .plain b :: urlPieces rest

/-- What the decoder makes of a piece. -/
def UrlPiece.decode : UrlPiece → Except AssertionFailure UInt8
  | plain b => .ok (if b = 43 then 32 else b)
  | escape high low => do
      let high ← FromHex high
      let low ← FromHex low
      return high * 16 + low
  | cut => .error .failed

def decodePieces : List UrlPiece → Except AssertionFailure Bytes
  | [] => .ok []
  | piece :: rest => do
      let b ← piece.decode
      (decodePieces rest).map (b :: ·)

theorem urlPieces_plain {b : UInt8} (hb : b ≠ 37) (rest : Bytes) :
    urlPieces (b :: rest) = .plain b :: urlPieces rest := by
  conv_lhs => unfold urlPieces
  rw [if_neg hb]

theorem urlPieces_escape (high low : UInt8) (rest : Bytes) :
    urlPieces (37 :: high :: low :: rest) = .escape high low :: urlPieces rest := by
  conv_lhs => unfold urlPieces
  rw [if_pos rfl]

theorem urlPieces_cut {rest : Bytes} (hrest : ∀ high low after, rest ≠ high :: low :: after) :
    urlPieces (37 :: rest) = [.cut] := by
  unfold urlPieces
  rw [if_pos rfl]
  split
  · rename_i high low after
    exact absurd rfl (hrest high low after)
  · rfl

/-- The loop of the decoder takes one piece in each turn. -/
theorem urlDecode_eq_decodePieces (str : Bytes) : UrlDecode str = decodePieces (urlPieces str) := by
  fun_induction UrlDecode str with
  | case1 => rfl
  | case2 rest ih =>
      rw [urlPieces_plain (by decide), decodePieces, ih]
      rfl
  | case3 high low rest _ ih =>
      rw [urlPieces_escape, decodePieces, UrlPiece.decode, ih]
      cases FromHex high with
      | error e => rfl
      | ok high =>
          cases FromHex low with
          | error e => rfl
          | ok low => rfl
  | case4 rest hshort =>
      rw [urlPieces_cut hshort]
      rfl
  | case5 b rest hplus hpercent ih =>
      rw [urlPieces_plain hpercent, decodePieces, UrlPiece.decode, if_neg hplus, ih]
      rfl

/-! ### Hexadecimal digits -/

def hexDigitValue (b : UInt8) : Option Nat :=
  if 48 ≤ b ∧ b ≤ 57 then some (b.toNat - 48)
  else if 65 ≤ b ∧ b ≤ 70 then some (b.toNat - 55)
  else if 97 ≤ b ∧ b ≤ 102 then some (b.toNat - 87)
  else none

def beyondF (b : UInt8) : Bool := (71 ≤ b && b ≤ 90) || (103 ≤ b && b ≤ 122)

/-- `FromHex` gives a hexadecimal digit its value, and further values to the letters behind F. -/
theorem hexDigitValue_of_fromHex {b y : UInt8} (hb : FromHex b = .ok y) :
    hexDigitValue b = (if beyondF b then none else some y.toNat) ∧
      (beyondF b = false → y.toNat < 16) := by
  have hlt := b.toNat_lt
  unfold FromHex at hb
  unfold hexDigitValue beyondF
  simp only [UInt8.le_iff_toNat_le, UInt8.reduceToNat, Bool.or_eq_true, Bool.and_eq_true,
    decide_eq_true_eq, Bool.or_eq_false_iff, Bool.and_eq_false_iff, decide_eq_false_iff_not] at hb ⊢
  split at hb
  · have hy := congrArg UInt8.toNat (Except.ok.inj hb)
    rw [UInt8.toNat_add, UInt8.toNat_sub] at hy
    simp only [UInt8.reduceToNat] at hy
    grind
  · split at hb
    · have hy := congrArg UInt8.toNat (Except.ok.inj hb)
      rw [UInt8.toNat_add, UInt8.toNat_sub] at hy
      simp only [UInt8.reduceToNat] at hy
      grind
    · split at hb
      · have hy := congrArg UInt8.toNat (Except.ok.inj hb)
        rw [UInt8.toNat_sub] at hy
        simp only [UInt8.reduceToNat] at hy
        grind
      · exact absurd hb (by simp)

/-! ### What the decoder returns -/

/-- The value that a piece spells: of an escape, sixteen times its first digit plus its second. -/
def UrlPiece.value : UrlPiece → Option Nat
  | plain b => some (if b = 43 then 32 else b.toNat)
  | escape high low => do
      let high ← hexDigitValue high
      let low ← hexDigitValue low
      return 16 * high + low
  | cut => none

def UrlPiece.isEscape : UrlPiece → Bool
  | escape _ _ => true
  | _ => false

def UrlPiece.UpToF : UrlPiece → Prop
  | escape high low => beyondF high = false ∧ beyondF low = false
  | _ => True

/-- The output is one byte for each piece, of exactly the value that the piece spells. -/
structure DecodesExactly (str out : Bytes) : Prop where
  digits : ∀ high low, .escape high low ∈ urlPieces str →
    (hexDigitValue high).isSome ∧ (hexDigitValue low).isSome
  bytes : (urlPieces str).map UrlPiece.value = out.map fun b => some b.toNat
  length : out.length + 2 * (urlPieces str).countP UrlPiece.isEscape = str.length

/-- The output has one byte for each piece, and none of them is in doubt. -/
theorem decodePieces_eq_ok_iff {pieces : List UrlPiece} {out : Bytes} :
    decodePieces pieces = .ok out ↔
      List.Forall₂ (fun piece b => piece.decode = .ok b) pieces out := by
  induction pieces generalizing out with
  | nil =>
      rw [decodePieces, List.forall₂_nil_left_iff, Except.ok.injEq]
      exact eq_comm
  | cons piece rest ih =>
      rw [decodePieces, List.forall₂_cons_left_iff]
      cases hpiece : piece.decode with
      | error e => simp [bind, Except.bind]
      | ok b =>
          cases hrest : decodePieces rest with
          | error e =>
              have hnone (tail : Bytes) :
                  ¬ List.Forall₂ (fun piece b => piece.decode = .ok b) rest tail := by
                intro htail
                rw [ih.mpr htail] at hrest
                exact absurd hrest (by simp)
              simp [bind, Except.bind, Except.map, hnone]
          | ok tail =>
              constructor
              · intro hout
                exact ⟨b, tail, rfl, ih.mp hrest, (Except.ok.inj hout).symm⟩
              · rintro ⟨b', tail', hb, htail, rfl⟩
                rw [ih.mpr htail] at hrest
                rw [Except.ok.inj hb, ← Except.ok.inj hrest]
                rfl

/-- What is written for a piece is what it spells exactly if no digit lies behind F. -/
theorem UrlPiece.value_eq_iff {piece : UrlPiece} {b : UInt8} (hdecode : piece.decode = .ok b) :
    piece.value = some b.toNat ↔ piece.UpToF := by
  cases piece with
  | plain c =>
      rw [← Except.ok.inj hdecode]
      by_cases hplus : c = 43
      · simp [value, UpToF, hplus]
      · simp [value, UpToF, hplus]
  | escape high low =>
      unfold decode at hdecode
      cases hhigh : FromHex high with
      | error e => simp [hhigh, bind, Except.bind] at hdecode
      | ok y =>
          cases hlow : FromHex low with
          | error e => simp [hhigh, hlow, bind, Except.bind] at hdecode
          | ok z =>
              obtain ⟨hyvalue, hy⟩ := hexDigitValue_of_fromHex hhigh
              obtain ⟨hzvalue, hz⟩ := hexDigitValue_of_fromHex hlow
              have hb : b = y * 16 + z := by
                simpa [hhigh, hlow, bind, Except.bind, pure, Except.pure, eq_comm] using hdecode
              by_cases hupper : beyondF high = false
              · by_cases hlower : beyondF low = false
                · have hy := hy hupper
                  have hz := hz hlower
                  have hexact : b.toNat = 16 * y.toNat + z.toNat := by
                    rw [hb, UInt8.toNat_add, UInt8.toNat_mul, show (16 : UInt8).toNat = 16 from rfl]
                    omega
                  simp [value, UpToF, hyvalue, hzvalue, hupper, hlower, hexact]
                · simp [value, UpToF, hzvalue, hlower]
              · simp [value, UpToF, hyvalue, hupper]
  | cut => exact absurd hdecode (by simp [decode])

theorem length_of_cut_not_mem {str : Bytes} (hcut : .cut ∉ urlPieces str) :
    (urlPieces str).length + 2 * (urlPieces str).countP UrlPiece.isEscape = str.length := by
  fun_induction urlPieces str with
  | case1 => rfl
  | case2 high low rest ih =>
      have hlength := ih fun hmem => hcut (List.mem_cons_of_mem _ hmem)
      rw [List.countP_cons_of_pos rfl, List.length_cons, List.length_cons, List.length_cons,
        List.length_cons]
      omega
  | case3 rest hshort => exact absurd List.mem_cons_self hcut
  | case4 b rest hb ih =>
      have hlength := ih fun hmem => hcut (List.mem_cons_of_mem _ hmem)
      rw [List.countP_cons_of_neg (by simp [UrlPiece.isEscape]), List.length_cons, List.length_cons]
      omega

theorem map_value_eq_iff {pieces : List UrlPiece} {out : Bytes}
    (hdecode : List.Forall₂ (fun piece b => piece.decode = .ok b) pieces out) :
    (pieces.map UrlPiece.value = out.map fun b => some b.toNat) ↔
      ∀ piece ∈ pieces, piece.UpToF := by
  induction hdecode with
  | nil => simp
  | cons hpiece hrest ih =>
      rw [List.map_cons, List.map_cons, List.cons_eq_cons, UrlPiece.value_eq_iff hpiece, ih,
        List.forall_mem_cons]

theorem upToF_iff {pieces : List UrlPiece} :
    (∀ piece ∈ pieces, piece.UpToF) ↔
      ∀ high low, .escape high low ∈ pieces → beyondF high = false ∧ beyondF low = false := by
  constructor
  · intro hall high low hmem
    exact hall _ hmem
  · intro hall piece hmem
    cases piece with
    | plain b => trivial
    | escape high low => exact hall high low hmem
    | cut => trivial

theorem isSome_of_value {high low : UInt8} {n : Nat} (hvalue : (UrlPiece.escape high low).value = some n) :
    (hexDigitValue high).isSome ∧ (hexDigitValue low).isSome := by
  obtain ⟨first, hfirst, hrest⟩ := Option.bind_eq_some_iff.mp hvalue
  obtain ⟨second, hsecond, -⟩ := Option.bind_eq_some_iff.mp hrest
  exact ⟨Option.isSome_of_eq_some hfirst, Option.isSome_of_eq_some hsecond⟩

/-- **Which escapes are read as written.** Of a string that is decoded, the output spells the escapes,
digit by digit, exactly if no letter behind F stands in one of the two places of an escape. -/
theorem urlDecode_exactly_iff {str out : Bytes} (hdecode : UrlDecode str = .ok out) :
    DecodesExactly str out ↔
      ∀ high low, .escape high low ∈ urlPieces str → beyondF high = false ∧ beyondF low = false := by
  rw [urlDecode_eq_decodePieces, decodePieces_eq_ok_iff] at hdecode
  rw [← upToF_iff, ← map_value_eq_iff hdecode]
  constructor
  · intro hexactly
    exact hexactly.bytes
  · intro hbytes
    have hvalue {piece : UrlPiece} (hmem : piece ∈ urlPieces str) : ∃ n, piece.value = some n := by
      have hsome := List.mem_map_of_mem (f := UrlPiece.value) hmem
      rw [hbytes] at hsome
      obtain ⟨b, -, hb⟩ := List.mem_map.mp hsome
      exact ⟨b.toNat, hb.symm⟩
    refine ⟨fun high low hmem => ?_, hbytes, ?_⟩
    · obtain ⟨n, hn⟩ := hvalue hmem
      exact isSome_of_value hn
    · rw [← hdecode.length_eq]
      apply length_of_cut_not_mem
      intro hcut
      obtain ⟨n, hn⟩ := hvalue hcut
      exact absurd hn (by simp [UrlPiece.value])

theorem urlDecode_exactly_equals : DecodesExactly (ascii "a%3d+") (ascii "a= ") := by
  refine (urlDecode_exactly_iff (by decide +kernel)).mpr ?_
  have hpieces : urlPieces (ascii "a%3d+") = [.plain 97, .escape 51 100, .plain 43] := by
    decide +kernel
  rw [hpieces]
  simp [beyondF]

/-- `%G1` is read as the byte of `%01`: the value 16 of G is taken for a digit, and 257 wraps. -/
theorem urlDecode_beyondF :
    UrlDecode (ascii "%G1") = .ok [1] ∧ UrlDecode (ascii "%01") = .ok [1] ∧
      ¬ ∀ str out, UrlDecode str = .ok out → DecodesExactly str out := by
  refine ⟨by decide +kernel, by decide +kernel, fun hall => ?_⟩
  have hdigits := (hall (ascii "%G1") [1] (by decide +kernel)).digits 71 49 (by decide +kernel)
  exact absurd hdigits (by decide)

end QuickChat
