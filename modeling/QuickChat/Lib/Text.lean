import Mathlib.Data.List.TakeWhile
import Mathlib.Data.Int.Order.Basic
import Mathlib.Order.Basic

/-!
# Byte strings

`std::string` is a list of bytes of any value. A C string is what is left of one up to its first NUL,
which is all that a `const char*` parameter sees. `to_string` and `stoi` are the two conversions of
the standard library between integers and decimal text.
-/

abbrev Bytes := List UInt8

namespace Text

def ascii (literal : String) : Bytes := literal.toList.map fun c => UInt8.ofNat c.toNat

/-- What a `const char*` to the string's bytes is read as. -/
def c_str (s : Bytes) : Bytes := s.takeWhile (· ≠ 0)

theorem c_str_of_not_mem {s : Bytes} (hs : (0 : UInt8) ∉ s) : c_str s = s := by
  rw [c_str, List.takeWhile_eq_self_iff]
  intro b hb
  exact decide_eq_true fun heq => hs (heq ▸ hb)

theorem not_mem_c_str (s : Bytes) : (0 : UInt8) ∉ c_str s := by
  intro hmem
  simpa using List.mem_takeWhile_imp hmem

theorem c_str_eq_self_iff {s : Bytes} : c_str s = s ↔ (0 : UInt8) ∉ s :=
  ⟨fun heq => heq ▸ not_mem_c_str s, c_str_of_not_mem⟩

/-! ### Decimal text -/

def digits (n : Nat) : Bytes := (Nat.toDigits 10 n).map fun c => UInt8.ofNat c.toNat

def to_string : Int → Bytes
  | .ofNat n => digits n
  | .negSucc n => 45 :: digits (n + 1)

def isdigit (b : UInt8) : Bool := 48 ≤ b && b ≤ 57

def isspace (b : UInt8) : Bool := b == 32 || (9 ≤ b && b ≤ 13)

def decimal (s : Bytes) : Nat := s.foldl (fun sofar b => 10 * sofar + (b.toNat - 48)) 0

def intMin : Int := -2147483648
def intMax : Int := 2147483647

inductive StdException where
  | invalid_argument
  | out_of_range
  deriving DecidableEq, Repr

/-- `std::stoi`: leading white space, an optional sign and the longest run of digits after it; what
follows is ignored. -/
def stoi (s : Bytes) : Except StdException Int :=
  let s := s.dropWhile isspace
  let negative := s.head? = some 45
  let s := if s.head? = some 45 ∨ s.head? = some 43 then s.tail else s
  let number := s.takeWhile isdigit
  if number = [] then throw .invalid_argument
  else
    let value : Int := if negative then -(decimal number : Int) else decimal number
    if intMin ≤ value ∧ value ≤ intMax then pure value else throw .out_of_range

theorem toNat_ofNat_of_isDigit {c : Char} (hc : c.isDigit = true) :
    48 ≤ c.toNat ∧ c.toNat ≤ 57 ∧ (UInt8.ofNat c.toNat).toNat = c.toNat := by
  have hbounds : 48 ≤ c.toNat ∧ c.toNat ≤ 57 := by
    simp only [Char.isDigit, Bool.and_eq_true, decide_eq_true_eq, ge_iff_le,
      UInt32.le_iff_toNat_le] at hc
    exact hc
  refine ⟨hbounds.1, hbounds.2, ?_⟩
  rw [UInt8.toNat_ofNat']
  omega

theorem isDigit_of_mem_toDigits {n : Nat} {c : Char} (hc : c ∈ Nat.toDigits 10 n) :
    c.isDigit = true :=
  Nat.isDigit_of_mem_toDigits (by decide) (by decide) hc

theorem isdigit_of_mem_digits {n : Nat} {b : UInt8} (hb : b ∈ digits n) : isdigit b = true := by
  obtain ⟨c, hc, rfl⟩ := List.mem_map.mp hb
  obtain ⟨hlow, hhigh, hbyte⟩ := toNat_ofNat_of_isDigit (isDigit_of_mem_toDigits hc)
  simp only [isdigit, Bool.and_eq_true, decide_eq_true_eq, UInt8.le_iff_toNat_le, hbyte]
  exact ⟨hlow, hhigh⟩

/-- What `to_string` writes is read as the number that it was. -/
theorem decimal_digits (n : Nat) : decimal (digits n) = n := by
  suffices ∀ (cs : List Char) (init : Nat), (∀ c ∈ cs, c.isDigit = true) →
      (cs.map fun c => UInt8.ofNat c.toNat).foldl (fun sofar b => 10 * sofar + (b.toNat - 48)) init
        = Nat.ofDigitChars 10 cs init by
    rw [decimal, digits, this _ _ fun c hc => isDigit_of_mem_toDigits hc,
      Nat.ofDigitChars_ten_toDigits]
  intro cs
  induction cs with
  | nil => intro init _; simp
  | cons c cs ih =>
      intro init hcs
      have hbyte := (toNat_ofNat_of_isDigit (hcs c (by simp))).2.2
      rw [List.map_cons, List.foldl_cons, hbyte, Nat.ofDigitChars_cons,
        ih _ fun d hd => hcs d (by simp [hd])]
      rfl

theorem not_minus_mem_digits (n : Nat) : (45 : UInt8) ∉ digits n := fun hmem =>
  absurd (isdigit_of_mem_digits hmem) (by decide)

theorem zero_not_mem_to_string (n : Int) : (0 : UInt8) ∉ to_string n := by
  have hdigits (k : Nat) : (0 : UInt8) ∉ digits k := fun hmem =>
    absurd (isdigit_of_mem_digits hmem) (by decide)
  cases n with
  | ofNat n => exact hdigits n
  | negSucc n => simp [to_string, hdigits]

theorem to_string_injective : Function.Injective to_string := by
  intro a b h
  cases a with
  | ofNat m =>
      cases b with
      | ofNat n => rw [← decimal_digits m, ← decimal_digits n, show digits m = digits n from h]
      | negSucc n =>
          have hminus : (45 : UInt8) ∈ digits m := by
            rw [show digits m = 45 :: digits (n + 1) from h]
            exact List.mem_cons_self
          exact absurd hminus (not_minus_mem_digits m)
  | negSucc m =>
      cases b with
      | ofNat n =>
          have hminus : (45 : UInt8) ∈ digits n := by
            rw [show digits n = 45 :: digits (m + 1) from h.symm]
            exact List.mem_cons_self
          exact absurd hminus (not_minus_mem_digits n)
      | negSucc n =>
          have hdigits : digits (m + 1) = digits (n + 1) := List.tail_eq_of_cons_eq h
          have hsucc : m + 1 = n + 1 := by
            rw [← decimal_digits (m + 1), hdigits, decimal_digits]
          rw [Nat.succ_injective hsucc]

/-! ### Reading decimal text -/

/-- A decimal integer: digits, with a sign before them or without one. -/
inductive IntText : Bytes → Int → Prop where
  | unsigned {number : Bytes} (hne : number ≠ []) (hdigits : ∀ b ∈ number, isdigit b = true) :
      IntText number (decimal number)
  | plus {number : Bytes} (hne : number ≠ []) (hdigits : ∀ b ∈ number, isdigit b = true) :
      IntText (43 :: number) (decimal number)
  | minus {number : Bytes} (hne : number ≠ []) (hdigits : ∀ b ∈ number, isdigit b = true) :
      IntText (45 :: number) (-(decimal number : Int))

theorem isspace_eq_false_of_isdigit {b : UInt8} (hb : isdigit b = true) : isspace b = false := by
  simp only [isdigit, isspace, Bool.and_eq_true, decide_eq_true_eq, UInt8.le_iff_toNat_le,
    Bool.or_eq_false_iff, beq_eq_false_iff_ne, Bool.and_eq_false_iff, decide_eq_false_iff_not]
    at hb ⊢
  refine ⟨?_, Or.inr ?_⟩
  · rintro rfl
    exact absurd hb.1 (by decide)
  · intro hle
    exact absurd (hb.1.trans hle) (by decide)

theorem IntText.not_mem {s : Bytes} {n : Int} (htext : IntText s n) {b : UInt8}
    (hb : isdigit b = false) (hplus : b ≠ 43) (hminus : b ≠ 45) : b ∉ s := by
  have hnumber {number : Bytes} (hdigits : ∀ b ∈ number, isdigit b = true) : b ∉ number := by
    intro hmem
    rw [hdigits b hmem] at hb
    exact absurd hb (by decide)
  cases htext with
  | unsigned hne hdigits => exact hnumber hdigits
  | plus hne hdigits => simp [hplus, hnumber hdigits]
  | minus hne hdigits => simp [hminus, hnumber hdigits]

theorem IntText.ne_nil {s : Bytes} {n : Int} (htext : IntText s n) : s ≠ [] := by
  cases htext with
  | unsigned hne hdigits => exact hne
  | plus hne hdigits => exact List.cons_ne_nil _ _
  | minus hne hdigits => exact List.cons_ne_nil _ _

/-- `stoi` reads a decimal integer as the number that it stands for, if that is an `int`. -/
theorem IntText.stoi_eq {s : Bytes} {n : Int} (htext : IntText s n) (hmin : intMin ≤ n)
    (hmax : n ≤ intMax) : stoi s = .ok n := by
  have htake {number : Bytes} (hdigits : ∀ b ∈ number, isdigit b = true) :
      number.takeWhile isdigit = number := List.takeWhile_eq_self_iff.mpr hdigits
  cases htext with
  | @unsigned number hne hdigits =>
      obtain ⟨b, rest, rfl⟩ := List.exists_cons_of_ne_nil hne
      have hb := hdigits b List.mem_cons_self
      have hminus : b ≠ 45 := by
        rintro rfl
        exact absurd hb (by decide)
      have hplus : b ≠ 43 := by
        rintro rfl
        exact absurd hb (by decide)
      rw [stoi, List.dropWhile_cons_of_neg (by simp [isspace_eq_false_of_isdigit hb])]
      simp [hminus, hplus, htake hdigits, hmin, hmax, pure, Except.pure]
  | plus hne hdigits =>
      rw [stoi, List.dropWhile_cons_of_neg (by decide)]
      simp [htake hdigits, hne, hmin, hmax, pure, Except.pure]
  | minus hne hdigits =>
      rw [stoi, List.dropWhile_cons_of_neg (by decide)]
      simp [htake hdigits, hne, hmin, hmax, pure, Except.pure]

end Text
