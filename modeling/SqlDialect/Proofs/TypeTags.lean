import Mathlib.Algebra.Order.Field.Rat
import Mathlib.Data.List.Forall2
import Mathlib.Tactic.Positivity
import SqlDialect.Proofs.PlainStatements

/-!
What a request carries beside its text: the parameters, each of them as it was bound or as the text of a
document, and their type tags. The tag of integers tells an integer from other numbers, but not whether it
is one of 64 bits: documents hold larger ones, and so do binary numbers.
-/
set_option autoImplicit false

namespace SqlDialect

/-- Statements that put values into columns. -/
def Node.PutsColumns (n : Node) : Prop :=
  (∃ q, n = .mk (.insert q)) ∨ ∃ q, n = .mk (.update q)

namespace Request

/-- What may be sent for a value that a statement binds. -/
inductive Sends (root : Node) : Value → Value → Prop where
  | same (v : Value) : Sends root v v
  | text {j : Json} : root.PutsColumns → j.Composite → Sends root (.json j) (.string j.text)

theorem sends_encodeParam {root : Node} (puts : root.PutsColumns) (r : Registry) (table column : String)
    (v : Value) : Sends root v (encodeParam r table column v) := by
  by_cases kept : encodeParam r table column v = v
  · rw [kept]
    exact .same v
  · obtain ⟨-, composite, j, rfl, text⟩ := encodeParam_ne kept
    rw [text]
    exact .text puts (Json.isComposite_iff.mp composite)

theorem sends_refl (root : Node) (vs : List Value) : List.Forall₂ (Sends root) vs vs :=
  List.forall₂_same.mpr fun v _ => .same v

theorem sends_encodeColumns {root : Node} (puts : root.PutsColumns) (r : Registry) (table : String)
    (vs : List Value) (cs : List String) : List.Forall₂ (Sends root) vs (encodeColumns r table vs cs) := by
  fun_induction encodeColumns r table vs cs with
  | case1 v vs c cs ih => exact .cons (sends_encodeParam puts r table c v) ih
  | case2 vs cs => exact sends_refl root vs

theorem putsColumns_of_boundColumns? {c : Compiled} {bound : Table × List String}
    (h : boundColumns? c = some bound) : c.query.PutsColumns := by
  unfold boundColumns? at h
  split at h
  · rename_i q insertion
    exact .inl ⟨q, insertion⟩
  · rename_i q update
    exact .inr ⟨q, update⟩
  · contradiction

theorem sends_encodeParams (r : Registry) (c : Compiled) :
    List.Forall₂ (Sends c.query) c.params (encodeParams r c) := by
  unfold encodeParams
  split
  · exact sends_refl c.query c.params
  · split
    · rename_i t columns bound
      exact sends_encodeColumns (putsColumns_of_boundColumns? bound) r _ _ _
    · exact sends_refl c.query c.params

theorem Sends.isNull_eq {root : Node} {v w : Value} (h : Sends root v w) : w.isNull = v.isNull := by
  cases h with
  | same => rfl
  | text _ composite =>
    obtain ⟨ms, rfl⟩ | ⟨items, rfl⟩ := composite
    · rfl
    · rfl

theorem any_isNull_eq {root : Node} {vs ws : List Value} (h : List.Forall₂ (Sends root) vs ws) :
    ws.any Value.isNull = vs.any Value.isNull := by
  induction h with
  | nil => rfl
  | cons first _ ih => rw [List.any_cons, List.any_cons, first.isNull_eq, ih]

theorem Sends.ofValue_eq {root : Node} {v w : Value} (h : Sends root v w) (changed : w ≠ v) :
    ParamType.ofValue w = .string := by
  cases h with
  | same => exact absurd rfl changed
  | text => rfl

theorem isNull_iff {v : Value} : v.isNull = true ↔ v = .null ∨ v = .json .null := by
  unfold Value.isNull
  split <;> simp_all

/-- A request keeps the text and the parameters of a statement, whatever they are and wherever they come
from, but for documents that an insertion or an update sends as their texts. It has tags exactly if a
parameter is null, and then one for each parameter that is sent; a document sent as its text is tagged as
a text. -/
theorem prepare_frame (r : Registry) (c : Compiled) :
    let sent := prepare r c
    sent.sql = c.sql ∧ List.Forall₂ (Sends c.query) c.params sent.params ∧
      (sent.types.isSome = true ↔ ∃ v ∈ c.params, v = .null ∨ v = .json .null) ∧
      ∀ tags, sent.types = some tags →
        tags.length = c.params.length ∧ tags = sent.params.map ParamType.ofValue ∧
          ∀ (i : Nat) (v w : Value), c.params[i]? = some v → sent.params[i]? = some w → w ≠ v →
            tags[i]? = some .string := by
  intro sent
  have sends : List.Forall₂ (Sends c.query) c.params sent.params := sends_encodeParams r c
  -- encoding neither makes nor hides a null, so the parameters as they were bound tell if there are tags
  have types : sent.types =
      if c.params.any Value.isNull then some (sent.params.map ParamType.ofValue) else none := by
    rw [← any_isNull_eq sends]
    rfl
  refine ⟨rfl, sends, ?_, ?_⟩
  · rw [types]
    simp [isNull_iff]
  · intro tags htags
    rw [types, Option.ite_none_right_eq_some, Option.some.injEq] at htags
    obtain ⟨-, rfl⟩ := htags
    refine ⟨by rw [List.length_map, sends.length_eq], rfl, ?_⟩
    intro i v w hv hw changed
    obtain ⟨hi, rfl⟩ := List.getElem?_eq_some_iff.mp hv
    obtain ⟨hi', rfl⟩ := List.getElem?_eq_some_iff.mp hw
    have pair := (List.forall₂_iff_get.mp sends).2 i hi hi'
    rw [List.getElem?_map, hw]
    exact congrArg some (pair.ofValue_eq changed)

end Request

def FitsInt64 (n : ℤ) : Prop :=
  -2 ^ 63 ≤ n ∧ n ≤ 2 ^ 63 - 1

namespace Decimal.Binary

def signed (negative : Bool) (m : Nat) : ℤ :=
  if negative then -m else m

def toRat? : Binary → Option ℚ
  | .finite negative m q => some (signed negative m * 2 ^ q)
  | _ => none

/-- A mantissa of 53 bits, all of which are used but with the least exponent. -/
structure Normal (m : Nat) (q : Int) : Prop where
  below : m < 2 ^ 53
  full : 2 ^ 52 ≤ m ∨ q = leastExponent

/-- Less than `2 ^ 63` in magnitude, or the least integer of 64 bits. -/
def Narrow : Binary → Prop
  | .finite negative m q => q ≤ 10 ∨ negative = true ∧ m = 2 ^ 52 ∧ q = 11
  | _ => False

theorem normal_ofFloat {x : Float} {negative : Bool} {m : Nat} {q : Int}
    (h : ofFloat x = .finite negative m q) : Normal m q := by
  unfold ofFloat at h
  simp only [Nat.pow_eq, Nat.reducePow] at h
  split at h
  · cases h
    exact ⟨by omega, .inr rfl⟩
  · split at h
    · split at h <;> contradiction
    · cases h
      exact ⟨by omega, .inl (by omega)⟩

theorem dvd_signed_iff (negative : Bool) {d m : Nat} : (d : ℤ) ∣ signed negative m ↔ d ∣ m := by
  cases negative <;> simp [signed, Int.natCast_dvd_natCast]

theorem eq_intCast_iff {s n : ℤ} {q : Int} :
    (s * 2 ^ q : ℚ) = n ↔ s * 2 ^ q.toNat = n * 2 ^ (-q).toNat := by
  obtain ⟨k, rfl | rfl⟩ := q.eq_nat_or_neg
  · have none : (-(k : ℤ)).toNat = 0 := by omega
    rw [zpow_natCast, Int.toNat_natCast, none, pow_zero, mul_one]
    norm_cast
  · have none : (-(k : ℤ)).toNat = 0 := by omega
    rw [zpow_neg, zpow_natCast, ← div_eq_mul_inv, div_eq_iff (by positivity), neg_neg, Int.toNat_natCast, none,
      pow_zero, mul_one]
    norm_cast

theorem isIntegral_iff (b : Binary) : b.isIntegral = true ↔ ∃ n : ℤ, b.toRat? = some (n : ℚ) := by
  cases b with
  | finite negative m q =>
    simp only [isIntegral, toRat?, Option.some.injEq, eq_intCast_iff, Bool.or_eq_true, decide_eq_true_eq,
      beq_iff_eq, Nat.pow_eq]
    by_cases whole : 0 ≤ q
    · have none : (-q).toNat = 0 := by omega
      simp [whole, none]
    · have none : q.toNat = 0 := by omega
      have divides := dvd_signed_iff negative (d := 2 ^ (-q).toNat) (m := m)
      rw [dvd_iff_exists_eq_mul_left] at divides
      rw [none, pow_zero, mul_one, or_iff_right (by omega), ← Nat.dvd_iff_mod_eq_zero, ← divides]
      simp
  | infinite => simp [isIntegral, toRat?]
  | nan => simp [isIntegral, toRat?]

theorem fitsInt64_signed (negative : Bool) (k : Nat) :
    FitsInt64 (signed negative k) ↔ k < 2 ^ 63 ∨ negative = true ∧ k = 2 ^ 63 := by
  cases negative with
  | false =>
    simp only [FitsInt64, signed, Bool.false_eq_true, if_false, false_and, or_false]
    omega
  | true =>
    simp only [FitsInt64, signed, if_true, true_and]
    omega

theorem exists_signed {negative : Bool} {m : Nat} {q : Int} {n : ℤ}
    (h : signed negative m * 2 ^ q.toNat = n * 2 ^ (-q).toNat) :
    ∃ k : Nat, n = signed negative k ∧ m * 2 ^ q.toNat = k * 2 ^ (-q).toNat := by
  have positive : (0 : ℤ) < 2 ^ (-q).toNat := by positivity
  cases negative with
  | false =>
    rw [signed, if_neg Bool.false_ne_true] at h
    have nonneg : 0 ≤ n := by
      refine nonneg_of_mul_nonneg_left ?_ positive
      rw [← h]
      positivity
    obtain ⟨k, rfl⟩ := Int.eq_ofNat_of_zero_le nonneg
    exact ⟨k, rfl, by exact_mod_cast h⟩
  | true =>
    rw [signed, if_pos rfl, neg_mul] at h
    have nonneg : 0 ≤ -n := by
      refine nonneg_of_mul_nonneg_left ?_ positive
      rw [neg_mul, ← h, neg_neg]
      positivity
    obtain ⟨k, hk⟩ := Int.eq_ofNat_of_zero_le nonneg
    obtain rfl : n = -k := by omega
    rw [neg_mul, neg_inj] at h
    exact ⟨k, rfl, by exact_mod_cast h⟩

section

variable {m k : Nat} {q : Int}

theorem Normal.lt_of_le (normal : Normal m q) (h : m * 2 ^ q.toNat = k * 2 ^ (-q).toNat) (small : q ≤ 10) :
    k < 2 ^ 63 := by
  have below := normal.below
  by_cases whole : 0 ≤ q
  · have none : (-q).toNat = 0 := by omega
    have factor : 2 ^ q.toNat ≤ 2 ^ 10 := Nat.pow_le_pow_right (by decide) (by omega)
    rw [none, pow_zero, mul_one] at h
    calc k = m * 2 ^ q.toNat := h.symm
      _ ≤ m * 2 ^ 10 := Nat.mul_le_mul_left m factor
      _ < 2 ^ 63 := by omega
  · have none : q.toNat = 0 := by omega
    rw [none, pow_zero, mul_one] at h
    calc k ≤ k * 2 ^ (-q).toNat := Nat.le_mul_of_pos_right k (Nat.two_pow_pos _)
      _ = m := h.symm
      _ < 2 ^ 63 := by omega

theorem Normal.eq_mul (normal : Normal m q) (h : m * 2 ^ q.toNat = k * 2 ^ (-q).toNat) (large : 10 < q) :
    2 ^ 52 ≤ m ∧ k = m * 2 ^ 11 * 2 ^ (q - 11).toNat := by
  have full := normal.full
  have none : (-q).toNat = 0 := by omega
  have split : q.toNat = 11 + (q - 11).toNat := by omega
  rw [none, pow_zero, mul_one, split, pow_add, ← mul_assoc] at h
  refine ⟨?_, h.symm⟩
  rcases full with full | least
  · exact full
  · rw [least] at large
    contradiction

theorem Normal.lt_iff (normal : Normal m q) (h : m * 2 ^ q.toNat = k * 2 ^ (-q).toNat) :
    k < 2 ^ 63 ↔ q ≤ 10 := by
  constructor
  · intro less
    by_contra large
    obtain ⟨full, rfl⟩ := normal.eq_mul h (by omega)
    have factor := Nat.le_mul_of_pos_right (m * 2 ^ 11) (Nat.two_pow_pos (q - 11).toNat)
    omega
  · exact normal.lt_of_le h

theorem Normal.eq_iff (normal : Normal m q) (h : m * 2 ^ q.toNat = k * 2 ^ (-q).toNat) :
    k = 2 ^ 63 ↔ m = 2 ^ 52 ∧ q = 11 := by
  constructor
  · intro least
    have large : 10 < q := by
      by_contra small
      have less := normal.lt_of_le h (by omega)
      omega
    obtain ⟨full, product⟩ := normal.eq_mul h large
    by_cases first : q = 11
    · subst first
      rw [Int.sub_self, Int.toNat_zero, pow_zero, mul_one] at product
      exact ⟨by omega, rfl⟩
    · -- one more bit of the exponent is already too much
      have factor : 2 ^ 1 ≤ 2 ^ (q - 11).toNat := Nat.pow_le_pow_right (by decide) (by omega)
      have double := Nat.mul_le_mul_left (m * 2 ^ 11) factor
      omega
  · rintro ⟨rfl, rfl⟩
    have product := (normal.eq_mul h (by decide)).2
    rw [product]
    rfl

end

theorem fitsInt64_iff {x : Float} {n : ℤ} (h : (ofFloat x).toRat? = some (n : ℚ)) :
    FitsInt64 n ↔ (ofFloat x).Narrow := by
  cases hx : ofFloat x with
  | finite negative m q =>
    rw [hx, toRat?, Option.some.injEq, eq_intCast_iff] at h
    have normal := normal_ofFloat hx
    obtain ⟨k, rfl, scaled⟩ := exists_signed h
    rw [fitsInt64_signed, Narrow, normal.lt_iff scaled, normal.eq_iff scaled]
  | infinite => simp [hx, toRat?] at h
  | nan => simp [hx, toRat?] at h

end Decimal.Binary

open Decimal (Binary)

def Json.Number.toRat? : Json.Number → Option ℚ
  | .int n => some n
  | .float x => (Binary.ofFloat x).toRat?

namespace Value

def toRat? : Value → Option ℚ
  | .int n => some n.toInt
  | .float x => (Binary.ofFloat x).toRat?
  | .json (.number n) => n.toRat?
  | _ => none

/-- Values that are no integers beyond those of 64 bits, whatever holds them. -/
def Narrow : Value → Prop
  | .float x => (Binary.ofFloat x).Narrow
  | .json (.number (.int n)) => FitsInt64 n
  | .json (.number (.float x)) => (Binary.ofFloat x).Narrow
  | _ => True

def IsInt64 (v : Value) : Prop :=
  ∃ n : ℤ, v.toRat? = some (n : ℚ) ∧ FitsInt64 n

end Value

namespace ParamType

theorem ofFloat_eq_int64_iff (x : Float) :
    ofFloat x = .int64 ↔ ∃ n : ℤ, (Binary.ofFloat x).toRat? = some (n : ℚ) := by
  rw [← Binary.isIntegral_iff]
  unfold ofFloat Decimal.isIntegral
  split <;> simp_all

theorem ofValue_eq_int64_iff (v : Value) :
    ofValue v = .int64 ↔ ∃ n : ℤ, v.toRat? = some (n : ℚ) := by
  cases v with
  | int n => simp [ofValue, Value.toRat?]
  | float x => exact ofFloat_eq_int64_iff x
  | json j =>
    cases j with
    | number n =>
      cases n with
      | int n => simp [ofValue, ofJson, Value.toRat?, Json.Number.toRat?]
      | float x => exact ofFloat_eq_int64_iff x
    | _ => simp [ofValue, ofJson, Value.toRat?]
  | _ => simp [ofValue, Value.toRat?]

end ParamType

theorem fitsInt64_toInt (n : Int64) : FitsInt64 n.toInt := by
  have least := n.le_toInt
  have greatest := n.toInt_lt
  exact ⟨by omega, by omega⟩

namespace Value

theorem fitsInt64_iff {v : Value} {n : ℤ} (h : v.toRat? = some (n : ℚ)) : FitsInt64 n ↔ v.Narrow := by
  cases v with
  | int k =>
    obtain rfl : k.toInt = n := by simpa [toRat?] using h
    exact iff_of_true (fitsInt64_toInt k) trivial
  | float x => exact Binary.fitsInt64_iff h
  | json j =>
    cases j with
    | number k =>
      cases k with
      | int k =>
        obtain rfl : k = n := by simpa [toRat?, Json.Number.toRat?] using h
        exact Iff.rfl
      | float x => exact Binary.fitsInt64_iff h
    | _ => contradiction
  | _ => contradiction

end Value

namespace ParamType

theorem isInt64_iff {v : Value} (h : ofValue v = .int64) : v.IsInt64 ↔ v.Narrow := by
  obtain ⟨n, hn⟩ := (ofValue_eq_int64_iff v).mp h
  rw [← Value.fitsInt64_iff hn]
  constructor
  · rintro ⟨k, hk, fits⟩
    obtain rfl : k = n := by simpa [hk] using hn
    exact fits
  · intro fits
    exact ⟨n, hn, fits⟩

/-- The tag of integers says that a parameter is an integer, and no more. It is one of 64 bits exactly if it
comes as such, or is small enough: documents hold integers without sign, and binary numbers hold integers
of any magnitude. -/
theorem infer?_int64 (params : List Value) (tags : List ParamType) (h : infer? params = some tags) (i : Nat)
    (v : Value) (hv : params[i]? = some v) :
    (tags[i]? = some .int64 ↔ ∃ n : ℤ, v.toRat? = some (n : ℚ)) ∧
      (tags[i]? = some .int64 → (v.IsInt64 ↔ v.Narrow)) := by
  unfold infer? at h
  rw [Option.ite_none_right_eq_some, Option.some.injEq] at h
  obtain ⟨-, rfl⟩ := h
  have tag : (params.map ofValue)[i]? = some .int64 ↔ ofValue v = .int64 := by
    rw [List.getElem?_map, hv, Option.map_some, Option.some.injEq]
  exact ⟨tag.trans (ofValue_eq_int64_iff v), fun tagged => isInt64_iff (tag.mp tagged)⟩

def extremes : List Value :=
  [.null, .int 9223372036854775807, .float (Float.ofBits 0xC3E0000000000000),
    .json (.number (.int (-9223372036854775808)))]

theorem infer?_int64_extremes :
    infer? extremes = some [.string, .int64, .int64, .int64] ∧
      extremes[2]? = some (.float (Float.ofBits 0xC3E0000000000000)) ∧
      ∀ v ∈ extremes.tail, v.IsInt64 := by
  have tags : infer? extremes = some [.string, .int64, .int64, .int64] := rfl
  have least : Binary.ofFloat (Float.ofBits 0xC3E0000000000000) = .finite true (2 ^ 52) 11 := rfl
  have narrow : (Binary.ofFloat (Float.ofBits 0xC3E0000000000000)).Narrow :=
    least ▸ .inr ⟨rfl, rfl, rfl⟩
  refine ⟨tags, rfl, ?_⟩
  simp only [extremes, List.tail_cons, List.forall_mem_cons]
  refine ⟨?int, ?float, ?document, nofun⟩
  case int => exact ((infer?_int64 _ _ tags 1 _ rfl).2 rfl).mpr trivial
  case float => exact ((infer?_int64 _ _ tags 2 _ rfl).2 rfl).mpr narrow
  case document => exact ((infer?_int64 _ _ tags 3 _ rfl).2 rfl).mpr ⟨by decide, by decide⟩

def beyond : List Value :=
  [.null, .float (Float.ofBits 0x43E0000000000000), .json (.number (.int 18446744073709551615))]

theorem infer?_beyond_int64 :
    infer? beyond = some [.string, .int64, .int64] ∧ ∀ v ∈ beyond.tail, ¬ v.IsInt64 := by
  have large : Binary.ofFloat (Float.ofBits 0x43E0000000000000) = .finite false (2 ^ 52) 11 := rfl
  refine ⟨rfl, ?_⟩
  simp only [beyond, List.tail_cons, List.forall_mem_cons]
  refine ⟨?float, ?document, nofun⟩
  case float =>
    rw [isInt64_iff rfl, Value.Narrow, large]
    simp [Binary.Narrow]
  case document =>
    rw [isInt64_iff rfl, Value.Narrow]
    rintro ⟨-, greatest⟩
    contradiction

end ParamType

end SqlDialect
