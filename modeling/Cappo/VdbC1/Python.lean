import Cappo.VdbC1.Json

/-!
# Python's operations on JSON values

The operations the code applies to parsed JSON, with Python's meaning: `==` (`Json.pyEq`),
dictionary access (`Json.field?`, `Json.get?`), `+ 1`, iteration and float arithmetic. An
operation that raises returns `none`.

Python's `==` identifies more than RFC 8785 does: `True == 1`, an integral float equals the
integer, and a value with a NaN in it equals nothing.

## Main results

* `Json.pyEq_str_iff`: only a string equals a string;
* `Json.pyEq_congr`: `==` does not see what the canonical form forgets;
* `Json.pyEq_self`: every value with an RFC 8785 encoding equals itself.
-/

namespace VdbC1

open FieldMap

namespace Json

/-! ## Truth and type -/

/-- `bool(x)`. -/
def truthy : Json → Bool
  | .null => false
  | .bool b => b
  | .int n => n ≠ 0
  | .float (.finite q) => q ≠ 0
  | .float _ => true
  | .str s => s ≠ []
  | .arr xs => !xs.isEmpty
  | .obj fields => !fields.isEmpty

variable {s : PyStr}

lemma truthy_str : truthy (.str s) = true ↔ s ≠ [] := by
  simp [truthy]

/-- `type(x).__name__`. -/
def typeName : Json → PyStr
  | .null => "NoneType"
  | .bool _ => "bool"
  | .int _ => "int"
  | .float _ => "float"
  | .str _ => "str"
  | .arr _ => "list"
  | .obj _ => "dict"

/-! ## Equality -/

/-- The scalar as Python's `==` sees it: booleans are the integers `0` and `1`, and a float
with an integral value equals that integer. -/
def pyScalar : Json → Json
  | .bool b => .int (if b then 1 else 0)
  | .float (.finite q) => if q.den = 1 then .int q.num else .float (.finite q)
  | j => j

/-- What Python's `==` sees of a value without NaN. -/
def pyNorm (j : Json) : Json := normWith pyScalar j

/-- No NaN occurs in the value. -/
def nanFree (j : Json) : Bool :=
  (pyNorm j).all (fun x => decide (x ≠ .float .nan)) fun _ => true

/-- Python's `a == b`. A NaN anywhere makes the comparison false. -/
def pyEq (a b : Json) : Bool := decide (pyNorm a = pyNorm b) && nanFree a

lemma pyEq_iff : pyEq a b = true ↔ pyNorm a = pyNorm b ∧ nanFree a = true := by
  show (decide (pyNorm a = pyNorm b) && nanFree a) = true ↔ _
  rw [Bool.and_eq_true, decide_eq_true_iff]

lemma pyEq_symm (h : pyEq a b = true) : pyEq b a = true := by
  obtain ⟨hnorm, hnan⟩ := pyEq_iff.mp h
  refine pyEq_iff.mpr ⟨hnorm.symm, ?_⟩
  show (pyNorm b).all _ _ = true
  rw [← hnorm]
  exact hnan

lemma pyEq_trans (hab : pyEq a b = true) (hbc : pyEq b c = true) : pyEq a c = true := by
  obtain ⟨hnorm, hnan⟩ := pyEq_iff.mp hab
  exact pyEq_iff.mpr ⟨hnorm.trans (pyEq_iff.mp hbc).1, hnan⟩

variable {j : Json}

/-- Only a string is a string to `==`. -/
lemma pyNorm_eq_str : pyNorm j = .str s ↔ j = .str s := by
  refine ⟨fun h => ?_, fun h => by rw [h]; rfl⟩
  cases j with
  | str t => exact h
  | float f =>
    cases f with
    | finite q =>
      change (if q.den = 1 then Json.int q.num else .float (.finite q)) = _ at h
      split_ifs at h
    | inf | nan => nomatch h
  | null | bool | int | arr | obj => nomatch h

@[simp]
lemma pyEq_str_iff : pyEq j (.str s) = true ↔ j = .str s := by
  refine ⟨fun h => pyNorm_eq_str.mp (pyEq_iff.mp h).1, fun h => ?_⟩
  rw [h]
  exact pyEq_iff.mpr ⟨rfl, rfl⟩

@[simp]
lemma str_pyEq_iff : pyEq (.str s) j = true ↔ j = .str s :=
  ⟨fun h => pyEq_str_iff.mp (pyEq_symm h), fun h => pyEq_symm (pyEq_str_iff.mpr h)⟩

@[simp]
lemma pyEq_int_int : pyEq (.int m) (.int n) = true ↔ m = n := by
  rw [pyEq_iff]
  exact ⟨fun h => Json.int.inj h.1, fun h => ⟨congrArg Json.int h, rfl⟩⟩

lemma pyNorm_arr (xs : List Json) : pyNorm (.arr xs) = .arr (xs.map pyNorm) :=
  congrArg Json.arr (normList_eq_map pyScalar xs)

lemma nanFree_arr_iff :
    nanFree (.arr xs) = true ↔ ∀ x ∈ xs, nanFree x = true := all_normWith_arr_iff

/-- Only an array is an array to `==`. -/
lemma pyNorm_eq_arr : pyNorm j = .arr ys ↔ ∃ xs, j = .arr xs ∧ xs.map pyNorm = ys := by
  constructor
  · intro h
    cases j with
    | arr xs => exact ⟨xs, rfl, arr.inj ((pyNorm_arr xs).symm.trans h)⟩
    | float f =>
      cases f with
      | finite q =>
        change (if q.den = 1 then Json.int q.num else .float (.finite q)) = _ at h
        split_ifs at h
      | inf | nan => nomatch h
    | null | bool | int | str | obj => nomatch h
  · rintro ⟨xs, rfl, rfl⟩
    exact pyNorm_arr xs

/-- Lists are equal element by element. -/
lemma pyEq_arr_iff :
    pyEq (.arr xs) (.arr ys) = true ↔ List.Forall₂ (fun x y => pyEq x y = true) xs ys := by
  rw [pyEq_iff, pyNorm_arr, pyNorm_arr, arr.injEq, nanFree_arr_iff]
  induction xs generalizing ys with
  | nil => cases ys <;> simp
  | cons x xs ih =>
    cases ys with
    | nil => simp
    | cons y ys =>
      rw [List.map_cons, List.map_cons, List.cons.injEq, List.forall_mem_cons,
        List.forall₂_cons, pyEq_iff]
      exact ⟨fun ⟨⟨hx, hxs⟩, hnx, hnxs⟩ => ⟨⟨hx, hnx⟩, ih.mp ⟨hxs, hnxs⟩⟩,
        fun ⟨⟨hx, hnx⟩, htail⟩ => ⟨⟨hx, (ih.mpr htail).1⟩, hnx, (ih.mpr htail).2⟩⟩

lemma pyNorm_canonScalar_float (x : PyFloat) :
    pyNorm (canonScalar (.float x)) = pyNorm (.float x) := by
  cases x with
  | finite q =>
    change pyNorm (if q.den = 1 ∧ |q.num| ≤ maxSafe then Json.int q.num else _) = _
    split_ifs with h
    · exact (if_pos h.1).symm
    · rfl
  | inf | nan => rfl

/-- The canonical form is equal to the value in Python. -/
lemma pyNorm_canonical (j : Json) : pyNorm (canonical j) = pyNorm j := by
  induction j with
  | null | bool | int | str => rfl
  | float x => exact pyNorm_canonScalar_float x
  | arr xs ih =>
    rw [canonical_arr, pyNorm_arr, pyNorm_arr, List.map_map]
    exact congrArg Json.arr (List.map_congr_left ih)
  | obj fields ih =>
    refine (normWith_obj_eq_iff pyScalar _ _).mpr fun k => ?_
    rw [lookup_sort, lookup_normFields, Option.map_map]
    cases hk : lookup k fields with
    | none => rfl
    | some v => exact congrArg some (ih _ (mem_of_lookup hk))

/-- Python's `==` does not see what the canonical form forgets. -/
theorem pyEq_congr {a a' b b' : Json} (ha : canonical a = canonical a')
    (hb : canonical b = canonical b') : pyEq a b = pyEq a' b' := by
  have hna : pyNorm a = pyNorm a' := by rw [← pyNorm_canonical a, ha, pyNorm_canonical]
  have hnb : pyNorm b = pyNorm b' := by rw [← pyNorm_canonical b, hb, pyNorm_canonical]
  show (decide (pyNorm a = pyNorm b) && (pyNorm a).all _ _) = _
  rw [hna, hnb]
  rfl

lemma nanFree_of_encodable (h : encodable j = true) : nanFree j = true := by
  induction j with
  | null | bool | int | str => rfl
  | float f =>
    cases f with
    | finite q =>
      change (if q.den = 1 then Json.int q.num else .float (.finite q)).all _ _ = true
      split_ifs <;> rfl
    | inf b => rfl
    | nan => nomatch h
  | arr xs ih => exact all_normWith_arr_iff.mpr fun x hx => ih x hx (encodable_arr_iff.mp h x hx)
  | obj fields ih =>
    refine all_normWith_obj_iff.mpr fun k v hk => ⟨rfl, ?_⟩
    exact ih _ (mem_of_lookup hk) (encodable_obj_iff.mp h k v hk).2

/-- A value that has an encoding equals itself. -/
theorem pyEq_self (h : encodable j = true) : pyEq j j = true :=
  pyEq_iff.mpr ⟨rfl, nanFree_of_encodable h⟩

/-! ## Dictionaries -/

/-- Python's `j[k]` on a dictionary. -/
def field? (k : PyStr) : Json → Option Json
  | .obj fields => lookup k fields
  | _ => none

/-- Python's `j.get(k)`: a missing member reads as `None`, and only a dictionary has `get`. -/
def get? (k : PyStr) : Json → Option Json
  | .obj fields => some ((lookup k fields).getD .null)
  | _ => none

/-- The dictionary without the member `k`. -/
def without (k : PyStr) : Json → Option Json
  | .obj fields => some (.obj (erase k fields))
  | _ => none

/-- Python's `{**j, k: v}`. -/
def updated (k : PyStr) : Json → Json → Option Json
  | .obj fields, v => some (.obj ((k, v) :: fields))
  | _, _ => none

/-- Python's `set(j) == keys` for a dictionary with these members. -/
def hasKeys (keys : List PyStr) (fields : List (PyStr × Json)) : Bool :=
  fields.all (fun m => decide (m.1 ∈ keys)) && keys.all fun k => (lookup k fields).isSome

@[simp]
lemma field?_obj (k : PyStr) (fields : List (PyStr × Json)) :
    field? k (.obj fields) = lookup k fields := rfl

variable {k : PyStr}

lemma get?_of_field? (h : field? k j = some v) : get? k j = some v := by
  cases j with
  | obj fields => rw [get?, ← field?_obj, h, Option.getD_some]
  | _ => nomatch h

/-- A member of an encodable dictionary is encodable. -/
lemma encodable_field? (hj : encodable j = true) (h : field? k j = some v) :
    encodable v = true := by
  cases j with
  | obj fields => exact (encodable_obj_iff.mp hj k v h).2
  | _ => nomatch h

/-- The members that `without` keeps are the dictionary's. -/
lemma field?_without (h : without k j = some j') (hne : k' ≠ k) : field? k' j' = field? k' j := by
  cases j with
  | obj fields =>
    cases h
    rw [field?_obj, field?_obj, lookup_erase, if_neg hne]
  | _ => nomatch h

/-- The value `x` occurs in another one. -/
inductive Within (x : Json) : Json → Prop
  | self : Within x x
  | element {xs : List Json} {y : Json} (hy : y ∈ xs) (h : Within x y) : Within x (.arr xs)
  | member {fields : List (PyStr × Json)} {k : PyStr} {y : Json}
    (hy : lookup k fields = some y) (h : Within x y) : Within x (.obj fields)

/-- What occurs in a member of a dictionary occurs in the dictionary. -/
lemma Within.of_field? (h : Within x v) (hv : field? k j = some v) : Within x j := by
  cases j with
  | obj fields => exact .member hv h
  | _ => nomatch hv

/-- A value that is neither an array nor an object. -/
def isScalar : Json → Bool
  | .arr _ => false
  | .obj _ => false
  | _ => true

lemma isScalar_canonScalar (j : Json) (h : j.isScalar = true) :
    (canonScalar j).isScalar = true := by
  unfold canonScalar
  split
  · split_ifs <;> rfl
  · exact h

lemma isScalar_pyScalar (j : Json) (h : j.isScalar = true) : (pyScalar j).isScalar = true := by
  unfold pyScalar
  split
  · rfl
  · split_ifs <;> rfl
  · exact h

lemma field?_of_isScalar (h : j.isScalar = true) : field? k j = none := by
  cases j <;> first | rfl | simp [isScalar] at h

variable {f : Json → Json}

/-- A normal form is read member by member. -/
lemma field?_normWith (hf : ∀ j, j.isScalar = true → (f j).isScalar = true) (k : PyStr)
    (j : Json) : field? k (normWith f j) = (field? k j).map (normWith f) := by
  cases j with
  | obj fields =>
    rw [normWith, field?_obj, lookup_sort, lookup_normFields, field?_obj]
  | arr xs => rfl
  | null | bool | int | float | str => exact field?_of_isScalar (hf _ rfl)

/-- Values with one canonical form have members with one canonical form. -/
lemma canonical_field? (h : canonical a = canonical b) (k : PyStr) :
    (field? k a).map canonical = (field? k b).map canonical := by
  have hread := field?_normWith isScalar_canonScalar k
  rw [show canonical = normWith canonScalar from rfl, ← hread, ← hread]
  exact congrArg (field? k) h

/-- Values that Python holds equal have members that Python holds equal. -/
lemma pyEq_field? (h : pyEq a b = true) (hx : field? k a = some x) :
    ∃ y, field? k b = some y ∧ pyEq x y = true := by
  obtain ⟨hnorm, hnan⟩ := pyEq_iff.mp h
  have hread := field?_normWith isScalar_pyScalar k
  have hmap : (field? k b).map pyNorm = some (pyNorm x) := by
    have := congrArg (field? k) hnorm
    rw [pyNorm, pyNorm, hread, hread, hx] at this
    exact this.symm
  obtain ⟨y, hy, hyx⟩ := Option.map_eq_some_iff.mp hmap
  refine ⟨y, hy, pyEq_iff.mpr ⟨hyx.symm, ?_⟩⟩
  cases a with
  | obj fields => exact (all_normWith_obj_iff.mp hnan k x hx).2
  | _ => nomatch hx

/-- A dictionary is determined by one of its members and the rest. -/
lemma canonical_eq_of_without (ha : without k a = some a')
    (hb : without k b = some b') (hrest : canonical a' = canonical b')
    (hk : (field? k a).map canonical = (field? k b).map canonical) :
    canonical a = canonical b := by
  obtain ⟨xs, rfl⟩ : ∃ xs, a = .obj xs := by cases a <;> simp_all [without]
  obtain ⟨ys, rfl⟩ : ∃ ys, b = .obj ys := by cases b <;> simp_all [without]
  cases ha
  cases hb
  refine canonical_obj_eq_iff.mpr fun l => ?_
  have hl := canonical_obj_eq_iff.mp hrest l
  rw [lookup_erase, lookup_erase] at hl
  by_cases h : l = k
  · exact h ▸ hk
  · rwa [if_neg h, if_neg h] at hl

/-! ## Arithmetic and iteration -/

/-- The nearest integer, a tie going to the even one. -/
def roundHalfEven (q : ℚ) : ℤ :=
  if q - ⌊q⌋ < 1 / 2 then ⌊q⌋
  else if 1 / 2 < q - ⌊q⌋ then ⌊q⌋ + 1
  else if ⌊q⌋ % 2 = 0 then ⌊q⌋ else ⌊q⌋ + 1

/-- The double nearest to a rational number in the range of doubles. -/
def roundDouble (q : ℚ) : ℚ :=
  let ulp : ℚ := 2 ^ (max (Int.log 2 |q|) (-1022) - 52)
  roundHalfEven (q / ulp) * ulp

lemma roundHalfEven_intCast (n : ℤ) : roundHalfEven n = n := by
  rw [roundHalfEven, Int.floor_intCast, if_pos]
  norm_num

/-- Integers of at most 53 bits are doubles. -/
lemma roundDouble_intCast {n : ℤ} (h : |n| < 2 ^ 53) : roundDouble n = n := by
  -- the unit in the last place is a power of two not above one, so it divides the integer
  obtain ⟨k, hk⟩ : ∃ k : ℕ, max (Int.log 2 |(n : ℚ)|) (-1022) - 52 = -(k : ℤ) := by
    have hlog : Int.log 2 |(n : ℚ)| ≤ 52 := by
      rcases eq_or_ne n 0 with rfl | hn
      · simp
      · have hpos : (0 : ℚ) < |(n : ℚ)| := abs_pos.mpr (by exact_mod_cast hn)
        have hle := Int.zpow_log_le_self (b := 2) (by norm_num) hpos
        rw [Nat.cast_ofNat] at hle
        have hlt : |(n : ℚ)| < (2 : ℚ) ^ (53 : ℤ) := by exact_mod_cast h
        have := (zpow_lt_zpow_iff_right₀ (by norm_num : (1 : ℚ) < 2)).mp (hle.trans_lt hlt)
        omega
    exact ⟨(52 - max (Int.log 2 |(n : ℚ)|) (-1022)).toNat, by omega⟩
  have hdiv : (n : ℚ) / 2 ^ (-(k : ℤ)) = ((n * 2 ^ k : ℤ) : ℚ) := by
    rw [zpow_neg, zpow_natCast, div_inv_eq_mul]
    push_cast
    ring
  rw [roundDouble, hk, hdiv, roundHalfEven_intCast]
  push_cast
  rw [zpow_neg, zpow_natCast, mul_assoc, mul_inv_cancel₀ (by positivity), mul_one]

lemma roundHalfEven_mono {p q : ℚ} (h : p ≤ q) : roundHalfEven p ≤ roundHalfEven q := by
  have hfloor : ⌊p⌋ ≤ ⌊q⌋ := Int.floor_le_floor h
  unfold roundHalfEven
  rcases hfloor.lt_or_eq with hlt | heq
  · split_ifs <;> omega
  · rw [heq]
    split_ifs <;> first | omega | linarith

/-- Rounding to multiples of a unit does not pass one of them. -/
lemma roundHalfEven_mul_le {u q : ℚ} (hu : 0 < u) {n : ℤ} (h : q ≤ n * u) :
    roundHalfEven (q / u) * u ≤ n * u := by
  have hround := roundHalfEven_mono ((div_le_iff₀ hu).mpr h)
  rw [roundHalfEven_intCast] at hround
  gcongr

lemma le_roundHalfEven_mul {u q : ℚ} (hu : 0 < u) {n : ℤ} (h : n * u ≤ q) :
    n * u ≤ roundHalfEven (q / u) * u := by
  have hround := roundHalfEven_mono ((le_div_iff₀ hu).mpr h)
  rw [roundHalfEven_intCast] at hround
  gcongr

/-- Rounding to a double keeps the order of numbers that are not negative. -/
lemma roundDouble_mono {p q : ℚ} (hp : 0 ≤ p) (h : p ≤ q) : roundDouble p ≤ roundDouble q := by
  have hunit (e : ℤ) : (0 : ℚ) < 2 ^ e := zpow_pos two_pos e
  rcases hp.eq_or_lt with rfl | hpos
  · have hzero : roundDouble 0 = 0 := by simpa using roundDouble_intCast (n := 0) (by norm_num)
    have hq := le_roundHalfEven_mul (n := 0) (hunit (max (Int.log 2 |q|) (-1022) - 52))
      (by simpa using h)
    rw [Int.cast_zero, zero_mul] at hq
    exact hzero.trans_le hq
  have hlog : Int.log 2 p ≤ Int.log 2 q := Int.log_mono_right hpos h
  rw [roundDouble, roundDouble, abs_of_pos hpos, abs_of_pos (hpos.trans_le h)]
  rcases (max_le_max_right (-1022) hlog).eq_or_lt with heq | hlt
  · rw [heq]
    have hu := hunit (max (Int.log 2 q) (-1022) - 52)
    exact mul_le_mul_of_nonneg_right
      (Int.cast_le.mpr (roundHalfEven_mono (div_le_div_of_nonneg_right h hu.le))) hu.le
  · -- a power of two lies between the numbers, and is a multiple of both units
    have hpower (e : ℤ) (he : e ≤ Int.log 2 q) :
        (2 : ℚ) ^ Int.log 2 q = ((2 ^ (Int.log 2 q - e).toNat : ℤ) : ℚ) * 2 ^ e := by
      rw [Int.cast_pow, Int.cast_ofNat, ← zpow_natCast, ← zpow_add₀ two_ne_zero]
      congr 1
      omega
    have hbelow : p ≤ 2 ^ Int.log 2 q := by
      have hlt' := Int.lt_zpow_succ_log_self (b := 2) (by norm_num) p
      rw [Nat.cast_ofNat] at hlt'
      refine hlt'.le.trans (zpow_le_zpow_right₀ (by norm_num) ?_)
      omega
    have habove := Int.zpow_log_le_self (b := 2) (by norm_num) (hpos.trans_le h)
    rw [Nat.cast_ofNat] at habove
    calc _ ≤ (2 : ℚ) ^ Int.log 2 q := by
          rw [hpower (max (Int.log 2 p) (-1022) - 52) (by omega)] at hbelow ⊢
          exact roundHalfEven_mul_le (hunit _) hbelow
      _ ≤ _ := by
          rw [hpower (max (Int.log 2 q) (-1022) - 52) (by omega)] at habove ⊢
          exact le_roundHalfEven_mul (hunit _) habove

/-- Doubles beyond 2⁵³ do not count: adding one to it gives 2⁵³ again. -/
lemma roundDouble_two_pow_add_one : roundDouble (2 ^ 53 + 1) = 2 ^ 53 := by
  have hlog : Int.log 2 |(2 ^ 53 + 1 : ℚ)| = 53 := by
    have hcast : |(2 ^ 53 + 1 : ℚ)| = ((2 ^ 53 + 1 : ℕ) : ℚ) := by
      rw [abs_of_nonneg (by positivity)]
      norm_num
    rw [hcast, Int.log_natCast, Nat.log_eq_of_pow_le_of_lt_pow (m := 53) (by norm_num)
      (by norm_num)]
    rfl
  -- the sum lies halfway between two doubles, and the even one is the lower
  have hfloor : ⌊((2 ^ 53 + 1 : ℚ) / 2 ^ (1 : ℤ))⌋ = 2 ^ 52 := by
    rw [Int.floor_eq_iff]
    norm_num
  have hround : roundHalfEven ((2 ^ 53 + 1 : ℚ) / 2 ^ (1 : ℤ)) = 2 ^ 52 := by
    rw [roundHalfEven, hfloor]
    norm_num
  rw [roundDouble, hlog]
  norm_num at hround ⊢
  rw [hround]
  norm_num

/-- Python's `j + 1`. -/
def addOne : Json → Option Json
  | .bool b => some (.int ((if b then 1 else 0) + 1))
  | .int n => some (.int (n + 1))
  | .float (.finite q) => some (.float (.finite (roundDouble (q + 1))))
  | .float x => some (.float x)
  | _ => none

/-- A value used as a list index: Python takes integers and booleans. -/
def index? : Json → Option ℤ
  | .int n => some n
  | .bool b => some (if b then 1 else 0)
  | _ => none

/-- What a Python `for` loop over `j` goes through: the elements of a list, the characters
of a string, the keys of a dictionary. -/
def items : Json → Option (List Json)
  | .arr xs => some xs
  | .str s => some (s.map fun c => .str [c])
  | .obj fields => some ((fields.map Prod.fst).dedup.map .str)
  | _ => none

/-- The elements of a list. -/
def elements? : Json → Option (List Json)
  | .arr xs => some xs
  | _ => none

/-- Python's `j[0]` on a list or a string. -/
def first? : Json → Option Json
  | .arr (x :: _) => some x
  | .str (c :: _) => some (.str [c])
  | _ => none

/-! ## Order and membership -/

/-- Python's `x < n`: only numbers have an order with a number. -/
def lt? (n : ℚ) : Json → Option Bool
  | .bool b => some ((if b then 1 else 0) < n)
  | .int m => some (m < n)
  | .float (.finite q) => some (q < n)
  | .float (.inf negative) => some negative
  | .float .nan => some false
  | _ => none

/-- What is below a number is below a greater one. -/
lemma lt?_mono (hmn : m ≤ n) (h : lt? m x = some true) : lt? n x = some true := by
  cases x with
  | bool | int =>
    simp only [lt?, Option.some.injEq, decide_eq_true_eq] at h ⊢
    exact lt_of_lt_of_le h hmn
  | float f =>
    cases f with
    | finite q =>
      simp only [lt?, Option.some.injEq, decide_eq_true_eq] at h ⊢
      exact lt_of_lt_of_le h hmn
    | inf | nan => exact h
  | null | str | arr | obj => nomatch h

/-- Only the empty dictionary equals the empty dictionary. -/
lemma sort_normFields_eq_nil : sort (normFields f fields) = [] ↔ fields = [] := by
  constructor
  · intro h
    cases fields with
    | nil => rfl
    | cons m fields =>
      have hlookup := lookup_sort (normFields f (m :: fields)) m.1
      rw [h, lookup_nil, lookup_normFields, lookup_cons, if_pos rfl] at hlookup
      nomatch hlookup
  · rintro rfl
    rfl

/-- Equal values are truthy together. -/
lemma truthy_pyNorm (j : Json) : truthy (pyNorm j) = truthy j := by
  cases j with
  | bool b => cases b <;> rfl
  | float x =>
    cases x with
    | finite q =>
      show truthy (if q.den = 1 then .int q.num else .float (.finite q)) = _
      split_ifs
      · simp [truthy]
      · rfl
    | inf | nan => rfl
  | arr xs => cases xs <;> rfl
  | obj fields =>
    show (!(sort (normFields pyScalar fields)).isEmpty) = !fields.isEmpty
    congr 1
    rw [Bool.eq_iff_iff, List.isEmpty_iff, List.isEmpty_iff, sort_normFields_eq_nil]
  | null | int | str => rfl

/-- Equal values compare in the same way with a number. -/
lemma lt?_pyNorm (n : ℚ) (j : Json) : lt? n (pyNorm j) = lt? n j := by
  cases j with
  | bool b => cases b <;> simp [pyNorm, normWith, pyScalar, lt?]
  | float x =>
    cases x with
    | finite q =>
      show lt? n (if q.den = 1 then .int q.num else .float (.finite q)) = _
      split_ifs with hden
      · have hq : (q.num : ℚ) = q := (Rat.den_eq_one_iff q).mp hden
        simp [lt?, hq]
      · rfl
    | inf | nan => rfl
  | _ => rfl

end Json

/-! ## Dataclasses -/

/-- The arguments of a dataclass: the members by name, unless one is missing or unknown. -/
def construct (required optional : List String) (payload : List (PyStr × Json)) :
    Option (String → Json) :=
  if (∀ m ∈ payload, m.1 ∈ (required ++ optional).map PyStr.ofString) ∧
      ∀ name ∈ required, (lookup (PyStr.ofString name) payload).isSome then
    some fun name => (lookup (PyStr.ofString name) payload).getD .null
  else none

lemma construct_eq_some {required optional : List String} {payload : List (PyStr × Json)}
    {get : String → Json} : construct required optional payload = some get ↔
      (∀ m ∈ payload, m.1 ∈ (required ++ optional).map PyStr.ofString) ∧
      (∀ name ∈ required, (lookup (PyStr.ofString name) payload).isSome) ∧
      get = fun name => (lookup (PyStr.ofString name) payload).getD .null := by
  unfold construct
  split_ifs with h
  · rw [Option.some.injEq]
    exact ⟨fun hget => ⟨h.1, h.2, hget.symm⟩, fun hget => hget.2.2.symm⟩
  · exact ⟨fun hget => (nomatch hget), fun hget => absurd ⟨hget.1, hget.2.1⟩ h⟩

end VdbC1
