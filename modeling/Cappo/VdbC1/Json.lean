import Mathlib.Data.Rat.Floor
import Mathlib.Data.Int.Log
import Mathlib.Data.List.Lex
import Cappo.Lib.FieldMap

/-!
# JSON values as Python holds them

The values `json.loads` can return, and what RFC 8785 sees of them: `Json.canonical`
forgets the order of an object's members and the spelling of a number (`1` or `1.0`), and
`Json.encodable` says which values have an encoding at all.

A Python `str` is a sequence of code points, surrogates included: `json.loads` accepts an
escaped lone surrogate, and RFC 8785 has no encoding for it.

## Main results

* `Json.canonical_obj_eq_iff`: objects agree when their members do, key by key;
* `Json.encodable_obj_iff`: an object has an encoding when its members have one.
-/

namespace VdbC1

open FieldMap

/-- A Unicode code point; lone surrogates (`0xD800` to `0xDFFF`) are among them. -/
abbrev CodePoint := Fin 0x110000

/-- A Python `str`, ordered by code point as Python orders it. -/
abbrev PyStr := List CodePoint

instance instNeZeroCodePoint : NeZero 0x110000 := ⟨nofun⟩

instance : LawfulBEq CodePoint := inferInstance

instance : LawfulBEq PyStr := inferInstance

namespace PyStr

/-- The Python `str` written as a Lean string literal. -/
def ofString (s : String) : PyStr :=
  s.toList.map fun c => ⟨c.toNat, by
    have h := c.valid
    simp only [UInt32.isValidChar, Nat.isValidChar] at h
    simp only [Char.toNat]
    omega⟩

instance : Coe String PyStr := ⟨ofString⟩

lemma ofString_injective : Function.Injective ofString := by
  intro a b h
  apply String.toList_injective
  refine List.map_injective_iff.mpr (fun c d hcd => ?_) h
  exact Char.toNat_inj.mp (by simpa [Fin.ext_iff] using hcd)

@[simp]
lemma ofString_inj : ofString a = ofString b ↔ a = b :=
  ofString_injective.eq_iff

/-- A code point that UTF-8 cannot encode. -/
def isSurrogate (c : CodePoint) : Bool := 0xD800 ≤ c.val && c.val ≤ 0xDFFF

/-- Whether the string has a UTF-8 encoding: no lone surrogate occurs in it. -/
def encodable (s : PyStr) : Bool := s.all fun c => !isSurrogate c

@[simp]
lemma encodable_ofString (s : String) : encodable (ofString s) = true := by
  simp only [encodable, ofString, List.all_map, List.all_eq_true]
  intro c _
  have h := c.valid
  simp only [UInt32.isValidChar, Nat.isValidChar] at h
  simp only [isSurrogate, Function.comp, Char.toNat, Bool.not_eq_true', Bool.and_eq_false_iff,
    decide_eq_false_iff_not]
  omega

lemma encodable_append (a b : PyStr) : encodable (a ++ b) = (encodable a && encodable b) := by
  simp [encodable]

end PyStr

/-- A Python `float`; a finite one is kept as the rational number it stands for. -/
inductive PyFloat where
  | finite (q : ℚ)
  | inf (negative : Bool)
  | nan
  deriving DecidableEq

/-- A value `json.loads` can return. The fields of an object are read by first match, so
every field list denotes a dictionary. -/
inductive Json where
  | null
  | bool (b : Bool)
  | int (n : ℤ)
  | float (f : PyFloat)
  | str (s : PyStr)
  | arr (xs : List Json)
  | obj (fields : List (PyStr × Json))

namespace Json

instance : Coe String Json := ⟨fun s => .str (PyStr.ofString s)⟩

mutual

/-- Whether two values are the same. -/
def beq : Json → Json → Bool
  | .null, .null => true
  | .bool a, .bool b => a = b
  | .int a, .int b => a = b
  | .float a, .float b => a = b
  | .str a, .str b => a = b
  | .arr a, .arr b => beqList a b
  | .obj a, .obj b => beqFields a b
  | _, _ => false

/-- `beq` over the elements of an array. -/
def beqList : List Json → List Json → Bool
  | [], [] => true
  | x :: xs, y :: ys => beq x y && beqList xs ys
  | _, _ => false

/-- `beq` over the members of an object. -/
def beqFields : List (PyStr × Json) → List (PyStr × Json) → Bool
  | [], [] => true
  | (k, x) :: xs, (l, y) :: ys => k = l && beq x y && beqFields xs ys
  | _, _ => false

end

mutual

lemma beq_iff : (a b : Json) → (beq a b = true ↔ a = b)
  | .null, b => by cases b <;> simp [beq]
  | .bool _, b => by cases b <;> simp [beq]
  | .int _, b => by cases b <;> simp [beq]
  | .float _, b => by cases b <;> simp [beq]
  | .str _, b => by cases b <;> simp [beq]
  | .arr xs, b => by cases b <;> simp [beq, beqList_iff xs]
  | .obj fields, b => by cases b <;> simp [beq, beqFields_iff fields]

lemma beqList_iff : (a b : List Json) → (beqList a b = true ↔ a = b)
  | [], b => by cases b <;> simp [beqList]
  | x :: xs, b => by cases b <;> simp [beqList, beq_iff x, beqList_iff xs]

lemma beqFields_iff : (a b : List (PyStr × Json)) → (beqFields a b = true ↔ a = b)
  | [], b => by cases b <;> simp [beqFields]
  | (k, x) :: xs, b => by
    cases b <;> simp [beqFields, Prod.ext_iff, beq_iff x, beqFields_iff xs, and_assoc]

end

instance : DecidableEq Json := fun a b => decidable_of_iff _ (beq_iff a b)

instance : LawfulBEq (List Json) := inferInstance

/-- Induction over a value: the elements of an array and the members of an object satisfy
the motive before the array and the object do. -/
@[elab_as_elim, induction_eliminator]
theorem induction {motive : Json → Prop} (null : motive .null) (bool : ∀ b, motive (.bool b))
    (int : ∀ n, motive (.int n)) (float : ∀ f, motive (.float f)) (str : ∀ s, motive (.str s))
    (arr : ∀ xs, (∀ x ∈ xs, motive x) → motive (.arr xs))
    (obj : ∀ fields, (∀ m ∈ fields, motive m.2) → motive (.obj fields)) : ∀ j, motive j
  | .null => null
  | .bool b => bool b
  | .int n => int n
  | .float f => float f
  | .str s => str s
  | .arr xs => arr xs fun x _ => induction null bool int float str arr obj x
  | .obj fields => obj fields fun m hm => by
    have : sizeOf m.2 < 1 + sizeOf fields := by
      have := List.sizeOf_lt_of_mem hm
      have : sizeOf m = 1 + sizeOf m.1 + sizeOf m.2 := rfl
      omega
    exact induction null bool int float str arr obj m.2

/-! ## Normal forms

The two notions of equality the code relies on compare normal forms: the members of every
object sorted by key, and the scalars brought to one spelling. -/

mutual

/-- Sort the members of every object and apply `f` to every scalar. -/
def normWith (f : Json → Json) : Json → Json
  | .arr xs => .arr (normList f xs)
  | .obj fields => .obj (sort (normFields f fields))
  | .null => f .null
  | .bool b => f (.bool b)
  | .int n => f (.int n)
  | .float x => f (.float x)
  | .str s => f (.str s)

/-- `normWith` over the elements of an array. -/
def normList (f : Json → Json) : List Json → List Json
  | [] => []
  | x :: xs => normWith f x :: normList f xs

/-- `normWith` over the members of an object. -/
def normFields (f : Json → Json) : List (PyStr × Json) → List (PyStr × Json)
  | [] => []
  | (k, x) :: fields => (k, normWith f x) :: normFields f fields

end

lemma normList_eq_map (f : Json → Json) (xs : List Json) : normList f xs = xs.map (normWith f) := by
  induction xs with
  | nil => rfl
  | cons x xs ih => rw [normList, ih, List.map_cons]

lemma normFields_eq_map (f : Json → Json) (fields : List (PyStr × Json)) :
    normFields f fields = fields.map fun m => (m.1, normWith f m.2) := by
  induction fields with
  | nil => rfl
  | cons m fields ih => rw [normFields, ih, List.map_cons]

/-- The member `k` of an object's normal form is the normal form of its member `k`. -/
lemma lookup_normFields (f : Json → Json) (k : PyStr) (fields : List (PyStr × Json)) :
    lookup k (normFields f fields) = (lookup k fields).map (normWith f) := by
  rw [normFields_eq_map, lookup_map]

/-- Two objects have one normal form exactly when their members do, key by key. -/
lemma normWith_obj_eq_iff (f : Json → Json) (a b : List (PyStr × Json)) :
    normWith f (.obj a) = normWith f (.obj b) ↔
      ∀ k, (lookup k a).map (normWith f) = (lookup k b).map (normWith f) := by
  simp only [normWith, obj.injEq, sort_eq_iff, lookup_normFields]

/-- The largest integer RFC 8785 encodes. -/
def maxSafe : ℤ := 2 ^ 53 - 1

/-- The scalar as RFC 8785 writes it: a float with a small integral value is written as
that integer. -/
def canonScalar : Json → Json
  | .float (.finite q) =>
    if q.den = 1 ∧ |q.num| ≤ maxSafe then .int q.num else .float (.finite q)
  | j => j

/-- What RFC 8785 sees of a value. -/
def canonical (j : Json) : Json := normWith canonScalar j

mutual

/-- Every scalar satisfies `p` and every member name satisfies `q`. -/
def all (p : Json → Bool) (q : PyStr → Bool) : Json → Bool
  | .arr xs => allList p q xs
  | .obj fields => allFields p q fields
  | .null => p .null
  | .bool b => p (.bool b)
  | .int n => p (.int n)
  | .float x => p (.float x)
  | .str s => p (.str s)

/-- `all` over the elements of an array. -/
def allList (p : Json → Bool) (q : PyStr → Bool) : List Json → Bool
  | [] => true
  | x :: xs => all p q x && allList p q xs

/-- `all` over the members of an object. -/
def allFields (p : Json → Bool) (q : PyStr → Bool) : List (PyStr × Json) → Bool
  | [] => true
  | (k, x) :: fields => q k && all p q x && allFields p q fields

end

variable {p : Json → Bool} {q : PyStr → Bool} {xs : List Json}

lemma allList_iff : allList p q xs = true ↔ ∀ x ∈ xs, all p q x = true := by
  induction xs with
  | nil => simp [allList]
  | cons x xs ih => simp [allList, ih]

variable {fields : List (PyStr × Json)}

lemma allFields_iff :
    allFields p q fields = true ↔ ∀ m ∈ fields, q m.1 = true ∧ all p q m.2 = true := by
  induction fields with
  | nil => simp [allFields]
  | cons m fields ih => simp [allFields, ih]

variable {f : Json → Json}

lemma all_normWith_arr_iff :
    all p q (normWith f (.arr xs)) = true ↔ ∀ x ∈ xs, all p q (normWith f x) = true := by
  rw [normWith, normList_eq_map, all, allList_iff, List.forall_mem_map]

/-- A condition on an object's normal form is one on the members the object is read by. -/
lemma all_normWith_obj_iff : all p q (normWith f (.obj fields)) = true ↔
      ∀ k v, lookup k fields = some v → q k = true ∧ all p q (normWith f v) = true := by
  rw [normWith, all, allFields_iff]
  constructor
  · intro h k v hk
    have hmem : (k, normWith f v) ∈ sort (normFields f fields) := by
      apply mem_of_lookup
      rw [lookup_sort, lookup_normFields, hk, Option.map_some]
    exact h _ hmem
  · intro h m hm
    have hlookup := lookup_of_mem (increasing_sort (normFields f fields)) hm
    rw [lookup_sort, lookup_normFields, Option.map_eq_some_iff] at hlookup
    obtain ⟨v, hv, hm2⟩ := hlookup
    exact hm2 ▸ h m.1 v hv

/-- A scalar RFC 8785 can encode: integers beyond `maxSafe`, non-finite floats and strings
with a lone surrogate have no encoding. -/
def scalarEncodable : Json → Bool
  | .int n => |n| ≤ maxSafe
  | .float (.finite _) => true
  | .float _ => false
  | .str s => s.encodable
  | _ => true

/-- Whether RFC 8785 has an encoding of the value. -/
def encodable (j : Json) : Bool := (canonical j).all scalarEncodable PyStr.encodable

/-! ## Canonical forms -/

@[simp]
lemma canonical_str (s : PyStr) : canonical (.str s) = .str s := rfl

@[simp]
lemma canonical_int (n : ℤ) : canonical (.int n) = .int n := rfl

lemma canonical_arr (xs : List Json) : canonical (.arr xs) = .arr (xs.map canonical) := by
  rw [canonical, normWith, normList_eq_map]
  rfl

lemma canonical_obj_eq_iff : canonical (.obj a) = canonical (.obj b) ↔
      ∀ k, (lookup k a).map canonical = (lookup k b).map canonical :=
  normWith_obj_eq_iff canonScalar a b

/-- Only a string has a string as its canonical form. -/
lemma canonical_eq_str : canonical j = .str s ↔ j = .str s := by
  refine ⟨fun h => ?_, fun h => by rw [h, canonical_str]⟩
  cases j with
  | str t => exact h
  | float f =>
    cases f with
    | finite q =>
      simp only [canonical, normWith, canonScalar] at h
      split_ifs at h
    | inf | nan => nomatch h
  | null | bool | int | arr | obj => nomatch h

/-! ## Encodable values -/

@[simp]
lemma encodable_null : encodable .null = true := rfl

@[simp]
lemma encodable_bool (b : Bool) : encodable (.bool b) = true := rfl

@[simp]
lemma encodable_int (n : ℤ) : encodable (.int n) = decide (|n| ≤ maxSafe) := rfl

/-- Every finite float has an encoding. -/
@[simp]
lemma encodable_float (q : ℚ) : encodable (.float (.finite q)) = true := by
  rw [encodable, canonical, normWith, canonScalar]
  split_ifs with h
  · simpa [all, scalarEncodable] using h.2
  · rfl

@[simp]
lemma encodable_str (s : PyStr) : encodable (.str s) = s.encodable := rfl

@[simp]
lemma encodable_arr_iff : encodable (.arr xs) = true ↔ ∀ x ∈ xs, encodable x = true :=
  all_normWith_arr_iff

/-- An object has an encoding exactly when its members have one. -/
theorem encodable_obj_iff : encodable (.obj fields) = true ↔
      ∀ k v, lookup k fields = some v → k.encodable = true ∧ encodable v = true :=
  all_normWith_obj_iff

/-- The members listed may be checked one by one. -/
@[simp]
lemma encodable_obj (h : ∀ m ∈ fields, m.1.encodable = true ∧ encodable m.2 = true) :
    encodable (.obj fields) = true :=
  encodable_obj_iff.mpr fun k v hk => h (k, v) (mem_of_lookup hk)

end Json

end VdbC1
