import Mathlib.Data.Nat.Digits.Defs
import Mathlib.Tactic.IntervalCases
import Cappo.VdbC1.Json

/-!
# JSON texts

`json.dumps` with sorted keys, no whitespace and no ASCII escapes: `dumps` as `envelope.py` calls
it, without NaN, and `dumpsAll` as `canonical.py` does. A text can be read in one way only, so two
values with one text differ in nothing but the order of their objects' members.

## Main results

* `dumpsAll_inj`, `dumps_inj`: values with one text have one normal form.
-/

namespace CapabilityMount

open VdbC1
open List

namespace JsonText

/-! ## Texts -/

/-- The digit of a number below ten. -/
def digit (n : ℕ) : CodePoint := Fin.ofNat _ (48 + n)

/-- The decimal text of a natural number. -/
def decimal (n : ℕ) : PyStr :=
  if n = 0 then [digit 0] else ((Nat.digits 10 n).map digit).reverse

/-- `int.__repr__`. -/
def intText (n : ℤ) : PyStr :=
  if n < 0 then 45 :: decimal n.natAbs else decimal n.natAbs

/-- A lower-case hexadecimal digit. -/
def hexDigit (n : ℕ) : CodePoint := if n < 10 then Fin.ofNat _ (48 + n) else Fin.ofNat _ (87 + n)

/-- The character as it is written inside a JSON string. -/
def escapeChar (c : CodePoint) : PyStr :=
  if c = 34 then [92, 34]
  else if c = 92 then [92, 92]
  else if c = 10 then [92, 110]
  else if c = 13 then [92, 114]
  else if c = 9 then [92, 116]
  else if c = 12 then [92, 102]
  else if c = 8 then [92, 98]
  else if c.val < 32 then [92, 117, 48, 48, hexDigit (c.val / 16), hexDigit (c.val % 16)]
  else [c]

def quote (s : PyStr) : PyStr := 34 :: (s.flatMap escapeChar ++ [34])

variable (reprFloat : ℚ → PyStr)

/-- `float.__repr__` as the encoder writes it. -/
def floatText : PyFloat → PyStr
  | .finite q => reprFloat q
  | .inf false => "Infinity"
  | .inf true => "-Infinity"
  | .nan => "NaN"

mutual

/-- The text of a value, members in the order in which they are listed. -/
def text : Json → PyStr
  | .null => "null"
  | .bool true => "true"
  | .bool false => "false"
  | .int n => intText n
  | .float x => floatText reprFloat x
  | .str s => quote s
  | .arr [] => [91, 93]
  | .arr (x :: xs) => 91 :: (text x ++ (textList xs ++ [93]))
  | .obj [] => [123, 125]
  | .obj ((k, x) :: fields) => 123 :: (quote k ++ 58 :: (text x ++ (textFields fields ++ [125])))

/-- Further elements of an array, each after a comma. -/
def textList : List Json → PyStr
  | [] => []
  | x :: xs => 44 :: (text x ++ textList xs)

/-- Further members of an object, each after a comma. -/
def textFields : List (PyStr × Json) → PyStr
  | [] => []
  | (k, x) :: fields => 44 :: (quote k ++ 58 :: (text x ++ textFields fields))

end

/-- The scalars that have a text; `allow_nan=False` raises on the others. -/
def finiteScalar : Json → Bool
  | .float (.finite _) => true
  | .float _ => false
  | _ => true

/-- The value with the members of every object sorted by key. -/
def sorted (j : Json) : Json := j.normWith id

/-- `json.dumps(j, sort_keys=True, separators=(",", ":"), ensure_ascii=False)`. -/
def dumpsAll (j : Json) : PyStr := text reprFloat (sorted j)

/-- `json.dumps(j, sort_keys=True, separators=(",", ":"), ensure_ascii=False,
allow_nan=False)`. -/
def dumps (j : Json) : Option PyStr :=
  if (sorted j).all finiteScalar fun _ => true then some (dumpsAll reprFloat j) else none

/-! ## Numbers -/

/-- The characters of a number. -/
def isNumeric (c : CodePoint) : Bool :=
  (48 ≤ c.val && c.val ≤ 57) || c = 45 || c = 43 || c = 46 || c = 101

/-- What is relied on of the texts of floats: they are numbers, no integer has such a text, and
no two floats have one. -/
structure FloatTexts : Prop where
  numeric : ∀ q, ∀ c ∈ reprFloat q, isNumeric c = true
  ne_nil : ∀ q, reprFloat q ≠ []
  ne_intText : ∀ q n, reprFloat q ≠ intText n
  injective : Function.Injective reprFloat

variable {n : ℕ}

lemma digit_val (h : n < 10) : (digit n).val = 48 + n := by
  rw [digit, Fin.val_ofNat, Nat.mod_eq_of_lt (by omega)]

lemma isNumeric_digit (h : n < 10) : isNumeric (digit n) = true := by
  have := digit_val h
  simp only [isNumeric, Bool.or_eq_true, Bool.and_eq_true, decide_eq_true_eq]
  omega

lemma digit_inj (hm : m < 10) (hn : n < 10) (h : digit m = digit n) : m = n := by
  have := congrArg Fin.val h
  rw [digit_val hm, digit_val hn] at this
  omega

lemma lt_of_mem_digits {d : ℕ} (h : d ∈ Nat.digits 10 n) : d < 10 :=
  Nat.digits_lt_base (by decide) h

lemma isNumeric_decimal : ∀ c ∈ decimal n, isNumeric c = true := by
  intro c hc
  rw [decimal] at hc
  split_ifs at hc
  · rw [mem_singleton.mp hc]
    exact isNumeric_digit (by decide)
  · rw [mem_reverse, mem_map] at hc
    obtain ⟨d, hd, rfl⟩ := hc
    exact isNumeric_digit (lt_of_mem_digits hd)

variable {c : CodePoint}

/-- A decimal text has digits only. -/
lemma le_of_mem_decimal (h : c ∈ decimal n) : 48 ≤ c.val := by
  have hdigit : ∀ d < 10, 48 ≤ (digit d).val := by
    intro d hd
    rw [digit_val hd]
    exact Nat.le_add_right 48 d
  rw [decimal] at h
  split_ifs at h
  · rw [mem_singleton.mp h]
    exact hdigit 0 (by decide)
  · rw [mem_reverse, mem_map] at h
    obtain ⟨d, hd, rfl⟩ := h
    exact hdigit d (lt_of_mem_digits hd)

lemma decimal_ne_nil (n : ℕ) : decimal n ≠ [] := by
  rw [decimal]
  split_ifs with h
  · exact cons_ne_nil _ _
  · simpa [Nat.digits_eq_nil_iff_eq_zero] using h

lemma map_digit_inj {l l' : List ℕ} (hl : ∀ d ∈ l, d < 10) (hl' : ∀ d ∈ l', d < 10)
    (h : l.map digit = l'.map digit) : l = l' := by
  induction l generalizing l' with
  | nil => exact (map_eq_nil_iff.mp h.symm).symm
  | cons d l ih =>
    cases l' with
    | nil => exact absurd h (cons_ne_nil _ _)
    | cons d' l' =>
      rw [map_cons, map_cons, List.cons.injEq] at h
      rw [digit_inj (hl d mem_cons_self) (hl' d' mem_cons_self) h.1,
        ih (fun x hx => hl x (mem_cons_of_mem _ hx)) (fun x hx => hl' x (mem_cons_of_mem _ hx)) h.2]

/-- Numbers with the same digits are equal. -/
lemma decimal_injective : Function.Injective decimal := by
  -- zero is the one number whose text starts with the digit zero
  have hzero : ∀ n, n ≠ 0 → ((Nat.digits 10 n).map digit).reverse ≠ [digit 0] := by
    intro n hn heq
    have hlist : (Nat.digits 10 n).map digit = [0].map digit := by
      rw [← reverse_inj, heq]
      rfl
    have hdigits := map_digit_inj (fun d => lt_of_mem_digits) (by simp) hlist
    have := congrArg (Nat.ofDigits 10) hdigits
    rw [Nat.ofDigits_digits] at this
    exact hn (by simpa using this)
  intro m n h
  rw [decimal, decimal] at h
  split_ifs at h with hm hn hn
  · rw [hm, hn]
  · exact absurd h.symm (hzero n hn)
  · exact absurd h (hzero m hm)
  · have hdigits := map_digit_inj (fun d => lt_of_mem_digits) (fun d => lt_of_mem_digits)
      (reverse_injective h)
    rw [← Nat.ofDigits_digits 10 m, hdigits, Nat.ofDigits_digits]

lemma isNumeric_intText {n : ℤ} : ∀ c ∈ intText n, isNumeric c = true := by
  intro c hc
  rw [intText] at hc
  split_ifs at hc
  · rcases mem_cons.mp hc with rfl | hc
    · decide
    · exact isNumeric_decimal c hc
  · exact isNumeric_decimal c hc

lemma intText_ne_nil (n : ℤ) : intText n ≠ [] := by
  rw [intText]
  split_ifs
  · exact cons_ne_nil _ _
  · exact decimal_ne_nil _

lemma intText_injective : Function.Injective intText := by
  -- a sign tells a negative number from the others
  have hsign : ∀ m n : ℕ, 45 :: decimal m ≠ decimal n := by
    intro m n h
    have hle : 48 ≤ (45 : CodePoint).val := le_of_mem_decimal (n := n) (h ▸ mem_cons_self)
    exact absurd hle (by decide)
  intro m n h
  rw [intText, intText] at h
  split_ifs at h with hm hn hn
  · have := decimal_injective (tail_eq_of_cons_eq h)
    omega
  · exact absurd h (hsign _ _)
  · exact absurd h.symm (hsign _ _)
  · have := decimal_injective h
    omega

variable {u : PyStr}

variable {v : PyStr}

/-- Two texts without a separator before one and rests after it. -/
lemma append_cons_inj (ha : c ∉ a) (hb : c ∉ b) (h : a ++ c :: u = b ++ c :: v) :
    a = b ∧ u = v := by
  induction a generalizing b with
  | nil =>
    cases b with
    | nil => exact ⟨rfl, tail_eq_of_cons_eq h⟩
    | cons d b =>
      have hd : c = d := head_eq_of_cons_eq h
      exact absurd (hd ▸ mem_cons_self) hb
  | cons d a ih =>
    cases b with
    | nil =>
      have hd : d = c := head_eq_of_cons_eq h
      exact absurd (hd ▸ mem_cons_self) ha
    | cons d' b =>
      have hdd : d = d' := head_eq_of_cons_eq h
      obtain ⟨rfl, hrest⟩ := ih (fun hm => ha (mem_cons_of_mem _ hm))
        (fun hm => hb (mem_cons_of_mem _ hm)) (tail_eq_of_cons_eq h)
      exact ⟨by rw [hdd], hrest⟩

/-- A text for floats that has what is relied on: the numerator, a point, the denominator. -/
def fractionText (q : ℚ) : PyStr := intText q.num ++ 46 :: decimal q.den

lemma point_not_mem_intText (n : ℤ) : (46 : CodePoint) ∉ intText n := by
  have hdecimal : ∀ m : ℕ, (46 : CodePoint) ∉ decimal m := by
    intro m hm
    have hle : 48 ≤ (46 : CodePoint).val := le_of_mem_decimal hm
    exact absurd hle (by decide)
  rw [intText]
  split_ifs
  · rw [mem_cons, not_or]
    exact ⟨by decide, hdecimal _⟩
  · exact hdecimal _

lemma floatTexts_fractionText : FloatTexts fractionText where
  numeric q c hc := by
    rcases mem_append.mp hc with hc | hc
    · exact isNumeric_intText c hc
    · rcases mem_cons.mp hc with rfl | hc
      · decide
      · exact isNumeric_decimal c hc
  ne_nil _ := append_ne_nil_of_right_ne_nil _ (cons_ne_nil _ _)
  ne_intText q n h := by
    refine point_not_mem_intText n (h ▸ ?_)
    exact mem_append_right _ mem_cons_self
  injective p q h := by
    obtain ⟨hnum, hden⟩ :=
      append_cons_inj (point_not_mem_intText _) (point_not_mem_intText _) h
    exact Rat.ext (intText_injective hnum) (decimal_injective hden)

/-! ## Strings -/

/-- Read one character of a JSON string back. -/
def unescapeChar : PyStr → Option (CodePoint × PyStr)
  | [] => none
  | c :: rest =>
    if c ≠ 92 then some (c, rest)
    else match rest with
      | [] => none
      | k :: rest =>
        if k = 110 then some (10, rest)
        else if k = 114 then some (13, rest)
        else if k = 116 then some (9, rest)
        else if k = 102 then some (12, rest)
        else if k = 98 then some (8, rest)
        else if k = 117 then
          match rest with
          | _ :: _ :: h :: l :: rest => some (Fin.ofNat _ (16 * value h + value l), rest)
          | _ => none
        else some (k, rest)
where
  value (c : CodePoint) : ℕ := if c.val < 58 then c.val - 48 else c.val - 87

/-- An escaped character is read back. -/
lemma unescapeChar_escapeChar (c : CodePoint) (rest : PyStr) :
    unescapeChar (escapeChar c ++ rest) = some (c, rest) := by
  -- the control characters one by one
  have hcontrol : ∀ n < 32, ∀ rest : PyStr,
      unescapeChar (escapeChar (Fin.ofNat 0x110000 n) ++ rest) =
        some (Fin.ofNat 0x110000 n, rest) := by
    intro n hn rest
    interval_cases n <;> rfl
  by_cases hc : c.val < 32
  · have hval : c = Fin.ofNat 0x110000 c.val := by
      rw [Fin.ext_iff, Fin.val_ofNat, Nat.mod_eq_of_lt c.isLt]
    rw [hval]
    exact hcontrol c.val hc rest
  · by_cases h34 : c = 34
    · subst h34
      rfl
    · by_cases h92 : c = 92
      · subst h92
        rfl
      · have hne : ∀ n : CodePoint, n.val < 32 → c ≠ n := by
          rintro n hn rfl
          exact hc hn
        simp only [escapeChar, h34, h92, hne 10 (by decide), hne 13 (by decide),
          hne 9 (by decide), hne 12 (by decide), hne 8 (by decide), hc, if_false]
        simp [unescapeChar, h92]

lemma escapeChar_append_inj (h : escapeChar c ++ u = escapeChar d ++ v) : c = d ∧ u = v := by
  have := congrArg unescapeChar h
  rw [unescapeChar_escapeChar, unescapeChar_escapeChar] at this
  exact Prod.mk.inj (Option.some.inj this)

/-- A quotation mark inside a string is escaped. -/
lemma escapeChar_append_ne : escapeChar c ++ u ≠ 34 :: v := by
  rw [escapeChar]
  split_ifs with h
  all_goals
    intro heq
    have hhead := head_eq_of_cons_eq heq
    first
    | exact absurd hhead (by decide)
    | exact h hhead

/-- The closing quote of a string is the first that is not escaped. -/
lemma flatMap_escapeChar_inj {s t : PyStr}
    (h : s.flatMap escapeChar ++ 34 :: u = t.flatMap escapeChar ++ 34 :: v) : s = t ∧ u = v := by
  induction s generalizing t with
  | nil =>
    cases t with
    | nil => exact ⟨rfl, tail_eq_of_cons_eq h⟩
    | cons d t =>
      rw [flatMap_cons, append_assoc] at h
      exact absurd h.symm escapeChar_append_ne
  | cons c s ih =>
    cases t with
    | nil =>
      rw [flatMap_cons, append_assoc] at h
      exact absurd h escapeChar_append_ne
    | cons d t =>
      rw [flatMap_cons, flatMap_cons, append_assoc, append_assoc] at h
      obtain ⟨rfl, hrest⟩ := escapeChar_append_inj h
      obtain ⟨rfl, huv⟩ := ih hrest
      exact ⟨rfl, huv⟩

lemma quote_append_inj (h : quote s ++ u = quote t ++ v) : s = t ∧ u = v := by
  rw [quote, quote, cons_append, cons_append, append_assoc, append_assoc] at h
  exact flatMap_escapeChar_inj (tail_eq_of_cons_eq h)

/-! ## Values -/

/-- The characters of a number, infinities and NaN included. -/
def isToken (c : CodePoint) : Bool := isNumeric c || c ∈ PyStr.ofString "NaInfity"

/-- What can follow a value: the end of the text, or the mark after an element or a member. -/
def Ends (u : PyStr) : Prop := ∀ c, u.head? = some c → isToken c = false

/-- Two numbers, each followed by what can follow a value. -/
lemma token_append_inj (ha : ∀ c ∈ a, isToken c = true)
    (hb : ∀ c ∈ b, isToken c = true) (hu : Ends u) (hv : Ends v) (h : a ++ u = b ++ v) :
    a = b ∧ u = v := by
  induction a generalizing b with
  | nil =>
    cases b with
    | nil => exact ⟨rfl, h⟩
    | cons d b =>
      have := hu d (by rw [show u = d :: (b ++ v) from h]; rfl)
      rw [hb d mem_cons_self] at this
      nomatch this
  | cons c a ih =>
    cases b with
    | nil =>
      have := hv c (by rw [show v = c :: (a ++ u) from h.symm]; rfl)
      rw [ha c mem_cons_self] at this
      nomatch this
    | cons d b =>
      obtain ⟨hab, huv⟩ := ih (fun x hx => ha x (mem_cons_of_mem _ hx))
        (fun x hx => hb x (mem_cons_of_mem _ hx)) (tail_eq_of_cons_eq h)
      exact ⟨by rw [head_eq_of_cons_eq h, hab], huv⟩

/-- What a value is, by the first character of its text; `none` for the other characters. -/
inductive Kind where
  | null | true | false | number | str | arr | obj | none
  deriving DecidableEq

def kindOf (c : CodePoint) : Kind :=
  if c = 110 then .null else if c = 116 then .true else if c = 102 then .false
  else if c = 34 then .str else if c = 91 then .arr else if c = 123 then .obj
  else if isNumeric c || c = 73 || c = 78 then .number else .none

def kind : Json → Kind
  | .null => .null
  | .bool true => .true
  | .bool false => .false
  | .int _ | .float _ => .number
  | .str _ => .str
  | .arr _ => .arr
  | .obj _ => .obj

lemma kindOf_of_isNumeric (h : isNumeric c = true) : kindOf c = .number := by
  have hne : ∀ d : CodePoint, isNumeric d = false → c ≠ d := by
    rintro d hd rfl
    nomatch h.symm.trans hd
  simp only [kindOf, hne 110 (by decide), hne 116 (by decide), hne 102 (by decide),
    hne 34 (by decide), hne 91 (by decide), hne 123 (by decide), h, if_false, Bool.true_or,
    if_true]

/-- A float that is not finite has a text with a letter that no finite one has. -/
lemma exists_letter (h : ∀ q, x ≠ .finite q) :
    ∃ c ∈ floatText reprFloat x, isNumeric c = false := by
  match x with
  | .finite q => exact absurd rfl (h q)
  | .inf false => exact ⟨73, mem_cons_self, by decide⟩
  | .inf true => exact ⟨73, mem_cons_of_mem _ mem_cons_self, by decide⟩
  | .nan => exact ⟨78, mem_cons_self, by decide⟩

variable {reprFloat}

lemma isToken_floatText (hr : FloatTexts reprFloat) (x : PyFloat) :
    ∀ c ∈ floatText reprFloat x, isToken c = true := by
  match x with
  | .finite q =>
    intro c hc
    rw [isToken, hr.numeric q c hc, Bool.true_or]
  | .inf false =>
    exact all_eq_true.mp (show (PyStr.ofString "Infinity").all isToken = true by decide)
  | .inf true =>
    exact all_eq_true.mp (show (PyStr.ofString "-Infinity").all isToken = true by decide)
  | .nan =>
    exact all_eq_true.mp (show (PyStr.ofString "NaN").all isToken = true by decide)

lemma isToken_intText (n : ℤ) : ∀ c ∈ intText n, isToken c = true := by
  intro c hc
  rw [isToken, isNumeric_intText c hc, Bool.true_or]

section

variable (hr : FloatTexts reprFloat)

include hr

lemma floatText_ne_intText (x : PyFloat) (n : ℤ) : floatText reprFloat x ≠ intText n := by
  intro h
  by_cases hfinite : ∃ q, x = .finite q
  · obtain ⟨q, rfl⟩ := hfinite
    exact hr.ne_intText q n h
  · rw [not_exists] at hfinite
    obtain ⟨c, hc, hnot⟩ := exists_letter reprFloat hfinite
    exact absurd ((isNumeric_intText c (h ▸ hc)).symm.trans hnot) nofun

/-- Floats with one text are one float. -/
lemma floatText_injective : Function.Injective (floatText reprFloat) := by
  -- a finite float and one that is not
  have hmixed : ∀ q x, (∀ p, x ≠ PyFloat.finite p) → reprFloat q ≠ floatText reprFloat x := by
    intro q x hx h
    obtain ⟨c, hc, hnot⟩ := exists_letter reprFloat hx
    exact absurd ((hr.numeric q c (h ▸ hc)).symm.trans hnot) nofun
  intro x y h
  match x, y with
  | .finite p, .finite q => rw [hr.injective h]
  | .finite p, .inf b => exact absurd h (hmixed p _ nofun)
  | .finite p, .nan => exact absurd h (hmixed p _ nofun)
  | .inf b, .finite q => exact absurd h.symm (hmixed q _ nofun)
  | .nan, .finite q => exact absurd h.symm (hmixed q _ nofun)
  | .inf false, .inf false => rfl
  | .inf true, .inf true => rfl
  | .nan, .nan => rfl
  | .inf false, .inf true => exact absurd (head_eq_of_cons_eq h) (by decide)
  | .inf true, .inf false => exact absurd (head_eq_of_cons_eq h) (by decide)
  | .inf false, .nan => exact absurd (head_eq_of_cons_eq h) (by decide)
  | .inf true, .nan => exact absurd (head_eq_of_cons_eq h) (by decide)
  | .nan, .inf false => exact absurd (head_eq_of_cons_eq h) (by decide)
  | .nan, .inf true => exact absurd (head_eq_of_cons_eq h) (by decide)

/-- The first character of a text says what kind of value it is. -/
lemma kindOf_head_text (j : Json) : ∃ c u, text reprFloat j = c :: u ∧ kindOf c = kind j := by
  have hnumber : ∀ s : PyStr, s ≠ [] → (∀ c ∈ s, isNumeric c = true) →
      ∃ c u, s = c :: u ∧ kindOf c = .number := by
    intro s hs hnum
    obtain ⟨c, u, rfl⟩ := exists_cons_of_ne_nil hs
    exact ⟨c, u, rfl, kindOf_of_isNumeric (hnum c mem_cons_self)⟩
  match j with
  | .null => exact ⟨_, _, rfl, rfl⟩
  | .bool true => exact ⟨_, _, rfl, rfl⟩
  | .bool false => exact ⟨_, _, rfl, rfl⟩
  | .int n =>
    rw [text]
    exact hnumber _ (intText_ne_nil n) isNumeric_intText
  | .float (.finite q) =>
    rw [text, floatText]
    exact hnumber _ (hr.ne_nil q) (hr.numeric q)
  | .float (.inf false) => exact ⟨_, _, rfl, rfl⟩
  | .float (.inf true) => exact ⟨_, _, rfl, rfl⟩
  | .float .nan => exact ⟨_, _, rfl, rfl⟩
  | .str s => exact ⟨_, _, rfl, rfl⟩
  | .arr [] => exact ⟨_, _, rfl, rfl⟩
  | .arr (x :: xs) => exact ⟨_, _, by rw [text], rfl⟩
  | .obj [] => exact ⟨_, _, rfl, rfl⟩
  | .obj ((k, x) :: fields) => exact ⟨_, _, by rw [text], rfl⟩

/-- Values whose texts start alike are of one kind. -/
lemma kind_eq (h : text reprFloat a ++ u = text reprFloat b ++ v) : kind a = kind b := by
  obtain ⟨c, x, hc, hkind⟩ := kindOf_head_text hr a
  obtain ⟨d, y, hd, hkind'⟩ := kindOf_head_text hr b
  rw [hc, hd] at h
  rw [← hkind, ← hkind', head_eq_of_cons_eq h]

/-- No value's text starts with a character that no value starts with. -/
lemma text_append_ne (hc : kindOf c = .none) : text reprFloat a ++ u ≠ c :: v := by
  obtain ⟨d, x, hd, hkind⟩ := kindOf_head_text hr a
  intro h
  rw [hd] at h
  rw [head_eq_of_cons_eq h, hc] at hkind
  cases a with
  | bool b => cases b <;> nomatch hkind
  | _ => nomatch hkind

end

/-- Reading a value from the front of a text has one outcome. -/
def Readable (reprFloat : ℚ → PyStr) (a : Json) : Prop :=
  ∀ b u v, Ends u → Ends v → text reprFloat a ++ u = text reprFloat b ++ v → a = b ∧ u = v

lemma ends_cons (h : isToken c = false) : Ends (c :: u) := by
  intro d hd
  rw [← Option.some.inj hd]
  exact h

lemma ends_textList (xs : List Json) (u : PyStr) : Ends (textList reprFloat xs ++ 93 :: u) := by
  cases xs with
  | nil => exact ends_cons (by decide)
  | cons x xs =>
    rw [textList]
    exact ends_cons (by decide)

lemma ends_textFields (fields : List (PyStr × Json)) (u : PyStr) :
    Ends (textFields reprFloat fields ++ 125 :: u) := by
  cases fields with
  | nil => exact ends_cons (by decide)
  | cons m fields =>
    rw [textFields]
    exact ends_cons (by decide)

/-- The further elements of an array, read up to its end. -/
lemma textList_append_inj (hread : ∀ x ∈ xs, Readable reprFloat x)
    (h : textList reprFloat xs ++ 93 :: u = textList reprFloat ys ++ 93 :: v) :
    xs = ys ∧ u = v := by
  induction xs generalizing ys with
  | nil =>
    cases ys with
    | nil => exact ⟨rfl, tail_eq_of_cons_eq h⟩
    | cons y ys => exact absurd (head_eq_of_cons_eq h) (by decide)
  | cons x xs ih =>
    cases ys with
    | nil => exact absurd (head_eq_of_cons_eq h) (by decide)
    | cons y ys =>
      rw [textList, textList, cons_append, cons_append, append_assoc, append_assoc] at h
      obtain ⟨hx, hrest⟩ := hread x mem_cons_self y _ _ (ends_textList _ _)
        (ends_textList _ _) (tail_eq_of_cons_eq h)
      obtain ⟨htail, huv⟩ := ih (fun z hz => hread z (mem_cons_of_mem _ hz)) hrest
      exact ⟨by rw [hx, htail], huv⟩

/-- A member's name and value, each read in one way. -/
lemma member_append_inj (hread : Readable reprFloat x) (hu : Ends u) (hv : Ends v)
    (h : quote k ++ 58 :: (text reprFloat x ++ u) = quote l ++ 58 :: (text reprFloat y ++ v)) :
    k = l ∧ x = y ∧ u = v := by
  obtain ⟨hkl, hrest⟩ := quote_append_inj h
  obtain ⟨hxy, huv⟩ := hread y u v hu hv (tail_eq_of_cons_eq hrest)
  exact ⟨hkl, hxy, huv⟩

/-- The further members of an object, read up to its end. -/
lemma textFields_append_inj (hread : ∀ m ∈ a, Readable reprFloat m.2)
    (h : textFields reprFloat a ++ 125 :: u = textFields reprFloat b ++ 125 :: v) :
    a = b ∧ u = v := by
  induction a generalizing b with
  | nil =>
    cases b with
    | nil => exact ⟨rfl, tail_eq_of_cons_eq h⟩
    | cons n b => exact absurd (head_eq_of_cons_eq h) (by decide)
  | cons m a ih =>
    cases b with
    | nil => exact absurd (head_eq_of_cons_eq h) (by decide)
    | cons n b =>
      obtain ⟨k, x⟩ := m
      obtain ⟨l, y⟩ := n
      rw [textFields, textFields, cons_append, cons_append, append_assoc,
        append_assoc, cons_append, cons_append, append_assoc,
        append_assoc] at h
      obtain ⟨rfl, rfl, hrest⟩ := member_append_inj (hread _ mem_cons_self)
        (ends_textFields _ _) (ends_textFields _ _) (tail_eq_of_cons_eq h)
      obtain ⟨rfl, huv⟩ := ih (fun z hz => hread z (mem_cons_of_mem _ hz)) hrest
      exact ⟨rfl, huv⟩

/-- An object's text ends where its last brace is, whatever follows. -/
lemma object_append_inj (hread : ∀ m ∈ a, Readable reprFloat m.2)
    (h : text reprFloat (.obj a) ++ u = text reprFloat (.obj b) ++ v) :
    a = b ∧ u = v := by
  cases a with
  | nil =>
    cases b with
    | nil => exact ⟨rfl, append_cancel_left h⟩
    | cons m b =>
      rw [text, text] at h
      exact absurd (head_eq_of_cons_eq (tail_eq_of_cons_eq h)) (by decide)
  | cons m a =>
    cases b with
    | nil =>
      rw [text, text] at h
      exact absurd (head_eq_of_cons_eq (tail_eq_of_cons_eq h)) (by decide)
    | cons n b =>
      have hlist : textFields reprFloat (m :: a) ++ 125 :: u =
          textFields reprFloat (n :: b) ++ 125 :: v := by
        rw [text, text] at h
        simpa [textFields] using h
      exact textFields_append_inj hread hlist

/-- A number's text can be read in one way. -/
lemma number_append_inj (hr : FloatTexts reprFloat) (hka : kind a = .number)
    (hkb : kind b = .number) (hu : Ends u) (hv : Ends v)
    (h : text reprFloat a ++ u = text reprFloat b ++ v) : a = b ∧ u = v := by
  have hcases : ∀ j, kind j = .number → (∃ n, j = .int n) ∨ ∃ x, j = .float x := by
    intro j hk
    match j with
    | .int n => exact .inl ⟨n, rfl⟩
    | .float x => exact .inr ⟨x, rfl⟩
    | .null => nomatch hk
    | .bool true => nomatch hk
    | .bool false => nomatch hk
    | .str _ => nomatch hk
    | .arr _ => nomatch hk
    | .obj _ => nomatch hk
  obtain ⟨m, rfl⟩ | ⟨x, rfl⟩ := hcases a hka <;> obtain ⟨n, rfl⟩ | ⟨y, rfl⟩ := hcases b hkb
  · rw [text, text] at h
    obtain ⟨hmn, huv⟩ := token_append_inj (isToken_intText m) (isToken_intText n) hu hv h
    exact ⟨by rw [intText_injective hmn], huv⟩
  · rw [text, text] at h
    exact absurd (token_append_inj (isToken_intText m) (isToken_floatText hr y) hu hv h).1.symm
      (floatText_ne_intText hr y m)
  · rw [text, text] at h
    exact absurd (token_append_inj (isToken_floatText hr x) (isToken_intText n) hu hv h).1
      (floatText_ne_intText hr x n)
  · rw [text, text] at h
    obtain ⟨hxy, huv⟩ := token_append_inj (isToken_floatText hr x) (isToken_floatText hr y) hu hv h
    exact ⟨by rw [floatText_injective hr hxy], huv⟩

/-- The text of a value tells where it ends, and what the value is. -/
lemma readable (hr : FloatTexts reprFloat) (a : Json) : Readable reprFloat a := by
  induction a with
  | null =>
    intro b u v hu hv h
    have hk := kind_eq hr h
    cases b with
    | null => exact ⟨rfl, append_cancel_left h⟩
    | bool b => cases b <;> nomatch hk
    | _ => nomatch hk
  | bool c =>
    intro b u v hu hv h
    have hk := kind_eq hr h
    cases b with
    | bool b =>
      cases b <;> cases c <;> first | exact ⟨rfl, append_cancel_left h⟩ | nomatch hk
    | _ => cases c <;> nomatch hk
  | int | float =>
    intro b u v hu hv h
    exact number_append_inj hr rfl (kind_eq hr h).symm hu hv h
  | str s =>
    intro b u v hu hv h
    have hk := kind_eq hr h
    cases b with
    | str t =>
      obtain ⟨rfl, huv⟩ := quote_append_inj h
      exact ⟨rfl, huv⟩
    | bool b => cases b <;> nomatch hk
    | _ => nomatch hk
  | arr xs ih =>
    intro b u v hu hv h
    have hk := kind_eq hr h
    cases b with
    | arr ys =>
      cases xs with
      | nil =>
        cases ys with
        | nil => exact ⟨rfl, append_cancel_left h⟩
        | cons y ys =>
          simp only [text, cons_append, append_assoc] at h
          exact absurd (tail_eq_of_cons_eq h).symm (text_append_ne hr (by decide))
      | cons x xs =>
        cases ys with
        | nil =>
          simp only [text, cons_append, append_assoc] at h
          exact absurd (tail_eq_of_cons_eq h) (text_append_ne hr (by decide))
        | cons y ys =>
          -- the same as a further element, without the comma
          have hlist : textList reprFloat (x :: xs) ++ 93 :: u =
              textList reprFloat (y :: ys) ++ 93 :: v := by
            rw [text, text] at h
            simpa [textList] using h
          obtain ⟨hxs, huv⟩ := textList_append_inj ih hlist
          exact ⟨by rw [hxs], huv⟩
    | bool b => cases b <;> nomatch hk
    | _ => nomatch hk
  | obj fields ih =>
    intro b u v hu hv h
    have hk := kind_eq hr h
    cases b with
    | obj fields' =>
      obtain ⟨hfields, huv⟩ := object_append_inj ih h
      exact ⟨by rw [hfields], huv⟩
    | bool b => cases b <;> nomatch hk
    | _ => nomatch hk

/-- Two values with one text are equal but for the order of their objects' members. -/
theorem dumpsAll_inj (hr : FloatTexts reprFloat) {a b : Json}
    (h : dumpsAll reprFloat a = dumpsAll reprFloat b) : sorted a = sorted b := by
  have htext : text reprFloat (sorted a) ++ [] = text reprFloat (sorted b) ++ [] := by
    rw [append_nil, append_nil]
    exact h
  exact (readable hr (sorted a) (sorted b) [] [] nofun nofun htext).1

lemma dumps_inj (hr : FloatTexts reprFloat)
    (ha : dumps reprFloat a = some s) (hb : dumps reprFloat b = some s) :
    sorted a = sorted b := by
  rw [dumps, Option.ite_none_right_eq_some] at ha hb
  exact dumpsAll_inj hr ((Option.some.inj ha.2).trans (Option.some.inj hb.2).symm)

end JsonText

end CapabilityMount
