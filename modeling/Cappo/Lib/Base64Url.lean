import Mathlib.Data.Fintype.Basic
import Mathlib.Algebra.GroupWithZero.Nat

/-!
# Base64 without padding

The base64 encoding over an arbitrary alphabet of 64 symbols, without padding, and its
strict decoding: a text is decoded only if it is the encoding of some bytes.

## Main results

* `Base64.decode_encode`: decoding inverts encoding;
* `Base64.exists_symbol_of_decode`: only texts in the alphabet are decoded.
-/

namespace Base64

open Option

instance instNeZeroByte : NeZero 256 := ⟨nofun⟩

/-- The digits of a byte sequence, six bits each, the last ones filled up with zeros. -/
def digits : List (Fin 256) → List ℕ
  | [] => []
  | [a] => [a.val / 4, a.val % 4 * 16]
  | [a, b] => [a.val / 4, a.val % 4 * 16 + b.val / 16, b.val % 16 * 4]
  | a :: b :: c :: rest =>
    a.val / 4 :: (a.val % 4 * 16 + b.val / 16) :: (b.val % 16 * 4 + c.val / 64) :: c.val % 64 ::
      digits rest

variable {bytes : List (Fin 256)}

lemma digits_lt : ∀ d ∈ digits bytes, d < 64 := by
  fun_induction digits bytes with
  | case1 => simp
  | case2 a => simp only [List.mem_cons, List.not_mem_nil, or_false]; omega
  | case3 a b => simp only [List.mem_cons, List.not_mem_nil, or_false]; omega
  | case4 a b c rest ih =>
    intro d hd
    simp only [List.mem_cons] at hd
    rcases hd with rfl | rfl | rfl | rfl | hd
    · omega
    · omega
    · omega
    · omega
    · exact ih d hd

/-- The bytes with the given digits; the digits that only fill up must be zero. -/
def undigits : List ℕ → Option (List (Fin 256))
  | [] => some []
  | [_] => none
  | [p, q] => if q % 16 = 0 then some [Fin.ofNat 256 (p * 4 + q / 16)] else none
  | [p, q, r] =>
    if r % 4 = 0 then
      some [Fin.ofNat 256 (p * 4 + q / 16), Fin.ofNat 256 (q % 16 * 16 + r / 4)]
    else none
  | p :: q :: r :: s :: rest =>
    (undigits rest).map fun bytes =>
      Fin.ofNat 256 (p * 4 + q / 16) :: Fin.ofNat 256 (q % 16 * 16 + r / 4) ::
        Fin.ofNat 256 (r % 4 * 64 + s) :: bytes

lemma undigits_digits (bytes : List (Fin 256)) : undigits (digits bytes) = some bytes := by
  fun_induction digits bytes with
  | case1 => rfl
  | case2 a =>
    have ha : Fin.ofNat 256 (a.val / 4 * 4 + a.val % 4 * 16 / 16) = a := Fin.ext (by
      simp only [Fin.ofNat]; omega)
    rw [undigits, if_pos (by omega), ha]
  | case3 a b =>
    have ha : Fin.ofNat 256 (a.val / 4 * 4 + (a.val % 4 * 16 + b.val / 16) / 16) = a :=
      Fin.ext (by simp only [Fin.ofNat]; omega)
    have hb : Fin.ofNat 256 ((a.val % 4 * 16 + b.val / 16) % 16 * 16 + b.val % 16 * 4 / 4) = b :=
      Fin.ext (by simp only [Fin.ofNat]; omega)
    rw [undigits, if_pos (by omega), ha, hb]
  | case4 a b c rest ih =>
    have ha : Fin.ofNat 256 (a.val / 4 * 4 + (a.val % 4 * 16 + b.val / 16) / 16) = a :=
      Fin.ext (by simp only [Fin.ofNat]; omega)
    have hb : Fin.ofNat 256 ((a.val % 4 * 16 + b.val / 16) % 16 * 16 +
        (b.val % 16 * 4 + c.val / 64) / 4) = b :=
      Fin.ext (by simp only [Fin.ofNat]; omega)
    have hc : Fin.ofNat 256 ((b.val % 16 * 4 + c.val / 64) % 4 * 64 + c.val % 64) = c :=
      Fin.ext (by simp only [Fin.ofNat]; omega)
    rw [undigits, ih, map_some, ha, hb, hc]

variable {σ : Type*} [DecidableEq σ] (symbol : Fin 64 → σ)

/-- The encoding of a byte sequence over the alphabet `symbol`. -/
def encode (bytes : List (Fin 256)) : List σ :=
  (digits bytes).map fun d => symbol (Fin.ofNat 64 d)

/-- The digit a symbol stands for. -/
def digit? (c : σ) : Option ℕ :=
  ((List.finRange 64).find? fun d => symbol d = c).map Fin.val

/-- The bytes a text encodes; none if it is not the encoding of any. -/
def decode (text : List σ) : Option (List (Fin 256)) :=
  (text.mapM (digit? symbol)).bind undigits

variable {symbol}

lemma digit?_symbol (hinj : Function.Injective symbol) (d : Fin 64) :
    digit? symbol (symbol d) = some d.val := by
  have hsome : ((List.finRange 64).find? fun e => symbol e = symbol d).isSome := by
    simp only [List.find?_isSome]
    exact ⟨d, List.mem_finRange d, by simp⟩
  obtain ⟨e, he⟩ := isSome_iff_exists.mp hsome
  have : e = d := hinj (by simpa using List.find?_some he)
  rw [digit?, he, this, map_some]

/-- Decoding inverts encoding. -/
theorem decode_encode (hinj : Function.Injective symbol) (bytes : List (Fin 256)) :
    decode symbol (encode symbol bytes) = some bytes := by
  have hdigits : ∀ ds : List ℕ, (∀ d ∈ ds, d < 64) →
      (ds.map fun d => symbol (Fin.ofNat 64 d)).mapM (digit? symbol) = some ds := by
    intro ds
    induction ds with
    | nil => simp
    | cons d ds ih =>
      intro h
      have hd : (Fin.ofNat 64 d).val = d := Nat.mod_eq_of_lt (h d List.mem_cons_self)
      rw [List.map_cons, List.mapM_cons, digit?_symbol hinj, hd,
        ih fun e he => h e (List.mem_cons_of_mem _ he)]
      rfl
  rw [decode, encode, hdigits _ digits_lt, bind_some, undigits_digits]

/-- A text that can be decoded is written in the alphabet. -/
theorem exists_symbol_of_decode {text : List σ} (h : decode symbol text = some bytes) :
    ∀ c ∈ text, ∃ d, symbol d = c := by
  obtain ⟨ds, hds, -⟩ := bind_eq_some_iff.mp h
  clear h
  induction text generalizing ds with
  | nil => simp
  | cons c text ih =>
    simp only [List.mapM_cons, bind_eq_bind, bind_eq_some_iff, pure_def] at hds
    obtain ⟨d, hd, rest, hrest, -⟩ := hds
    obtain ⟨e, he, -⟩ := map_eq_some_iff.mp hd
    intro x hx
    rcases List.mem_cons.mp hx with rfl | hx
    · exact ⟨e, by simpa using List.find?_some he⟩
    · exact ih rest hrest x hx

end Base64
