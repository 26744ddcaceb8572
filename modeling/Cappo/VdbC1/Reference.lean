import Mathlib.Logic.Equiv.List
import Mathlib.Data.Rat.Denumerable
import Cappo.VdbC1.Canon

/-!
# A platform that satisfies the laws

The laws of `Platform` and the assumptions made about digests and signatures hold together:
`Platform.reference` satisfies all of them, with an injective canonical encoding in the
place of RFC 8785 followed by SHA-256.

## Main results

* `Platform.reference_digestInjective`: its digests determine the canonical value;
* `Platform.reference_unforged`: a trust store with one key, under which no value has a forged
  signature.
-/

namespace VdbC1

open List Option

namespace Json

/-! ## An injective encoding of values -/

mutual

/-- The value as a sequence of numbers, from which it can be read back. -/
def tokens : Json → List ℕ
  | .null => [0]
  | .bool b => [1, Encodable.encode b]
  | .int n => [2, Encodable.encode n]
  | .float (.finite q) => [3, Encodable.encode q]
  | .float (.inf b) => [4, Encodable.encode b]
  | .float .nan => [5]
  | .str s => [6, Encodable.encode s]
  | .arr xs => 7 :: tokensList xs
  | .obj fields => 8 :: tokensFields fields

/-- `tokens` over the elements of an array. -/
def tokensList : List Json → List ℕ
  | [] => [0]
  | x :: xs => 1 :: (tokens x ++ tokensList xs)

/-- `tokens` over the members of an object. -/
def tokensFields : List (PyStr × Json) → List ℕ
  | [] => [0]
  | (k, x) :: fields => 1 :: Encodable.encode k :: (tokens x ++ tokensFields fields)

end

private lemma tokensList_append_inj
    (h : ∀ x ∈ xs, ∀ b s t, tokens x ++ s = tokens b ++ t → x = b ∧ s = t) :
    ∀ ys s t, tokensList xs ++ s = tokensList ys ++ t → xs = ys ∧ s = t := by
  induction xs with
  | nil =>
    intro ys s t heq
    cases ys with
    | nil => simpa [tokensList] using heq
    | cons y ys => simp [tokensList] at heq
  | cons x xs ih =>
    intro ys s t heq
    cases ys with
    | nil => simp [tokensList] at heq
    | cons y ys =>
      simp only [tokensList, cons_append, append_assoc, List.cons.injEq, true_and] at heq
      obtain ⟨rfl, htail⟩ := h x mem_cons_self y _ _ heq
      obtain ⟨rfl, hst⟩ := ih (fun z hz => h z (mem_cons_of_mem _ hz)) ys s t htail
      exact ⟨rfl, hst⟩

private lemma tokensFields_append_inj
    (h : ∀ m ∈ xs, ∀ b s t, tokens m.2 ++ s = tokens b ++ t → m.2 = b ∧ s = t) :
    ∀ ys s t, tokensFields xs ++ s = tokensFields ys ++ t → xs = ys ∧ s = t := by
  induction xs with
  | nil =>
    intro ys s t heq
    cases ys with
    | nil => simpa [tokensFields] using heq
    | cons y ys => simp [tokensFields] at heq
  | cons x xs ih =>
    intro ys s t heq
    cases ys with
    | nil => simp [tokensFields] at heq
    | cons y ys =>
      simp only [tokensFields, cons_append, append_assoc, List.cons.injEq, true_and,
        Encodable.encode_inj] at heq
      obtain ⟨hkey, heq⟩ := heq
      obtain ⟨hval, htail⟩ := h x mem_cons_self y.2 _ _ heq
      obtain ⟨rfl, hst⟩ := ih (fun z hz => h z (mem_cons_of_mem _ hz)) ys s t htail
      exact ⟨by rw [Prod.ext hkey hval], hst⟩

/-- The tokens of a value are told apart from whatever follows them. -/
lemma tokens_append_inj (a : Json) : ∀ b s t, tokens a ++ s = tokens b ++ t → a = b ∧ s = t := by
  induction a with
  | null | bool | int | str =>
    intro b s t h
    rcases b with _ | _ | _ | (_ | _ | _) | _ | _ | _ <;> simp_all [tokens]
  | float f =>
    intro b s t h
    rcases f with _ | _ | _ <;> rcases b with _ | _ | _ | (_ | _ | _) | _ | _ | _ <;>
      simp_all [tokens]
  | arr xs ih =>
    intro b s t h
    rcases b with _ | _ | _ | (_ | _ | _) | _ | ys | _ <;> simp [tokens] at h
    exact (tokensList_append_inj ih ys s t h).imp_left (congrArg _)
  | obj xs ih =>
    intro b s t h
    rcases b with _ | _ | _ | (_ | _ | _) | _ | _ | ys <;> simp [tokens] at h
    exact (tokensFields_append_inj ih ys s t h).imp_left (congrArg _)

lemma tokens_injective : Function.Injective tokens := fun a b h =>
  (tokens_append_inj a b [] [] (by rw [h])).1

/-- The row an entry stands for. -/
def row? : Json → Option (PyStr × PyStr)
  | .arr [.str k, .str v] => some (k, v)
  | _ => none

lemma entry_of_row? (h : j.row? = some r) : entry r = j := by
  unfold row? at h
  split at h
  · rw [← some.inj h, entry]
  · simp at h

end Json

namespace PyStr

lemma hex_injective : Function.Injective hex := by
  have hdigit : ∀ m < 16, ∀ n < 16, hex.digit m = hex.digit n → m = n := by decide
  intro a b h
  induction a generalizing b with
  | nil =>
    cases b with
    | nil => rfl
    | cons y b => simp [hex] at h
  | cons x a ih =>
    cases b with
    | nil => simp [hex] at h
    | cons y b =>
      simp only [hex, flatMap_cons, cons_append, nil_append, List.cons.injEq] at h
      obtain ⟨hhi, hlo, htail⟩ := h
      have h1 := hdigit _ (by omega) _ (by omega) hhi
      have h2 := hdigit _ (by omega) _ (by omega) hlo
      rw [ih htail, Fin.ext (show x.val = y.val by omega)]

end PyStr

namespace Platform

/-- The canonical encoding of the reference platform, for values RFC 8785 encodes. -/
def referenceJcs (j : Json) : Option Bytes :=
  if j.encodable then some (List.replicate (Encodable.encode j.canonical.tokens) 0) else none

lemma referenceJcs_isSome (j : Json) : (referenceJcs j).isSome = j.encodable := by
  unfold referenceJcs
  split_ifs with h <;> simp [h]

lemma referenceJcs_congr (a b : Json) (h : a.canonical = b.canonical) :
    referenceJcs a = referenceJcs b := by
  rw [referenceJcs, referenceJcs, Json.encodable, Json.encodable, h]

/-- The sort of the reference platform: it orders lists of entries and nothing else. -/
def referenceSorted (xs : List Json) : Option (List Json) :=
  (xs.mapM Json.row?).map fun t => (KeyedTable.ordered t).map entry

lemma mapM_row?_entry (t : List (PyStr × PyStr)) : (t.map entry).mapM Json.row? = some t := by
  induction t with
  | nil => rfl
  | cons r t ih =>
    rw [map_cons, mapM_cons, ih]
    rfl

lemma map_entry_of_mapM {xs : List Json} {t : List (PyStr × PyStr)}
    (h : xs.mapM Json.row? = some t) : t.map entry = xs := by
  induction xs generalizing t with
  | nil =>
    obtain rfl : [] = t := by simpa using h
    rfl
  | cons x xs ih =>
    simp only [mapM_cons, Option.bind_eq_bind, Option.bind_eq_some_iff, Option.pure_def,
      Option.some.injEq] at h
    obtain ⟨r, hr, t', ht', rfl⟩ := h
    rw [map_cons, ih ht', Json.entry_of_row? hr]

lemma referenceSorted_perm (xs ys : List Json) (h : referenceSorted xs = some ys) : ys.Perm xs := by
  obtain ⟨t, ht, rfl⟩ := map_eq_some_iff.mp h
  rw [← map_entry_of_mapM ht]
  exact (KeyedTable.ordered_perm t).map entry

/-- A platform that satisfies the laws. A time is written as a text whose length counts its
milliseconds after the point, and a key signs by writing itself before the message. -/
def reference : Platform where
  jcs := referenceJcs
  sha256 := id
  SecretKey := Bytes
  publicRaw := id
  sign sk m := sk ++ m
  verify pub sig m := decide (sig = pub ++ m)
  sorted := referenceSorted
  isoformat u := 0x2E :: List.replicate (Equiv.intEquivNat (u / 1000)) 48
  fromisoformat s := some (Equiv.intEquivNat.symm (s.length - 7) * 1000)
  intBase16 s := decide (0x23 ∉ s)
  reprFloat _ := "0.0"
  jcs_isSome := referenceJcs_isSome
  jcs_congr := referenceJcs_congr
  verify_sign sk m := by simp
  sorted_perm := referenceSorted_perm
  sorted_entries t := by rw [referenceSorted, mapM_row?_entry, map_some]
  encodable_isoformat u := by
    simp [PyStr.encodable, PyStr.isSurrogate]
  fromisoformat_isoformat u := by
    have hlen : (PyStr.ofString "+00:00").length = 6 := by decide
    rw [length_append, length_cons, length_replicate, hlen, Nat.add_assoc,
      Nat.add_sub_cancel, Equiv.symm_apply_apply]
  isoformat_fraction u := mem_cons_self
  isoformat_offset u := by simp [mem_replicate]
  intBase16_digits s := of_decide_eq_true
  encodable_reprFloat _ := PyStr.encodable_ofString _

/-- The digests of the reference platform determine the canonical value. -/
theorem reference_digestInjective : reference.DigestInjective := by
  intro a b d ha hb
  obtain ⟨x, hx, hxd⟩ := map_eq_some_iff.mp ha
  obtain ⟨y, hy, hyd⟩ := map_eq_some_iff.mp hb
  have hxy : x = y := PyStr.hex_injective (append_cancel_left (hxd.trans hyd.symm))
  have ha' : List.replicate (Encodable.encode a.canonical.tokens) 0 = x := by
    simp only [reference, referenceJcs] at hx
    split_ifs at hx
    exact some.inj hx
  have hb' : List.replicate (Encodable.encode b.canonical.tokens) 0 = y := by
    simp only [reference, referenceJcs] at hy
    split_ifs at hy
    exact some.inj hy
  have hlen := congrArg List.length (ha'.trans (hxy.trans hb'.symm))
  rw [length_replicate, length_replicate] at hlen
  exact Json.tokens_injective (Encodable.encode_injective hlen)

/-- A trust store that pins one key of the reference platform. -/
def referenceKeys : List (PyStr × PyStr) := [(reference.keyId [], b64u [])]

lemma referenceKeys_trusted :
    reference.trustedKey referenceKeys (reference.keyId []) = some [] := by
  simp [trustedKey, referenceKeys]

/-- The only key that is pinned is the empty one, so whatever verifies is by its holder. -/
theorem reference_unforged (j : Json) :
    reference.Unforged (fun pub _ => pub = []) referenceKeys j := by
  intro kid pub text sig m hkey _ _ _
  simp only [trustedKey, referenceKeys, FieldMap.lookup_cons, FieldMap.lookup_nil,
    bind_eq_bind, bind_eq_some_iff] at hkey
  obtain ⟨text', hlookup, pub', hpub', hkey⟩ := hkey
  split_ifs at hlookup hkey
  cases hlookup
  cases hkey
  rw [unb64u_b64u] at hpub'
  exact (some.inj hpub').symm

end Platform

end VdbC1
