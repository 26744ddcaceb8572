import Mathlib.Data.Nat.Digits.Lemmas
import Cappo.CapabilityMount.JsonText
import Cappo.Lib.Checks
import Cappo.VdbC1.Canon

/-!
# Records that state their own length

`SandboxFileAppendConnector._append_record` (`execution/sandbox_file_connector.py`) appends one line
to its file. The receipt inside the line says how many bytes the line has, and the digits of that
number are among those bytes: the line is rendered up to three times, each time with the length of
the line before, and once more with the length found last.

`os.write` may take fewer bytes than it is given. `os.open` and `os.fsync` are left out: when one of
them raises there is no receipt.

## Main results

* `iterate_length_fixed`: three rounds reach a length that a fourth one leaves as it is;
* `appendRecord_bytesWritten`: the receipt, and with it the line, states how much was appended.
-/

namespace Execution.SandboxFile

open VdbC1
open CapabilityMount.JsonText
open FieldMap (lookup sort)
open Checks

/-- What the connector raises. -/
inductive Raised where
  | keyError (key : PyStr)
  | unicodeEncodeError
  | shortAppendWrite
  deriving DecidableEq

/-- The UTF-8 encoding of a code point that is no surrogate. -/
def utf8Char (c : CodePoint) : Bytes :=
  let continuation (k : ℕ) : Fin 256 := Fin.ofNat _ (128 + c.val / 64 ^ k % 64)
  if c.val < 0x80 then [Fin.ofNat _ c.val]
  else if c.val < 0x800 then [Fin.ofNat _ (192 + c.val / 64), continuation 0]
  else if c.val < 0x10000 then
    [Fin.ofNat _ (224 + c.val / 64 ^ 2), continuation 1, continuation 0]
  else [Fin.ofNat _ (240 + c.val / 64 ^ 3), continuation 2, continuation 1, continuation 0]

/-- `s.encode("utf-8")`. -/
def utf8 (s : PyStr) : Except Raised Bytes :=
  if s.encodable then .ok (s.flatMap utf8Char) else .error .unicodeEncodeError

/-- The members that are taken from the body are as the body has them. -/
structure AppendReceipt where
  connectorId : PyStr
  executionId : Json
  operationId : Json
  resource : PyStr
  actionHash : Json
  recordHash : PyStr
  bytesWritten : ℕ
  timestamp : Json
  compensatesExecutionId : Json

/-- `as_dict`. The text of a dictionary does not depend on the order of its members, and the length
stands first here. -/
def AppendReceipt.asDict (r : AppendReceipt) : List (PyStr × Json) :=
  [("bytes_written", .int r.bytesWritten), ("connector_id", .str r.connectorId),
    ("execution_id", r.executionId), ("operation_id", r.operationId),
    ("resource", .str r.resource), ("action_hash", r.actionHash),
    ("record_hash", .str r.recordHash), ("timestamp", r.timestamp),
    ("compensates_execution_id", r.compensatesExecutionId)]

/-- The loop of `_append_record`: render with the length of the last payload, and stop early when
the length is right. Only the length of the loop's receipt changes. -/
def settle (render : ℕ → Except Raised Bytes) : ℕ → Bytes → Except Raised Bytes
  | 0, payload => .ok payload
  | rounds + 1, payload => do
    let candidate ← render payload.length
    if candidate.length = payload.length then return candidate else settle render rounds candidate

/-- The connector's resource and what it calls: `hashlib.sha256`, `float.__repr__`, and `os.write`,
which answers how many bytes it took. -/
structure Connector where
  resource : PyStr
  sha256 : Bytes → Bytes
  reprFloat : ℚ → PyStr
  write : Bytes → ℕ

namespace Connector

variable (c : Connector) (body : List (PyStr × Json))

/-- `_canonical`. -/
def canonical (value : Json) : Except Raised Bytes := utf8 (dumpsAll c.reprFloat value)

/-- `{**body, "record_hash": record_hash, "receipt": receipt.as_dict()}` as a line. -/
def line (receipt : AppendReceipt) : Except Raised Bytes := do
  let record : Json := .obj (("receipt", .obj receipt.asDict) ::
    ("record_hash", .str receipt.recordHash) :: body)
  return (← c.canonical record) ++ [10]

/-- `body[key]`. -/
def member (key : PyStr) : Except Raised Json := ofOption (.keyError key) (lookup key body)

/-- The receipt before its length is known. -/
def receiptOf : Except Raised AppendReceipt := do
  let recordHash := PyStr.hex (c.sha256 (← c.canonical (.obj body)))
  return { connectorId := "sandbox_file_append", executionId := ← member body "execution_id",
           operationId := ← member body "operation_id", resource := c.resource,
           actionHash := ← member body "action_hash", recordHash, bytesWritten := 0,
           timestamp := ← member body "timestamp",
           compensatesExecutionId :=
             (lookup (PyStr.ofString "compensates_execution_id") body).getD .null }

/-- The receipt that `_append_record` returns and the line it writes. -/
def prepare : Except Raised (AppendReceipt × Bytes) := do
  let receipt ← c.receiptOf body
  let payload ← settle (fun n => c.line body { receipt with bytesWritten := n }) 3 []
  let receipt := { receipt with bytesWritten := payload.length }
  return (receipt, ← c.line body receipt)

/-- `_append_record` on a file: the file it leaves and its result. -/
def appendRecord (file : Bytes) : Bytes × Except Raised AppendReceipt :=
  match c.prepare body with
  | .error e => (file, .error e)
  | .ok (receipt, payload) =>
    let written := c.write payload
    (file ++ payload.take written,
      if written ≠ payload.length then .error .shortAppendWrite else .ok receipt)

end Connector

/-! ## The length as a fixed point -/

lemma length_decimal_le_iff (hk : 0 < k) : (decimal n).length ≤ k ↔ n < 10 ^ k := by
  by_cases hn : n = 0
  · simp [decimal, hn]
    omega
  · simp [decimal, hn, Nat.digits_length_le_iff]

lemma length_decimal_pos (n : ℕ) : 0 < (decimal n).length :=
  List.length_pos_iff.mpr (decimal_ne_nil n)

lemma length_decimal_mono (h : m ≤ n) : (decimal m).length ≤ (decimal n).length :=
  (length_decimal_le_iff (length_decimal_pos n)).mpr
    (h.trans_lt ((length_decimal_le_iff (length_decimal_pos n)).mp le_rfl))

/-- The digits of the number add one to the length at most once after the first round. -/
theorem iterate_length_fixed (base : ℕ) : Function.IsFixedPt (fun n => base + (decimal n).length)
      ((fun n => base + (decimal n).length)^[3] 0) := by
  set k := (decimal (base + 1)).length with hk
  have hpos : 0 < k := length_decimal_pos _
  have hlt : base + 1 < 10 ^ k := (length_decimal_le_iff hpos).mp le_rfl
  have hgrow : k < 10 ^ k := Nat.lt_pow_self (by decide)
  -- a number with at most `k + 1` more than `base` has at most one digit more
  have hupper : ∀ d ≤ k + 1, (decimal (base + d)).length ≤ k + 1 := fun d hd =>
    (length_decimal_le_iff k.succ_pos).mpr (by rw [pow_succ]; omega)
  have hlower : k ≤ (decimal (base + k)).length := length_decimal_mono (by omega)
  change base + _ = _
  simp only [Function.iterate_succ_apply, Function.iterate_zero_apply,
    show (decimal 0).length = 1 from rfl, ← hk]
  rcases Nat.eq_or_lt_of_le hlower with heq | hlt'
  · rw [← heq, ← heq]
  · have hnext : (decimal (base + k)).length = k + 1 := le_antisymm (hupper k (by omega)) hlt'
    have hlast : (decimal (base + (k + 1))).length = k + 1 :=
      le_antisymm (hupper _ le_rfl) (hnext ▸ length_decimal_mono (by omega))
    rw [hnext, hlast]

/-- However early the loop stops, it has the length of all its rounds. -/
lemma length_settle (hf : ∀ n line, render n = .ok line → line.length = f n)
    (h : settle render rounds payload = .ok last) : last.length = f^[rounds] payload.length := by
  induction rounds generalizing payload with
  | zero => cases h; rfl
  | succ rounds ih =>
    obtain ⟨candidate, hc, h⟩ := bind_eq_ok.mp h
    have hlength := hf _ _ hc
    split_ifs at h with hstop
    · cases h
      rw [hstop] at hlength ⊢
      exact (Function.iterate_fixed hlength.symm _).symm
    · rw [ih h, hlength, Function.iterate_succ_apply]

/-! ## Lines -/

lemma textFields_append (r : ℚ → PyStr) (a b : List (PyStr × Json)) :
    textFields r (a ++ b) = textFields r a ++ textFields r b := by
  induction a with
  | nil => rfl
  | cons m a ih => simp [textFields, ih]

/-- The text of an object around the value of one of its members. -/
lemma exists_dumpsAll_cons (r : ℚ → PyStr) (k : PyStr) (fields : List (PyStr × Json)) :
    ∃ u v, ∀ x, dumpsAll r (.obj ((k, x) :: fields)) = u ++ (dumpsAll r x ++ v) := by
  obtain ⟨a, b, hsplit⟩ := FieldMap.exists_insert k (sort (Json.normFields id fields))
  have hsorted x : sorted (.obj ((k, x) :: fields)) = .obj (a ++ (k, sorted x) :: b) := by
    rw [← hsplit]
    rfl
  simp only [dumpsAll, hsorted]
  cases a with
  | nil => exact ⟨123 :: (quote k ++ [58]), textFields r b ++ [125], fun x => by simp [text]⟩
  | cons m a =>
    exact ⟨123 :: (quote m.1 ++ 58 :: (text r m.2 ++ (textFields r a ++ 44 :: (quote k ++ [58])))),
      textFields r b ++ [125], fun x => by simp [text, textFields, textFields_append]⟩

lemma ascii_of_mem_decimal (hd : d ∈ decimal n) : d.val < 0x80 := by
  have h := isNumeric_decimal d hd
  simp only [isNumeric, Bool.or_eq_true, Bool.and_eq_true, decide_eq_true_eq, Fin.ext_iff] at h
  omega

lemma length_utf8_decimal (n : ℕ) : ((decimal n).flatMap utf8Char).length = (decimal n).length := by
  have hone : ∀ d ∈ decimal n, (utf8Char d).length = 1 := fun d hd => by
    rw [utf8Char, if_pos (ascii_of_mem_decimal hd), List.length_singleton]
  rw [List.length_flatMap, List.map_congr_left hone]
  simp

lemma encodable_decimal (n : ℕ) : PyStr.encodable (decimal n) = true := by
  simp only [PyStr.encodable, List.all_eq_true, PyStr.isSurrogate]
  intro d hd
  have := ascii_of_mem_decimal hd
  simp
  omega

/-- The number that a line states stands at one place of it, and nothing else depends on it. -/
lemma exists_line_eq (c : Connector) (body : List (PyStr × Json)) (receipt : AppendReceipt) :
    ∃ u v, ∀ n, c.line body { receipt with bytesWritten := n } =
      (utf8 (u ++ (decimal n ++ v)) >>= fun record => pure (record ++ [10])) := by
  obtain ⟨u, v, houter⟩ := exists_dumpsAll_cons c.reprFloat "receipt"
    (("record_hash", .str receipt.recordHash) :: body)
  obtain ⟨u', v', hinner⟩ := exists_dumpsAll_cons c.reprFloat "bytes_written" receipt.asDict.tail
  refine ⟨u ++ u', v' ++ v, fun n => ?_⟩
  have hdigits : dumpsAll c.reprFloat (.int n) = decimal n := by
    simp [dumpsAll, sorted, Json.normWith, text, intText]
  have hdict : dumpsAll c.reprFloat (.obj { receipt with bytesWritten := n }.asDict) =
      u' ++ (decimal n ++ v') := hdigits ▸ hinner (.int n)
  rw [Connector.line, Connector.canonical, houter, hdict]
  simp only [List.append_assoc]

variable {c : Connector} {body : List (PyStr × Json)} {receipt : AppendReceipt}

/-- Without the digits, the length of a line does not depend on the number it states. -/
lemma exists_length_line (c : Connector) (body : List (PyStr × Json)) (receipt : AppendReceipt) :
    ∃ base, ∀ n line, c.line body { receipt with bytesWritten := n } = .ok line →
      line.length = base + (decimal n).length := by
  obtain ⟨u, v, hline⟩ := exists_line_eq c body receipt
  refine ⟨((u ++ v).flatMap utf8Char).length + 1, fun n line h => ?_⟩
  rw [hline, utf8] at h
  split_ifs at h
  · cases h
    simp only [List.flatMap_append, List.length_append, length_utf8_decimal, List.length_singleton]
    omega
  · cases h

/-- Every line of a receipt can be rendered when one can. -/
lemma exists_line (n : ℕ) (h : c.line body receipt = .ok line) :
    ∃ line, c.line body { receipt with bytesWritten := n } = .ok line := by
  obtain ⟨u, v, hline⟩ := exists_line_eq c body receipt
  have h := (hline receipt.bytesWritten).symm.trans h
  rw [hline]
  simp only [utf8, PyStr.encodable_append, encodable_decimal, Bool.true_and] at h ⊢
  split_ifs at h ⊢
  · exact ⟨_, rfl⟩
  · cases h

lemma exists_settle (h : ∀ n, ∃ line, render n = .ok line)
    (rounds : ℕ) (payload : Bytes) : ∃ last, settle render rounds payload = .ok last := by
  induction rounds generalizing payload with
  | zero => exact ⟨_, rfl⟩
  | succ rounds ih =>
    obtain ⟨candidate, hc⟩ := h payload.length
    rw [settle, hc, ok_bind]
    split_ifs
    · exact ⟨_, rfl⟩
    · exact ih _

lemma prepare_eq_ok (h : c.prepare body = .ok (receipt, payload)) :
    c.line body receipt = .ok payload ∧ receipt.bytesWritten = payload.length := by
  obtain ⟨first, -, h⟩ := bind_eq_ok.mp h
  obtain ⟨last, hsettle, h⟩ := bind_eq_ok.mp h
  obtain ⟨line, hline, h⟩ := bind_eq_ok.mp h
  cases h
  obtain ⟨base, hbase⟩ := exists_length_line c body first
  refine ⟨hline, ?_⟩
  rw [hbase _ _ hline, length_settle hbase hsettle]
  exact (iterate_length_fixed base).symm

/-- `_append_record` returns when the operating system takes the whole line and the body has the
members and the encoding that a receipt needs; and whenever it returns, the receipt states how many
bytes were appended, in the line as well as in the result. -/
theorem appendRecord_bytesWritten (c : Connector) (body : List (PyStr × Json)) (file : Bytes) :
    (∀ file' receipt, c.appendRecord body file = (file', .ok receipt) →
      ∃ payload, file' = file ++ payload ∧ c.line body receipt = .ok payload ∧
        receipt.bytesWritten = payload.length) ∧
    (∀ receipt line, c.receiptOf body = .ok receipt → c.line body receipt = .ok line →
      (∀ payload, c.write payload = payload.length) →
      ∃ file' receipt', c.appendRecord body file = (file', .ok receipt')) := by
  constructor
  · intro file' receipt h
    rw [Connector.appendRecord] at h
    split at h
    · cases h
    · next _ payload hprepare =>
      obtain ⟨hfile, hreceipt⟩ := Prod.mk.inj h
      split_ifs at hreceipt with hwritten
      cases hreceipt
      refine ⟨payload, ?_, prepare_eq_ok hprepare⟩
      rw [← hfile, not_not.mp hwritten, List.take_length]
  · intro receipt line hreceipt hline hwrite
    obtain ⟨last, hsettle⟩ := exists_settle (fun n => exists_line n hline) 3 []
    obtain ⟨payload, hpayload⟩ := exists_line last.length hline
    have hprepare : c.prepare body = .ok ({ receipt with bytesWritten := last.length }, payload) :=
      bind_eq_ok.mpr ⟨_, hreceipt, bind_eq_ok.mpr ⟨_, hsettle, bind_eq_ok.mpr ⟨_, hpayload, rfl⟩⟩⟩
    rw [Connector.appendRecord, hprepare]
    simp only [hwrite, ne_eq, not_true_eq_false, ↓reduceIte]
    exact ⟨_, _, rfl⟩

end Execution.SandboxFile
