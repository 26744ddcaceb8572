import Cappo.Lib.Durable
import Cappo.VdbC1.Verify

/-!
# The witness

`witness.py`: a role of its own, with its own key and its own directory, that reads a journal
file it does not trust and countersigns its head. `observe` is a procedure on the directory
(`WitnessDir`) that can be killed before any of its durable writes: the evidence of a fork,
the line appended to `checkpoints.jsonl`, the replacement of `state.json`.

The state is kept twice, in the running process and in `state.json`; a restart reads the
file.
-/

namespace VdbC1

open Checks

namespace Json

/-! ## Sequence numbers

The witness stores the `seq` of the last record as it was parsed: an integer, a boolean or a
float that compares equal to the record's position. -/

/-- Python's `n <= j` for a length `n`. -/
def lenLe (n : ℕ) : Json → Option Bool
  | .bool b => some (decide (n ≤ if b then 1 else 0))
  | .int m => some (decide ((n : ℤ) ≤ m))
  | .float (.finite q) => some (decide ((n : ℚ) ≤ q))
  | .float (.inf negative) => some !negative
  | .float .nan => some false
  | _ => none

/-- Python's `j < n` for a length `n`. -/
def ltLen (n : ℕ) : Json → Option Bool
  | .bool b => some (decide ((if b then 1 else 0) < n))
  | .int m => some (decide (m < (n : ℤ)))
  | .float (.finite q) => some (decide (q < (n : ℚ)))
  | .float (.inf negative) => some negative
  | .float .nan => some false
  | _ => none

/-- The position a Python index means in a list of length `n`. -/
def position (n : ℕ) (i : ℤ) : ℤ := if 0 ≤ i then i else n + i

/-- Python's `xs[j]`. -/
def at? (xs : List Json) (j : Json) : Option Json := do
  let i ← j.index?
  if position xs.length i < 0 then none else xs[(position xs.length i).toNat]?

/-- Python's `xs[:j]`. -/
def upTo? (xs : List Json) (j : Json) : Option (List Json) :=
  j.index?.map fun i => xs.take (position xs.length i).toNat

/-- Python's `xs[j:]`. -/
def from? (xs : List Json) (j : Json) : Option (List Json) :=
  j.index?.map fun i => xs.drop (position xs.length i).toNat

end Json

/-- The text of a number in an f-string. -/
def numberText (P : Platform) : Json → Option PyStr
  | .bool b => some (if b then "True" else "False")
  | .int n => some (toString n)
  | .float x => some (P.reprFloat x)
  | _ => none

/-! ## The directory -/

/-- The reasons of `WitnessRefused`. -/
inductive Refusal where
  | tornJournal | chain | empty | differentJournal | rollback | fork | invalidFinality
  deriving DecidableEq

/-- The reason's text. -/
def Refusal.text : Refusal → String
  | tornJournal => "E_TORN_JOURNAL"
  | chain => "E_CHAIN"
  | empty => "E_EMPTY"
  | differentJournal => "E_DIFFERENT_JOURNAL"
  | rollback => "E_ROLLBACK"
  | fork => "E_FORK"
  | invalidFinality => "E_INVALID_FINALITY"

/-- Why `observe` stops without returning: `WitnessRefused`, another exception, or the end of
the process. -/
inductive WitnessFault where
  | refused (reason : Refusal)
  | raised
  | killed
  deriving DecidableEq

/-- A journal file as `_read_journal` sees it: whether its data is empty or ends with a newline,
and what `json.loads` makes of each line (`none` where it raises). -/
structure JournalFile where
  complete : Bool
  lines : List (Option Json)

/-- `state.json`: the last head that was signed. -/
structure WitnessState where
  genesisHash : Json
  seq : Json
  headHash : Json

/-- The state that `create` writes. -/
def WitnessState.initial : WitnessState := ⟨.null, .null, .null⟩

/-- A line of `checkpoints.jsonl`. The records it was signed over are not in the file; they are
kept here to speak about. -/
structure Witnessed where
  checkpoint : Json
  records : List Json

/-- The witness's directory, the state of the process that runs on it, and the number of clock
readings so far. -/
structure WitnessDir where
  state : WitnessState
  stateFile : WitnessState
  checkpoints : List Witnessed
  forks : List Json
  tick : ℕ

/-- The directory as `create` leaves it, with a process started on it. -/
def WitnessDir.create (tick : ℕ) : WitnessDir := ⟨.initial, .initial, [], [], tick⟩

/-- `__init__`: a new process reads the state from its file. -/
def WitnessDir.restart (d : WitnessDir) : WitnessDir := { d with state := d.stateFile }

/-- A witness: its key, the keys it pinned when it was created, and the readings of
`time.time`. -/
structure Witness (P : Platform) where
  sk : P.SecretKey
  authorityKeys : List (PyStr × PyStr)
  finalizerKeys : List (PyStr × PyStr)
  clock : ℕ → ℚ

namespace Witness

variable {P : Platform} (W : Witness P)

/-- A procedure on the witness's directory. -/
abbrev M (α : Type) := Proc WitnessDir WitnessFault α

/-- The witness's key id. -/
def kid : PyStr := P.keyId (P.publicRaw W.sk)

/-- `trust_store.json`. -/
def trust : TrustStore := ⟨W.authorityKeys, W.finalizerKeys, none⟩

/-! ## Reading a journal -/

/-- The loop of `_read_journal`, from position `i` after the hash `prev`. -/
def readRecords (P : Platform) : ℕ → PyStr → List (Option Json) → Except WitnessFault (List Json)
  | _, _, [] => .ok []
  | _, _, none :: _ => .error .raised
  | i, prev, some r :: lines => do
    let hash ← checkRecord P .raised (.refused .chain) i prev r
    let records ← readRecords P (i + 1) hash lines
    return r :: records

/-- `_read_journal`. -/
def readJournal (P : Platform) (file : JournalFile) : Except WitnessFault (List Json) := do
  require (.refused .tornJournal) file.complete
  let records ← readRecords P 0 "genesis" file.lines
  require (.refused .empty) !records.isEmpty
  return records

/-! ## Extending the last head -/

/-- What fork evidence states: the head that was signed and the journal that was shown. -/
def forkPayload (reason : Refusal) (detail : PyStr) (st : WitnessState) (genesis : PyStr)
    (length : ℕ) (hashAt : Json) : Json :=
  .obj [("protocol", "veklom.vdb.c1.fork-evidence/v1"), ("reason", reason.text),
    ("detail", .str detail),
    ("witnessed", .obj [("genesis_hash", st.genesisHash), ("seq", st.seq),
      ("head_hash", st.headHash)]),
    ("presented", .obj [("genesis_hash", .str genesis), ("length", .int length),
      ("hash_at_witnessed_seq", hashAt)])]

/-- `records[seq]["hash"] if seq < len(records) else None`. -/
def hashAt? (records : List Json) (seq : Json) : Option Json := do
  if ← seq.ltLen records.length then
    let r ← Json.at? records seq
    return .str r.recordHash
  else return .null

/-- `_fork`: write signed evidence and refuse. -/
def fork (st : WitnessState) (records : List Json) (reason : Refusal) (detail : PyStr) :
    M Unit := do
  let first ← Proc.ofOption .raised records.head?
  let hashAt ← Proc.ofOption .raised (hashAt? records st.seq)
  let evidence ← Proc.ofOption .raised (P.signPayload
    (forkPayload reason detail st first.recordHash records.length hashAt) W.sk W.kid)
  Proc.persist .killed fun d => { d with forks := d.forks ++ [evidence] }
  throw (.refused reason)

/-- A condition whose failure is a fork. -/
def forkUnless (c : Bool) (st : WitnessState) (records : List Json) (reason : Refusal)
    (detail : PyStr) : M Unit :=
  if c then pure () else W.fork st records reason detail

/-- The first part of `observe`: the records after the last head that was signed, if the journal
extends it. -/
def extension (st : WitnessState) (records : List Json) : M (List Json) :=
  if st.seq = .null then pure records
  else do
    let first ← Proc.ofOption .raised records.head?
    W.forkUnless ((Json.str first.recordHash).pyEq st.genesisHash) st records .differentJournal
      "genesis record differs"
    let short ← Proc.ofOption .raised (st.seq.lenLe records.length)
    let text ← Proc.ofOption .raised (numberText P st.seq)
    W.forkUnless (!short) st records .rollback ("journal shorter than witnessed seq " ++ text)
    let r ← Proc.ofOption .raised (Json.at? records st.seq)
    W.forkUnless ((Json.str r.recordHash).pyEq st.headHash) st records .fork
      ("record " ++ text ++ " differs from the witnessed head")
    let start ← Proc.ofOption .raised st.seq.addOne
    Proc.ofOption .raised (Json.from? records start)

/-! ## New finalities -/

/-- One round of the loop of `observe`: a FINALIZED record must be valid for the verifier, with
the journal up to it. -/
def checkFinality (records : List Json) (r : Json) : Except WitnessFault Unit := do
  let kind ← ofOption .raised (r.field? "kind")
  if kind.pyEq "FINALIZED" then do
    let intentId ← ofOption .raised (r.field? "intent_id")
    let seq ← ofOption .raised (r.field? "seq")
    let next ← ofOption .raised seq.addOne
    let journal ← ofOption .raised (Json.upTo? records next)
    let body ← ofOption .raised (r.field? "body")
    let cert ← ofOption .raised (body.field? "certificate")
    let digest ← ofOption .raised (P.digest cert)
    let verdict ← ofOption .raised
      (Verify.verifyBundle P (.obj (bundleFields intentId journal cert digest)) W.trust false)
    require (.refused .invalidFinality) verdict.isValid
  else return ()

/-! ## Signing -/

/-- What a checkpoint states. -/
def checkpointFields (genesis : PyStr) (seq : Json) (head witnessedAt kid : PyStr) :
    List (PyStr × Json) :=
  [("protocol", "veklom.vdb.c1.checkpoint/v1"), ("journal_genesis_hash", .str genesis),
    ("seq", seq), ("head_hash", .str head), ("witnessed_at", .str witnessedAt),
    ("witness_kid", .str kid)]

/-- `at or canon.format_time(time.time())`. -/
def witnessedAt : Option PyStr → M PyStr
  | some (c :: text) => pure (c :: text)
  | _ => do
    let d ← Proc.read
    Proc.update fun d => { d with tick := d.tick + 1 }
    Proc.ofOption .raised (P.formatTime (W.clock d.tick))

/-- The last part of `observe`: sign the head, append the checkpoint, and then replace the
state. -/
def countersign (records : List Json) (stamp : Option PyStr) : M Json := do
  let first ← Proc.ofOption .raised records.head?
  let head ← Proc.ofOption .raised records.getLast?
  let seq ← Proc.ofOption .raised (head.field? "seq")
  let witnessedAt ← W.witnessedAt stamp
  let checkpoint ← Proc.ofOption .raised (P.signPayload
    (.obj (checkpointFields first.recordHash seq head.recordHash witnessedAt W.kid)) W.sk W.kid)
  let _ ← Proc.ofOption .raised (P.jcs checkpoint)
  Proc.persist .killed fun d => { d with checkpoints := d.checkpoints ++ [⟨checkpoint, records⟩] }
  let st : WitnessState := ⟨.str first.recordHash, seq, .str head.recordHash⟩
  Proc.update fun d => { d with state := st }
  Proc.persist .killed fun d => { d with stateFile := st }
  return checkpoint

/-- `observe`. -/
def observe (file : JournalFile) (stamp : Option PyStr) : M Json := do
  let records ← Proc.ofExcept (readJournal P file)
  let d ← Proc.read
  let fresh ← W.extension d.state records
  Proc.ofExcept (forEach (W.checkFinality records) fresh)
  W.countersign records stamp

/-! ## Runs -/

/-- A call of `observe`, killed after `budget` durable writes, or a restart. -/
inductive Event where
  | observe (file : JournalFile) (stamp : Option PyStr) (budget : Option ℕ)
  | restart

/-- The directory after an event. A process that was killed is started again. -/
def step (d : WitnessDir) : Event → WitnessDir
  | .observe file stamp budget =>
    match W.observe file stamp ⟨d, budget⟩ with
    | (.error .killed, s) => s.world.restart
    | (_, s) => s.world
  | .restart => d.restart

/-- The directory after a sequence of events. -/
def run (d : WitnessDir) (events : List Event) : WitnessDir := events.foldl W.step d

end Witness

end VdbC1
