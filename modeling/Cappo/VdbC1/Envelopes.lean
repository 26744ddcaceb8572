import Cappo.CapabilityMount.JsonText
import Cappo.Eee.Envelope
import Cappo.VdbC1.Coordinator

/-!
# Evidence envelopes of a journal

`vdb_c1/eee.py`: one EEE envelope for every terminal record of a journal, derived from the
journal alone and sealed with the issuer's key. Where Python raises (a record without the
PREPARED or COMMITTED record it rests on, a value without a canonical encoding) there is no
envelope.

## Main results

* `Issuer.envelopeFor_eq_some`: what an envelope is sealed from.
-/

open CapabilityMount.JsonText (intText)
open Eee (Fields)

namespace VdbC1

open Coordinator (preparedOf)
open Option

/-- Who issues the envelopes of a home: its namespace and store, the key, and the hash of the
code (`enforcer`). -/
structure Issuer (P : Platform) where
  ns : PyStr
  storeId : PyStr
  sk : P.SecretKey
  kid : PyStr
  buildHash : PyStr

/-- `TERMINAL` of `eee.py`. -/
def Kind.terminal : Kind → Bool
  | finalized => true
  | admissionRejected => true
  | preconditionRejected => true
  | aborted => true
  | _ => false

section Records

variable (records : List Record) (terminal : Record)

/-- The binding records of the terminal record's intent up to it. -/
def bindingUpTo : List Record :=
  (binding records terminal.intentId).filter fun r => r.seq ≤ terminal.seq

/-- `prepared` of `envelope_for`. -/
def preparedFor : Option (Record × PreparedBody) :=
  preparedOf (bindingUpTo records terminal)

/-- `intent` of `envelope_for`: an admission rejection established no authority. -/
def intentFor : Option Intent :=
  match preparedFor records terminal, terminal.body.detail with
  | some prepared, _ => some prepared.2.signed.intent
  | none, .preconditionRejected _ signed _ => some signed.intent
  | none, _ => none

/-- `reason` of `envelope_for`. -/
def reasonText : PyStr :=
  (terminal.body.detail.reason?.map Reason.text).getD terminal.kind.text

/-- `_decision`. -/
def decision (gate rule verdict stamp reason : PyStr) : Fields :=
  [("gate", .str gate), ("rule_id", .str rule), ("decision", .str verdict),
    ("evaluated_at", .str stamp), ("latency_ms", .int 0), ("reason_code", .str reason)]

/-- When the execution started, and the decisions taken. -/
def course : Option (PyStr × List Fields) :=
  let stamp := terminal.stamp
  let reason := reasonText terminal
  match terminal.kind with
  | .admissionRejected => some (stamp, [decision "admission" "admission" "deny" stamp reason])
  | .preconditionRejected =>
    some (stamp, [decision "admission" "admission" "allow" stamp "ADMITTED",
      decision "precondition" "precondition" "deny" stamp reason])
  | kind => do
    let prepared ← preparedFor records terminal
    let started := prepared.1.stamp
    return (started, [decision "admission" "admission" "allow" started "ADMITTED",
      decision "precondition" "precondition" "allow" started "PRECONDITIONS_MET",
      decision "commit" "commit.fresh_read" (if kind = .finalized then "allow" else "deny") stamp
        reason])

/-- `POLICY_RULES` of `eee.py`. -/
def policyRules : List Json :=
  ["schema.exact", "protocol", "op.upsert", "namespace", "kid.match", "key.trusted", "signature",
    "validity.window", "ttl.max", "precondition.generation", "precondition.root",
    "commit.fresh_read"]

end Records

namespace Issuer

variable {P : Platform} (E : Issuer P)

/-- `issuer` of `envelope_for`. -/
def name : PyStr := "urn:veklom:vdb-c1:" ++ E.storeId

variable (records : List Record) (terminal : Record)

/-- What the output commitment of an envelope is: the root after the commit, or a digest of
the outcome. -/
def output : Option PyStr :=
  if terminal.kind = .finalized then do
    let committed ← (bindingUpTo records terminal).find? fun r => r.kind = .committed
    match committed.body.detail with
    | .committed b => some b.postRoot
    | _ => none
  else P.digest (.obj [("protocol", "veklom.vdb.c1.outcome/v1"),
    ("intent_id", .str terminal.intentId), ("outcome", terminal.kind.text),
    ("reason", .str (reasonText terminal))])

/-- The intent's hash, or the digest of `None` where there is none or an empty one. -/
def artifact : Option PyStr :=
  match terminal.body.intentHash with
  | some (c :: hash) => some (c :: hash)
  | _ => P.digest .null

/-- What `envelope_for` works out before it builds the envelope. -/
structure Parts where
  started : PyStr
  decisions : List Fields
  output : PyStr
  artifact : PyStr
  capability : PyStr
  config : PyStr
  policy : PyStr

/-- The parts of the terminal record's envelope. -/
def parts : Option Parts := do
  let (started, decisions) ← course records terminal
  let output ← output (P := P) records terminal
  let capability ← P.digest (.obj [("capability_id", "vdb.c1.upsert"), ("op", "UPSERT"),
    ("namespace", .str E.ns), ("key_max", .int 256), ("value_max", .int 65536)])
  let config ← P.digest (.obj [("adapter", "sqlite-wal/v1"), ("journal_mode", "wal"),
    ("synchronous", "FULL")])
  let artifact ← artifact (P := P) terminal
  let policy ← P.digest (.obj [("bundle_id", "vdb-c1-admission-v1"), ("rules", .arr policyRules)])
  return ⟨started, decisions, output, artifact, capability, config, policy⟩

/-- The key of an authority, and the window it granted. -/
structure Grant where
  authorityKid : PyStr
  issuedAt : PyStr
  expiresAt : PyStr

/-- The grant an envelope names; a record that established no authority has the empty window
at its own time. -/
def grant : Grant :=
  match intentFor records terminal with
  | some i => ⟨i.authorityKid, i.issuedAt, i.expiresAt⟩
  | none => ⟨"unadmitted", terminal.stamp, terminal.stamp⟩

/-- The input commitment. -/
def input (p : Parts) : PyStr :=
  match preparedFor records terminal with
  | some prepared => prepared.2.payloadCommitment
  | none => p.artifact

/-- The tool actions: the storage write of a prepared intent. -/
def toolActions : List Json :=
  match preparedFor records terminal with
  | some prepared => [.obj [("tool", "sqlite-wal"),
      ("action_hash", .str prepared.2.payloadCommitment),
      ("decision", if terminal.kind = .finalized then "committed" else "not_committed"),
      ("evidence_ref", .str ("journal:" ++ intText terminal.seq ++ ":" ++ terminal.hash))]]
  | none => []

/-- The fields that `envelope_for` seals. -/
def fields (p : Parts) : Fields :=
  let kind := terminal.kind
  let iid := terminal.intentId
  let upsert : Json := .str ("state:upsert:" ++ E.ns)
  let g := grant records terminal
  [("eee_version", "0.1.0"), ("hash_alg", "SHA-256"),
    ("execution_id", .str (if kind = .finalized ∨ kind = .aborted then iid
      else iid ++ "#" ++ intText terminal.seq)),
    ("idempotency_key", .str iid),
    ("issuer", .str E.name),
    ("enforcer", .obj [("name", "vdb_c1"), ("version", "1.0.0"), ("build_hash", .str E.buildHash)]),
    ("participant_identity", .obj [("scheme", "ed25519-kid"), ("identifier", .str g.authorityKid)]),
    ("principal", .obj [("scheme", "ed25519-kid"), ("identifier", .str g.authorityKid)]),
    ("capability_id", "vdb.c1.upsert"),
    ("capability_hash", .str p.capability),
    ("capability_attenuation", .obj [("resource_allowlist", .arr [.str E.ns]),
      ("argument_constraints", .obj [("key_max", .int 256), ("value_max", .int 65536)]),
      ("delegation_depth", .int 0), ("delegation_depth_max", .int 0)]),
    ("runtime_lineage", .obj [("model", "none"), ("model_version", "none"),
      ("framework", "vdb_c1"), ("framework_version", "1.0.0"), ("config_hash", .str p.config)]),
    ("authority_chain", .arr [.obj [("type", "capability-grant"),
      ("artifact_hash", .str p.artifact), ("issuer", .str g.authorityKid),
      ("granted_at", .str g.issuedAt), ("expires_at", .str g.expiresAt)]]),
    ("authority_window", .obj [("not_before", .str g.issuedAt), ("not_after", .str g.expiresAt)]),
    ("revocation_check", .obj [("method", "none"), ("checked_at", .str p.started),
      ("result", "single-use, expiring intent; no revocation list")]),
    ("policy_bundle_id", "vdb-c1-admission-v1"),
    ("policy_hash", .str p.policy),
    ("policy_decisions", .arr (p.decisions.map .obj)),
    ("enforcement_mode", "fail-closed"),
    ("input_commitment", .str (input records terminal p)),
    ("effect_grammar", "EEE-EFFECTS-1"),
    ("allowed_effects", .arr (if kind = .admissionRejected then [] else [upsert])),
    ("actual_effects", .arr (if kind = .finalized then [upsert] else [])),
    ("tool_actions", .arr (toolActions records terminal)),
    ("budget", .obj [("granted", .obj [("writes", .int 1)]),
      ("consumed", .obj [("writes", .int (if kind = .finalized then 1 else 0))])]),
    ("started_at", .str p.started),
    ("ended_at", .str terminal.stamp),
    ("output_commitment", .str p.output),
    ("status", if kind = .finalized then "completed" else if kind = .aborted then "error"
      else "denied"),
    ("violations", .arr []),
    ("validators", .arr []),
    ("timestamps", .obj [("issued_at", .str terminal.stamp)])]

/-- `envelope_for`. -/
def envelopeFor : Option Fields := do
  let p ← E.parts records terminal
  Eee.sealed P (E.fields records terminal p) E.name E.kid E.sk (.str terminal.stamp)

/-- `envelopes_from_journal`. -/
def envelopesFromJournal : Option (List Fields) :=
  (records.filter fun r => r.kind.terminal).mapM (E.envelopeFor records)

variable {E records terminal}

lemma envelopeFor_eq_some :
    E.envelopeFor records terminal = some env ↔ ∃ p, E.parts records terminal = some p ∧
      Eee.sealed P (E.fields records terminal p) E.name E.kid E.sk (.str terminal.stamp) =
        some env := by
  simp only [envelopeFor, bind_eq_bind, bind_eq_some_iff]

/-- A function that succeeds on a whole list, element by element. -/
lemma forall₂_of_mapM {α β : Type} {f : α → Option β} {xs : List α} {ys : List β}
    (h : xs.mapM f = some ys) : List.Forall₂ (fun x y => f x = some y) xs ys := by
  induction xs generalizing ys with
  | nil =>
    obtain rfl : [] = ys := some.inj h
    exact .nil
  | cons x xs ih =>
    rw [List.mapM_cons] at h
    simp only [bind_eq_bind, bind_eq_some_iff, pure_def, Option.some.injEq] at h
    obtain ⟨y, hy, rest, hrest, rfl⟩ := h
    exact .cons hy (ih hrest)

/-- A function that succeeds on every element succeeds on the list. -/
lemma exists_mapM {α β : Type} {f : α → Option β} {xs : List α}
    (h : ∀ x ∈ xs, ∃ y, f x = some y) : ∃ ys, xs.mapM f = some ys := by
  induction xs with
  | nil => exact ⟨[], rfl⟩
  | cons x xs ih =>
    rw [List.forall_mem_cons] at h
    obtain ⟨y, hy⟩ := h.1
    obtain ⟨ys, hys⟩ := ih h.2
    exact ⟨y :: ys, by rw [List.mapM_cons, hy, hys]; rfl⟩

end Issuer

end VdbC1
