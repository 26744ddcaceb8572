import Cappo.Lib.Lines
import Cappo.VdbC1.RecordChain

/-!
# The bytes of the journal file

`journal.py` down to the bytes: `_load`, which drops a torn last line and checks every line, and
`append`, whose write a crash can cut off anywhere. Here a record is a JSON value with any body.

`FileWorld` is the file, the `Journal` object of the process that has it open, and the records
that were completely written; `FileWorld.run` is what a sequence of opens, appends and crashes
makes of it.

## Main results

* `Journal.load_text_append`: what `_load` makes of complete lines and a torn one;
* `Journal.links_next`: the record `append` writes continues the chain;
* `Journal.next_of_nextRecord`, `Journal.load_of_chained`: the coordinator's journal, which is
  modelled as its records, is what `append` writes and `_load` reads.
-/

namespace VdbC1

open HashChain Json Checks

/-- `json.loads` for the lines of a journal. What was encoded is read back up to the spelling of
its numbers; the encoding breaks no line. -/
structure LineReader (P : Platform) where
  loads : Bytes → Option Json
  loads_jcs : ∀ j raw, P.jcs j = some raw → ∃ j', loads raw = some j' ∧ SameRecord j' j
  jcs_breakFree : ∀ j raw, P.jcs j = some raw → (10 : Fin 256) ∉ raw ∧ (13 : Fin 256) ∉ raw

/-- `JournalCorrupt`, with the number of the line. -/
inductive JournalCorrupt where
  | notJson (seq : ℕ)
  | mismatch (seq : ℕ)
  deriving DecidableEq, Repr

/-- How `_load` can fail; `raised` is any other exception. -/
inductive LoadFault where
  | corrupt (e : JournalCorrupt)
  | raised
  deriving DecidableEq, Repr

/-- The arguments of `append`. -/
structure AppendArgs where
  kind : PyStr
  intentId : PyStr
  body : Json
  stamp : PyStr

namespace Journal

variable {P : Platform} (L : LineReader P)

/-! ## Loading -/

/-- `data.splitlines()`. -/
def splitlines (data : Bytes) : List Bytes := Lines.split 10 13 data

/-- One round of the loop of `_load`: the record of the line. -/
def readLine (i : ℕ) (prev : PyStr) (line : Bytes) : Except LoadFault Json := do
  let rec' ← ofOption (.corrupt (.notJson i)) (L.loads line)
  let _ ← checkRecord P .raised (.corrupt (.mismatch i)) i prev rec'
  let raw ← ofOption .raised (P.jcs rec')
  require (.corrupt (.mismatch i)) (raw = line)
  return rec'

/-- The loop of `_load`, from line `i` after the hash `prev`. -/
def readLines : ℕ → PyStr → List Bytes → Except LoadFault (List Json)
  | _, _, [] => .ok []
  | i, prev, line :: lines => do
    let r ← readLine L i prev line
    let rs ← readLines (i + 1) r.recordHash lines
    return r :: rs

/-- The bytes that `_load` keeps: a torn last line is cut off the file. -/
def kept (data : Bytes) : Bytes :=
  if data ≠ [] ∧ data.getLast? ≠ some 10 then Lines.complete 10 data else data

/-- `_load`: the records, and the file as it is left. -/
def load : Option Bytes → Except LoadFault (List Json × Option Bytes)
  | none => .ok ([], none)
  | some data => do
    let records ← readLines L 0 "genesis" (splitlines (kept data))
    return (records, some (kept data))

/-! ## Appending -/

/-- The members of the record that `append` is about to hash. -/
def draft (records : List Json) (a : AppendArgs) : List (PyStr × Json) :=
  [("protocol", .str journalProtocol), ("seq", .int records.length),
    ("prev", .str (head recordHash "genesis" records)), ("at", .str a.stamp),
    ("kind", .str a.kind), ("intent_id", .str a.intentId), ("body", a.body)]

/-- The record with its hash. -/
def hashed (records : List Json) (a : AppendArgs) (hash : PyStr) : Json :=
  .obj (("hash", .str hash) :: draft records a)

variable (P) in
/-- The record that `append` writes, and its bytes without the line end; hashing it raises if
it has no encoding. -/
def next (records : List Json) (a : AppendArgs) : Option (Json × Bytes) := do
  let hash ← P.digest (.obj (draft records a))
  let raw ← P.jcs (hashed records a hash)
  return (hashed records a hash, raw)

end Journal

/-! ## Runs -/

/-- The file, the records of the `Journal` object that has it open, and the records that were
written with their line end, in order. The last component is not in the program; it is kept
here to speak about. -/
structure FileWorld where
  file : Option Bytes
  opened : Option (List Json)
  written : List Json

/-- What can happen to the file: a process opens it, appends a record or ends; or the write of an
append is cut off after some bytes, and the process is gone. -/
inductive FileEvent where
  | load
  | append (a : AppendArgs)
  | cut (a : AppendArgs) (n : ℕ)
  | close

namespace FileWorld

variable {P : Platform} (L : LineReader P)

/-- No file yet. -/
def fresh : FileWorld := ⟨none, none, []⟩

/-- One event. An append needs an open journal, and raises before it writes if the record has no
encoding. -/
def step (w : FileWorld) : FileEvent → FileWorld
  | .load =>
    match Journal.load L w.file with
    | .ok (records, file) => { w with file, opened := some records }
    | .error _ => { w with opened := none }
  | .append a =>
    match w.opened.bind fun records => (Journal.next P records a).map (records, ·) with
    | some (records, rec', raw) =>
      { file := some (w.file.getD [] ++ (raw ++ [10])), opened := some (records ++ [rec']),
        written := w.written ++ [rec'] }
    | none => w
  | .cut a n =>
    match w.opened.bind fun records => (Journal.next P records a).map (records, ·) with
    | some (_, rec', raw) =>
      { file := some (w.file.getD [] ++ (raw ++ [10]).take n), opened := none,
        written := if (raw ++ [10]).length ≤ n then w.written ++ [rec'] else w.written }
    | none => { w with opened := none }
  | .close => { w with opened := none }

/-- The world after some events. -/
def run (events : List FileEvent) : FileWorld := events.foldl (step L) fresh

end FileWorld

namespace Journal

variable {P : Platform} {L : LineReader P}

/-! ## What is loaded -/

variable {i : ℕ} {prev : PyStr} {r : Json}

lemma readLine_eq_ok : readLine L i prev line = .ok r ↔
      L.loads line = some r ∧ Links P i prev r ∧ P.jcs r = some line := by
  simp only [readLine, bind_eq_ok, ofOption_eq_ok, checkRecord_eq_ok,
    require_eq_ok, pure_eq_ok, decide_eq_true_eq]
  constructor
  · rintro ⟨r', hloads, d, ⟨hlinks, -⟩, raw, hraw, -, rfl, rfl⟩
    exact ⟨hloads, hlinks, hraw⟩
  · rintro ⟨hloads, hlinks, hraw⟩
    exact ⟨r, hloads, _, ⟨hlinks, rfl⟩, line, hraw, (), rfl, rfl⟩

/-- The line of a linked record is read back. -/
lemma readLine_of_links (hlinks : Links P i prev r) (hraw : P.jcs r = some line) :
    ∃ r', readLine L i prev line = .ok r' ∧ SameRecord r' r := by
  obtain ⟨r', hloads, hsame⟩ := L.loads_jcs r line hraw
  refine ⟨r', readLine_eq_ok.mpr ⟨hloads, hlinks.of_same hsame, ?_⟩, hsame⟩
  rw [P.jcs_congr r' r hsame, hraw]

variable {lines : List Bytes} {rs : List Json}

/-- The lines of a chain are read back, and what is read is a chain. -/
lemma readLines_of_chain (hchain : Chain recordHash (Links P) i prev rs)
    (hlines : List.Forall₂ (fun r line => P.jcs r = some line) rs lines) :
    ∃ rs', readLines L i prev lines = .ok rs' ∧ List.Forall₂ SameRecord rs' rs ∧
      Chain recordHash (Links P) i prev rs' := by
  induction hlines generalizing i prev with
  | nil => exact ⟨[], rfl, .nil, trivial⟩
  | @cons r line rs lines hraw hlines ih =>
    obtain ⟨r', hread, hsame⟩ := readLine_of_links (L := L) hchain.1 hraw
    have hhash := hsame.recordHash_eq
    obtain ⟨rs', hreads, hall, hchain'⟩ := ih hchain.2
    refine ⟨r' :: rs', ?_, .cons hsame hall, (readLine_eq_ok.mp hread).2.1, hhash ▸ hchain'⟩
    rw [readLines, hread, ok_bind, hhash, hreads]
    rfl

variable {tail : Bytes}

/-- A torn last line is dropped. -/
lemma kept_text_append (htail : (10 : Fin 256) ∉ tail) :
    kept (Lines.text 10 lines ++ tail) = Lines.text 10 lines := by
  unfold kept
  split_ifs with h
  · exact Lines.complete_text_append htail
  · -- the file ends in a line end, so that nothing is torn
    rcases List.eq_nil_or_concat' tail with rfl | ⟨tail, b, rfl⟩
    · rw [List.append_nil]
    · refine absurd ⟨by simp, fun hlast => ?_⟩ h
      rw [← List.append_assoc, List.getLast?_concat, Option.some.injEq] at hlast
      exact htail (by simp [hlast])

lemma breakFree_of_jcs (L : LineReader P)
    (hlines : List.Forall₂ (fun r line => P.jcs r = some line) rs lines) :
    ∀ line ∈ lines, (10 : Fin 256) ∉ line ∧ (13 : Fin 256) ∉ line := by
  induction hlines with
  | nil => simp
  | cons hraw _ ih => exact List.forall_mem_cons.mpr ⟨L.jcs_breakFree _ _ hraw, ih⟩

/-- `_load` on the lines of a chain and a torn line. -/
theorem load_text_append (hchain : Chain recordHash (Links P) 0 "genesis" rs)
    (hlines : List.Forall₂ (fun r line => P.jcs r = some line) rs lines)
    (htail : (10 : Fin 256) ∉ tail) :
    ∃ rs', load L (some (Lines.text 10 lines ++ tail)) = .ok (rs', some (Lines.text 10 lines)) ∧
      List.Forall₂ SameRecord rs' rs ∧
      Chain recordHash (Links P) 0 "genesis" rs' := by
  have hfree := breakFree_of_jcs L hlines
  obtain ⟨rs', hread, hsame, hchain'⟩ := readLines_of_chain (L := L) hchain hlines
  refine ⟨rs', ?_, hsame, hchain'⟩
  rw [load, kept_text_append htail, splitlines, Lines.split_text hfree, hread, ok_bind]
  rfl

/-! ## What is appended -/

variable {a : AppendArgs} {records : List Json}

lemma next_eq_some : next P records a = some (r, raw) ↔
      ∃ hash, P.digest (.obj (draft records a)) = some hash ∧ hashed records a hash = r ∧
        P.jcs r = some raw := by
  simp only [next, Option.bind_eq_bind, Option.bind_eq_some_iff, Option.pure_def,
    Option.some.injEq, Prod.mk.injEq]
  constructor
  · rintro ⟨hash, hdigest, raw', hraw, rfl, rfl⟩
    exact ⟨hash, hdigest, rfl, hraw⟩
  · rintro ⟨hash, hdigest, rfl, hraw⟩
    exact ⟨hash, hdigest, raw, hraw, rfl, rfl⟩

@[simp]
lemma recordHash_hashed (records : List Json) (a : AppendArgs) (hash : PyStr) :
    (hashed records a hash).recordHash = hash := by
  simp [recordHash, str?, hashed]

/-- Leaving out the hash gives what was hashed. -/
lemma without_hashed (records : List Json) (a : AppendArgs) (hash : PyStr) :
    (hashed records a hash).without "hash" = some (.obj (draft records a)) := by
  simp [hashed, without, draft, FieldMap.erase]

/-- The record that `append` writes continues the chain. -/
theorem links_next {raw : Bytes} (h : next P records a = some (r, raw)) :
    Links P records.length (head recordHash "genesis" records) r := by
  obtain ⟨hash, hdigest, rfl, -⟩ := next_eq_some.mp h
  refine ⟨by simp [hashed, draft], ⟨.int records.length, by simp [hashed, draft], by simp⟩,
    by simp [hashed, draft], ?_, _, without_hashed records a hash, ?_⟩
  · rw [recordHash_hashed]
    simp [hashed]
  · rw [recordHash_hashed, hdigest]

/-- What has an encoding can be appended. -/
lemma exists_next (h : (Json.obj (draft records a)).encodable = true) :
    ∃ r raw, next P records a = some (r, raw) := by
  obtain ⟨hash, hdigest⟩ := P.exists_digest h
  have hrec : (hashed records a hash).encodable = true := by
    refine encodable_obj_iff.mpr fun k v hk => ?_
    rw [FieldMap.lookup_cons] at hk
    split_ifs at hk with hname
    · cases hk
      exact ⟨hname ▸ PyStr.encodable_ofString _, P.encodable_digest hdigest⟩
    · exact encodable_obj_iff.mp h k v hk
  obtain ⟨raw, hraw⟩ := Option.isSome_iff_exists.mp ((P.jcs_isSome _).trans hrec)
  exact ⟨_, raw, next_eq_some.mpr ⟨hash, hdigest, rfl, hraw⟩⟩

/-! ## The coordinator's journal -/

lemma head_toJson (start : PyStr) (J : List Record) :
    head recordHash start (J.map Record.toJson) = head Record.hash start J := by
  induction J generalizing start with
  | nil => rfl
  | cons r J ih =>
    have hhash : r.toJson.recordHash = r.hash := by
      rw [recordHash, str?, r.field?_hash, Option.getD_some]
    rw [List.map_cons, head_cons, head_cons, hhash, ih]

/-- The record that the coordinator appends is the one `append` writes. -/
theorem next_of_nextRecord {J : List Record} {intentId stamp : PyStr} {body : Body} {r : Record}
    (h : nextRecord P J intentId body stamp = some r) :
    ∃ r' raw, next P (J.map Record.toJson)
        ⟨body.detail.kind.text, intentId, body.toJson, stamp⟩ = some (r', raw) ∧
      SameRecord r' r.toJson := by
  obtain ⟨hdraft, hdigest⟩ := nextRecord_eq_some h
  have hmembers : Json.obj (draft (J.map Record.toJson)
      ⟨body.detail.kind.text, intentId, body.toJson, stamp⟩) = r.toDraft.toJson := by
    rw [hdraft, draft, head_toJson, List.length_map]
    rfl
  obtain ⟨r', raw, hnext⟩ := exists_next (hmembers ▸ P.encodable_of_digest hdigest)
  refine ⟨r', raw, hnext, ?_⟩
  obtain ⟨hash, hdigest', rfl, -⟩ := next_eq_some.mp hnext
  -- the members are the same but for the hash, and the hash is that of the members
  rw [hmembers, hdigest, Option.some.injEq] at hdigest'
  refine canonical_eq_of_without (without_hashed _ _ hash) r.without_hash ?_ ?_
  · rw [hmembers]
  · rw [r.field?_hash, hdigest']
    simp [hashed]

/-- The file of the coordinator's records is loaded to these records. -/
theorem load_of_chained {J : List Record} (h : Chained P J)
    (hlines : List.Forall₂ (fun r line => P.jcs r = some line) (J.map Record.toJson) lines)
    (htail : (10 : Fin 256) ∉ tail) :
    ∃ rs, load L (some (Lines.text 10 lines ++ tail)) = .ok (rs, some (Lines.text 10 lines)) ∧
      List.Forall₂ SameRecord rs (J.map Record.toJson) := by
  obtain ⟨rs, hload, hsame, -⟩ := load_text_append (L := L) (chain_toJson h) hlines htail
  exact ⟨rs, hload, hsame⟩

end Journal

end VdbC1
