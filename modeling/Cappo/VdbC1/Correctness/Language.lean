import Cappo.VdbC1.Correctness.Runs

/-!
# The protocol language of the journal

The binding records of an intent spell a word of a small language, and at most one intent
has not yet come to an end of it.

## Main results

* `Home.binding_cases`: the binding records of an intent are those of one attempt;
* `run_protocolLanguage`: after every run, whatever was killed, the journal is in the
  language.
-/

namespace VdbC1

open Coordinator

/-- The words an intent's binding records spell when it has come to an end. -/
def protocolWords : List (List Kind) :=
  [[.prepared, .aborted], [.prepared, .committing, .committed, .finalized],
    [.prepared, .committing, .commitUncertain, .committed, .finalized],
    [.prepared, .committing, .commitUncertain, .aborted]]

/-- At most one intent is in flight, and the binding records of every intent spell a part of
a word under one intent hash. -/
structure ProtocolLanguage (J : List Record) : Prop where
  single : ∀ id id', InFlight J id → InFlight J id' → id = id'
  word : ∀ id, ∃ word ∈ protocolWords, (binding J id).map (fun r => r.kind) <+: word
  hash : ∀ id, ∃ hash, ∀ r ∈ binding J id, r.body.intentHash = some hash

variable {P : Platform} {C : Coordinator P}

lemma Stage.kinds_isPrefix (st : Stage) : ∃ word ∈ protocolWords, st.kinds <+: word := by
  decide +revert

/-- No intent of a settled home is in flight. -/
lemma Settled.not_inFlight (h : Settled C J S) (id : PyStr) : ¬InFlight J id := by
  rintro ⟨hne, hstate⟩
  rcases h.binding_cases id with hnil | ⟨_, _, _, a, st, rs, S1, -, hblock, hst, -, hrs⟩
  · exact hne hnil
  · have hterminal := hstate st.state (by rw [hrs, hblock.kinds, Stage.stateAfter_kinds])
    rw [Stage.terminal_state, hst] at hterminal
    exact Bool.noConfusion hterminal

/-- The binding records of an intent are those of one attempt; if it is open, every other
intent is closed. -/
theorem Home.binding_cases {w : World} (h : Home C w) (id : PyStr) :
    binding w.journal id = [] ∨ ∃ S0 a st rs S1, Block C S0 a st rs S1 ∧ a.id = id ∧
      binding w.journal id = rs ∧
      (st.closed = false → ∀ id', id' ≠ id → ¬InFlight w.journal id') := by
  rcases h.shape with hs | ⟨J0, S0, n, a, st, rs, hs, hb, hblock, hst, hj⟩
  · refine (hs.binding_cases id).imp_right fun ⟨_, S, _, a, st, rs, S1, _, hblock, hst, hid, hrs⟩ =>
      ⟨S, a, st, rs, S1, hblock, hid, hrs, fun hopen => ?_⟩
    rw [hst] at hopen
    exact Bool.noConfusion hopen
  · by_cases hid : id = a.id
    · subst hid
      refine .inr ⟨S0, a, st, rs, _, hblock, rfl, hb.binding_eq hj hblock, fun _ id' hne hin => ?_⟩
      rw [InFlight, hj, binding_append, hblock.binding_of_ne hne, List.append_nil] at hin
      exact hs.not_inFlight id' hin
    · rw [hj, binding_append, hblock.binding_of_ne hid, List.append_nil]
      refine (hs.binding_cases id).imp_right fun ⟨_, S, _, b, st', rs', S1, _, hblock', hst', hid',
        hrs'⟩ => ⟨S, b, st', rs', S1, hblock', hid', hrs', fun hopen => ?_⟩
      rw [hst'] at hopen
      exact Bool.noConfusion hopen

/-- The journal of a home is in the protocol language. -/
lemma Home.protocolLanguage (h : Home C w) : ProtocolLanguage w.journal := by
  refine ⟨fun id id' hin hin' => ?_, fun id => ?_, fun id => ?_⟩
  · rcases h.binding_cases id with hnil | ⟨S, a, st, rs, S1, hblock, -, hrs, hother⟩
    · exact absurd hnil hin.1
    · have hopen := hin.2 st.state (by rw [hrs, hblock.kinds, Stage.stateAfter_kinds])
      rw [Stage.terminal_state] at hopen
      by_contra hne
      exact hother hopen id' (Ne.symm hne) hin'
  · rcases h.binding_cases id with hnil | ⟨S, a, st, rs, S1, hblock, -, hrs, -⟩
    · exact ⟨_, List.mem_cons_self, by rw [hnil]; exact List.nil_prefix⟩
    · rw [hrs, hblock.kinds]
      exact st.kinds_isPrefix
  · rcases h.binding_cases id with hnil | ⟨S, a, st, rs, S1, hblock, -, hrs, -⟩
    · exact ⟨[], by simp [hnil]⟩
    · exact ⟨a.hash, fun r hr => (hblock.same r (hrs ▸ hr)).2⟩

/-- At every moment of every run, each call killed at any point, the journal is in the
protocol language. -/
theorem run_protocolLanguage (C : Coordinator P) (ns storeId : { s : PyStr // s.encodable = true })
    (tick : ℕ) (calls : List (Call × Option ℕ)) :
    ProtocolLanguage (run C (freshHome ns storeId tick) calls).journal :=
  (invariant_run (invariant_freshHome (C := C) ns storeId tick) calls).home.protocolLanguage

end VdbC1
