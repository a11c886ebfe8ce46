import LinuxExercises.Dictionary.MappedLookup

/-!
# The verdict of a remote lookup

The server sends back the record and not what its own `lookup` returned. The clients
(`lookup7`, `lookup8` and `lookup9` alike) tell the two cases apart by the text of the
reply: it is `Not Found!` when nothing was found. That goes wrong for a record whose text
is `Not Found!` itself, which the server finds and the client does not, and for no other
(`agree_iff`).
-/

set_option autoImplicit false

namespace LinuxExercises.Dictionary

open Foundations

namespace Mapped

/-- What the clients return behind the `read` or `recvfrom` of the reply. -/
def verdict (sought : Dictrec) : Verdict :=
  if strcmp sought.text (asBytes "Not Found!") ≠ .eq then .found else .notFound

theorem verdict_notFound {sought : Dictrec} (text : cstr sought.text = asBytes "Not Found!") :
    verdict sought = .notFound := by
  refine if_neg fun differs => differs (strcmp_eq_iff.mpr ?_)
  rw [text]
  decide

theorem verdict_found {sought : Dictrec} (text : cstr sought.text ≠ asBytes "Not Found!") :
    verdict sought = .found := by
  refine if_pos fun same => text ((strcmp_eq_iff.mp same).trans ?_)
  decide

/-- A call of a client's `lookup` whose request and reply are delivered whole: the first
`lookup` of the server gets the record as the client has it, and the client gets the
record as the server has left it. The result is what the server's call returned and what
the client's call returns. -/
def remoteLookup (records : List Dictrec) (uninitialised : Pointer) (sought : Dictrec)
    (fuel : Nat) : Except Fault ((Verdict × Dictrec) × (Verdict × Dictrec)) := do
  let (served, tryit, _) ← lookup (some (file records)) start uninitialised sought fuel
  .ok ((served, tryit), (verdict tryit, tryit))

/-- The client returns `FOUND` exactly when the server did, with the same text. -/
def Agree (records : List Dictrec) (sought : Dictrec) : Prop :=
  ∀ uninitialised server client,
    Returns (remoteLookup records uninitialised sought) (server, client) →
      (client.1 = .found ↔ server.1 = .found) ∧ cstr client.2.text = cstr server.2.text

/-- On a table in order the call returns, and the server's answer is right. -/
theorem remoteLookup_returns {records : List Dictrec} (table : InOrder records)
    (uninitialised : Pointer) (sought : Dictrec) :
    ∃ served tryit, Returns (remoteLookup records uninitialised sought)
        ((served, tryit), (verdict tryit, tryit)) ∧ Answers records sought served tryit := by
  obtain ⟨served, tryit, ⟨bound, searched⟩, answers⟩ := search_mapping table sought
  refine ⟨served, tryit, ⟨bound, fun fuel enough => ?_⟩, answers⟩
  rw [remoteLookup, lookup_start table.nonempty, searched fuel enough, ok_bind]

/-- The dictionary of no records cannot be mapped, and the server's child exits. -/
theorem remoteLookup_nil (uninitialised : Pointer) (sought : Dictrec) (fuel : Nat) :
    remoteLookup [] uninitialised sought fuel = .error (.exited 1) := rfl

/-- Words that increase are different. -/
theorem same_record {records : List Dictrec} (table : InOrder records) {r s : Dictrec}
    (first : r ∈ records) (second : s ∈ records) (same : cstr r.word = cstr s.word) : r = s := by
  obtain ⟨i, within, rfl⟩ := List.getElem_of_mem first
  obtain ⟨j, within', rfl⟩ := List.getElem_of_mem second
  have apart := List.pairwise_iff_getElem.mp table.increasing
  rcases Nat.lt_trichotomy i j with before | rfl | behind
  · exact nomatch (apart i j within within' before).symm.trans (strcmp_eq_iff.mpr same)
  · rfl
  · exact nomatch (apart j i within' within behind).symm.trans (strcmp_eq_iff.mpr same.symm)

/-- **When the remote verdict is right.** On a table whose words increase, the client's
verdict and text are the server's exactly when no record of the word sought has the text
`Not Found!`. Unless the table is empty, the call returns. -/
theorem agree_iff {records : List Dictrec} (terminated : ∀ r ∈ records, r.Terminated)
    (increasing : records.Pairwise fun r s => strcmp r.word s.word = .lt) (sought : Dictrec) :
    (records ≠ [] → ∀ uninitialised, ∃ outcome,
        Returns (remoteLookup records uninitialised sought) outcome) ∧
      (Agree records sought ↔
        ∀ r ∈ records, cstr r.word = cstr sought.word → cstr r.text ≠ asBytes "Not Found!") := by
  by_cases empty : records = []
  · subst empty
    refine ⟨fun nonempty => absurd rfl nonempty, fun _ _ member => ?_, fun _ _ _ _ returned => ?_⟩
    · exact (List.not_mem_nil member).elim
    · obtain ⟨bound, returned⟩ := returned
      exact nomatch (remoteLookup_nil _ sought bound).symm.trans (returned bound (Nat.le_refl _))
  · have table : InOrder records := ⟨empty, terminated, increasing⟩
    constructor
    · intro _ uninitialised
      obtain ⟨served, tryit, returned, -⟩ := remoteLookup_returns table uninitialised sought
      exact ⟨_, returned⟩
    · constructor
      · intro agree r member word text
        obtain ⟨served, tryit, returned, answers⟩ := remoteLookup_returns table .nowhere sought
        have verdicts := (agree _ _ _ returned).1
        rcases answers with ⟨rfl, s, listed, same, copy⟩ | ⟨-, absent, -⟩
        · obtain rfl := same_record table listed member (same.trans word.symm)
          exact nomatch (verdict_notFound (copy.trans text)).symm.trans (verdicts.mpr rfl)
        · exact absent r member word
      · intro apart uninitialised server client returned
        obtain ⟨served, tryit, returned', answers⟩ :=
          remoteLookup_returns table uninitialised sought
        obtain ⟨rfl, rfl⟩ := Prod.mk.inj (returned.unique returned')
        refine ⟨?_, rfl⟩
        rcases answers with ⟨rfl, r, member, word, copy⟩ | ⟨rfl, -, copy⟩
        · have text : cstr tryit.text ≠ asBytes "Not Found!" :=
            fun same => apart r member word (copy.symm.trans same)
          exact ⟨fun _ => rfl, fun _ => verdict_found text⟩
        · exact ⟨fun found => (nomatch (verdict_notFound copy).symm.trans found),
            fun found => nomatch found⟩

theorem agree_iff_tiny : Agree tinyTable (.ofString _ [97]) :=
  (agree_iff tinyTable_inOrder.terminated tinyTable_inOrder.increasing (.ofString _ [97])).2.mpr
    (by decide)

/-- A table of one record, whose text is `Not Found!`. -/
def trapTable : List Dictrec :=
  [⟨pad WORD [97] ++ pad TEXT (asBytes "Not Found!"), by decide +kernel⟩]

/-- The server finds the record, and the client does not. -/
theorem not_agree_trap : InOrder trapTable ∧ ¬ Agree trapTable (.ofString _ [97]) := by
  have table : InOrder trapTable :=
    ⟨by decide, by decide +kernel, List.pairwise_singleton _ _⟩
  refine ⟨table, fun agree => ?_⟩
  obtain ⟨served, tryit, returned, answers⟩ :=
    remoteLookup_returns table .nowhere (.ofString _ [97])
  have verdicts := (agree _ _ _ returned).1
  rcases answers with ⟨rfl, r, listed, -, copy⟩ | ⟨-, absent, -⟩
  · obtain rfl := List.mem_singleton.mp listed
    exact nomatch (verdict_notFound (copy.trans (by decide +kernel))).symm.trans (verdicts.mpr rfl)
  · exact absent _ (List.mem_singleton_self _) (by decide +kernel)

end Mapped

end LinuxExercises.Dictionary
