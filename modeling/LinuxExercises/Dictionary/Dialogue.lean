import LinuxExercises.Dictionary.RemoteVerdict
import LinuxExercises.Dictionary.StreamProtocol

/-!
# A dialogue with the server child

The server child answers with its own `lookup5`. It exits in the middle of the dialogue
when the dictionary cannot be opened or mapped, or when the lookup faults, and the client
learns of it only by a `read` that returns nothing. The client does not look at how much
it has read. Its record is then the one that it has sent, and unless the text field there
happens to be `Not Found!`, the call returns `FOUND` (`invented_tiny`).

A later lookup of the child searches whatever its unassigned pointer leads to. When that is
other memory which can be read, the child itself answers with what no record has.

While every `read` of a record returns a whole record, the end of the connection only meets
calls whose text field is `Not Found!`, and no lookup goes astray into other memory, no
`FOUND` is invented (`neverInvented_of_run`).
-/

set_option autoImplicit false

namespace LinuxExercises.Dictionary

open Foundations

/-- A client's connection and what the server child has mapped. -/
structure Dialogue where
  connection : Connection
  mapped : Mapped
deriving DecidableEq

namespace Dialogue

open Connection (AtTurn)
open Mapped (verdict)

/-- Any step of the connection but an answer, or a call of the server's `lookup`. -/
inductive Action where
  | connection (a : Connection.Action)
  | lookup (uninitialised : Pointer)
deriving DecidableEq

/-- The connection just accepted. -/
def start (uninitialised : Dictrec) : Dialogue := ⟨.start uninitialised, .start⟩

/-- A lookup that returns is answered, and one that does not ends the child. -/
def step (resource : Option (List Byte)) (d : Dialogue) : Action → Option Dialogue
  | .connection (.answer _ _) => none
  | .connection a => (d.connection.step a).map fun c => { d with connection := c }
  | .lookup uninitialised =>
    match d.mapped.lookup resource uninitialised d.connection.tryit (d.mapped.rounds resource) with
    | .ok (verdict, reply, m) => (d.connection.step (.answer verdict reply)).map fun c => ⟨c, m⟩
    | .error _ => (d.connection.step .abandon).map fun c => { d with connection := c }

/-- Every call that has returned `FOUND` has an answer of the server to its query, with a
record that the server has found and its text. -/
def NeverInvented (resource : Option (List Byte)) (c : Connection) : Prop :=
  ∀ (k : Nat) (record : Dictrec), c.returned[k]? = some record → verdict record = .found →
    ∃ (service : Service) (bytes : List Byte), c.served[k]? = some service ∧
      c.sent[k]? = some service.request ∧ service.verdict = .found ∧ record = service.reply ∧
      resource = some bytes ∧ Mapped.Matches bytes service.request service.reply

/-- Every `read` of a record returns a whole record, the end of the connection only meets a
call whose text field is `Not Found!`, and behind the first lookup of the child the
unassigned pointer does not lead to other memory. -/
def Complete (d : Dialogue) : Action → Prop
  | .connection (.receive n) => n = WORD + TEXT
  | .connection (.serverRead n) => n = WORD + TEXT
  | .connection .receiveEnd =>
    match d.connection.client with
    | .waiting sought => verdict sought = .notFound
    | _ => True
  | .lookup uninitialised => (d.mapped.follows uninitialised).astray = false
  | _ => True

instance (d : Dialogue) : DecidablePred d.Complete
  | .connection (.receive n) => inferInstanceAs (Decidable (n = WORD + TEXT))
  | .connection (.serverRead n) => inferInstanceAs (Decidable (n = WORD + TEXT))
  | .connection .receiveEnd =>
    match same : d.connection.client with
    | .waiting sought =>
        decidable_of_iff (verdict sought = .notFound) (by simp [Complete, same])
    | .ready => .isTrue (by simp [Complete, same])
    | .gone => .isTrue (by simp [Complete, same])
  | .connection (.send _) => .isTrue trivial
  | .connection .quit => .isTrue trivial
  | .connection .serverEnd => .isTrue trivial
  | .connection (.answer _ _) => .isTrue trivial
  | .connection .abandon => .isTrue trivial
  | .lookup uninitialised =>
      inferInstanceAs (Decidable ((d.mapped.follows uninitialised).astray = false))

/-! ## Behind the end of the connection -/

/-- The server child is gone, and the calls since have found nothing. -/
structure Over (c : Connection) : Prop where
  gone : c.server = .gone
  drained : c.toClient = []
  lookups : c.served.map Service.request <+: c.sent
  results : ∃ earlier since, c.returned = earlier ++ since ∧
    earlier <+: c.served.map Service.reply ∧ ∀ r ∈ since, verdict r = .notFound

/-- The invariant. -/
structure Honest (resource : Option (List Byte)) (d : Dialogue) : Prop where
  ready : Mapped.Ready resource d.mapped
  answers : ∀ service ∈ d.connection.served,
    Mapped.Outcome resource service.request service.verdict service.reply
  stage : (∃ turn, d.connection.AtTurn turn) ∨ Over d.connection

variable {resource : Option (List Byte)} {uninitialised : Dictrec} {d e : Dialogue}

theorem honest_start (resource : Option (List Byte)) (uninitialised : Dictrec) :
    Honest resource (start uninitialised) where
  ready := .inl rfl
  answers := fun _ member => (List.not_mem_nil member).elim
  stage := .inl ⟨.idle, Connection.atTurn_start _⟩

/-- A prefix has the entries of the list at the same places. -/
theorem getElem?_eq_of_front {α : Type} {front all : List α} {k : Nat} {a : α}
    (front_of : front <+: all) (at_k : front[k]? = some a) : all[k]? = some a := by
  obtain ⟨rest, rfl⟩ := front_of
  obtain ⟨inside, -⟩ := List.getElem?_eq_some_iff.mp at_k
  rw [List.getElem?_append_left inside, at_k]

/-- A result among the replies, and what the server did for it. -/
theorem Honest.replied (honest : Honest resource d) {k : Nat} {record : Dictrec}
    (lookups : d.connection.served.map Service.request <+: d.connection.sent)
    (reply : (d.connection.served.map Service.reply)[k]? = some record)
    (found : verdict record = .found) :
    ∃ (service : Service) (bytes : List Byte), d.connection.served[k]? = some service ∧
      d.connection.sent[k]? = some service.request ∧ service.verdict = .found ∧
      record = service.reply ∧ resource = some bytes ∧
      Mapped.Matches bytes service.request service.reply := by
  rw [List.getElem?_map, Option.map_eq_some_iff] at reply
  obtain ⟨service, at_k, rfl⟩ := reply
  have request : (d.connection.served.map Service.request)[k]? = some service.request := by
    rw [List.getElem?_map, at_k]
    rfl
  rcases (honest.answers service (List.mem_of_getElem? at_k)).answer with
    ⟨same, bytes, mapped, matched⟩ | ⟨-, text⟩
  · exact ⟨service, bytes, at_k, getElem?_eq_of_front lookups request, same, rfl, mapped, matched⟩
  · exact nomatch (Mapped.verdict_notFound text).symm.trans found

theorem Honest.neverInvented (honest : Honest resource d) :
    NeverInvented resource d.connection := by
  intro k record returned found
  rcases honest.stage with ⟨turn, stage⟩ | isOver
  · have paired := stage.paired
    exact honest.replied paired.lookups (getElem?_eq_of_front paired.results returned) found
  · obtain ⟨earlier, since, same, replies, notFound⟩ := isOver.results
    rw [same] at returned
    by_cases inside : k < earlier.length
    · rw [List.getElem?_append_left inside] at returned
      exact honest.replied isOver.lookups (getElem?_eq_of_front replies returned) found
    · rw [List.getElem?_append_right (Nat.not_lt.mp inside)] at returned
      exact nomatch (notFound record (List.mem_of_getElem? returned)).symm.trans found

/-! ## Steps -/

/-- Only an answer adds to what the server has served. -/
theorem served_step {c c' : Connection} {a : Connection.Action}
    (taken : c.step a = some c') (other : ∀ verdict reply, a ≠ .answer verdict reply) :
    c'.served = c.served := by
  cases Connection.stepped taken with
  | answer => exact absurd rfl (other _ _)
  | _ => rfl

/-- Once the server is gone, the client can only write, read the end of the connection, or
leave. -/
theorem Over.step {c c' : Connection} {a : Connection.Action} (isOver : Over c)
    (complete : ∀ sought, a = .receiveEnd → c.client = .waiting sought →
      verdict sought = .notFound)
    (taken : c.step a = some c') : Over c' := by
  have gone := isOver.gone
  cases Connection.stepped taken with
  | send =>
      exact ⟨gone, isOver.drained, isOver.lookups.trans (List.prefix_append ..), isOver.results⟩
  | receive _ received =>
      rw [isOver.drained, recv_nil] at received
      cases received
  | @receiveEnd sought waiting =>
      obtain ⟨earlier, since, same, replies, notFound⟩ := isOver.results
      refine ⟨gone, isOver.drained, isOver.lookups, earlier, since ++ [sought], ?_, replies, ?_⟩
      · rw [same, List.append_assoc]
      · intro r member
        rcases List.mem_append.mp member with old | new
        · exact notFound r old
        · exact List.mem_singleton.mp new ▸ complete sought rfl waiting
  | quit => exact ⟨gone, isOver.drained, isOver.lookups, isOver.results⟩
  | serverRead reading => cases gone.symm.trans reading
  | serverEnd reading => cases gone.symm.trans reading
  | answer serving => cases gone.symm.trans serving
  | abandon serving => cases gone.symm.trans serving

/-- A call meets the end of the connection for the first time. -/
theorem over_of_receiveEnd {c c' : Connection} {turn : Connection.Turn} (stage : c.AtTurn turn)
    (complete : ∀ sought, c.client = .waiting sought → verdict sought = .notFound)
    (taken : c.step .receiveEnd = some c') : Over c' := by
  have paired := stage.paired
  cases Connection.stepped taken with | @receiveEnd sought waiting drained gone =>
  refine ⟨gone, drained, paired.lookups, c.returned, [sought], rfl, paired.results, ?_⟩
  intro r member
  exact List.mem_singleton.mp member ▸ complete sought waiting

/-- A step of the connection keeps the stage. -/
theorem Honest.stage_step (honest : Honest resource d) {a : Connection.Action} {c : Connection}
    (complete : d.Complete (.connection a)) (taken : d.connection.step a = some c) :
    (∃ turn, c.AtTurn turn) ∨ Over c := by
  have ended : ∀ sought, a = .receiveEnd → d.connection.client = .waiting sought →
      verdict sought = .notFound := by
    intro sought same waiting
    subst same
    rw [Complete, waiting] at complete
    exact complete
  rcases honest.stage with ⟨turn, stage⟩ | isOver
  · by_cases last : a = .receiveEnd
    · subst last
      exact .inr (over_of_receiveEnd stage (fun sought => ended sought rfl) taken)
    · have whole : Connection.Whole a := by
        cases a with
        | receive n => exact complete
        | serverRead n => exact complete
        | receiveEnd => exact absurd rfl last
        | _ => trivial
      exact .inl (Connection.atTurn_step whole ⟨turn, stage⟩ taken)
  · exact .inr (isOver.step ended taken)

/-- What an answer adds. -/
theorem served_answer {c c' : Connection} {verdict : Verdict} {reply : Dictrec}
    (taken : c.step (.answer verdict reply) = some c') :
    c'.served = c.served ++ [⟨c.tryit, verdict, reply⟩] := by
  cases Connection.stepped taken
  cases verdict <;> rfl

theorem honest_step {a : Action} (complete : d.Complete a) (honest : Honest resource d)
    (taken : step resource d a = some e) : Honest resource e := by
  cases a with
  | connection a =>
      have other : ∀ verdict reply, a ≠ .answer verdict reply := by
        rintro verdict reply rfl
        cases taken
      have moved : (d.connection.step a).map (fun c => { d with connection := c }) = some e := by
        cases a with
        | answer verdict reply => exact absurd rfl (other verdict reply)
        | _ => exact taken
      obtain ⟨c, stepped, rfl⟩ := Option.map_eq_some_iff.mp moved
      refine ⟨honest.ready, ?_, honest.stage_step complete stepped⟩
      rw [served_step stepped other]
      exact honest.answers
  | lookup pointer =>
      rw [step] at taken
      split at taken
      · rename_i verdict reply m returned
        obtain ⟨c, moved, rfl⟩ := Option.map_eq_some_iff.mp taken
        have outcome := Mapped.lookup_outcome honest.ready complete returned
        refine ⟨(Mapped.lookup_word honest.ready returned).1, ?_,
          @honest.stage_step _ _ (.answer verdict reply) c trivial moved⟩
        rw [served_answer moved]
        intro service member
        rcases List.mem_append.mp member with old | new
        · exact honest.answers service old
        · exact List.mem_singleton.mp new ▸ outcome
      · obtain ⟨c, moved, rfl⟩ := Option.map_eq_some_iff.mp taken
        refine ⟨honest.ready, ?_, @honest.stage_step _ _ .abandon c trivial moved⟩
        rw [served_step moved fun _ _ same => nomatch same]
        exact honest.answers

/-- **No invented `FOUND`** in a run in which every `read` of a record returns a whole record,
the end of the connection only meets calls whose text field is `Not Found!`, and no later
lookup of the child goes astray into other memory. -/
theorem neverInvented_of_run {actions : List Action} {d : Dialogue}
    (complete : Along (step resource) Complete (start uninitialised) actions)
    (ran : run (step resource) (start uninitialised) actions = some d) :
    NeverInvented resource d.connection :=
  (run_invariant_along honest_step complete (honest_start resource uninitialised) ran).neverInvented

/-- A query, its answer, and the client's reading of it. -/
def answered : List Action :=
  [.connection (.send (.ofString _ [97])), .connection (.serverRead 512), .lookup .nowhere,
    .connection (.receive 512)]

theorem neverInvented_tiny :
    ∃ d, run (step (some (Mapped.file Mapped.tinyTable))) (start (.ofString _ [])) answered =
        some d ∧ d.connection.returned.map verdict = [.found] ∧
      NeverInvented (some (Mapped.file Mapped.tinyTable)) d.connection := by
  have finds : (run (step (some (Mapped.file Mapped.tinyTable))) (start (.ofString _ []))
      answered).map (fun d => d.connection.returned.map verdict) = some [.found] := by
    decide +kernel
  obtain ⟨d, ran, found⟩ := Option.map_eq_some_iff.mp finds
  exact ⟨d, ran, found, neverInvented_of_run (by decide +kernel) ran⟩

/-- The dictionary cannot be opened, and the child exits. -/
def abandoned : List Action :=
  [.connection (.send (.ofString _ [97])), .connection (.serverRead 512), .lookup .nowhere,
    .connection .receiveEnd]

theorem invented_tiny :
    ∃ d, run (step none) (start (.ofString _ [])) abandoned = some d ∧
      d.connection.served = [] ∧ d.connection.returned.map verdict = [.found] ∧
      ¬ NeverInvented none d.connection := by
  have finds : (run (step none) (start (.ofString _ [])) abandoned).map
      (fun d => (d.connection.served, d.connection.returned.map verdict)) =
        some ([], [.found]) := by decide +kernel
  obtain ⟨d, ran, same⟩ := Option.map_eq_some_iff.mp finds
  obtain ⟨served, found⟩ := Prod.mk.inj same
  refine ⟨d, ran, served, found, fun never => ?_⟩
  obtain ⟨record, returned, verdicts⟩ := List.map_eq_singleton_iff.mp found
  obtain ⟨service, bytes, at_k, -⟩ := never 0 record (by rw [returned]; rfl) verdicts
  rw [served] at at_k
  exact nomatch at_k

/-- A second query, and at its lookup the unassigned pointer holds the address of the record
with that query itself. -/
def astray : List Action :=
  [.connection (.send (.ofString _ [97])), .connection (.serverRead 512), .lookup .nowhere,
    .connection (.receive 512), .connection (.send (.ofString _ [120])),
    .connection (.serverRead 512), .lookup (.elsewhere (Buffer.bytes (Buffer.ofString 512 [120]))),
    .connection (.receive 512)]

-- With every `read` whole, the child has answered for a word that the file does not have.
example :
    (run (step (some (Mapped.file [.ofString _ [97]]))) (start (.ofString _ [])) astray).map
      (fun d => (d.connection.served.map Service.verdict, d.connection.returned.map verdict)) =
        some ([.found, .found], [.found, .found]) := by
  decide +kernel

end Dialogue

end LinuxExercises.Dictionary
