import LinuxExercises.Dictionary.MappedLookup
import LinuxExercises.Dictionary.StreamProtocol
import LinuxExercises.Foundations.Datagrams

/-!
# The dictionary over datagrams

`lookup9` sends its record in a datagram to the server and takes the first datagram that
arrives for the reply, whoever sent it. `recvfrom` stores the address of the sender in the
static variable `server`, to which the next call sends its request: after a datagram from
another host, all requests go there (`strayed_tiny`). And a reply that arrives twice
answers two calls.

While the network duplicates nothing and the client gets no datagram from another host,
every request goes to the server, and every call returns the server's reply to its own
request, with the word that it sought (`reliable_of_run`).
-/

set_option autoImplicit false

namespace LinuxExercises.Dictionary

open Foundations

/-- The addresses of the server, as `gethostbyname` gives it, and of the client's socket. -/
structure Hosts (Address : Type*) where
  server : Address
  client : Address
  distinct : server ≠ client

/-- A call of the client that has returned: the record it sent, the sender of the datagram
it got, and the record afterwards. -/
structure Return (Address : Type*) where
  sought : Dictrec
  source : Address
  record : Dictrec
deriving DecidableEq

/-- The static variables of the client and the record of the call that it is in, the server
and the datagrams under way. The last three fields record what happened. -/
structure Exchange (Address : Type*) where
  firstTime : Bool
  server : Address
  waiting : Option Dictrec
  running : Bool
  tryit : Dictrec
  mapped : Mapped
  inFlight : List (Datagram Address)
  sent : List Address
  served : List Service
  returned : List (Return Address)

namespace Exchange

variable {Address : Type*} [DecidableEq Address]

/-- A step of the client, of the server, or of the network. -/
inductive Action (Address : Type*) where
  /-- The client calls `lookup`, which sends the record. -/
  | call (sought : Dictrec)
  /-- The datagram at a position arrives at the client, and `lookup` returns. -/
  | deliver (i : Nat)
  /-- The datagram at a position arrives at the server, which looks it up and replies. -/
  | serve (i : Nat) (uninitialised : Pointer)
  /-- The network delivers a datagram twice. -/
  | duplicate (i : Nat)
  /-- Another host sends a datagram. -/
  | foreign (d : Datagram Address)
deriving DecidableEq

/-- Neither process has done anything. The static variable `server` is not set, and the
record of the server is not initialised. -/
def start (hosts : Hosts Address) (uninitialised : Dictrec) : Exchange Address where
  firstTime := true
  server := hosts.client
  waiting := none
  running := true
  tryit := uninitialised
  mapped := .start
  inFlight := []
  sent := []
  served := []
  returned := []

/-- The destination of the next request. The first call resolves the address. -/
def destination (hosts : Hosts Address) (s : Exchange Address) : Address :=
  if s.firstTime then hosts.server else s.server

/-- The client's request. -/
def request (hosts : Hosts Address) (s : Exchange Address) (sought : Dictrec) :
    Exchange Address :=
  { s with
    firstTime := false
    server := s.destination hosts
    waiting := some sought
    inFlight := s.inFlight ++ [⟨hosts.client, s.destination hosts, sought.bytes⟩]
    sent := s.sent ++ [s.destination hosts] }

/-- `recvfrom` returns in the client. -/
def accept (s : Exchange Address) (sought : Dictrec) (d : Datagram Address)
    (rest : List (Datagram Address)) : Exchange Address :=
  { s with
    server := d.source
    waiting := none
    inFlight := rest
    returned := s.returned ++ [⟨sought, d.source, recvfrom d.payload sought⟩] }

/-- The server has looked a request up, and answers its sender. -/
def respond (hosts : Hosts Address) (s : Exchange Address) (client : Address)
    (rest : List (Datagram Address)) (request record : Dictrec) (verdict : Verdict) (m : Mapped) :
    Exchange Address :=
  { s with
    tryit := record
    mapped := m
    inFlight := rest ++ [⟨hosts.server, client, record.bytes⟩]
    served := s.served ++ [⟨request, verdict, record⟩] }

/-- The server gets a datagram. One without bytes it does not look up. -/
def serve (hosts : Hosts Address) (resource : Option (List Byte)) (s : Exchange Address)
    (d : Datagram Address) (rest : List (Datagram Address)) (uninitialised : Pointer) :
    Exchange Address :=
  if d.payload = [] then { s with inFlight := rest }
  else
    let tryit := recvfrom d.payload s.tryit
    match s.mapped.lookup resource uninitialised tryit (s.mapped.rounds resource) with
    | .ok (verdict, record, m) => s.respond hosts d.source rest tryit record verdict m
    | .error _ => { s with running := false, tryit := tryit, inFlight := rest }

/-- The step of an action, when it is enabled. -/
def step (hosts : Hosts Address) (resource : Option (List Byte)) (s : Exchange Address) :
    Action Address → Option (Exchange Address)
  | .call sought => if s.waiting = none then some (s.request hosts sought) else none
  | .deliver i =>
    match s.waiting with
    | some sought =>
      (arrive s.inFlight i hosts.client).map fun (d, rest) => s.accept sought d rest
    | none => none
  | .serve i uninitialised =>
    if s.running then
      (arrive s.inFlight i hosts.server).map fun (d, rest) =>
        s.serve hosts resource d rest uninitialised
    else none
  | .duplicate i =>
    (s.inFlight[i]?).map fun d => { s with inFlight := s.inFlight ++ [d] }
  | .foreign d =>
    if d.source ≠ hosts.server ∧ d.source ≠ hosts.client then
      some { s with inFlight := s.inFlight ++ [d] }
    else none

/-- Every request goes to the server, and every call returns with a reply of the server
whose word field is the one that the call sought. -/
structure Reliable (hosts : Hosts Address) (s : Exchange Address) : Prop where
  destinations : ∀ a ∈ s.sent, a = hosts.server
  replies : ∀ r ∈ s.returned, r.source = hosts.server ∧
    (∃ service ∈ s.served, r.record = service.reply) ∧
    r.record.bytes.take WORD = r.sought.bytes.take WORD

/-- Nothing is duplicated, and the client gets nothing from another host. -/
def Undisturbed (hosts : Hosts Address) (s : Exchange Address) : Action Address → Prop
  | .duplicate _ => False
  | .deliver i => ∀ d ∈ s.inFlight[i]?, d.source = hosts.server
  | _ => True

instance (hosts : Hosts Address) (s : Exchange Address) : DecidablePred (Undisturbed hosts s)
  | .duplicate _ => .isFalse id
  | .deliver i => inferInstanceAs (Decidable (∀ d ∈ s.inFlight[i]?, d.source = hosts.server))
  | .call _ => .isTrue trivial
  | .serve _ _ => .isTrue trivial
  | .foreign _ => .isTrue trivial

/-! ## What is under way -/

/-- A request of the client, or a reply to it. -/
def Own (hosts : Hosts Address) (d : Datagram Address) : Prop :=
  d.source = hosts.client ∨ d.source = hosts.server ∧ d.destination = hosts.client

instance (hosts : Hosts Address) : DecidablePred (Own hosts) :=
  fun _ => inferInstanceAs (Decidable (_ ∨ _ ∧ _))

/-- The client's datagrams under way. -/
def own (hosts : Hosts Address) (inFlight : List (Datagram Address)) : List (Datagram Address) :=
  inFlight.filter fun d => Own hosts d

/-- What may be under way during a call: nothing, the request, or the reply to it. -/
inductive Pending (hosts : Hosts Address) (served : List Service) (sought : Dictrec) :
    List (Datagram Address) → Prop
  | lost : Pending hosts served sought []
  | asked : Pending hosts served sought [⟨hosts.client, hosts.server, sought.bytes⟩]
  | answered {service : Service} (member : service ∈ served)
      (word : service.reply.bytes.take WORD = sought.bytes.take WORD) :
      Pending hosts served sought [⟨hosts.server, hosts.client, service.reply.bytes⟩]

/-- The invariant. -/
structure Calm (hosts : Hosts Address) (resource : Option (List Byte)) (s : Exchange Address) :
    Prop where
  ready : Mapped.Ready resource s.mapped
  address : s.destination hosts = hosts.server
  idle : s.waiting = none → own hosts s.inFlight = []
  pending : ∀ sought, s.waiting = some sought →
    Pending hosts s.served sought (own hosts s.inFlight)
  reliable : Reliable hosts s

variable {hosts : Hosts Address} {resource : Option (List Byte)} {s t : Exchange Address}
  {d : Datagram Address} {rest : List (Datagram Address)}

theorem calm_start (hosts : Hosts Address) (resource : Option (List Byte))
    (uninitialised : Dictrec) : Calm hosts resource (start hosts uninitialised) where
  ready := .inl rfl
  address := rfl
  idle := fun _ => rfl
  pending := fun _ waiting => nomatch waiting
  reliable :=
    { destinations := fun _ member => (List.not_mem_nil member).elim
      replies := fun _ member => (List.not_mem_nil member).elim }

theorem own_append (first second : List (Datagram Address)) :
    own hosts (first ++ second) = own hosts first ++ own hosts second :=
  List.filter_append ..

theorem own_cons (is_own : Own hosts d) : own hosts (d :: rest) = d :: own hosts rest :=
  List.filter_cons_of_pos (decide_eq_true is_own)

theorem own_cons_foreign (foreign : ¬ Own hosts d) : own hosts (d :: rest) = own hosts rest :=
  List.filter_cons_of_neg fun same => foreign (of_decide_eq_true same)

theorem own_perm {first second : List (Datagram Address)} (perm : first.Perm second) :
    (own hosts first).Perm (own hosts second) :=
  perm.filter _

omit [DecidableEq Address] in
theorem Pending.length_le {served : List Service} {sought : Dictrec}
    {underWay : List (Datagram Address)} (pending : Pending hosts served sought underWay) :
    underWay.length ≤ 1 := by
  cases pending with
  | lost => exact Nat.zero_le 1
  | asked => exact Nat.le_refl 1
  | answered _ _ => exact Nat.le_refl 1

omit [DecidableEq Address] in
theorem Pending.perm {served : List Service} {sought : Dictrec}
    {before after : List (Datagram Address)} (pending : Pending hosts served sought before)
    (perm : before.Perm after) : Pending hosts served sought after := by
  cases pending with
  | lost =>
      obtain rfl := List.nil_perm.mp perm
      exact .lost
  | asked =>
      obtain rfl := List.singleton_perm.mp perm
      exact .asked
  | answered member word =>
      obtain rfl := List.singleton_perm.mp perm
      exact .answered member word

omit [DecidableEq Address] in
theorem Pending.mono {served later : List Service} {sought : Dictrec}
    {underWay : List (Datagram Address)} (pending : Pending hosts served sought underWay)
    (more : served ⊆ later) : Pending hosts later sought underWay := by
  cases pending with
  | lost => exact .lost
  | asked => exact .asked
  | answered member word => exact .answered (more member) word

/-- A datagram of the client's that arrives was the only one. -/
theorem own_arrives {destination : Address} {i : Nat} {sought : Dictrec} {served : List Service}
    (pending : Pending hosts served sought (own hosts s.inFlight)) (is_own : Own hosts d)
    (arrived : arrive s.inFlight i destination = some (d, rest)) :
    own hosts s.inFlight = [d] ∧ own hosts rest = [] := by
  have perm : (own hosts s.inFlight).Perm (d :: own hosts rest) :=
    own_cons is_own ▸ own_perm (arrive_perm arrived).2
  have short := pending.length_le
  have none : own hosts rest = [] := by
    rw [perm.length_eq, List.length_cons] at short
    exact List.length_eq_zero_iff.mp (Nat.le_zero.mp (Nat.le_of_succ_le_succ short))
  rw [none] at perm
  exact ⟨List.perm_singleton.mp perm, none⟩

/-- A datagram of another conversation arrives. -/
theorem own_arrives_foreign {destination : Address} {i : Nat} (foreign : ¬ Own hosts d)
    (arrived : arrive s.inFlight i destination = some (d, rest)) :
    (own hosts s.inFlight).Perm (own hosts rest) := by
  have perm := @own_perm _ _ hosts _ _ (arrive_perm arrived).2
  rwa [own_cons_foreign foreign] at perm

/-! ## Steps -/

/-- A call sends its request to the server. -/
theorem Calm.call (calm : Calm hosts resource s) (idle : s.waiting = none) (sought : Dictrec) :
    Calm hosts resource (s.request hosts sought) where
  ready := calm.ready
  address := calm.address
  idle := fun waiting => nomatch waiting
  pending := by
    intro sought' same
    obtain rfl := Option.some.inj same
    have asked : own hosts (s.request hosts sought).inFlight =
        [⟨hosts.client, hosts.server, sought.bytes⟩] := by
      rw [request, own_append, calm.idle idle, calm.address, List.nil_append]
      exact own_cons (.inl rfl)
    rw [asked]
    exact .asked
  reliable :=
    { destinations := by
        intro a member
        rcases List.mem_append.mp member with old | new
        · exact calm.reliable.destinations a old
        · exact (List.mem_singleton.mp new).trans calm.address
      replies := calm.reliable.replies }

/-- The client gets the reply to its request. -/
theorem Calm.deliver {i : Nat} {sought : Dictrec} (calm : Calm hosts resource s)
    (waiting : s.waiting = some sought) (source : d.source = hosts.server)
    (arrived : arrive s.inFlight i hosts.client = some (d, rest)) :
    Calm hosts resource (s.accept sought d rest) := by
  have there := (arrive_perm arrived).1
  obtain ⟨single, none⟩ := own_arrives (calm.pending sought waiting) (.inr ⟨source, there⟩) arrived
  have pending := calm.pending sought waiting
  rw [single] at pending
  refine ⟨calm.ready, ?_, fun _ => none, fun _ same => (nomatch same), ?_⟩
  · have address := calm.address
    rw [destination] at address ⊢
    split
    · rfl
    · exact source
  · refine ⟨calm.reliable.destinations, fun r member => ?_⟩
    rcases List.mem_append.mp member with old | new
    · exact calm.reliable.replies r old
    · rw [List.mem_singleton.mp new]
      cases pending with
      | asked => exact absurd source hosts.distinct.symm
      | answered known word =>
          dsimp only
          rw [recvfrom_whole]
          exact ⟨rfl, ⟨_, known, rfl⟩, word⟩

/-- What is under way to the client is the same, up to order. -/
theorem Calm.keep (calm : Calm hosts resource s) {inFlight : List (Datagram Address)}
    (perm : (own hosts s.inFlight).Perm (own hosts inFlight)) {running : Bool} {tryit : Dictrec} :
    Calm hosts resource { s with inFlight := inFlight, running := running, tryit := tryit } where
  ready := calm.ready
  address := calm.address
  idle := fun waiting => List.nil_perm.mp (calm.idle waiting ▸ perm)
  pending := fun sought waiting => (calm.pending sought waiting).perm perm
  reliable := ⟨calm.reliable.destinations, calm.reliable.replies⟩

/-- The server answers somebody else. -/
theorem Calm.respond_foreign {request record : Dictrec} {verdict : Verdict} {m : Mapped}
    (calm : Calm hosts resource s) (foreign : d.source ≠ hosts.client)
    (ready : Mapped.Ready resource m) (perm : (own hosts s.inFlight).Perm (own hosts rest)) :
    Calm hosts resource (s.respond hosts d.source rest request record verdict m) := by
  have none : own hosts [⟨hosts.server, d.source, record.bytes⟩] = [] := by
    refine own_cons_foreign fun is_own => ?_
    rcases is_own with same | ⟨-, same⟩
    · exact hosts.distinct same
    · exact foreign same
  have perm : (own hosts s.inFlight).Perm
      (own hosts (s.respond hosts d.source rest request record verdict m).inFlight) := by
    rw [respond, own_append, none, List.append_nil]
    exact perm
  refine ⟨ready, calm.address, fun waiting => List.nil_perm.mp (calm.idle waiting ▸ perm), ?_, ?_⟩
  · intro sought waiting
    exact ((calm.pending sought waiting).perm perm).mono (List.subset_append_left ..)
  · refine ⟨calm.reliable.destinations, fun r member => ?_⟩
    obtain ⟨source, ⟨service, known, same⟩, word⟩ := calm.reliable.replies r member
    exact ⟨source, ⟨service, List.mem_append_left _ known, same⟩, word⟩

/-- The server answers the client. -/
theorem Calm.respond {sought record : Dictrec} {verdict : Verdict} {m : Mapped}
    (calm : Calm hosts resource s) (waiting : s.waiting = some sought)
    (ready : Mapped.Ready resource m) (none : own hosts rest = [])
    (word : record.bytes.take WORD = sought.bytes.take WORD) :
    Calm hosts resource (s.respond hosts hosts.client rest sought record verdict m) := by
  have answered : own hosts (s.respond hosts hosts.client rest sought record verdict m).inFlight =
      [⟨hosts.server, hosts.client, record.bytes⟩] := by
    rw [Exchange.respond, own_append, none, List.nil_append]
    exact own_cons (.inr ⟨rfl, rfl⟩)
  refine ⟨ready, calm.address, fun idle => (nomatch waiting.symm.trans idle), ?_, ?_⟩
  · intro sought' same
    obtain rfl := Option.some.inj (waiting.symm.trans same)
    rw [answered]
    exact @Pending.answered _ hosts _ sought ⟨sought, verdict, record⟩
      (List.mem_append_right _ (List.mem_singleton_self _)) word
  · refine ⟨calm.reliable.destinations, fun r member => ?_⟩
    obtain ⟨source, ⟨service, known, same⟩, word⟩ := calm.reliable.replies r member
    exact ⟨source, ⟨service, List.mem_append_left _ known, same⟩, word⟩

/-- The server gets the client's request. -/
theorem Calm.serve_own {i : Nat} {uninitialised : Pointer} (calm : Calm hosts resource s)
    (source : d.source = hosts.client)
    (arrived : arrive s.inFlight i hosts.server = some (d, rest)) :
    Calm hosts resource (s.serve hosts resource d rest uninitialised) := by
  have is_own : Own hosts d := .inl source
  cases waiting : s.waiting with
  | none =>
      have member : d ∈ own hosts s.inFlight := List.mem_filter.mpr
        ⟨(arrive_perm arrived).2.mem_iff.mpr (List.mem_cons_self ..), decide_eq_true is_own⟩
      rw [calm.idle waiting] at member
      exact (List.not_mem_nil member).elim
  | some sought =>
      have pending := calm.pending sought waiting
      obtain ⟨single, none⟩ := own_arrives pending is_own arrived
      rw [single] at pending
      have gone : ∀ running tryit, Calm hosts resource
          { s with running := running, tryit := tryit, inFlight := rest } := by
        intro running tryit
        refine ⟨calm.ready, calm.address, fun _ => none, fun _ _ => ?_,
          ⟨calm.reliable.destinations, calm.reliable.replies⟩⟩
        rw [none]
        exact .lost
      cases pending with
      | answered known word => exact absurd source hosts.distinct
      | asked =>
          rw [serve]
          split
          · exact gone s.running s.tryit
          · dsimp only
            rw [recvfrom_whole]
            split
            · rename_i returned
              obtain ⟨ready, word⟩ := Mapped.lookup_word calm.ready returned
              exact calm.respond waiting ready none word
            · exact gone false sought

/-- The server gets the datagram of another host. -/
theorem Calm.serve_foreign {i : Nat} {uninitialised : Pointer} (calm : Calm hosts resource s)
    (source : d.source ≠ hosts.client)
    (arrived : arrive s.inFlight i hosts.server = some (d, rest)) :
    Calm hosts resource (s.serve hosts resource d rest uninitialised) := by
  have foreign : ¬ Own hosts d := by
    rintro (same | ⟨-, there⟩)
    · exact source same
    · exact hosts.distinct ((arrive_perm arrived).1.symm.trans there)
  have perm := own_arrives_foreign foreign arrived
  rw [serve]
  split
  · exact calm.keep perm
  · dsimp only
    split
    · rename_i returned
      exact calm.respond_foreign source (Mapped.lookup_word calm.ready returned).1 perm
    · exact calm.keep perm

theorem calm_step {a : Action Address} (undisturbed : Undisturbed hosts s a)
    (calm : Calm hosts resource s) (taken : step hosts resource s a = some t) :
    Calm hosts resource t := by
  cases a with
  | call sought =>
      rw [step] at taken
      split at taken
      · rename_i idle
        exact Option.some.inj taken ▸ calm.call idle sought
      · exact nomatch taken
  | deliver i =>
      rw [step] at taken
      split at taken
      · rename_i sought waiting
        obtain ⟨⟨d, rest⟩, arrived, rfl⟩ := Option.map_eq_some_iff.mp taken
        refine calm.deliver waiting (undisturbed d ?_) arrived
        unfold arrive at arrived
        split at arrived
        · rename_i found at_i
          split at arrived
          · rw [at_i, (Prod.mk.inj (Option.some.inj arrived)).1]
            rfl
          · exact nomatch arrived
        · exact nomatch arrived
      · exact nomatch taken
  | serve i uninitialised =>
      rw [step] at taken
      split at taken
      · obtain ⟨⟨d, rest⟩, arrived, rfl⟩ := Option.map_eq_some_iff.mp taken
        by_cases source : d.source = hosts.client
        · exact calm.serve_own source arrived
        · exact calm.serve_foreign source arrived
      · exact nomatch taken
  | duplicate i => exact undisturbed.elim
  | foreign d =>
      rw [step] at taken
      split at taken
      · rename_i elsewhere
        obtain rfl := Option.some.inj taken
        refine calm.keep ?_
        have foreign : ¬ Own hosts d := by
          rintro (same | ⟨same, -⟩)
          · exact elsewhere.2 same
          · exact elsewhere.1 same
        rw [own_append, own_cons_foreign foreign]
        exact List.Perm.of_eq (List.append_nil _).symm
      · exact nomatch taken

/-- **A dialogue over a quiet network.** In a run in which nothing is duplicated and the
client gets nothing from another host, every request goes to the server, and every call
that returns has the server's reply with the word that it sought. -/
theorem reliable_of_run {uninitialised : Dictrec} {actions : List (Action Address)}
    {s : Exchange Address}
    (undisturbed : Along (step hosts resource) (Undisturbed hosts) (start hosts uninitialised)
      actions)
    (ran : run (step hosts resource) (start hosts uninitialised) actions = some s) :
    Reliable hosts s :=
  (run_invariant_along calm_step undisturbed (calm_start hosts resource uninitialised) ran).reliable

/-- The server at address 0 and the client at address 1. -/
def twoHosts : Hosts Nat := ⟨0, 1, by decide⟩

/-- A query and its answer. -/
def answered : List (Action Nat) := [.call (.ofString _ [97]), .serve 0 .nowhere, .deliver 0]

theorem reliable_tiny :
    ∃ s, run (step twoHosts (some (Mapped.file Mapped.tinyTable)))
        (start twoHosts (.ofString _ [])) answered = some s ∧ s.returned.length = 1 ∧
      Reliable twoHosts s := by
  have returns : (run (step twoHosts (some (Mapped.file Mapped.tinyTable)))
      (start twoHosts (.ofString _ [])) answered).map (fun s => s.returned.length) = some 1 := by
    decide +kernel
  obtain ⟨s, ran, returned⟩ := Option.map_eq_some_iff.mp returns
  exact ⟨s, ran, returned, reliable_of_run (by decide +kernel) ran⟩

/-- A datagram from address 2 arrives before the reply, and the client calls again. -/
def strayed : List (Action Nat) :=
  [.call (.ofString _ [97]), .foreign ⟨2, 1, [98]⟩, .deliver 1, .call (.ofString _ [97])]

theorem strayed_tiny :
    ∃ s, run (step twoHosts (some (Mapped.file Mapped.tinyTable)))
        (start twoHosts (.ofString _ [])) strayed = some s ∧ s.sent = [0, 2] ∧
      s.returned.map Return.source = [2] ∧ ¬ Reliable twoHosts s := by
  have sends : (run (step twoHosts (some (Mapped.file Mapped.tinyTable)))
      (start twoHosts (.ofString _ [])) strayed).map
        (fun s => (s.sent, s.returned.map Return.source)) = some ([0, 2], [2]) := by
    decide +kernel
  obtain ⟨s, ran, same⟩ := Option.map_eq_some_iff.mp sends
  obtain ⟨sent, sources⟩ := Prod.mk.inj same
  refine ⟨s, ran, sent, sources, fun reliable => ?_⟩
  exact nomatch reliable.destinations 2 (by rw [sent]; decide)

end Exchange

end LinuxExercises.Dictionary
