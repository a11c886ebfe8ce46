import LinuxExercises.Foundations.Runs

/-!
# Chains of filters

A filter reads its input to the end, element by element, and writes after each element what it
has made of it so far. What it writes is a function of what it reads (`StreamFilter.output`), but
not when: in a chain of filters, each reads what the one before it writes, through a channel of
bounded size, and the processes that run them take turns in any order.

What a chain has written so far and what it will still write is the same list after every step, and
each step leaves exactly one step less (`Chain.step_total`). In a chain in which nobody can go on
everybody has ended (`Chain.ended_of_stuck`). So the order does not matter: whatever has been
written is a prefix of the composition of the filters, and every run ends, after the same number of
steps, with all of it written (`Chain.written_of_run`).
-/

set_option autoImplicit false

namespace LinuxExercises.Foundations

variable {α : Type}

/-! ## Filters -/

/-- A process that reads its input to the end. It writes something for each element, and something
more when it has seen the end. -/
structure StreamFilter (α : Type) where
  State : Type
  start : State
  feed : State → α → State × List α
  finish : State → List α

namespace StreamFilter

/-- What a filter writes, for what it reads from a state on. -/
def output (f : StreamFilter α) : f.State → List α → List α
  | s, [] => f.finish s
  | s, a :: rest => (f.feed s a).2 ++ f.output (f.feed s a).1 rest

/-- How many elements it reads and writes, the end of its input included. -/
def steps (f : StreamFilter α) : f.State → List α → Nat
  | s, [] => (f.finish s).length + 1
  | s, a :: rest => (f.feed s a).2.length + 1 + f.steps (f.feed s a).1 rest

/-- What the last of some filters writes, when each reads what the one before it writes. -/
def compose : List (StreamFilter α) → List α → List α
  | [], text => text
  | f :: others, text => compose others (f.output f.start text)

/-- How many steps these filters make: each element is written by one and read by the next, and each
of them ends. -/
def composeSteps : List (StreamFilter α) → List α → Nat
  | [], _ => 0
  | f :: others, text => f.steps f.start text + 1 + composeSteps others (f.output f.start text)

end StreamFilter

/-- A process that runs a filter: what it is about to write, and its state, until it has seen the
end of its input. -/
inductive Stage (α : Type) where
  | running (filter : StreamFilter α) (state : Option filter.State) (pending : List α)
  | ended

/-- What a process does next, and what becomes of it: it writes, or it reads an element or sees the
end, or it ends. -/
inductive Demand (α : Type) where
  | nothing
  | write (a : α) (next : Stage α)
  | read (next : Option α → Stage α)
  | exit

namespace Stage

def start (f : StreamFilter α) : Stage α := running f (some f.start) []

/-- Behind the reading of an element, or of the end of the input. -/
def received (f : StreamFilter α) (s : f.State) : Option α → Stage α
  | some a => running f (some (f.feed s a).1) (f.feed s a).2
  | none => running f none (f.finish s)

def demand : Stage α → Demand α
  | running f state (a :: rest) => .write a (running f state rest)
  | running f (some s) [] => .read (received f s)
  | running _ none [] => .exit
  | ended => .nothing

def isEnded : Stage α → Bool
  | running .. => false
  | ended => true

/-- It will read no more. -/
def seenEnd : Stage α → Bool
  | running _ (some _) _ => false
  | _ => true

/-- What a process will still write, when this is still to come in. -/
def future : Stage α → List α → List α
  | running f (some s) pending, rest => pending ++ f.output s rest
  | running _ none pending, _ => pending
  | ended, _ => []

/-- How many steps it will still make. -/
def left : Stage α → List α → Nat
  | running f (some s) pending, rest => pending.length + f.steps s rest + 1
  | running _ none pending, _ => pending.length + 1
  | ended, _ => 0

section Demand

variable {p next : Stage α} {a : α} {rest : List α}

/-- Writing an element takes it from what is still to be written. -/
theorem of_write (writes : p.demand = .write a next) (rest : List α) :
    p.future rest = a :: next.future rest ∧ p.left rest = next.left rest + 1 := by
  rcases p with ⟨f, _ | s, _ | ⟨b, pending⟩⟩ | _ <;> cases writes
  · exact ⟨rfl, rfl⟩
  · refine ⟨rfl, ?_⟩
    simp only [left, List.length_cons]
    omega

theorem seenEnd_of_write (writes : p.demand = .write a next) : next.seenEnd = p.seenEnd := by
  rcases p with ⟨f, _ | s, _ | ⟨b, pending⟩⟩ | _ <;> cases writes <;> rfl

variable {nexts : Option α → Stage α}

/-- Reading an element takes it from what is still to come in. -/
theorem of_read (reads : p.demand = .read nexts) (a : α) (rest : List α) :
    p.future (a :: rest) = (nexts (some a)).future rest ∧
      p.left (a :: rest) = (nexts (some a)).left rest + 1 := by
  rcases p with ⟨f, _ | s, _ | ⟨b, pending⟩⟩ | _ <;> cases reads
  refine ⟨rfl, ?_⟩
  simp only [left, received, StreamFilter.steps, List.length_nil]
  omega

theorem of_end (reads : p.demand = .read nexts) :
    p.future [] = (nexts none).future [] ∧ p.left [] = (nexts none).left [] + 1 := by
  rcases p with ⟨f, _ | s, _ | ⟨b, pending⟩⟩ | _ <;> cases reads
  refine ⟨rfl, ?_⟩
  simp only [left, received, StreamFilter.steps, List.length_nil]
  omega

/-- Only who has not seen the end reads. -/
theorem seenEnd_of_read (reads : p.demand = .read nexts) (a : α) :
    p.seenEnd = false ∧ (nexts (some a)).seenEnd = false := by
  rcases p with ⟨f, _ | s, _ | ⟨b, pending⟩⟩ | _ <;> cases reads
  exact ⟨rfl, rfl⟩

/-- Who ends has seen the end, and has nothing more to write. -/
theorem of_exit (exits : p.demand = .exit) (rest : List α) :
    p.future rest = [] ∧ p.left rest = 1 := by
  rcases p with ⟨f, _ | s, _ | ⟨b, pending⟩⟩ | _ <;> cases exits
  exact ⟨rfl, rfl⟩

theorem seenEnd_of_exit (exits : p.demand = .exit) : p.seenEnd = true := by
  rcases p with ⟨f, _ | s, _ | ⟨b, pending⟩⟩ | _ <;> cases exits
  rfl

/-- Who still does something has not ended. -/
theorem isEnded_of_demand {demand : Demand α} (does : p.demand = demand)
    (busy : demand ≠ .nothing) : p.isEnded = false := by
  cases p with
  | running => rfl
  | ended => exact absurd does.symm busy

theorem isEnded_of_nothing (idle : p.demand = .nothing) : p.isEnded = true := by
  rcases p with ⟨f, _ | s, _ | ⟨b, pending⟩⟩ | _ <;> cases idle
  rfl

theorem future_of_isEnded (ended : p.isEnded = true) : p.future rest = [] := by
  cases p with
  | running => cases ended
  | ended => rfl

theorem left_of_isEnded (ended : p.isEnded = true) : p.left rest = 0 := by
  cases p with
  | running => cases ended
  | ended => rfl

theorem seenEnd_of_isEnded (ended : p.isEnded = true) : p.seenEnd = true := by
  cases p with
  | running => cases ended
  | ended => rfl

end Demand

end Stage

/-! ## Chains -/

/-- A process of a chain, with what it can read. -/
structure Link (α : Type) where
  stage : Stage α
  inbox : List α

namespace Link

/-- What a process will still write, when this is still to come behind its inbox. -/
def future (rest : List α) (link : Link α) : List α := link.stage.future (link.inbox ++ rest)

def left (rest : List α) (link : Link α) : Nat := link.stage.left (link.inbox ++ rest)

/-- What is written to a process now need not come in later. -/
def push (a : α) (link : Link α) : Link α := ⟨link.stage, link.inbox ++ [a]⟩

variable {a : α} {rest : List α} {link : Link α}

theorem future_push : (link.push a).future rest = link.future (a :: rest) := by
  rw [future, future, push, List.append_assoc, List.singleton_append]

theorem left_push : (link.push a).left rest = link.left (a :: rest) := by
  rw [left, left, push, List.append_assoc, List.singleton_append]

end Link

/-- What the last of these processes will still write, when this is still to come in. -/
def futureOf : List (Link α) → List α → List α
  | [], rest => rest
  | link :: later, rest => futureOf later (link.future rest)

/-- The steps that are left to these processes. -/
def leftOf : List (Link α) → List α → Nat
  | [], _ => 0
  | link :: later, rest => link.left rest + leftOf later (link.future rest)

/-- Of these processes the last one has ended, so that nothing more will come from them. In front of
the first one there is none. -/
def shut (before : List (Link α)) : Bool :=
  before.foldl (fun _ link => link.stage.isEnded) true

/-- Who has seen the end of its input has nothing left to read, and the process in front of it has
ended. -/
def Orderly : Bool → List (Link α) → Prop
  | _, [] => True
  | closed, link :: later =>
      (link.stage.seenEnd = true → closed = true ∧ link.inbox = []) ∧
        Orderly link.stage.isEnded later

section Links

variable {before later : List (Link α)} {link : Link α} {rest : List α}

theorem futureOf_append :
    futureOf (before ++ link :: later) rest =
      futureOf later (link.future (futureOf before rest)) := by
  induction before generalizing rest with
  | nil => rfl
  | cons first before ih => exact ih

theorem leftOf_append :
    leftOf (before ++ link :: later) rest =
      leftOf before rest + link.left (futureOf before rest) +
        leftOf later (link.future (futureOf before rest)) := by
  induction before generalizing rest with
  | nil => simp only [List.nil_append, leftOf, futureOf, Nat.zero_add]
  | cons first before ih =>
      simp only [List.cons_append, leftOf, ih, futureOf]
      omega

/-- A process that goes on to what it will still write changes nothing behind it. -/
theorem future_left_replace (before later : List (Link α)) (link next : Link α) {rest : List α}
    (future : link.future (futureOf before rest) = next.future (futureOf before rest))
    (left : link.left (futureOf before rest) = next.left (futureOf before rest) + 1) :
    futureOf (before ++ next :: later) rest = futureOf (before ++ link :: later) rest ∧
      leftOf (before ++ link :: later) rest = leftOf (before ++ next :: later) rest + 1 := by
  rw [futureOf_append, futureOf_append, leftOf_append, leftOf_append, future, left]
  refine ⟨rfl, ?_⟩
  omega

theorem shut_concat : shut (before ++ [link]) = link.stage.isEnded := by
  rw [shut, List.foldl_concat]

/-- From processes of which the last one has ended nothing more will come. -/
theorem futureOf_of_shut (closed : shut before = true) : futureOf before [] = [] := by
  rcases before.eq_nil_or_concat with rfl | ⟨front, last, rfl⟩
  · rfl
  · rw [List.concat_eq_append, shut_concat] at closed
    rw [List.concat_eq_append, futureOf_append]
    exact Stage.future_of_isEnded closed

theorem orderly_append {closed : Bool} :
    Orderly closed (before ++ link :: later) ↔
      Orderly closed before ∧
        (link.stage.seenEnd = true →
          before.foldl (fun _ link => link.stage.isEnded) closed = true ∧ link.inbox = []) ∧
        Orderly link.stage.isEnded later := by
  induction before generalizing closed with
  | nil => simp only [List.nil_append, Orderly, List.foldl_nil, true_and]
  | cons first before ih => simp only [List.cons_append, Orderly, ih, List.foldl_cons, and_assoc]

/-- More may have ended in front of the processes. -/
theorem Orderly.mono {closed : Bool} (orderly : Orderly false later) : Orderly closed later := by
  cases later with
  | nil => trivial
  | cons link later =>
      refine ⟨fun seen => ?_, orderly.2⟩
      exact absurd (orderly.1 seen).1 Bool.false_ne_true

/-- Processes that have ended write nothing more. -/
theorem nothing_of_ended (ended : ∀ link ∈ later, link.stage.isEnded = true) :
    futureOf later [] = [] ∧ leftOf later [] = 0 := by
  induction later with
  | nil => exact ⟨rfl, rfl⟩
  | cons link later ih =>
      obtain ⟨first, others⟩ := List.forall_mem_cons.mp ended
      have silent : link.future [] = [] := Stage.future_of_isEnded first
      rw [futureOf, leftOf, silent, (ih others).1, (ih others).2, Link.left,
        Stage.left_of_isEnded first]
      exact ⟨rfl, rfl⟩

end Links

/-- The processes of a chain in their order, and what the last one has written. The first one reads
the input of the chain. -/
structure Chain (α : Type) where
  links : List (Link α)
  written : List α

namespace Chain

/-- A step of one process. A channel has room for `capacity` elements. -/
def step (capacity : Nat) (c : Chain α) (k : Nat) : Option (Chain α) :=
  match c.links[k]? with
  | none => none
  | some link =>
    match link.stage.demand with
    | .nothing => none
    | .exit => some { c with links := c.links.set k { link with stage := .ended } }
    | .read next =>
      match link.inbox with
      | a :: rest => some { c with links := c.links.set k ⟨next (some a), rest⟩ }
      | [] =>
        if shut (c.links.take k) then some { c with links := c.links.set k ⟨next none, []⟩ }
        else none
    | .write a next =>
      let links := c.links.set k { link with stage := next }
      match c.links[k + 1]? with
      | none => some { links := links, written := c.written ++ [a] }
      | some reader =>
        if reader.inbox.length < capacity then
          some { c with links := links.set (k + 1) (reader.push a) }
        else none

/-- What a step of the process between these ones can be. -/
inductive Move (capacity : Nat) (before : List (Link α)) :
    Link α → List (Link α) → List α → Chain α → Prop
  | exits {p inbox later written} (exits : p.demand = .exit) :
      Move capacity before ⟨p, inbox⟩ later written ⟨before ++ ⟨.ended, inbox⟩ :: later, written⟩
  | reads {p a inbox next later written} (reads : p.demand = .read next) :
      Move capacity before ⟨p, a :: inbox⟩ later written
        ⟨before ++ ⟨next (some a), inbox⟩ :: later, written⟩
  | seesEnd {p next later written} (reads : p.demand = .read next) (closed : shut before = true) :
      Move capacity before ⟨p, []⟩ later written ⟨before ++ ⟨next none, []⟩ :: later, written⟩
  | prints {p a inbox next written} (writes : p.demand = .write a next) :
      Move capacity before ⟨p, inbox⟩ [] written ⟨before ++ [⟨next, inbox⟩], written ++ [a]⟩
  | sends {p a inbox next reader later written} (writes : p.demand = .write a next)
      (room : reader.inbox.length < capacity) :
      Move capacity before ⟨p, inbox⟩ (reader :: later) written
        ⟨before ++ ⟨next, inbox⟩ :: reader.push a :: later, written⟩

variable {capacity k : Nat} {c d : Chain α}

/-- The processes in front of one, and those behind it. -/
theorem around {link : Link α} (here : c.links[k]? = some link) :
    (c.links.take k).length = k ∧ c.links = c.links.take k ++ link :: c.links.drop (k + 1) := by
  obtain ⟨inside, rfl⟩ := List.getElem?_eq_some_iff.mp here
  refine ⟨List.length_take_of_le (Nat.le_of_lt inside), ?_⟩
  rw [← List.drop_eq_getElem_cons, List.take_append_drop]

/-- **What a step can be.** -/
theorem move_of_step (taken : c.step capacity k = some d) :
    ∃ before link later, c.links = before ++ link :: later ∧ before.length = k ∧
      Move capacity before link later c.written d := by
  obtain ⟨links, written⟩ := c
  cases here : links[k]? with
  | none => simp [step, here] at taken
  | some link =>
      obtain ⟨len, whole⟩ := around (c := ⟨links, written⟩) here
      generalize links.take k = before at len whole
      generalize links.drop (k + 1) = later at whole
      subst whole len
      refine ⟨before, link, later, rfl, rfl, ?_⟩
      obtain ⟨p, inbox⟩ := link
      cases demand : p.demand with
      | nothing => simp [step, demand] at taken
      | exit =>
          simp [step, demand] at taken
          exact taken ▸ .exits demand
      | read next =>
          cases inbox with
          | cons a inbox =>
              simp [step, demand] at taken
              exact taken ▸ .reads demand
          | nil =>
              simp [step, demand] at taken
              exact taken.2 ▸ .seesEnd demand taken.1
      | write a next =>
          cases later with
          | nil =>
              simp [step, demand] at taken
              exact taken ▸ .prints demand
          | cons reader later =>
              simp [step, demand] at taken
              exact taken.2 ▸ .sends demand taken.1

/-- What the chain will have written in the end. -/
def total (c : Chain α) : List α := c.written ++ futureOf c.links []

/-- The steps that are left to the chain. -/
def left (c : Chain α) : Nat := leftOf c.links []

/-- **The step lemma.** A step takes nothing away from what the chain will have written, and leaves
one step less. -/
theorem step_total (taken : c.step capacity k = some d) :
    d.total = c.total ∧ c.left = d.left + 1 := by
  obtain ⟨before, link, later, links, -, move⟩ := move_of_step taken
  rw [total, total, left, left, links]
  cases move with
  | @exits p inbox _ _ exits =>
      obtain ⟨future, left⟩ := Stage.of_exit exits (inbox ++ futureOf before [])
      obtain ⟨total, left⟩ :=
        future_left_replace before later ⟨p, inbox⟩ ⟨.ended, inbox⟩ future left
      exact ⟨congrArg _ total, left⟩
  | @reads p a inbox next _ _ reads =>
      obtain ⟨future, left⟩ := Stage.of_read reads a (inbox ++ futureOf before [])
      obtain ⟨total, left⟩ :=
        future_left_replace before later ⟨p, a :: inbox⟩ ⟨next (some a), inbox⟩ future left
      exact ⟨congrArg _ total, left⟩
  | @seesEnd p next _ _ reads closed =>
      obtain ⟨future, left⟩ := Stage.of_end reads
      rw [← futureOf_of_shut closed] at future left
      obtain ⟨total, left⟩ :=
        future_left_replace before later ⟨p, []⟩ ⟨next none, []⟩ future left
      exact ⟨congrArg _ total, left⟩
  | @prints p a inbox next _ writes =>
      obtain ⟨future, left⟩ := Stage.of_write writes (inbox ++ futureOf before [])
      simp only [futureOf_append, leftOf_append, Link.future, Link.left, future, left, futureOf,
        leftOf, List.append_assoc, List.singleton_append, true_and]
      omega
  | @sends p a inbox next reader others _ writes room =>
      have future : Link.future (futureOf before []) ⟨p, inbox⟩ =
          a :: Link.future (futureOf before []) ⟨next, inbox⟩ := (Stage.of_write writes _).1
      have left : Link.left (futureOf before []) ⟨p, inbox⟩ =
          Link.left (futureOf before []) ⟨next, inbox⟩ + 1 := (Stage.of_write writes _).2
      simp only [futureOf_append, leftOf_append, futureOf, leftOf, future, left, Link.future_push,
        Link.left_push, true_and]
      omega

/-- What is written stays. -/
theorem step_written (taken : c.step capacity k = some d) : c.written <+: d.written := by
  obtain ⟨before, link, later, -, -, move⟩ := move_of_step taken
  cases move with
  | prints => exact List.prefix_append _ _
  | _ => exact List.prefix_rfl

/-- Who has seen the end of its input has nothing left to read after a step either. -/
theorem step_orderly (taken : c.step capacity k = some d) (orderly : Orderly true c.links) :
    Orderly true d.links := by
  obtain ⟨before, link, later, links, -, move⟩ := move_of_step taken
  rw [links, orderly_append] at orderly
  obtain ⟨front, here, behind⟩ := orderly
  cases move with
  | exits exits =>
      refine orderly_append.mpr ⟨front, fun _ => here (Stage.seenEnd_of_exit exits), ?_⟩
      rw [Stage.isEnded_of_demand exits (by simp)] at behind
      exact behind.mono
  | @reads p a inbox next _ _ reads =>
      obtain ⟨-, unseen⟩ := Stage.seenEnd_of_read reads a
      refine orderly_append.mpr ⟨front, fun seen => ?_, ?_⟩
      · exact absurd (unseen.symm.trans seen) Bool.false_ne_true
      · rw [Stage.isEnded_of_demand reads (by simp)] at behind
        exact behind.mono
  | seesEnd reads closed =>
      refine orderly_append.mpr ⟨front, fun _ => ⟨closed, rfl⟩, ?_⟩
      rw [Stage.isEnded_of_demand reads (by simp)] at behind
      exact behind.mono
  | prints writes =>
      refine orderly_append.mpr ⟨front, fun seen => ?_, trivial⟩
      exact here ((Stage.seenEnd_of_write writes).symm.trans seen)
  | sends writes room =>
      refine orderly_append.mpr ⟨front, fun seen => ?_, ?_⟩
      · exact here ((Stage.seenEnd_of_write writes).symm.trans seen)
      · rw [Stage.isEnded_of_demand writes (by simp)] at behind
        obtain ⟨waits, others⟩ := behind
        refine ⟨fun seen => ?_, others⟩
        exact absurd (waits seen).1 Bool.false_ne_true

/-- Behind a process that has not ended nobody has seen the end of its input. -/
theorem busy_behind {link reader : Link α} (orderly : Orderly true c.links)
    (here : c.links[k]? = some link) (behind : c.links[k + 1]? = some reader)
    (busy : link.stage.isEnded = false) : reader.stage.isEnded = false := by
  obtain ⟨-, whole⟩ := around here
  obtain ⟨later, split⟩ : ∃ later, c.links.drop (k + 1) = reader :: later := by
    obtain ⟨inside, rfl⟩ := List.getElem?_eq_some_iff.mp behind
    exact ⟨_, List.drop_eq_getElem_cons inside⟩
  rw [whole, split, orderly_append, busy] at orderly
  refine Bool.eq_false_iff.mpr fun ended => ?_
  exact absurd (orderly.2.2.1 (Stage.seenEnd_of_isEnded ended)).1 Bool.false_ne_true

theorem shut_take {link : Link α} (here : c.links[k]? = some link) :
    shut (c.links.take (k + 1)) = link.stage.isEnded := by
  rw [List.take_add_one, here]
  exact shut_concat

/-! ## Where a chain stops -/

variable {before later : List (Link α)} {link : Link α}

/-- A process that cannot go on has ended, or it waits for the process in front of it, or for room
in the channel to the one behind it. -/
theorem waits_of_step_none (blocked : c.step capacity before.length = none)
    (links : c.links = before ++ link :: later) :
    link.stage.isEnded = true ∨ (shut before = false ∧ link.inbox = []) ∨
      ∃ reader others, later = reader :: others ∧ capacity ≤ reader.inbox.length := by
  have here : c.links[before.length]? = some link := by simp [links]
  have front : c.links.take before.length = before := by simp [links]
  have behind : c.links[before.length + 1]? = later[0]? := by
    rw [links, List.getElem?_append_right (Nat.le_succ _)]
    simp
  rw [step, here] at blocked
  cases demand : link.stage.demand with
  | nothing => exact .inl (Stage.isEnded_of_nothing demand)
  | exit => simp [demand] at blocked
  | read next =>
      cases waiting : link.inbox with
      | cons a inbox => simp [demand, waiting] at blocked
      | nil =>
          simp [demand, waiting, front] at blocked
          exact .inr (.inl ⟨blocked, rfl⟩)
  | write a next =>
      cases later with
      | nil => simp [demand, behind] at blocked
      | cons reader others =>
          simp [demand, behind] at blocked
          exact .inr (.inr ⟨reader, others, rfl, blocked⟩)

/-- In a chain in which nobody can go on, who has not ended waits for the process in front of it:
behind a full channel there would be somebody who can read. -/
theorem reads_of_stuck (room : 0 < capacity) (stuck : ∀ k, c.step capacity k = none)
    (links : c.links = before ++ link :: later)
    (orderly : Orderly (shut before) (link :: later)) (busy : link.stage.isEnded = false) :
    shut before = false ∧ link.inbox = [] := by
  induction later generalizing before link with
  | nil =>
      rcases waits_of_step_none (stuck _) links with ended | reads | ⟨reader, others, none, -⟩
      · exact absurd (busy.symm.trans ended) Bool.false_ne_true
      · exact reads
      · cases none
  | cons reader later ih =>
      rcases waits_of_step_none (stuck _) links with ended | reads | ⟨_, _, same, full⟩
      · exact absurd (busy.symm.trans ended) Bool.false_ne_true
      · exact reads
      · obtain ⟨rfl, rfl⟩ := List.cons.inj same
        have filled : reader.inbox ≠ [] := List.ne_nil_of_length_pos (by omega)
        have unseen : reader.stage.seenEnd = false :=
          Bool.eq_false_iff.mpr fun seen => filled (orderly.2.1 seen).2
        have alive : reader.stage.isEnded = false :=
          Bool.eq_false_iff.mpr fun ended =>
            absurd (unseen.symm.trans (Stage.seenEnd_of_isEnded ended)) Bool.false_ne_true
        have links' : c.links = (before ++ [link]) ++ reader :: later := by simp [links]
        have orderly' : Orderly (shut (before ++ [link])) (reader :: later) := by
          rw [shut_concat]
          exact orderly.2
        exact absurd (ih links' orderly' alive).2 filled

/-- **Completeness.** In a chain in which nobody can go on everybody has ended. -/
theorem ended_of_stuck (room : 0 < capacity) (stuck : ∀ k, c.step capacity k = none)
    (links : c.links = before ++ later) (orderly : Orderly (shut before) later)
    (closed : shut before = true) : ∀ link ∈ later, link.stage.isEnded = true := by
  induction later generalizing before with
  | nil =>
      intro link member
      cases member
  | cons first later ih =>
      have ended : first.stage.isEnded = true := by
        cases busy : first.stage.isEnded with
        | true => rfl
        | false =>
            have waits := (reads_of_stuck room stuck links orderly busy).1
            exact absurd (waits.symm.trans closed) Bool.false_ne_true
      have links' : c.links = (before ++ [first]) ++ later := by simp [links]
      have closed' : shut (before ++ [first]) = true := shut_concat.trans ended
      have orderly' : Orderly (shut (before ++ [first])) later := by
        rw [shut_concat]
        exact orderly.2
      intro link member
      rcases List.mem_cons.mp member with rfl | member
      · exact ended
      · exact ih links' orderly' closed' link member

/-! ## Runs -/

/-- The chain of these filters, in front of its input, when this was written there before. -/
def start (filters : List (StreamFilter α)) (input written : List α) : Chain α where
  links :=
    match filters with
    | [] => []
    | first :: others =>
      ⟨Stage.start first, input⟩ :: others.map fun f => ⟨Stage.start f, []⟩
  written := written

theorem start_cons (first : StreamFilter α) (others : List (StreamFilter α))
    (input written : List α) :
    start (first :: others) input written =
      ⟨⟨Stage.start first, input⟩ :: others.map fun f => ⟨Stage.start f, []⟩, written⟩ := rfl

variable {filters : List (StreamFilter α)} {input written : List α}

theorem orderly_start : Orderly true (start filters input written).links := by
  have fresh : ∀ (others : List (StreamFilter α)) closed,
      Orderly closed (others.map fun f => (⟨Stage.start f, []⟩ : Link α)) := by
    intro others
    induction others with
    | nil => exact fun _ => trivial
    | cons f others ih => exact fun _ => ⟨fun seen => absurd seen Bool.false_ne_true, ih _⟩
  cases filters with
  | nil => trivial
  | cons first others => exact ⟨fun seen => absurd seen Bool.false_ne_true, fresh others _⟩

/-- What is to be written and done at the start. -/
theorem total_start (input written : List α) (nonempty : filters ≠ []) :
    (start filters input written).total = written ++ StreamFilter.compose filters input ∧
      (start filters input written).left = StreamFilter.composeSteps filters input := by
  have fresh : ∀ (others : List (StreamFilter α)) text,
      futureOf (others.map fun f => (⟨Stage.start f, []⟩ : Link α)) text =
          StreamFilter.compose others text ∧
        leftOf (others.map fun f => (⟨Stage.start f, []⟩ : Link α)) text =
          StreamFilter.composeSteps others text := by
    intro others
    induction others with
    | nil => exact fun _ => ⟨rfl, rfl⟩
    | cons f others ih =>
        intro text
        rw [List.map_cons, futureOf, leftOf, (ih _).1, (ih _).2, Link.left, Link.future]
        simp [Stage.start, Stage.future, Stage.left, StreamFilter.compose,
          StreamFilter.composeSteps]
  cases filters with
  | nil => exact absurd rfl nonempty
  | cons first others =>
      rw [total, left, start_cons, futureOf, leftOf, (fresh others _).1, (fresh others _).2,
        Link.left, Link.future]
      simp [Stage.start, Stage.future, Stage.left, StreamFilter.compose, StreamFilter.composeSteps]

variable {steps : List Nat}

/-- **Runs.** What the chain will have written in the end does not change, and the steps of a run
are the steps that are no longer left. -/
theorem run_total (ran : run (step capacity) c steps = some d) (orderly : Orderly true c.links) :
    Orderly true d.links ∧ c.written <+: d.written ∧ d.total = c.total ∧
      c.left = d.left + steps.length := by
  induction steps generalizing c with
  | nil =>
      cases ran
      exact ⟨orderly, List.prefix_rfl, rfl, rfl⟩
  | cons k steps ih =>
      obtain ⟨middle, taken, ran⟩ := run_cons_cases ran
      obtain ⟨total, left⟩ := step_total taken
      obtain ⟨kept, more, total', left'⟩ := ih ran (step_orderly taken orderly)
      refine ⟨kept, (step_written taken).trans more, total'.trans total, ?_⟩
      rw [List.length_cons]
      omega

/-- **Main.** Whatever the order of the steps, the chain has written the beginning of what its
filters compute one behind the other. When nobody can go on, everybody has ended and it has written
all of it, after as many steps as in any other order. -/
theorem written_of_run (ran : run (step capacity) (start filters input written) steps = some d)
    (nonempty : filters ≠ []) (room : 0 < capacity) :
    ∃ text, d.written = written ++ text ∧ text <+: StreamFilter.compose filters input ∧
      steps.length ≤ StreamFilter.composeSteps filters input ∧
      ((∀ k, d.step capacity k = none) →
        (∀ link ∈ d.links, link.stage.isEnded = true) ∧ text = StreamFilter.compose filters input ∧
          steps.length = StreamFilter.composeSteps filters input) := by
  obtain ⟨orderly, ⟨text, more⟩, total, left⟩ := run_total ran orderly_start
  obtain ⟨total', left'⟩ := total_start input written nonempty
  change written ++ text = d.written at more
  rw [total', Chain.total, ← more, List.append_assoc] at total
  rw [left'] at left
  have rest : text ++ futureOf d.links [] = StreamFilter.compose filters input :=
    List.append_cancel_left total
  refine ⟨text, more.symm, ⟨_, rest⟩, by omega, fun stuck => ?_⟩
  have ended : ∀ link ∈ d.links, link.stage.isEnded = true :=
    @ended_of_stuck _ _ _ [] _ room stuck rfl orderly rfl
  obtain ⟨silent, none⟩ := nothing_of_ended ended
  rw [silent, List.append_nil] at rest
  have finished : d.left = 0 := none
  exact ⟨ended, rest, by omega⟩

end Chain

end LinuxExercises.Foundations
