import EmbeddedMx.Lib.Trace
import EmbeddedMx.Scheduler.Rounds

/-!
# The mailbox

What the scheduler is for, as far as messages go: letters wait in the order of their
sends. A run of the scheduler takes the first one and hands it to the process it is
addressed to, or to one process of the list after the other. `MailStep` says which
events may happen; where the letter comes from and where it is stored does not occur.
-/

namespace EmbeddedMx

open EmbeddedMx.Lib

/-- What the scheduler does. -/
inductive MailPhase
  /-- `scheduler_run` is not executing -/
  | idle
  /-- before a letter is taken -/
  | running
  /-- the letter `x` is handled; it was given to `current` last, and the processes `todo`
  get it next. They are unknown (`none`) once a process is started again that the loop
  stands on or has in front of it. -/
  | handling (x : Letter) (current : Option Nat) (todo : Option (List Nat))
  /-- there was no letter -/
  | missed

/-- The letters that wait, the process list, and what the scheduler does. -/
structure Mailbox where
  waiting : List Letter
  procs : List Nat
  phase : MailPhase

/-- Nothing has happened yet. -/
def Mailbox.empty : Mailbox := { waiting := [], procs := [], phase := .idle }

/-- Who gets a letter. -/
def Mailbox.addressees (m : Mailbox) (x : Letter) : List Nat :=
  if x.receiver = processBroadcast then m.procs else [x.receiver]

/-- A process is put on the list. -/
def MailPhase.join (p : Nat) : MailPhase → MailPhase
  | .handling x current (some todo) =>
      if x.receiver = processBroadcast ∧ (current = some p ∨ p ∈ todo) then .handling x current none
      else .handling x current (some todo)
  | phase => phase

theorem MailPhase.join_handling (x : Letter) (current : Option Nat) (todo : List Nat) (p : Nat) :
    (MailPhase.handling x current (some todo)).join p =
      if x.receiver = processBroadcast ∧ (current = some p ∨ p ∈ todo) then .handling x current none
      else .handling x current (some todo) := rfl

/-- A process is taken out of the list: it may be one of those that get the letter next. -/
inductive MailPhase.Leave (p : Nat) : MailPhase → MailPhase → Prop
  | stay {phase} : Leave p phase phase
  | drop {x current todo todo'} : todo'.Sublist todo → (∀ q ∈ todo, q ∉ todo' → q = p) →
      Leave p (.handling x current (some todo)) (.handling x current (some todo'))

/-- The events of a mailbox. -/
inductive MailStep : Mailbox → SchedEvent → Mailbox → Prop
  | sent {m x} : MailStep m (.send x processSuccess) { m with waiting := m.waiting ++ [x] }
  | refused {m x} : MailStep m (.send x processErrNoMemory) m
  | run {m} : m.phase = .idle → MailStep m .run { m with phase := .running }
  | take {m x rest} : m.phase = .running → m.waiting = x :: rest →
      MailStep m (.take x)
        { m with waiting := rest, phase := .handling x none (some (m.addressees x)) }
  | nothing {m} : m.phase = .running → m.waiting = [] →
      MailStep m .idle { m with phase := .missed }
  | deliver {m x current p todo} : m.phase = .handling x current (some (p :: todo)) →
      MailStep m (.deliver p x.bytes) { m with phase := .handling x (some p) (some todo) }
  | deliverAgain {m x current p} : m.phase = .handling x current none →
      MailStep m (.deliver p x.bytes) { m with phase := .handling x (some p) none }
  | read {m x p todo} : m.phase = .handling x (some p) todo → MailStep m (.read p x.bytes) m
  | enter {m p ev msg} : (∀ ptr, msg = .node ptr → ∃ x todo, m.phase = .handling x (some p) todo) →
      MailStep m (.enter p ev msg) m
  | off {m p} : MailStep m (.off p) m
  | join {m p} :
      MailStep m (.join p) { m with procs := p :: m.procs, phase := m.phase.join p }
  | leave {m p phase} : m.phase.Leave p phase →
      MailStep m (.leave p) { m with procs := m.procs.erase p, phase := phase }
  | handled {m x current todo k} : m.phase = .handling x current todo → todo.getD [] = [] →
      MailStep m (.done k) { m with phase := .idle }
  | done {m k} : m.phase = .missed → MailStep m (.done k) { m with phase := .idle }

/-- A mailbox goes through the events of a log. -/
def MailRuns : Mailbox → List SchedEvent → Mailbox → Prop :=
  Runs fun m evs m' => ∃ ev, evs = [ev] ∧ MailStep m ev m'

/-- The letters that were sent. -/
def sentLetters (log : List SchedEvent) : List Letter :=
  log.filterMap fun
    | .send x status => if status = processSuccess then some x else none
    | _ => none

/-- The letters that were taken. -/
def takenLetters (log : List SchedEvent) : List Letter :=
  log.filterMap fun
    | .take x => some x
    | _ => none

section Runs

variable {m m' m'' : Mailbox} {evs evs' : List SchedEvent} {ev : SchedEvent}

theorem MailRuns.refl (m : Mailbox) : MailRuns m [] m := Runs.refl m

theorem MailRuns.single (h : MailStep m ev m') : MailRuns m [ev] m' := Runs.single ⟨ev, rfl, h⟩

theorem MailRuns.trans (h : MailRuns m evs m') (h' : MailRuns m' evs' m'') :
    MailRuns m (evs ++ evs') m'' := Runs.trans h h'

/-- Events that change nothing. -/
theorem MailRuns.same (h : ∀ ev ∈ evs, MailStep m ev m) : MailRuns m evs m := by
  induction evs with
  | nil => exact .refl m
  | cons ev evs ih =>
      exact (MailRuns.single (h ev List.mem_cons_self)).trans
        (ih fun ev' hev' => h ev' (List.mem_cons_of_mem _ hev'))

/-- **First in, first out**: letters are taken in the order of their sends, each once, and
the others wait. -/
theorem MailRuns.fifo {log : List SchedEvent} (h : MailRuns .empty log m) :
    sentLetters log = takenLetters log ++ m.waiting := by
  have hstart : sentLetters [] = takenLetters [] ++ Mailbox.empty.waiting := rfl
  refine Runs.invariant
      (P := fun m log => sentLetters log = takenLetters log ++ m.waiting) h ?_ hstart
  rintro log m evs m' ih ⟨ev, rfl, hstep⟩
  unfold sentLetters takenLetters at ih ⊢
  rw [List.filterMap_append, List.filterMap_append, ih]
  cases hstep with
  | sent => simp
  | take _ hwaiting => simp [hwaiting]
  | refused =>
      have hstatus : processErrNoMemory ≠ processSuccess := by decide
      simp [hstatus]
  | _ => simp

end Runs

end EmbeddedMx
