/-
The console terminal, `kernel/src/fs/devfs/tty.rs`: `TtyINode`, the queue of typed bytes
behind it and its event bus, and the readers that block on it in the loop of
`FileHandle::read_at` (`kernel/src/fs/file.rs`).

`push` is the interrupt side: a byte that is not one of the four control characters goes to
the back of the queue and `READABLE` is set. A reader calls `read_at`, which pops the front
byte when `can_read`, or answers `Again`; on `Again` it awaits `async_poll`, whose
`SerialFuture` is ready when `can_read`, and otherwise subscribes a callback that wakes the
reader on any change of the event. In this tree nothing calls `push`: the UART interrupt
only echoes what it receives. What follows is the device's own protocol, with `push` driven
as its interrupt would drive it.

None of these functions is one atomic step. `push` locks the queue, appends and unlocks,
then locks the bus and sets `READABLE`; `read_at` and `SerialFuture::poll` test
`can_read` under the queue's lock and act after releasing it. `Console` runs the readers and
the interrupt side step by step at those lock boundaries. A byte typed between a reader's
`can_read` and its `subscribe` sets `READABLE` before the reader is subscribed, after which
the reader sleeps with the byte queued and no later key press changes the event, so none
wakes it (`tty_lost_wakeup`).

Readers are numbered; reader `i`'s waker is `i`.
-/
import Queen.Sync.EventBus

set_option autoImplicit false

namespace Queen.Fs

open Queen.Sync Queen.Transition

/-- `Event::READABLE`. -/
def READABLE : Event := 1

/-- `PollStatus` of queen-fs. -/
structure PollStatus where
  read : Bool
  write : Bool
  error : Bool
deriving DecidableEq, Repr

/-- `struct TtyINode`, with the wakers of its bus of type `W`. -/
structure TtyINode (W : Type) where
  foreground_pgid : Int
  buf : List (BitVec 8)
  event_bus : EventBus W

namespace TtyINode

variable {W : Type}

/-- `TtyINode::default()`. -/
def new : TtyINode W := ⟨0, [], EventBus.new⟩

/-- The characters `push` keeps out of the queue: `^C` (`INTR`), `^\`, `^Z` and `^Y`. -/
def special (c : BitVec 8) : Bool := c = 0o3 || c = 0o34 || c = 0o32 || c = 0o31

/-- `self.buf.lock().push_back(c)`, the first half of `push`. -/
def push_back (tty : TtyINode W) (c : BitVec 8) : TtyINode W := { tty with buf := tty.buf ++ [c] }

/-- `self.event_bus.lock().set(Event::READABLE)`, the second half, with the wakers it woke. -/
def set_readable (tty : TtyINode W) : TtyINode W × List W :=
  let r := tty.event_bus.set READABLE
  ({ tty with event_bus := r.1 }, r.2)

/-- `push(c)`: a control character is not queued, and `^C` sends `SIGINT` to the foreground
process group (`some pgid`); any other byte is queued and `READABLE` set. The wakers the set
woke come back. -/
def push (tty : TtyINode W) (c : BitVec 8) : TtyINode W × List W × Option Int :=
  if special c then (tty, [], if c = 0o3 then some tty.foreground_pgid else none)
  else
    let r := (tty.push_back c).set_readable
    (r.1, r.2, none)

/-- `pop()`, under the queue's lock: `pop_front().unwrap()`, `none` for the panic on an empty
queue, and `clear(Event::READABLE)` when the queue is left empty. -/
def pop (tty : TtyINode W) : Option (TtyINode W × List W × BitVec 8) :=
  match tty.buf with
  | [] => none
  | c :: rest =>
    if rest.length = 0 then
      let r := tty.event_bus.clear READABLE
      some ({ tty with buf := rest, event_bus := r.1 }, r.2, c)
    else some ({ tty with buf := rest }, [], c)

/-- `can_read()`. -/
def can_read (tty : TtyINode W) : Bool := tty.buf.length > 0

/-- `INode::read_at(offset, buf)` for a `buf` of `len` bytes: the byte popped (`Ok(1)`), or
`none` for `Err(FsError::Again)`. `buf[0] = self.pop()` pops before it indexes, so an empty
`buf` panics (the outer `none`) after the byte has left the queue. -/
def read_at (tty : TtyINode W) (len : Nat) : Option (TtyINode W × List W × Option (BitVec 8)) :=
  if tty.can_read then
    tty.pop.bind fun r => if len = 0 then none else some (r.1, r.2.1, some r.2.2)
  else some (tty, [], none)

/-- `INode::poll()`. -/
def poll (tty : TtyINode W) : PollStatus := ⟨tty.can_read, true, false⟩

/-- `SerialFuture::poll` with the task's waker: `Ready(poll())` when a byte is queued, else
the waker's callback is subscribed and the future is `Pending` (`none`). -/
def async_poll (tty : TtyINode W) (waker : W) : TtyINode W × Option PollStatus :=
  if tty.can_read then (tty, some tty.poll)
  else ({ tty with event_bus := tty.event_bus.subscribe (.any waker) }, none)

@[simp] theorem buf_push_back (tty : TtyINode W) (c : BitVec 8) :
    (tty.push_back c).buf = tty.buf ++ [c] := rfl

@[simp] theorem event_bus_push_back (tty : TtyINode W) (c : BitVec 8) :
    (tty.push_back c).event_bus = tty.event_bus := rfl

@[simp] theorem buf_set_readable (tty : TtyINode W) : tty.set_readable.1.buf = tty.buf := rfl

/-- A set of `READABLE` on an event that has it changes nothing and wakes no one. -/
theorem set_readable_of_readable (tty : TtyINode W)
    (h : tty.event_bus.event ||| READABLE = tty.event_bus.event) : tty.set_readable = (tty, []) := by
  have hones : ~~~(0 : Event) = BitVec.allOnes 32 := by decide
  have hsame : (tty.event_bus.event &&& ~~~0) ||| READABLE = tty.event_bus.event := by
    rw [hones, BitVec.and_allOnes]
    exact h
  unfold set_readable EventBus.set
  rw [EventBus.change_of_eq hsame]

/-- After `set(READABLE)` the event has `READABLE`, so a second set changes nothing. -/
theorem readable_set_readable (tty : TtyINode W) :
    tty.set_readable.1.event_bus.event ||| READABLE = tty.set_readable.1.event_bus.event := by
  simp only [set_readable, EventBus.set, EventBus.event_change]
  rw [BitVec.or_assoc, BitVec.or_self]

end TtyINode

/-! ## Readers and the interrupt side, step by step -/

/-- Where a reader is in the loop of `FileHandle::read_at` on the terminal. -/
inductive ReaderPc
  /-- Not in a read. -/
  | idle
  /-- In `read_at`, about to test `can_read`. -/
  | check
  /-- `can_read` said yes: about to `pop`. -/
  | pop
  /-- `read_at` said `Again`: the `SerialFuture` is polled, about to test `can_read`. -/
  | poll_check
  /-- `can_read` said no: about to subscribe the waker and return `Pending`. -/
  | subscribe
  /-- `Pending`, until its waker is called. -/
  | waiting
deriving DecidableEq, Repr

/-- Where the interrupt side is in `push`. -/
inductive KeyPc
  | idle
  /-- The byte is queued; `READABLE` not set yet. -/
  | pushed
deriving DecidableEq, Repr

/-- The terminal, its readers and its interrupt side. -/
structure Console where
  tty : TtyINode Nat
  readers : List ReaderPc
  key : KeyPc

/-- A step of the interrupt side or of reader `i`. -/
inductive ConsoleOp
  /-- `push(c)` up to the queue's unlock: a control character ends `push` here. -/
  | key_push (c : BitVec 8)
  /-- The rest of `push`: `set(Event::READABLE)`. -/
  | key_set
  | read (i : Nat)
deriving DecidableEq, Repr

/-- The steps of the interrupt side. -/
def ConsoleOp.is_key : ConsoleOp → Bool
  | .key_push _ | .key_set => true
  | .read _ => false

namespace Console

/-- The waiting readers whose wakers were called are polled again. -/
def wake (readers : List ReaderPc) (woken : List Nat) : List ReaderPc :=
  readers.mapIdx fun i pc => if pc = .waiting ∧ i ∈ woken then .poll_check else pc

/-- The terminal with `n` readers, none in a read. -/
def init (n : Nat) : Console := ⟨TtyINode.new, List.replicate n .idle, .idle⟩

/-- Reader `i` at `pc` takes its next step; `none` where `pop` panics, or there is nothing
to do. -/
def read_step (s : Console) (i : Nat) : ReaderPc → Option Console
  | .idle => some { s with readers := s.readers.set i .check }
  | .check =>
    some { s with readers := s.readers.set i (if s.tty.can_read then .pop else .poll_check) }
  | .pop => s.tty.pop.map fun r =>
    { s with tty := r.1, readers := wake (s.readers.set i .idle) r.2.1 }
  | .poll_check =>
    some { s with readers := s.readers.set i (if s.tty.can_read then .check else .subscribe) }
  | .subscribe =>
    some { s with tty := { s.tty with event_bus := s.tty.event_bus.subscribe (.any i) },
                  readers := s.readers.set i .waiting }
  | .waiting => none

/-- One step. -/
def step (s : Console) : ConsoleOp → Option Console
  | .key_push c =>
    if s.key = .idle then
      if TtyINode.special c then some s
      else some { s with tty := s.tty.push_back c, key := .pushed }
    else none
  | .key_set =>
    if s.key = .pushed then
      let r := s.tty.set_readable
      some { s with tty := r.1, readers := wake s.readers r.2, key := .idle }
    else none
  | .read i => s.readers[i]?.bind (s.read_step i)

/-- The states a console with `n` readers reaches. -/
def Reachable (n : Nat) : Console → Prop := Transition.Reachable (· = init n) (Next step)

/-! ### What each step does -/

theorem getElem?_wake (readers : List ReaderPc) (woken : List Nat) (j : Nat) :
    (wake readers woken)[j]? =
      readers[j]?.map fun pc => if pc = .waiting ∧ j ∈ woken then .poll_check else pc := by
  rw [wake, List.getElem?_mapIdx]

/-- A change that woke no one leaves every reader where it was. -/
@[simp] theorem wake_nil (readers : List ReaderPc) : wake readers [] = readers := by
  apply List.ext_getElem?
  intro j
  rw [getElem?_wake]
  cases readers[j]? <;> simp

theorem step_key_push {s s' : Console} {c : BitVec 8} (hs : s.step (.key_push c) = some s') :
    s.key = .idle ∧ ((TtyINode.special c = true ∧ s' = s) ∨
      (TtyINode.special c = false ∧
        s' = { s with tty := s.tty.push_back c, key := .pushed })) := by
  simp only [Console.step] at hs
  split at hs
  · next hk =>
    refine ⟨hk, ?_⟩
    split at hs
    · next hsp =>
      cases hs
      exact .inl ⟨hsp, rfl⟩
    · next hsp =>
      cases hs
      exact .inr ⟨by simpa using hsp, rfl⟩
  · cases hs

theorem step_key_set {s s' : Console} (hs : s.step .key_set = some s') :
    s.key = .pushed ∧
      s' = { s with tty := s.tty.set_readable.1, readers := wake s.readers s.tty.set_readable.2,
                    key := .idle } := by
  simp only [Console.step] at hs
  split at hs
  · next hk =>
    cases hs
    exact ⟨hk, rfl⟩
  · cases hs

/-! ### A wake-up lost between `can_read` and `subscribe` -/

/-- While `READABLE` is set, a step of the interrupt side moves no reader and keeps the
event: the set changes nothing, so no callback runs. The queue only grows. -/
theorem key_step_of_readable {s s' : Console} {op : ConsoleOp} (hop : op.is_key = true)
    (hset : s.tty.event_bus.event ||| READABLE = s.tty.event_bus.event) (hs : s.step op = some s') :
    s'.readers = s.readers ∧ s'.tty.event_bus = s.tty.event_bus ∧ s.tty.buf <+: s'.tty.buf := by
  cases op with
  | key_push c =>
    obtain ⟨-, ⟨-, rfl⟩ | ⟨-, rfl⟩⟩ := step_key_push hs
    · exact ⟨rfl, rfl, List.prefix_refl _⟩
    · exact ⟨rfl, rfl, List.prefix_append _ _⟩
  | key_set =>
    obtain ⟨-, rfl⟩ := step_key_set hs
    rw [TtyINode.set_readable_of_readable _ hset]
    exact ⟨wake_nil _, rfl, List.prefix_refl _⟩
  | read i => cases hop

/-- A reader asleep while `READABLE` is set stays asleep through any key presses. -/
theorem waiting_through_keys :
    ∀ (ops : List ConsoleOp) {s s' : Console},
      s.tty.event_bus.event ||| READABLE = s.tty.event_bus.event →
      (∀ op ∈ ops, op.is_key = true) → run step s ops = some s' →
      s'.readers = s.readers ∧ s.tty.buf <+: s'.tty.buf
  | [], s, s', _, _, hrun => by
    cases hrun
    exact ⟨rfl, List.prefix_refl _⟩
  | op :: ops, s, s', hset, hkeys, hrun => by
    rw [run_cons] at hrun
    obtain ⟨s₁, hs₁, hrun⟩ := Option.bind_eq_some_iff.mp hrun
    obtain ⟨hreaders, hbus, hbuf⟩ :=
      key_step_of_readable (hkeys op List.mem_cons_self) hset hs₁
    have hset₁ : s₁.tty.event_bus.event ||| READABLE = s₁.tty.event_bus.event := by
      rw [hbus]
      exact hset
    obtain ⟨hreaders', hbuf'⟩ :=
      waiting_through_keys ops hset₁ (fun op hop => hkeys op (List.mem_cons_of_mem _ hop)) hrun
    exact ⟨hreaders'.trans hreaders, hbuf.trans hbuf'⟩

/-- **A typed byte can leave its reader asleep for good.** From any state where reader `i`
has found the queue empty in `SerialFuture::poll` and is about to subscribe, with the
interrupt side idle: a byte typed then is queued and sets `READABLE` before the reader
subscribes, so the set wakes the reader no more than it is asleep; the reader then subscribes
and sleeps with the byte queued. `READABLE` stays set, so no key pressed afterwards changes
the event: whatever is typed, the reader stays asleep with the byte queued. -/
theorem tty_lost_wakeup {s : Console} {i : Nat} (hsub : s.readers[i]? = some .subscribe)
    (hkey : s.key = .idle) {c : BitVec 8} (hc : TtyINode.special c = false) :
    ∃ s', run step s [.key_push c, .key_set, .read i] = some s' ∧ s'.readers[i]? = some .waiting ∧
      c ∈ s'.tty.buf ∧
      ∀ (ops : List ConsoleOp) (s'' : Console), (∀ op ∈ ops, op.is_key = true) →
        run step s' ops = some s'' → s''.readers[i]? = some .waiting ∧ c ∈ s''.tty.buf := by
  -- the byte is queued, then `READABLE` is set while the reader is not yet subscribed
  let s₁ : Console := { s with tty := s.tty.push_back c, key := .pushed }
  have h₁ : s.step (.key_push c) = some s₁ := by simp [Console.step, hkey, hc, s₁]
  let r := s₁.tty.set_readable
  let s₂ : Console := { s₁ with tty := r.1, readers := wake s₁.readers r.2, key := .idle }
  have h₂ : s₁.step .key_set = some s₂ := by simp [Console.step, s₁, s₂, r]
  have hsub₂ : s₂.readers[i]? = some .subscribe := by
    simp only [s₂, getElem?_wake, s₁, hsub, Option.map_some]
    rfl
  -- the reader subscribes and sleeps; `READABLE` is set and the byte queued
  let s₃ : Console := { s₂ with
    tty := { s₂.tty with event_bus := s₂.tty.event_bus.subscribe (.any i) },
    readers := s₂.readers.set i .waiting }
  have h₃ : s₂.step (.read i) = some s₃ := by
    simp only [Console.step, hsub₂, Option.bind_some, read_step]
    rfl
  have hwait₃ : s₃.readers[i]? = some .waiting := by
    have hlen : i < s₂.readers.length := (List.getElem?_eq_some_iff.mp hsub₂).1
    simp [s₃, hlen]
  have hbuf₃ : c ∈ s₃.tty.buf := by simp [s₃, s₂, r, s₁]
  have hset₃ : s₃.tty.event_bus.event ||| READABLE = s₃.tty.event_bus.event :=
    TtyINode.readable_set_readable s₁.tty
  refine ⟨s₃, by simp only [run_cons, h₁, h₂, h₃, Option.bind_some, run_nil], hwait₃, hbuf₃,
    fun ops s'' hkeys hrun => ?_⟩
  obtain ⟨hreaders, hbuf⟩ := waiting_through_keys ops hset₃ hkeys hrun
  exact ⟨by rw [hreaders]; exact hwait₃, hbuf.subset hbuf₃⟩

/-- One reader finds the queue empty: it is about to subscribe, and `a` typed then is lost
to it. -/
theorem tty_lost_wakeup_after_empty_poll :
    ∃ s : Console, Reachable 1 s ∧ s.readers[0]? = some .subscribe ∧ s.key = .idle ∧
      TtyINode.special 0x61 = false ∧
      ∃ s', run step s [.key_push 0x61, .key_set, .read 0] = some s' ∧
        s'.readers[0]? = some .waiting ∧ 0x61 ∈ s'.tty.buf ∧
        ∀ (ops : List ConsoleOp) (s'' : Console), (∀ op ∈ ops, op.is_key = true) →
          run step s' ops = some s'' → s''.readers[0]? = some .waiting ∧ 0x61 ∈ s''.tty.buf := by
  let ops : List ConsoleOp := [.read 0, .read 0, .read 0]
  let s := (run step (init 1) ops).getD (init 1)
  have hs : Reachable 1 s :=
    Transition.Reachable.run (.init rfl) (show run step _ ops = some s from rfl)
  have hsub : s.readers[0]? = some .subscribe := rfl
  have hkey : s.key = .idle := rfl
  have hc : TtyINode.special 0x61 = false := by decide
  exact ⟨s, hs, hsub, hkey, hc, tty_lost_wakeup hsub hkey hc⟩

end Console

end Queen.Fs
