/-
The event bus, `kernel/src/sync/event_bus.rs`: an event word and the callbacks waiting on it.

Two kinds of callback are subscribed in the kernel. `EventBusFuture::poll` (`wait_for_event`,
which `sys_wait4` awaits for `CHILD_PROCESS_QUIT`) subscribes one that wakes its task and goes
once the event meets its mask, and only after it found the event disjoint from the mask.
`SleepFuture::poll` and the tty's `SerialFuture::poll` subscribe one that wakes its task and
goes on any change. `change` runs the callbacks only when the event word changes, and keeps
those that return `false`.

In every state the bus reaches, a waiting future's mask is disjoint from the event
(`Inv`): a change that makes the event meet the mask has woken the future and dropped its
callback, and a poll is ready exactly when the event meets its mask (`no_lost_wakeup`). A waker
is any type `W`; calling it is recorded in the list of wakers a change returns.
-/
import Queen.Lib.Transition

set_option autoImplicit false

namespace Queen.Sync

/-- `struct Event`, the `bitflags` word. -/
abbrev Event := BitVec 32

/-- `Box<dyn Fn(Event) -> bool>`, the two closures the kernel subscribes. -/
inductive EventHandler (W : Type)
  /-- `EventBusFuture::poll`'s: when the event meets `mask`, wake and return `true`. -/
  | masked (mask : Event) (waker : W)
  /-- `SleepFuture::poll`'s and `SerialFuture::poll`'s: wake and return `true` on any call. -/
  | any (waker : W)
deriving DecidableEq, Repr

namespace EventHandler

variable {W : Type}

/-- What the closure returns on the event `s`: `true` when it woke its task. -/
def fires : EventHandler W → Event → Bool
  | masked mask _, s => (s &&& mask) != 0
  | any _, _ => true

/-- The waker the closure holds. -/
def waker : EventHandler W → W
  | masked _ w | any w => w

end EventHandler

/-- `struct EventBus`. -/
structure EventBus (W : Type) where
  event : Event
  callbacks : List (EventHandler W)
deriving DecidableEq, Repr

namespace EventBus

variable {W : Type}

/-- `EventBus::default()`. -/
def new : EventBus W := ⟨0, []⟩

/-- `EventBus::change(reset, set)`: the bus after it, and the wakers the callbacks woke, in
order. `retain(|f| !f(new))` calls each callback once and keeps those that returned `false`. -/
def change (bus : EventBus W) (reset set : Event) : EventBus W × List W :=
  let orig := bus.event
  let new := (bus.event &&& ~~~reset) ||| set
  if new ≠ orig then
    (⟨new, bus.callbacks.filter fun f => !f.fires new⟩,
      (bus.callbacks.filter fun f => f.fires new).map EventHandler.waker)
  else (⟨new, bus.callbacks⟩, [])

/-- `EventBus::set(set)`. -/
def set (bus : EventBus W) (s : Event) : EventBus W × List W := bus.change 0 s

/-- `EventBus::clear(set)`. -/
def clear (bus : EventBus W) (s : Event) : EventBus W × List W := bus.change s 0

/-- `EventBus::subscribe(callback)`. -/
def subscribe (bus : EventBus W) (callback : EventHandler W) : EventBus W :=
  { bus with callbacks := bus.callbacks ++ [callback] }

/-- `EventBusFuture::poll` with the task's waker: `Ready(event)` when the event meets the
mask, else the callback is subscribed and the poll is `Pending`. -/
def poll (bus : EventBus W) (mask : Event) (waker : W) : EventBus W × Option Event :=
  if (bus.event &&& mask) ≠ 0 then (bus, some bus.event)
  else (bus.subscribe (.masked mask waker), none)

/-! ## Runs -/

/-- What can happen to a bus. -/
inductive Op (W : Type)
  | change (reset set : Event)
  | poll (mask : Event) (waker : W)
  /-- A `SleepFuture` or `SerialFuture` subscribes its waker. -/
  | subscribe_any (waker : W)

/-- One operation; none of them panics. -/
def step (bus : EventBus W) : Op W → Option (EventBus W)
  | .change reset set => some (bus.change reset set).1
  | .poll mask waker => some (bus.poll mask waker).1
  | .subscribe_any waker => some (bus.subscribe (.any waker))

/-- The buses `EventBus::new()` reaches. `set` and `clear` are `change`s. -/
def Reachable : EventBus W → Prop := Transition.Reachable (· = new) (Transition.Next step)

/-- What keeps wake-ups from being lost: the mask of every waiting future is disjoint from the
event. -/
def Inv (bus : EventBus W) : Prop :=
  ∀ mask w, EventHandler.masked mask w ∈ bus.callbacks → bus.event &&& mask = 0

/-! ## What each operation does -/

/-- A change that leaves the event word as it was changes nothing else. -/
theorem change_of_eq {bus : EventBus W} {reset set : Event}
    (heq : (bus.event &&& ~~~reset) ||| set = bus.event) :
    bus.change reset set = (bus, []) := by
  simp only [change, heq, ne_eq, not_true_eq_false, if_false]

/-- A change of the event word calls every callback on the new word, keeps those that
returned `false` and reports the wakers of the others. -/
theorem change_of_ne {bus : EventBus W} {reset set : Event}
    (hne : (bus.event &&& ~~~reset) ||| set ≠ bus.event) :
    bus.change reset set =
      (⟨(bus.event &&& ~~~reset) ||| set,
        bus.callbacks.filter fun f => !f.fires ((bus.event &&& ~~~reset) ||| set)⟩,
        (bus.callbacks.filter fun f => f.fires ((bus.event &&& ~~~reset) ||| set)).map
          EventHandler.waker) := by
  simp only [change, ne_eq, hne, not_false_eq_true, if_true]

/-- Whether or not the word changes, it becomes `(event & !reset) | set`. -/
@[simp] theorem event_change (bus : EventBus W) (reset set : Event) :
    (bus.change reset set).1.event = (bus.event &&& ~~~reset) ||| set := by
  unfold change
  dsimp only
  split <;> rfl

theorem inv_new : Inv (new : EventBus W) := by
  intro mask w h
  exact absurd h List.not_mem_nil

theorem Inv.change {bus : EventBus W} (hinv : bus.Inv) (reset set : Event) :
    (bus.change reset set).1.Inv := by
  intro mask w hmem
  by_cases heq : (bus.event &&& ~~~reset) ||| set = bus.event
  · rw [change_of_eq heq] at hmem ⊢
    exact hinv mask w hmem
  · -- the event changed: the callbacks left returned `false` on it
    rw [change_of_ne heq] at hmem ⊢
    simp only [List.mem_filter, EventHandler.fires, Bool.not_eq_true', bne_eq_false_iff_eq] at hmem
    exact hmem.2

theorem Inv.poll {bus : EventBus W} (hinv : bus.Inv) (mask : Event) (waker : W) :
    (bus.poll mask waker).1.Inv := by
  intro mask' w hmem
  unfold EventBus.poll at hmem ⊢
  by_cases hmeet : (bus.event &&& mask) ≠ 0
  · rw [if_pos hmeet] at hmem ⊢
    exact hinv mask' w hmem
  · rw [if_neg hmeet] at hmem ⊢
    simp only [subscribe, List.mem_append, List.mem_singleton, EventHandler.masked.injEq] at hmem
    rcases hmem with hmem | ⟨rfl, -⟩
    · exact hinv mask' w hmem
    · -- subscribed only after the event was found disjoint from the mask
      simpa [subscribe] using hmeet

theorem Inv.subscribe_any {bus : EventBus W} (hinv : bus.Inv) (waker : W) :
    (bus.subscribe (.any waker)).Inv := by
  intro mask w hmem
  simp only [subscribe, List.mem_append, List.mem_singleton, reduceCtorEq, or_false] at hmem
  exact hinv mask w hmem

theorem Inv.step {bus bus' : EventBus W} (hinv : bus.Inv) {op : Op W}
    (h : EventBus.step bus op = some bus') : bus'.Inv := by
  cases op with
  | change reset set =>
    cases h
    exact hinv.change reset set
  | poll mask waker =>
    cases h
    exact hinv.poll mask waker
  | subscribe_any waker =>
    cases h
    exact hinv.subscribe_any waker

/-- Every bus reached keeps the invariant. -/
theorem Reachable.inv {bus : EventBus W} (h : Reachable bus) : bus.Inv :=
  Transition.Reachable.inv (fun _ hs => hs ▸ inv_new)
    (fun _ _ hinv ⟨_, hstep⟩ => hinv.step hstep) h

/-- A change that makes the event meet a waiting future's mask wakes the future and drops
its callback. -/
theorem change_wakes {bus : EventBus W} (hinv : bus.Inv) (reset set : Event) {mask : Event}
    {w : W} (hmem : EventHandler.masked mask w ∈ bus.callbacks)
    (hmeet : (bus.change reset set).1.event &&& mask ≠ 0) :
    w ∈ (bus.change reset set).2 ∧ EventHandler.masked mask w ∉ (bus.change reset set).1.callbacks := by
  have hold := hinv mask w hmem
  by_cases heq : (bus.event &&& ~~~reset) ||| set = bus.event
  · -- an unchanged event still misses the mask
    rw [change_of_eq heq] at hmeet
    exact absurd hold hmeet
  · have hfires : (EventHandler.masked mask w).fires ((bus.event &&& ~~~reset) ||| set) = true := by
      rw [change_of_ne heq] at hmeet
      simpa [EventHandler.fires] using hmeet
    rw [change_of_ne heq]
    refine ⟨List.mem_map.mpr ⟨_, List.mem_filter.mpr ⟨hmem, hfires⟩, rfl⟩, ?_⟩
    simp [hfires]

/-- **No lost wake-up.** In every state the bus reaches, the mask of every waiting future is
disjoint from the event; any change that makes the event meet such a mask wakes the future
and removes its callback; and a poll is ready exactly when the event meets its mask. -/
theorem no_lost_wakeup {bus : EventBus W} (h : Reachable bus) :
    (∀ mask w, EventHandler.masked mask w ∈ bus.callbacks → bus.event &&& mask = 0) ∧
    (∀ reset set mask w, EventHandler.masked mask w ∈ bus.callbacks →
      (bus.change reset set).1.event &&& mask ≠ 0 →
        w ∈ (bus.change reset set).2 ∧
          EventHandler.masked mask w ∉ (bus.change reset set).1.callbacks) ∧
    (∀ mask (w : W), (bus.poll mask w).2.isSome ↔ bus.event &&& mask ≠ 0) := by
  have hinv := h.inv
  refine ⟨hinv, fun reset set mask w hmem hmeet => change_wakes hinv reset set hmem hmeet, ?_⟩
  intro mask w
  unfold EventBus.poll
  by_cases hmeet : (bus.event &&& mask) ≠ 0
  · simp only [if_pos hmeet, Option.isSome_some, true_iff]
    exact hmeet
  · simp only [if_neg hmeet, Option.isSome_none, Bool.false_eq_true, false_iff]
    exact hmeet

/-- `sys_wait4` waiting for `CHILD_PROCESS_QUIT` on a new bus: its callback waits with the
event disjoint from the mask, and the child's exit wakes it. -/
theorem no_lost_wakeup_wait4 :
    ∃ bus : EventBus Nat, Reachable bus ∧ bus.callbacks = [.masked 0x800#32 0] ∧
      bus.event &&& 0x800#32 = 0 ∧ 0 ∈ (bus.set 0x800#32).2 := by
  have hr : Reachable ((new : EventBus Nat).poll 0x800#32 0).1 :=
    .step (.init rfl) ⟨.poll 0x800#32 0, rfl⟩
  obtain ⟨hdisjoint, hwake, -⟩ := no_lost_wakeup hr
  refine ⟨_, hr, rfl, hdisjoint 0x800#32 0 (by decide), ?_⟩
  exact (hwake 0 0x800#32 0x800#32 0 (by decide) (by decide)).1

end EventBus

end Queen.Sync
