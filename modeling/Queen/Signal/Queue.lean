/-
The signal queue of a process, `kernel/src/signal/`: `Sigset`, `send_signal`, and the loop
of `handle_signal` that takes signals off the queue.

A process keeps the signals sent to it in `sig_queue`, each with the thread it is aimed at
(`-1` for any), and their numbers in the bit set `pending_sigset`. `send_signal` drops a
standard signal (below `SIGRTMIN = 32`) that is already pending; a real-time one is queued
again. `handle_signal` repeatedly takes the first queued signal aimed at the thread and not
in its mask off the queue, clears its bit, and acts on it: it exits the process, goes on, or
enters a handler, which adds the signal and the action's mask to the thread's mask.

`Sigset` shifts its `u64` by the signal number: in a release build a shift count of 64
wraps to 0, so `SIGRT64` shares bit 0 with no standard signal. A queued entry holds the
signal `send_signal` read from the `Siginfo` (checked by `from_i32(..).unwrap()`); the rest of
the `Siginfo`, the signal frame written to the user stack and the alternate stack's flags do
not bear on the queue and are left out. Whether the user stack takes the frame
(`check_write_ptr`, an `unimplemented!()` when it does not) is an argument.
-/
import Queen.Lib.Bytes
import Queen.Lib.Store
import Queen.Lib.Transition

set_option autoImplicit false

namespace Queen.Signals

/-- `enum Signal`, `SIGHUP = 1` to `SIGRT64 = 64`. -/
structure Signal where
  val : Nat
  pos : 1 ≤ val
  le : val ≤ 64
deriving DecidableEq

namespace Signal

/-- `Signal::RTMIN`. -/
def RTMIN : Nat := 32

/-- `Signal::is_standard`. -/
def is_standard (s : Signal) : Bool := s.val < RTMIN

/-- `FromPrimitive::from_i32(signo)`: `None` outside the enum. -/
def from_i32 (signo : Int) : Option Signal :=
  if h : 1 ≤ signo ∧ signo ≤ 64 then some ⟨signo.toNat, by omega, by omega⟩ else none

/-- `SIGHUP`, `SIGINT` and `SIGALRM`, whose default action is to terminate. -/
def SIGHUP : Nat := 1
def SIGINT : Nat := 2
def SIGALRM : Nat := 14

end Signal

/-- `struct Sigset(u64)`. -/
structure Sigset where
  bits : BitVec 64
deriving DecidableEq

namespace Sigset

/-- `Sigset::empty()`. -/
def empty : Sigset := ⟨0⟩

/-- `Sigset::contains`: `(self.0 >> sig as u64 & 1) != 0`. -/
def contains (s : Sigset) (sig : Signal) : Bool := (s.bits >>> (sig.val % 64)) &&& 1#64 != 0#64

/-- `Sigset::add`: `self.0 |= 1 << sig as u64`. -/
def add (s : Sigset) (sig : Signal) : Sigset := ⟨s.bits ||| 1#64 <<< (sig.val % 64)⟩

/-- `Sigset::add_set`. -/
def add_set (s t : Sigset) : Sigset := ⟨s.bits ||| t.bits⟩

/-- `Sigset::remove`: `self.0 ^= self.0 & (1 << sig as u64)`. -/
def remove (s : Sigset) (sig : Signal) : Sigset := ⟨s.bits ^^^ (s.bits &&& 1#64 <<< (sig.val % 64))⟩

/-- `contains` reads the signal's bit. -/
theorem contains_eq (s : Sigset) (sig : Signal) : s.contains sig = s.bits.getLsbD (sig.val % 64) := by
  have hand : ((s.bits >>> (sig.val % 64)) &&& 1#64).toNat = s.bits.toNat / 2 ^ (sig.val % 64) % 2 := by
    rw [BitVec.toNat_and, BitVec.toNat_ushiftRight, Nat.shiftRight_eq_div_pow]
    simp [Nat.and_one_is_mod]
  rw [contains, BitVec.getLsbD, Nat.testBit_eq_decide_div_mod_eq]
  cases hb : decide (s.bits.toNat / 2 ^ (sig.val % 64) % 2 = 1)
  · -- the bit is clear: the masked word is zero
    have hzero : s.bits.toNat / 2 ^ (sig.val % 64) % 2 = 0 := by simp at hb; omega
    simp only [bne_eq_false_iff_eq]
    exact BitVec.eq_of_toNat_eq (by rw [hand, hzero]; rfl)
  · have hone : s.bits.toNat / 2 ^ (sig.val % 64) % 2 = 1 := by simpa using hb
    simp only [bne_iff_ne, ne_eq]
    intro h0
    have := congrArg BitVec.toNat h0
    rw [hand] at this
    simp_all

/-- The bits of `1 << n`, for `n` below the width. -/
theorem getLsbD_one_shiftLeft {n m : Nat} (hm : m < 64) :
    (1#64 <<< n).getLsbD m = decide (n = m) := by
  rw [BitVec.getLsbD_shiftLeft, BitVec.getLsbD_one]
  by_cases h : n = m
  · subst h
    simp [hm]
  · simp only [h, decide_false]
    by_cases hlt : m < n
    · simp [hlt]
    · simp only [hlt, decide_false, Bool.not_false, Bool.and_true]
      simp only [decide_eq_false_iff_not, Bool.and_eq_false_iff]
      right; right
      omega

theorem contains_add (s : Sigset) (a b : Signal) :
    (s.add a).contains b = (decide (a.val % 64 = b.val % 64) || s.contains b) := by
  rw [contains_eq, contains_eq, add, BitVec.getLsbD_or,
    getLsbD_one_shiftLeft (Nat.mod_lt _ (by norm_num)), Bool.or_comm]

theorem contains_remove (s : Sigset) (a b : Signal) :
    (s.remove a).contains b = (!decide (a.val % 64 = b.val % 64) && s.contains b) := by
  rw [contains_eq, contains_eq, remove, BitVec.getLsbD_xor, BitVec.getLsbD_and,
    getLsbD_one_shiftLeft (Nat.mod_lt _ (by norm_num))]
  cases s.bits.getLsbD (b.val % 64) <;> cases decide (a.val % 64 = b.val % 64) <;> rfl

end Sigset

/-- A standard signal has a bit of its own: no other signal, `SIGRT64` included, shares it. -/
theorem Signal.bit_eq_iff {a b : Signal} (hb : b.is_standard = true) :
    a.val % 64 = b.val % 64 ↔ a = b := by
  have hb' : b.val < 32 := by
    simp only [Signal.is_standard, Signal.RTMIN] at hb
    exact of_decide_eq_true hb
  obtain ⟨a, ha1, ha2⟩ := a
  obtain ⟨b, hb1, hb2⟩ := b
  constructor
  · intro h
    have : a = b := by dsimp only at h hb'; omega
    subst this
    rfl
  · intro h
    cases h
    rfl

/-- `SignalAction`: the handler and the mask it adds. Its `flags` and `restorer` shape the
signal frame only. -/
structure SignalAction where
  handler : Usize
  mask : Sigset

/-- `SIG_DFL`, `SIG_IGN` and `SIG_ERR = usize::max_value() - 1`. -/
def SIG_DFL : Usize := 0
def SIG_IGN : Usize := 1
def SIG_ERR : Usize := BitVec.allOnes 64 - 1

/-- The signal state of `struct Process`. -/
structure SigState where
  /-- `sig_queue`: each signal with the thread it is for, `-1` (all ones) for any. -/
  sig_queue : List (Signal × Usize)
  pending_sigset : Sigset

/-- `send_signal(process, tid, info)`; `none` is the `unwrap` of a number that is not a
signal. -/
def send_signal (s : SigState) (tid : Usize) (signo : Int) : Option SigState := do
  let signal ← Signal.from_i32 signo
  if signal.is_standard && s.pending_sigset.contains signal then some s
  else some ⟨s.sig_queue ++ [(signal, tid)], s.pending_sigset.add signal⟩

/-- The test of the `find_map` in `handle_signal`: aimed at the thread or at any, and not
masked. -/
def eligible (tid : Usize) (mask : Sigset) (e : Signal × Usize) : Bool :=
  (e.2 == BitVec.allOnes 64 || e.2 == tid) && !mask.contains e.1

/-- `Thread::has_signal_to_handle`: the same test over the queue, as the thread's syscalls
ask it (`sys_nanosleep`, `SleepFuture::poll`). -/
def has_signal_to_handle (tid : Usize) (mask : Sigset) (s : SigState) : Bool :=
  (s.sig_queue.find? (eligible tid mask)).isSome

/-- What `handle_signal` does with a signal it took: `none` for a panic, `some none` when the
process exits (`return true`), `some (some mask)` to go on with the thread's new mask. -/
def act (action : SignalAction) (signal : Signal) (mask : Sigset) (frame_ok : Bool) :
    Option (Option Sigset) :=
  if action.handler = SIG_DFL then
    if signal.val = Signal.SIGALRM ∨ signal.val = Signal.SIGHUP ∨ signal.val = Signal.SIGINT then
      some none
    else some (some mask)
  else if action.handler = SIG_IGN then some (some mask)
  else if action.handler = SIG_ERR then none
  -- enter the handler: block the signal and the action's mask
  else if frame_ok then some (some ((mask.add signal).add_set action.mask))
  else none

theorem lt_length_of_find?_zipIdx {l : List (Signal × Usize)} {p : (Signal × Usize) × Nat → Bool}
    {e : (Signal × Usize) × Nat} (h : l.zipIdx.find? p = some e) : e.2 < l.length := by
  have hmem := List.mem_zipIdx_iff_getElem?.mp (List.mem_of_find?_eq_some h)
  exact (List.getElem?_eq_some_iff.mp hmem).1

set_option linter.unusedVariables false in
/-- The `while let` loop of `handle_signal(thread, tf)` for the thread `tid` with mask `mask`:
the state, the thread's mask, and whether the process exits. -/
def handle_signal (tid : Usize) (dispositions : Nat → SignalAction) (frame_ok : Bool)
    (s : SigState) (mask : Sigset) : Option (SigState × Sigset × Bool) :=
  match h : s.sig_queue.zipIdx.find? (fun e => eligible tid mask e.1) with
  | none => some (s, mask, false)
  | some ((signal, _), idx) =>
    let s' : SigState := ⟨s.sig_queue.eraseIdx idx, s.pending_sigset.remove signal⟩
    match act (dispositions signal.val) signal mask frame_ok with
    | none => none
    | some none => some (s', mask, true)
    | some (some mask') => handle_signal tid dispositions frame_ok s' mask'
termination_by s.sig_queue.length
decreasing_by
  have hlt := lt_length_of_find?_zipIdx h
  rw [List.length_eraseIdx_of_lt hlt]
  omega

/-! ## The queue and the pending set agree -/

/-- How many queued entries carry `sig`. -/
def count (q : List (Signal × Usize)) (sig : Signal) : Nat := q.countP fun e => decide (e.1 = sig)

/-- On the standard signals the queue and the pending set agree: a signal is queued once when
its bit is set and not at all when it is clear. -/
def QueueInv (s : SigState) : Prop :=
  ∀ sig : Signal, sig.is_standard = true →
    count s.sig_queue sig = if s.pending_sigset.contains sig then 1 else 0

theorem count_append_cons (pre post : List (Signal × Usize)) (e : Signal × Usize) (sig : Signal) :
    count (pre ++ e :: post) sig = count pre sig + (if e.1 = sig then 1 else 0) + count post sig := by
  simp only [count, List.countP_append, List.countP_cons, decide_eq_true_eq]
  omega

theorem QueueInv.init : QueueInv ⟨[], Sigset.empty⟩ := by
  intro sig _
  have hclear : Sigset.empty.contains sig = false := by
    rw [Sigset.contains_eq]
    exact BitVec.getLsbD_zero
  rw [hclear]
  rfl

/-- `send_signal` queues a standard signal only when its bit is clear, and sets the bit. -/
theorem QueueInv.send {s s' : SigState} (hinv : QueueInv s) {tid : Usize} {signo : Int}
    (h : send_signal s tid signo = some s') : QueueInv s' := by
  simp only [send_signal, Option.bind_eq_bind, Option.bind_eq_some_iff] at h
  obtain ⟨signal, -, h⟩ := h
  split at h
  · -- a pending standard signal is dropped
    cases h
    exact hinv
  next hnew =>
  cases h
  intro sig hsig
  rw [count, List.countP_append, ← count, hinv sig hsig, Sigset.contains_add]
  by_cases heq : signal = sig
  · -- the signal itself: its bit was clear, so it was not queued
    subst heq
    have hclear : s.pending_sigset.contains signal = false := by simpa [hsig] using hnew
    simp [hclear]
  · -- another signal: another bit, and the new entry is not its own
    have hbit : ¬ signal.val % 64 = sig.val % 64 := fun h => heq ((Signal.bit_eq_iff hsig).mp h)
    simp [heq, hbit]

/-- Taking the entry at `idx` off the queue with its signal's bit keeps the invariant. -/
theorem QueueInv.take {s : SigState} (hinv : QueueInv s) {idx : Nat} {e : Signal × Usize}
    (he : s.sig_queue[idx]? = some e) :
    QueueInv ⟨s.sig_queue.eraseIdx idx, s.pending_sigset.remove e.1⟩ := by
  obtain ⟨pre, post, hq, rfl⟩ := Store.exists_eq_append_cons_of_getElem? he
  intro sig hsig
  have hcount := hinv sig hsig
  dsimp only
  rw [hq, Store.eraseIdx_middle, Sigset.contains_remove]
  rw [hq, count_append_cons] at hcount
  by_cases heq : e.1 = sig
  · -- the signal taken: it was its only entry, and its bit goes
    subst heq
    simp only [if_true] at hcount
    have hpending : s.pending_sigset.contains e.1 = true := by
      by_contra hc
      simp [hc] at hcount
    rw [hpending, if_pos rfl] at hcount
    simp only [count, List.countP_append, decide_true, Bool.not_true, Bool.false_and, Bool.false_eq_true,
      if_false]
    simp only [count] at hcount
    omega
  · -- another signal: the same entries and the same bit
    have hbit : ¬ e.1.val % 64 = sig.val % 64 := fun h => heq ((Signal.bit_eq_iff hsig).mp h)
    simp only [heq, if_false, Nat.add_zero] at hcount
    simp only [count, List.countP_append, hbit, decide_false, Bool.not_false, Bool.true_and]
    simp only [count] at hcount
    exact hcount

/-- The entry `find?` picks over `zipIdx` is the one at its index. -/
theorem getElem?_of_find?_zipIdx {l : List (Signal × Usize)} {p : (Signal × Usize) × Nat → Bool}
    {e : Signal × Usize} {idx : Nat} (h : l.zipIdx.find? p = some (e, idx)) : l[idx]? = some e :=
  List.mem_zipIdx_iff_getElem?.mp (List.mem_of_find?_eq_some h)

/-- One round of `handle_signal`, once `find?` has picked an entry. -/
theorem handle_signal_of_find? {tid : Usize} {dispositions : Nat → SignalAction} {frame_ok : Bool}
    {s : SigState} {mask : Sigset} {signal : Signal} {t : Usize} {idx : Nat}
    (hfind : s.sig_queue.zipIdx.find? (fun e => eligible tid mask e.1) = some ((signal, t), idx)) :
    handle_signal tid dispositions frame_ok s mask =
      match act (dispositions signal.val) signal mask frame_ok with
      | none => none
      | some none => some (⟨s.sig_queue.eraseIdx idx, s.pending_sigset.remove signal⟩, mask, true)
      | some (some mask') =>
        handle_signal tid dispositions frame_ok ⟨s.sig_queue.eraseIdx idx, s.pending_sigset.remove signal⟩ mask' := by
  rw [handle_signal]
  split
  · simp_all
  · next hf =>
    rw [hfind] at hf
    cases hf
    rfl


/-- Nothing to take: the loop ends, the process goes on. -/
theorem handle_signal_of_find?_none {tid : Usize} {dispositions : Nat → SignalAction} {frame_ok : Bool}
    {s : SigState} {mask : Sigset}
    (hfind : s.sig_queue.zipIdx.find? (fun e => eligible tid mask e.1) = none) :
    handle_signal tid dispositions frame_ok s mask = some (s, mask, false) := by
  rw [handle_signal]
  split
  · rfl
  · simp_all

/-- **A run of `handle_signal` keeps the invariant**: every round takes one entry and its
bit. -/
theorem QueueInv.of_handle_signal {tid : Usize} {dispositions : Nat → SignalAction} {frame_ok : Bool}
    {s s' : SigState} {mask mask' : Sigset} {exits : Bool} (hinv : QueueInv s)
    (h : handle_signal tid dispositions frame_ok s mask = some (s', mask', exits)) : QueueInv s' := by
  -- on the rounds of the loop; a round that goes on keeps the invariant by `take`
  induction s, mask using handle_signal.induct tid dispositions frame_ok with
  | case1 s mask hfind =>
    rw [handle_signal_of_find?_none hfind] at h
    cases h
    exact hinv
  | case2 s mask signal t idx hfind hact =>
    rw [handle_signal_of_find? hfind, hact] at h
    cases h
  | case3 s mask signal t idx hfind hact =>
    rw [handle_signal_of_find? hfind, hact] at h
    simp only [Option.some.injEq, Prod.mk.injEq] at h
    obtain ⟨rfl, -, -⟩ := h
    have htaken := hinv.take (getElem?_of_find?_zipIdx hfind)
    exact htaken
  | case4 s mask signal t idx hfind s₁ mask₁ hact ih =>
    rw [handle_signal_of_find? hfind, hact] at h
    have htaken := hinv.take (getElem?_of_find?_zipIdx hfind)
    exact ih htaken h

/-- An entry carries `sig` exactly when the count is positive. -/
theorem count_pos_iff (q : List (Signal × Usize)) (sig : Signal) :
    0 < count q sig ↔ ∃ t, (sig, t) ∈ q := by
  rw [count, List.countP_pos_iff]
  constructor
  · rintro ⟨⟨sig', t⟩, hmem, heq⟩
    obtain rfl : sig' = sig := of_decide_eq_true heq
    exact ⟨t, hmem⟩
  · rintro ⟨t, hmem⟩
    exact ⟨(sig, t), hmem, decide_eq_true rfl⟩

/-! ## Runs of sends and handling -/

/-- The calls on the signal state of a process. -/
inductive SigOp
  /-- `send_signal(process, tid, info)`, `info.signo` being `signo`. -/
  | send (tid : Usize) (signo : Int)
  /-- `handle_signal` on the thread `tid` with mask `mask`, under the process's actions. -/
  | handle (tid : Usize) (mask : Sigset) (dispositions : Nat → SignalAction) (frame_ok : Bool)

namespace SigState

/-- A new process: nothing queued, nothing pending. -/
def init : SigState := ⟨[], Sigset.empty⟩

/-- One call; `none` where the kernel panics. -/
def step (s : SigState) : SigOp → Option SigState
  | .send tid signo => send_signal s tid signo
  | .handle tid mask dispositions frame_ok =>
    (handle_signal tid dispositions frame_ok s mask).map (·.1)

/-- The states the calls reach from a new process. -/
def Reachable : SigState → Prop := Queen.Transition.Reachable (· = init) (Queen.Transition.Next step)

end SigState

theorem QueueInv.step {s s' : SigState} (hinv : QueueInv s) {op : SigOp} (h : s.step op = some s') :
    QueueInv s' := by
  cases op with
  | send tid signo => exact hinv.send h
  | handle tid mask dispositions frame_ok =>
    obtain ⟨⟨s₁, mask₁, exits⟩, hrun, rfl⟩ := Option.map_eq_some_iff.mp h
    exact hinv.of_handle_signal hrun

/-- **Standard signals are queued at most once, and the pending set mirrors the queue.** In
every state a run of sends and handling reaches, whatever the threads, their masks and the
actions, a standard signal has at most one entry in the queue, and its bit is set exactly
when it has one. -/
theorem standard_signals_queued_once {s : SigState} (hs : s.Reachable) {sig : Signal}
    (hstd : sig.is_standard = true) :
    count s.sig_queue sig ≤ 1 ∧ (s.pending_sigset.contains sig = true ↔ ∃ t, (sig, t) ∈ s.sig_queue) := by
  have hinv : QueueInv s := by
    refine Queen.Transition.Reachable.inv (P := QueueInv) ?_ ?_ hs
    · rintro s rfl
      exact QueueInv.init
    · rintro s s' hinv ⟨op, h⟩
      exact hinv.step h
  have hcount := hinv sig hstd
  rw [← count_pos_iff, hcount]
  by_cases hbit : s.pending_sigset.contains sig = true <;> simp [hbit]

/-- `SIGINT` sent twice to a new process is queued once. -/
theorem standard_signals_queued_once_sigint_twice :
    let sigint : Signal := ⟨Signal.SIGINT, by decide, by decide⟩
    let s : SigState := ⟨[(sigint, 0)], Sigset.empty.add sigint⟩
    s.Reachable ∧ count s.sig_queue sigint = 1 ∧
      (count s.sig_queue sigint ≤ 1 ∧
        (s.pending_sigset.contains sigint = true ↔ ∃ t, (sigint, t) ∈ s.sig_queue)) := by
  intro sigint s
  have hs₁ : SigState.Reachable s := .step (.init rfl) ⟨.send 0 2, rfl⟩
  -- the second send finds the bit set and drops the signal
  have hstep : s.step (.send 0 2) = some s := by
    simp only [s, sigint, SigState.step, send_signal]
    rfl
  have hs : SigState.Reachable s := .step hs₁ ⟨.send 0 2, hstep⟩
  exact ⟨hs, by decide, standard_signals_queued_once hs (by decide)⟩

/-! ## What the loop of `handle_signal` leaves -/

theorem Sigset.contains_add_set (s t : Sigset) (sig : Signal) :
    (s.add_set t).contains sig = (s.contains sig || t.contains sig) := by
  rw [Sigset.contains_eq, Sigset.contains_eq, Sigset.contains_eq, Sigset.add_set,
    BitVec.getLsbD_or]

/-- What `act` goes on with keeps every signal the thread had blocked. -/
theorem act_mask_mono {action : SignalAction} {signal : Signal} {mask mask' : Sigset}
    {frame_ok : Bool} (h : act action signal mask frame_ok = some (some mask')) (sig : Signal)
    (hsig : mask.contains sig = true) : mask'.contains sig = true := by
  unfold act at h
  split_ifs at h
  -- the exit, `SIG_ERR` and a frame the stack does not take go on with no mask
  all_goals cases h
  · exact hsig
  · exact hsig
  -- a handler adds the signal and the action's mask
  · rw [Sigset.contains_add_set, Sigset.contains_add, hsig]
    simp

/-- Every entry of a list is one `find?` over its `zipIdx` looked at. -/
theorem not_of_find?_zipIdx_eq_none {l : List (Signal × Usize)} {p : Signal × Usize → Bool}
    (h : l.zipIdx.find? (fun e => p e.1) = none) (e : Signal × Usize) (he : e ∈ l) : p e = false := by
  obtain ⟨i, hi⟩ := List.mem_iff_getElem?.mp he
  have hmem : (e, i) ∈ l.zipIdx := List.mem_zipIdx_iff_getElem?.mpr hi
  simpa using List.find?_eq_none.mp h (e, i) hmem

theorem has_signal_to_handle_eq_false {tid : Usize} {mask : Sigset} {s : SigState} :
    has_signal_to_handle tid mask s = false ↔ ∀ e ∈ s.sig_queue, eligible tid mask e = false := by
  rw [has_signal_to_handle, Option.isSome_eq_false_iff, Option.isNone_iff_eq_none,
    List.find?_eq_none]
  simp

/-- **`handle_signal` leaves nothing it could deliver.** When the loop hands the thread back
to user space, `has_signal_to_handle` is false under the mask it leaves: no entry left in the
queue is aimed at the thread and outside that mask. The mask has only grown, and what is
left of the queue is the queue less the entries taken, in order. -/
theorem handle_signal_drains {tid : Usize} {dispositions : Nat → SignalAction} {frame_ok : Bool}
    {s s' : SigState} {mask mask' : Sigset}
    (h : handle_signal tid dispositions frame_ok s mask = some (s', mask', false)) :
    has_signal_to_handle tid mask' s' = false ∧
      (∀ sig, mask.contains sig = true → mask'.contains sig = true) ∧
      s'.sig_queue.Sublist s.sig_queue := by
  -- on the rounds of the loop, as `QueueInv.of_handle_signal`
  induction s, mask using handle_signal.induct tid dispositions frame_ok with
  | case1 s mask hfind =>
    rw [handle_signal_of_find?_none hfind] at h
    cases h
    refine ⟨has_signal_to_handle_eq_false.mpr (not_of_find?_zipIdx_eq_none hfind),
      fun _ hsig => hsig, List.Sublist.refl _⟩
  | case2 s mask signal t idx hfind hact =>
    rw [handle_signal_of_find? hfind, hact] at h
    cases h
  | case3 s mask signal t idx hfind hact =>
    -- the default action of `SIGINT` and the like exits the process
    rw [handle_signal_of_find? hfind, hact] at h
    simp at h
  | case4 s mask signal t idx hfind s₁ mask₁ hact ih =>
    rw [handle_signal_of_find? hfind, hact] at h
    obtain ⟨hleft, hmask, hsub⟩ := ih h
    refine ⟨hleft, fun sig hsig => hmask sig (act_mask_mono hact sig hsig), ?_⟩
    exact hsub.trans (List.eraseIdx_sublist _ _)

end Queen.Signals
