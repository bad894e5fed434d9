/-
The kernel's timer queue, `kernel/src/task/timer.rs`: the wakers of `DelayFuture`s and
`SleepFuture`s in a `BTreeMap` by deadline, woken from the timer interrupt by
`Timer::expire(read())`.

`Timer::add` moves a deadline that is taken one nanosecond at a time until it is free, so it
never overwrites a waiting waker, and the key it finds is at most the number of waiting wakers
above the deadline it was given (`add_spec`). The `+=` there panics past `Duration::MAX`,
so two wakers added at `Duration::MAX` make the second `add` panic
(`add_at_max_panics`). `Timer::expire(now)` pops the least key while it is not past `now`: it
wakes exactly the wakers of keys up to `now`, in increasing key order, and keeps the rest
(`expire_spec`). Along any run of adds and expiries, the wakers added are the wakers woken
and the wakers waiting, each once, and none is woken before its deadline
(`History.Reachable.accounted`); `queue_spec` puts the three together. A waker is any
type `W`.

The times come from the generic timer, `kernel/src/arch/aarch64/timer.rs`, as a
`core::time::Duration`. A `Duration` is kept as its length in nanoseconds, with the bound
`Duration::MAX` as a field, so that no longer one can be built; `+` checks the bound and
panics past it (`checked_add(..).expect("overflow when adding durations")`), which is `none`.
`read_ns` multiplies the counter `CNTPCT_EL0` by `10 ^ 9` before it divides by the frequency
`CNTFRQ_EL0`, in `u64`. While the product fits, the result is the time the counter stands
for, rounded down, and it grows with the counter (`read_ns_toNat`, `read_ns_mono`). The
product leaves `u64` at the counter value `18_446_744_074` at any frequency, and there time
drops to a fraction of a second, whatever the frequency below `2 ^ 32` (`read_ns_drops`); at
the `62_500_000` Hz of QEMU that is after five minutes of uptime.
-/
import Queen.Lib.SortedMap
import Queen.Lib.Transition

set_option autoImplicit false

namespace Queen

/-- The length of `Duration::MAX` in nanoseconds: `u64::MAX` seconds and `999_999_999`
nanoseconds. -/
def Duration.MAX_NANOS : Nat := 2 ^ 64 * 1_000_000_000 - 1

/-- `core::time::Duration`, as its length in nanoseconds. -/
structure Duration where
  as_nanos : Nat
  le_MAX : as_nanos ≤ Duration.MAX_NANOS
deriving DecidableEq

namespace Duration

instance : Repr Duration := ⟨fun d _ => repr d.as_nanos⟩

/-- `Duration::MAX`. -/
def MAX : Duration := ⟨MAX_NANOS, le_rfl⟩

/-- `Duration::from_nanos(nanos)` of a `u64`. -/
def from_nanos (nanos : BitVec 64) : Duration :=
  ⟨nanos.toNat, by have := nanos.isLt; unfold MAX_NANOS; omega⟩

/-- `Duration::checked_add`: `none` past `Duration::MAX`. -/
def checked_add (a b : Duration) : Option Duration :=
  if h : a.as_nanos + b.as_nanos ≤ MAX_NANOS then some ⟨a.as_nanos + b.as_nanos, h⟩ else none

theorem as_nanos_injective : Function.Injective as_nanos := by
  intro a b h
  cases a
  cases b
  cases h
  rfl

/-- `Ord for Duration`: by length. -/
instance : LinearOrder Duration := LinearOrder.lift' as_nanos as_nanos_injective

theorem le_iff (a b : Duration) : a ≤ b ↔ a.as_nanos ≤ b.as_nanos := Iff.rfl

theorem lt_iff (a b : Duration) : a < b ↔ a.as_nanos < b.as_nanos := Iff.rfl

@[simp] theorem as_nanos_from_nanos (nanos : BitVec 64) : (from_nanos nanos).as_nanos = nanos.toNat :=
  rfl

theorem checked_add_eq_some {a b c : Duration} (h : a.checked_add b = some c) :
    c.as_nanos = a.as_nanos + b.as_nanos := by
  unfold checked_add at h
  split at h
  · cases h
    rfl
  · cases h

/-- `d + Duration::from_nanos(1)`, when it does not panic, is one nanosecond longer. -/
theorem checked_add_one {a b : Duration} (h : a.checked_add (from_nanos 1#64) = some b) :
    b.as_nanos = a.as_nanos + 1 := by
  rw [checked_add_eq_some h, as_nanos_from_nanos]
  rfl

theorem checked_add_isSome {a b : Duration} (h : a.as_nanos + b.as_nanos ≤ MAX_NANOS) :
    (a.checked_add b).isSome := by
  simp [checked_add, h]

/-- Durations that hold every length from `a` up to `b` are at least `b - a`. -/
theorem length_le_of_consecutive {ks : List Duration} {a b : Nat}
    (h : ∀ n, a ≤ n → n < b → ∃ k ∈ ks, k.as_nanos = n) : b - a ≤ ks.length := by
  have hsub : List.range' a (b - a) ⊆ ks.map as_nanos := by
    intro n hn
    rw [List.mem_range'_1] at hn
    obtain ⟨k, hk, rfl⟩ := h n hn.1 (by omega)
    exact List.mem_map_of_mem hk
  have hlen := (List.Nodup.subperm (List.nodup_range' (s := a) (n := b - a)) hsub).length_le
  rwa [List.length_range', List.length_map] at hlen

end Duration

end Queen

namespace Queen.Arch

/-- `GenericTimer::read_ns()`, the counter and the frequency read as `cntpct` and `freq`: the
product wraps, as the release build compiles `u64` arithmetic. -/
def read_ns (cntpct freq : BitVec 64) : BitVec 64 := cntpct * 1_000_000_000#64 / freq

/-- `GenericTimer::read()`. -/
def read (cntpct freq : BitVec 64) : Duration := Duration.from_nanos (read_ns cntpct freq)

/-- Where the product fits, `read_ns` is the counter's time rounded down. -/
theorem read_ns_toNat {cntpct : BitVec 64} (freq : BitVec 64)
    (hfit : cntpct.toNat * 1_000_000_000 < 2 ^ 64) :
    (read_ns cntpct freq).toNat = cntpct.toNat * 1_000_000_000 / freq.toNat := by
  rw [read_ns, BitVec.toNat_udiv, BitVec.toNat_mul, BitVec.toNat_ofNat]
  rw [Nat.mod_eq_of_lt (by decide : 1_000_000_000 < 2 ^ 64), Nat.mod_eq_of_lt hfit]

/-- Where the product fits, time does not go back. -/
theorem read_ns_mono {c₁ c₂ : BitVec 64} (freq : BitVec 64) (hle : c₁.toNat ≤ c₂.toNat)
    (hfit : c₂.toNat * 1_000_000_000 < 2 ^ 64) :
    (read_ns c₁ freq).toNat ≤ (read_ns c₂ freq).toNat := by
  have hfit₁ : c₁.toNat * 1_000_000_000 < 2 ^ 64 :=
    Nat.lt_of_le_of_lt (Nat.mul_le_mul_right _ hle) hfit
  rw [read_ns_toNat freq hfit₁, read_ns_toNat freq hfit]
  exact Nat.div_le_div_right (Nat.mul_le_mul_right _ hle)

/-- **Kernel time drops.** At the counter value `18_446_744_074` the product `counter * 10 ^ 9`
first leaves `u64`; for every frequency from `1` to `2 ^ 32 - 1`, `read_ns` there is less than
one tick before. -/
theorem read_ns_drops (freq : BitVec 64) (hpos : 1 ≤ freq.toNat) (hlt : freq.toNat < 2 ^ 32) :
    (read_ns 18_446_744_074#64 freq).toNat < (read_ns 18_446_744_073#64 freq).toNat := by
  have hbefore : (read_ns 18_446_744_073#64 freq).toNat = 18_446_744_073_000_000_000 / freq.toNat :=
    read_ns_toNat freq (by decide)
  -- the product wraps to `290_448_384`
  have hafter : (read_ns 18_446_744_074#64 freq).toNat = 290_448_384 / freq.toNat := by
    rw [read_ns, BitVec.toNat_udiv]
    rfl
  have hsmall : 290_448_384 / freq.toNat ≤ 290_448_384 := Nat.div_le_self _ _
  have hlarge : 4_294_967_295 ≤ 18_446_744_073_000_000_000 / freq.toNat := by
    rw [Nat.le_div_iff_mul_le (by omega)]
    calc 4_294_967_295 * freq.toNat ≤ 4_294_967_295 * 4_294_967_295 :=
          Nat.mul_le_mul_left _ (by omega)
      _ ≤ 18_446_744_073_000_000_000 := by decide
  rw [hbefore, hafter]
  omega

/-- At QEMU's `62_500_000` Hz kernel time falls from about `295` seconds to `4` nanoseconds. -/
theorem read_ns_drops_at_qemu_frequency :
    1 ≤ (62_500_000#64).toNat ∧ (62_500_000#64).toNat < 2 ^ 32 ∧
      (read_ns 18_446_744_074#64 62_500_000#64).toNat <
        (read_ns 18_446_744_073#64 62_500_000#64).toNat :=
  ⟨by decide, by decide, read_ns_drops 62_500_000#64 (by decide) (by decide)⟩

end Queen.Arch

namespace Queen.Task

/-- `struct Timer`. -/
structure Timer (W : Type) where
  events : SortedMap Duration W

namespace Timer

variable {W : Type}

/-- `Timer::new()`. -/
def new : Timer W := ⟨SortedMap.empty⟩

set_option linter.unusedVariables false in
/-- The `while` loop of `Timer::add`: from `deadline` on, one nanosecond at a time, the first
key the map does not hold. `none` when `deadline += Duration::from_nanos(1)` overflows and
panics. -/
def probe (events : SortedMap Duration W) (deadline : Duration) : Option Duration :=
  if events.contains_key deadline then
    match h : deadline.checked_add (Duration.from_nanos 1#64) with
    | some next => probe events next
    | none => none
  else some deadline
termination_by Duration.MAX_NANOS + 1 - deadline.as_nanos
decreasing_by
  have hnext := Duration.checked_add_eq_some h
  have hle := next.le_MAX
  simp only [Duration.as_nanos_from_nanos] at hnext
  have hone : (1#64 : BitVec 64).toNat = 1 := rfl
  omega

/-- A free deadline is taken as it is. -/
theorem probe_of_free {events : SortedMap Duration W} {deadline : Duration}
    (h : events.contains_key deadline = false) : probe events deadline = some deadline := by
  rw [probe, if_neg (by rw [h]; decide)]

/-- A held deadline passes the search on to the next nanosecond. -/
theorem probe_of_held {events : SortedMap Duration W} {deadline next : Duration}
    (h : events.contains_key deadline = true)
    (hnext : deadline.checked_add (Duration.from_nanos 1#64) = some next) :
    probe events deadline = probe events next := by
  rw [probe, if_pos h]
  split
  · next next' hnext' =>
    rw [hnext] at hnext'
    cases hnext'
    rfl
  · next hnone =>
    rw [hnext] at hnone
    cases hnone

/-- `Timer::add(deadline, waker)`. -/
def add (t : Timer W) (deadline : Duration) (waker : W) : Option (Timer W) :=
  (probe t.events deadline).map fun d => ⟨t.events.insert d waker⟩

/-- The loop of `Timer::expire(now)` on the entries from the least key on: while the first
entry's key is not past `now`, remove it and wake its waker. The wakers woken, in order, and
the entries left. -/
def expire_loop (now : Duration) : List (Duration × W) → List W × List (Duration × W)
  | [] => ([], [])
  | (key, waker) :: rest =>
    if key > now then ([], (key, waker) :: rest)
    else
      let (woken, left) := expire_loop now rest
      (waker :: woken, left)

/-- What the loop leaves is the tail of the entries, from the first key past `now`. -/
theorem expire_loop_eq (now : Duration) :
    ∀ es : List (Duration × W), expire_loop now es =
      ((es.takeWhile fun e => e.1 ≤ now).map Prod.snd, es.dropWhile fun e => e.1 ≤ now)
  | [] => rfl
  | (key, waker) :: rest => by
    unfold expire_loop
    by_cases hkey : key > now
    · rw [if_pos hkey]
      simp [not_le.mpr hkey]
    · rw [if_neg hkey, expire_loop_eq now rest]
      simp [not_lt.mp hkey]

/-- `Timer::expire(now)`: the timer after it and the wakers it woke, in order. -/
def expire (t : Timer W) (now : Duration) : Timer W × List W :=
  ((⟨⟨(expire_loop now t.events.entries).2,
      by rw [expire_loop_eq]; exact t.events.sorted.sublist (List.dropWhile_suffix _).sublist⟩⟩ :
      Timer W), (expire_loop now t.events.entries).1)

/-! ## `add` -/

/-- What the loop of `add` finds: a key from `deadline` on that the map does not hold, every
key before it from `deadline` on being held. -/
theorem probe_spec (events : SortedMap Duration W) {deadline d : Duration}
    (h : probe events deadline = some d) :
    deadline ≤ d ∧ d ∉ events.keys ∧ ∀ x : Duration, deadline ≤ x → x < d → x ∈ events.keys := by
  fun_induction probe events deadline with
  | case1 deadline hheld next hnext ih =>
    obtain ⟨hle, hfree, hheld'⟩ := ih h
    have hstep := Duration.checked_add_one hnext
    refine ⟨le_trans (by rw [Duration.le_iff]; omega) hle, hfree, fun x hx hxd => ?_⟩
    -- below `next` is `deadline` itself, held, or a key the rest of the loop passed
    by_cases hxeq : x = deadline
    · rw [hxeq, ← SortedMap.contains_key_iff]
      exact hheld
    · refine hheld' x ?_ hxd
      have hne : x.as_nanos ≠ deadline.as_nanos := fun h => hxeq (Duration.as_nanos_injective h)
      rw [Duration.le_iff] at hx ⊢
      omega
  | case2 deadline hheld hnone => cases h
  | case3 deadline hfree =>
    cases h
    refine ⟨le_rfl, fun hmem => ?_, fun x hx hxd => absurd hxd (not_lt.mpr hx)⟩
    rw [← SortedMap.contains_key_iff] at hmem
    exact hfree hmem

/-- With room below `Duration::MAX` for every waiting waker, the loop of `add` stops: from a
point that every key before it from `deadline` on is held, it finds a free key. -/
theorem probe_isSome (events : SortedMap Duration W) {deadline : Duration}
    (hroom : deadline.as_nanos + events.keys.length ≤ Duration.MAX_NANOS) :
    ∀ cur : Duration, deadline ≤ cur → (∀ x : Duration, deadline ≤ x → x < cur → x ∈ events.keys) →
      (probe events cur).isSome := by
  intro cur
  fun_induction probe events cur with
  | case1 cur hheld next hnext ih =>
    intro hle hbelow
    have hstep := Duration.checked_add_one hnext
    refine ih (le_trans hle (by rw [Duration.le_iff]; omega)) fun x hx hxn => ?_
    by_cases hxeq : x = cur
    · rw [hxeq, ← SortedMap.contains_key_iff]
      exact hheld
    · have hne : x.as_nanos ≠ cur.as_nanos := fun h => hxeq (Duration.as_nanos_injective h)
      exact hbelow x hx (by rw [Duration.lt_iff] at hxn ⊢; omega)
  | case2 cur hheld hnone =>
    intro hle hbelow
    -- every length from `deadline` to `cur` is a held key, so `cur + 1` fits
    have hcount : cur.as_nanos + 1 - deadline.as_nanos ≤ events.keys.length := by
      refine Duration.length_le_of_consecutive fun n hn hnc => ?_
      have hnmax : n ≤ Duration.MAX_NANOS := le_trans (by omega) cur.le_MAX
      by_cases hncur : n = cur.as_nanos
      · refine ⟨cur, ?_, hncur.symm⟩
        rw [← SortedMap.contains_key_iff]
        exact hheld
      · exact ⟨⟨n, hnmax⟩, hbelow _ (by rw [Duration.le_iff]; exact hn)
          (by rw [Duration.lt_iff]; dsimp only; omega), rfl⟩
    rw [Duration.le_iff] at hle
    have hfit : cur.as_nanos + (Duration.from_nanos 1#64).as_nanos ≤ Duration.MAX_NANOS := by
      simp only [Duration.as_nanos_from_nanos]
      have hone : (1#64 : BitVec 64).toNat = 1 := rfl
      omega
    have := Duration.checked_add_isSome hfit
    rw [hnone] at this
    cases this
  | case3 cur hfree =>
    intro _ _
    rfl

/-- Whenever `add` returns, it stored the waker under a key the map did not hold, from the
deadline asked for up to that deadline plus the number of waiting wakers, and changed no other
entry. -/
theorem add_eq_some {t t' : Timer W} {deadline : Duration} {waker : W}
    (h : t.add deadline waker = some t') :
    ∃ d, deadline ≤ d ∧ d.as_nanos ≤ deadline.as_nanos + t.events.entries.length ∧
      d ∉ t.events.keys ∧ List.Perm t'.events.entries ((d, waker) :: t.events.entries) := by
  unfold add at h
  obtain ⟨d, hd, rfl⟩ := Option.map_eq_some_iff.mp h
  obtain ⟨hle, hfree, hheld⟩ := probe_spec t.events hd
  -- the keys passed over are held, so there are no more of them than waiting wakers
  have hcount : d.as_nanos - deadline.as_nanos ≤ t.events.keys.length := by
    refine Duration.length_le_of_consecutive fun n hn hnd => ?_
    have hnmax : n ≤ Duration.MAX_NANOS := le_trans (Nat.le_of_lt hnd) d.le_MAX
    exact ⟨⟨n, hnmax⟩, hheld _ (by rw [Duration.le_iff]; exact hn)
      (by rw [Duration.lt_iff]; exact hnd), rfl⟩
  have hlen : t.events.keys.length = t.events.entries.length := List.length_map _
  rw [Duration.le_iff] at hle
  exact ⟨d, by rw [Duration.le_iff]; exact hle, by omega, hfree, SortedMap.insert_perm waker hfree⟩

/-- **What `add` does.** With room below `Duration::MAX` for every waiting waker, `add`
returns, storing the waker as `add_eq_some` says. -/
theorem add_spec (t : Timer W) (deadline : Duration) (waker : W)
    (hroom : deadline.as_nanos + t.events.entries.length ≤ Duration.MAX_NANOS) :
    ∃ d t', t.add deadline waker = some t' ∧ deadline ≤ d ∧
      d.as_nanos ≤ deadline.as_nanos + t.events.entries.length ∧ d ∉ t.events.keys ∧
      List.Perm t'.events.entries ((d, waker) :: t.events.entries) := by
  have hlen : t.events.keys.length = t.events.entries.length := List.length_map _
  obtain ⟨d, hd⟩ := Option.isSome_iff_exists.mp
    (probe_isSome t.events (by rw [hlen]; exact hroom) deadline le_rfl
      fun x hx hxd => absurd hxd (not_lt.mpr hx))
  have hadd : t.add deadline waker = some ⟨t.events.insert d waker⟩ := by
    simp only [add, hd, Option.map_some]
  obtain ⟨d', hle, hbound, hfree, hperm⟩ := add_eq_some hadd
  exact ⟨d', _, hadd, hle, hbound, hfree, hperm⟩

/-- Two wakers added at `Duration::MAX`: the second `add` finds the key taken, and its
`deadline += Duration::from_nanos(1)` panics. -/
theorem add_at_max_panics :
    ∃ t : Timer Nat, (new : Timer Nat).add Duration.MAX 0 = some t ∧ t.add Duration.MAX 1 = none := by
  have hfree : probe (new : Timer Nat).events Duration.MAX = some Duration.MAX :=
    probe_of_free (by decide)
  refine ⟨⟨(new : Timer Nat).events.insert Duration.MAX 0⟩,
    by simp only [add, hfree, Option.map_some], ?_⟩
  have hpast : Duration.MAX.checked_add (Duration.from_nanos 1#64) = none := by
    unfold Duration.checked_add
    rw [dif_neg (by decide)]
  simp only [add, Option.map_eq_none_iff]
  rw [probe, if_pos (by decide)]
  split
  · next next hnext =>
    rw [hpast] at hnext
    cases hnext
  · rfl

/-! ## `expire` -/

/-- **What `expire` does.** `expire(now)` wakes the wakers of exactly the keys up to `now`, in
increasing key order, and keeps exactly the entries of keys past `now`. -/
theorem expire_spec (t : Timer W) (now : Duration) :
    (t.expire now).2 = (t.events.entries.filter fun e => e.1 ≤ now).map Prod.snd ∧
      (t.expire now).1.events.entries = t.events.entries.filter fun e => now < e.1 := by
  simp only [expire, expire_loop_eq, SortedMap.takeWhile_le_eq_filter now t.events.sorted,
    SortedMap.dropWhile_le_eq_filter now t.events.sorted, and_self]

/-! ## Runs of adds and expiries

A run is recorded by what it shows: the deadline and waker of every `add` that returned, and
the time and waker of every wake. The timer does not keep the deadline an entry was asked for,
so the account of a run is existential: each add is matched, once, with a wake at a time not
below its deadline or with a waiting entry under a key not below it. -/

/-- An add matched with what became of it: the deadline it asked for, and the key its waker
waits under or the time it was woken at. -/
structure Ticket (W : Type) where
  requested : Duration
  time : Duration
  waker : W

/-- The add a ticket answers. -/
def Ticket.request (p : Ticket W) : Duration × W := (p.requested, p.waker)

/-- The entry, or the wake, a ticket stands for. -/
def Ticket.event (p : Ticket W) : Duration × W := (p.time, p.waker)

/-- A timer with the adds and wakes of the run that led to it. -/
structure History (W : Type) where
  timer : Timer W
  added : List (Duration × W)
  woken : List (Duration × W)

/-- A call on the timer. -/
inductive TimerOp (W : Type) where
  | add (deadline : Duration) (waker : W)
  | expire (now : Duration)

namespace History

/-- The empty timer, before any call. -/
def init : History W := ⟨new, [], []⟩

/-- One call; `none` when `add` panics. -/
def step (h : History W) : TimerOp W → Option (History W)
  | .add deadline waker =>
    (h.timer.add deadline waker).map fun t => ⟨t, (deadline, waker) :: h.added, h.woken⟩
  | .expire now =>
    some ⟨(h.timer.expire now).1, h.added, h.woken ++ (h.timer.expire now).2.map fun w => (now, w)⟩

/-- The histories of the runs from the empty timer. -/
def Reachable : History W → Prop := Transition.Reachable (· = init) (Transition.Next step)

/-- Every add of the run is answered once: by a wake at a time not below the deadline it
asked for, or by a waiting entry under a key not below it; and nothing else was woken or waits. -/
def Accounted (h : History W) : Prop :=
  ∃ waiting served : List (Ticket W),
    List.Perm (waiting.map Ticket.event) h.timer.events.entries ∧
    List.Perm (served.map Ticket.event) h.woken ∧
    List.Perm h.added (served.map Ticket.request ++ waiting.map Ticket.request) ∧
    (∀ p ∈ waiting, p.requested ≤ p.time) ∧ ∀ p ∈ served, p.requested ≤ p.time

theorem accounted_init : (init : History W).Accounted :=
  ⟨[], [], List.Perm.refl _, List.Perm.refl _, List.Perm.refl _, by simp, by simp⟩

/-- Tickets up to `now`, then tickets past it, are all the tickets. -/
theorem perm_filter_time (ps : List (Ticket W)) (now : Duration) :
    List.Perm ps ((ps.filter fun p => p.time ≤ now) ++ ps.filter fun p => now < p.time) := by
  have hpast : (ps.filter fun p => now < p.time) = ps.filter fun p => !decide (p.time ≤ now) := by
    refine List.filter_congr fun p _ => ?_
    simp only [← decide_not, not_le]
  rw [hpast]
  exact (List.filter_append_perm _ _).symm

/-- The entries a ticket list stands for, up to a bound, are those of its tickets up to it. -/
theorem filter_map_event (ps : List (Ticket W)) (q : Duration → Bool) :
    (ps.map Ticket.event).filter (fun e => q e.1) = (ps.filter fun p => q p.time).map Ticket.event := by
  rw [List.filter_map]
  rfl

theorem Accounted.add {h : History W} {deadline : Duration} {waker : W} {t : Timer W}
    (hacc : h.Accounted) (hadd : h.timer.add deadline waker = some t) :
    (History.mk t ((deadline, waker) :: h.added) h.woken).Accounted := by
  obtain ⟨waiting, served, hwait, hserved, hadded, hreq, hreq'⟩ := hacc
  obtain ⟨d, hle, -, -, hperm⟩ := add_eq_some hadd
  -- the new waker waits under `d`, answering the new add
  refine ⟨⟨deadline, d, waker⟩ :: waiting, served, ?_, hserved, ?_, ?_, hreq'⟩
  · exact (hwait.cons _).trans hperm.symm
  · exact (hadded.cons _).trans List.perm_middle.symm
  · intro p hp
    rcases List.mem_cons.mp hp with rfl | hp
    · exact hle
    · exact hreq p hp

theorem Accounted.expire {h : History W} (now : Duration) (hacc : h.Accounted) :
    (History.mk (h.timer.expire now).1 h.added
      (h.woken ++ (h.timer.expire now).2.map fun w => (now, w))).Accounted := by
  obtain ⟨waiting, served, hwait, hserved, hadded, hreq, hreq'⟩ := hacc
  obtain ⟨hwoken, hleft⟩ := expire_spec h.timer now
  -- the tickets up to `now` are served at `now`; the others keep waiting
  let due := waiting.filter fun p => p.time ≤ now
  let late := waiting.filter fun p => now < p.time
  have hdue : List.Perm (due.map Ticket.event)
      (h.timer.events.entries.filter fun e => e.1 ≤ now) := by
    rw [← filter_map_event waiting fun x => decide (x ≤ now)]
    exact hwait.filter _
  have hlate : List.Perm (late.map Ticket.event)
      (h.timer.events.entries.filter fun e => now < e.1) := by
    rw [← filter_map_event waiting fun x => decide (now < x)]
    exact hwait.filter _
  refine ⟨late, served ++ due.map fun p => ⟨p.requested, now, p.waker⟩, ?_, ?_, ?_, ?_, ?_⟩
  · rw [hleft]
    exact hlate
  · rw [List.map_append, hwoken, List.map_map, List.map_map]
    refine hserved.append ?_
    have := (hdue.map fun e => (now, e.2))
    rw [List.map_map] at this
    exact this
  · -- a served ticket answers the add its waiting ticket answered
    have hdue_req : (due.map fun p => (⟨p.requested, now, p.waker⟩ : Ticket W)).map
        Ticket.request = due.map Ticket.request := by
      rw [List.map_map]
      rfl
    rw [List.map_append, List.append_assoc, hdue_req, ← List.map_append]
    exact hadded.trans (List.Perm.append_left _ ((perm_filter_time waiting now).map _))
  · intro p hp
    exact hreq p (List.mem_of_mem_filter hp)
  · intro p hp
    rcases List.mem_append.mp hp with hp | hp
    · exact hreq' p hp
    · obtain ⟨p', hp', rfl⟩ := List.mem_map.mp hp
      have hdue' := List.mem_filter.mp hp'
      exact le_trans (hreq p' hdue'.1) (of_decide_eq_true hdue'.2)

theorem Accounted.step {h h' : History W} {op : TimerOp W} (hacc : h.Accounted)
    (hstep : h.step op = some h') : h'.Accounted := by
  cases op with
  | add deadline waker =>
    obtain ⟨t, hadd, rfl⟩ := Option.map_eq_some_iff.mp hstep
    exact hacc.add hadd
  | expire now =>
    cases hstep
    exact hacc.expire now

/-- **The run invariant.** Every history of a run from the empty timer is accounted. -/
theorem Reachable.accounted {h : History W} (hr : h.Reachable) : h.Accounted :=
  Transition.Reachable.inv (fun _ hs => hs ▸ accounted_init)
    (fun _ _ hacc ⟨_, hstep⟩ => hacc.step hstep) hr

end History

/-- **The timer queue.** With room below `Duration::MAX` for the waiting wakers, `add` stores
its waker under a free key from its deadline up to that deadline plus the number of waiting
wakers, leaving every other entry; `expire(now)` wakes the wakers of exactly the keys up to
`now`, in increasing key order, and keeps exactly the others; and along every run from the
empty timer, every add is answered once, by a wake at a time not below its deadline or by a
waiting entry. -/
theorem queue_spec :
    (∀ (t : Timer W) (deadline : Duration) (waker : W),
      deadline.as_nanos + t.events.entries.length ≤ Duration.MAX_NANOS →
      ∃ d t', t.add deadline waker = some t' ∧ deadline ≤ d ∧
        d.as_nanos ≤ deadline.as_nanos + t.events.entries.length ∧ d ∉ t.events.keys ∧
        List.Perm t'.events.entries ((d, waker) :: t.events.entries)) ∧
    (∀ (t : Timer W) (now : Duration),
      (t.expire now).2 = (t.events.entries.filter fun e => e.1 ≤ now).map Prod.snd ∧
      (t.events.entries.filter fun e => e.1 ≤ now).Pairwise (fun a b => a.1 < b.1) ∧
      (t.expire now).1.events.entries = t.events.entries.filter fun e => now < e.1) ∧
    ∀ h : History W, h.Reachable → h.Accounted := by
  refine ⟨fun t deadline waker hroom => add_spec t deadline waker hroom, fun t now => ?_,
    fun h hr => History.Reachable.accounted hr⟩
  obtain ⟨hwoken, hleft⟩ := expire_spec t now
  exact ⟨hwoken, t.events.sorted.filter _, hleft⟩

/-- Three adds whose deadlines collide, at 5, 5 and 6 ns, then an expire at 6 ns. The second
add finds 5 ns taken and waits under 6 ns, the third finds 6 ns taken and waits under 7 ns;
the expire wakes the first two wakers, in key order, and keeps the third; and the whole run
is accounted for. -/
theorem queue_spec_colliding_adds :
    ∃ h₁ h₃ h₄ : History Nat, h₁.Reachable ∧
      Transition.run History.step h₁
        [.add (.from_nanos 5#64) 1, .add (.from_nanos 6#64) 2] = some h₃ ∧
      History.step h₃ (.expire (.from_nanos 6#64)) = some h₄ ∧
      h₃.timer.events.entries.map (fun e => (e.1.as_nanos, e.2)) = [(5, 0), (6, 1), (7, 2)] ∧
      ((Duration.from_nanos 5#64).as_nanos + h₁.timer.events.entries.length ≤
          Duration.MAX_NANOS ∧
        ∃ d t', h₁.timer.add (.from_nanos 5#64) 1 = some t' ∧ Duration.from_nanos 5#64 ≤ d ∧
          d.as_nanos ≤ (Duration.from_nanos 5#64).as_nanos + h₁.timer.events.entries.length ∧
          d ∉ h₁.timer.events.keys ∧
          List.Perm t'.events.entries ((d, 1) :: h₁.timer.events.entries)) ∧
      ((h₃.timer.expire (.from_nanos 6#64)).2 =
          (h₃.timer.events.entries.filter fun e => e.1 ≤ .from_nanos 6#64).map Prod.snd ∧
        (h₃.timer.events.entries.filter fun e => e.1 ≤ .from_nanos 6#64).Pairwise
          (fun a b => a.1 < b.1) ∧
        (h₃.timer.expire (.from_nanos 6#64)).1.events.entries =
          h₃.timer.events.entries.filter fun e => .from_nanos 6#64 < e.1) ∧
      h₄.Reachable ∧ h₄.Accounted := by
  let h₁ : History Nat :=
    ⟨⟨SortedMap.empty.insert (.from_nanos 5#64) 0⟩, [(.from_nanos 5#64, 0)], []⟩
  let h₃ : History Nat :=
    ⟨⟨(h₁.timer.events.insert (.from_nanos 6#64) 1).insert (.from_nanos 7#64) 2⟩,
      [(.from_nanos 6#64, 2), (.from_nanos 5#64, 1), (.from_nanos 5#64, 0)], []⟩
  let h₄ := (History.step h₃ (.expire (.from_nanos 6#64))).getD h₃
  -- the first add finds 5 ns free; the second finds it taken and takes 6 ns, the third
  -- finds 6 ns taken and takes 7 ns
  have hp₁ : probe (SortedMap.empty : SortedMap Duration Nat) (.from_nanos 5#64) =
      some (.from_nanos 5#64) := probe_of_free (by decide)
  have hp₂ : probe h₁.timer.events (.from_nanos 5#64) = some (.from_nanos 6#64) :=
    (probe_of_held (by decide) (by decide)).trans (probe_of_free (by decide))
  have hp₃ : probe (h₁.timer.events.insert (.from_nanos 6#64) 1) (.from_nanos 6#64) =
      some (.from_nanos 7#64) :=
    (probe_of_held (by decide) (by decide)).trans (probe_of_free (by decide))
  have hstep₁ : History.step History.init (.add (.from_nanos 5#64) 0) = some h₁ := by
    simp only [History.step, History.init, add, new, hp₁, Option.map_some]
    rfl
  have hrun : Transition.run History.step h₁
      [.add (.from_nanos 5#64) 1, .add (.from_nanos 6#64) 2] = some h₃ := by
    simp only [Transition.run_cons, Transition.run_nil, History.step, add, hp₂, hp₃,
      Option.map_some, Option.bind_some]
    rfl
  have hr₁ : h₁.Reachable := .step (.init rfl) ⟨_, hstep₁⟩
  have hr₄ : h₄.Reachable := .step (hr₁.run hrun) ⟨.expire (.from_nanos 6#64), rfl⟩
  obtain ⟨hadd, hexpire, hacc⟩ := queue_spec (W := Nat)
  have hroom : (Duration.from_nanos 5#64).as_nanos + h₁.timer.events.entries.length ≤
      Duration.MAX_NANOS := by decide
  exact ⟨h₁, h₃, h₄, hr₁, hrun, rfl, by decide, ⟨hroom, hadd _ _ _ hroom⟩, hexpire _ _, hr₄,
    hacc _ hr₄⟩

end Timer

end Queen.Task
