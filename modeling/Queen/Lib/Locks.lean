/-
Spin locks held by processes, and deadlock. A process inside a critical section has a list
of lock steps left: take a lock, alone or shared with other readers (an `RwLock`'s `read`),
or let one go. It spins on a lock another hold conflicts with, and a set of processes each
spinning on a lock another of the set holds is deadlocked.

A deadlock lasts: no member can take its next step, and only a holder lets a lock go, so
whatever the other processes do, each member keeps waiting on the same holder
(`Deadlocked.step`, `Deadlocked.begin`).

Nothing here names the kernel. The executor's locks instantiate it.
-/
import Mathlib

set_option autoImplicit false

namespace Queen

/-- How a lock is taken: alone, or beside other readers. -/
inductive Mode
  | exclusive
  | shared
deriving DecidableEq, Repr

/-- Two holds of one lock can stand together only when both are shared. -/
def Mode.compatible : Mode → Mode → Bool
  | .shared, .shared => true
  | _, _ => false

/-- One step of a critical section on locks of type `L`. -/
inductive LockOp (L : Type)
  | acquire (l : L) (mode : Mode)
  | release (l : L)
deriving DecidableEq, Repr

/-- Who holds which lock, how, and what each process has left of its critical section. -/
structure LockState (P L : Type) where
  held : List (P × L × Mode)
  prog : P → List (LockOp L)

namespace LockState

variable {P L : Type} [DecidableEq P] [DecidableEq L]

/-- No lock held, no process inside a critical section. -/
def init : LockState P L := ⟨[], fun _ => []⟩

/-- A hold that a request for `l` in `mode` has to wait behind. -/
def conflicts (l : L) (mode : Mode) (h : P × L × Mode) : Bool :=
  h.2.1 = l && !mode.compatible h.2.2

/-- Process `p` enters a critical section whose lock steps are `ops`. -/
def begin (s : LockState P L) (p : P) (ops : List (LockOp L)) : LockState P L :=
  { s with prog := Function.update s.prog p ops }

/-- Process `p` takes its next lock step; `none` while it spins on a lock held against it,
or when it has no step left. -/
def step (s : LockState P L) (p : P) : Option (LockState P L) :=
  match s.prog p with
  | [] => none
  | .acquire l mode :: rest =>
    if s.held.any (conflicts l mode) then none
    else some ⟨(p, l, mode) :: s.held, Function.update s.prog p rest⟩
  | .release l :: rest =>
    some ⟨s.held.filter (fun h => !(h.1 = p && h.2.1 = l)), Function.update s.prog p rest⟩

/-- `p` spins on a lock that `q` holds against it. -/
def waitsOn (s : LockState P L) (p q : P) : Bool :=
  match s.prog p with
  | .acquire l mode :: _ => s.held.any fun h => h.1 = q && conflicts l mode h
  | _ => false

/-- A nonempty set of processes each spinning on a lock another of the set holds. -/
def Deadlocked (s : LockState P L) (S : List P) : Prop :=
  S ≠ [] ∧ ∀ p ∈ S, ∃ q ∈ S, s.waitsOn p q = true

instance (s : LockState P L) (S : List P) : Decidable (s.Deadlocked S) :=
  inferInstanceAs (Decidable (S ≠ [] ∧ ∀ p ∈ S, ∃ q ∈ S, s.waitsOn p q = true))

/-! ## What a step leaves -/

theorem prog_ne_nil_of_waitsOn {s : LockState P L} {p q : P} (h : s.waitsOn p q = true) :
    s.prog p ≠ [] := by
  intro hnil
  simp [waitsOn, hnil] at h

/-- A spinning process cannot step. -/
theorem step_eq_none_of_waitsOn {s : LockState P L} {p q : P} (h : s.waitsOn p q = true) :
    s.step p = none := by
  unfold waitsOn at h
  unfold step
  split at h
  · next l mode rest hprog =>
    have hconf : s.held.any (conflicts l mode) = true := by
      obtain ⟨x, hx, hxq⟩ := List.any_eq_true.mp h
      exact List.any_eq_true.mpr ⟨x, hx, (Bool.and_eq_true _ _ ▸ hxq).2⟩
    simp only [hprog, hconf, if_true]
  · cases h

/-- What a lock step of `r` can do: take its next lock step off its critical section, leaving
every other process's, and add a hold or drop one of its own. -/
theorem step_eq_some {s s' : LockState P L} {r : P} (hst : s.step r = some s') :
    ∃ rest, s'.prog = Function.update s.prog r rest ∧ ∀ h ∈ s.held, h.1 ≠ r → h ∈ s'.held := by
  unfold step at hst
  split at hst
  · cases hst
  · next l mode rest _ =>
    split at hst
    · cases hst
    · cases hst
      exact ⟨rest, rfl, fun h hh _ => List.mem_cons_of_mem _ hh⟩
  · next l rest _ =>
    cases hst
    exact ⟨rest, rfl, fun h hh hr => List.mem_filter.mpr ⟨hh, by simp [hr]⟩⟩

/-- A step of `r` leaves every other process's critical section. -/
theorem prog_step {s s' : LockState P L} {p r : P} (hst : s.step r = some s') (hpr : p ≠ r) :
    s'.prog p = s.prog p := by
  obtain ⟨rest, hprog, -⟩ := step_eq_some hst
  rw [hprog, Function.update_of_ne hpr]

/-- A wait on a process that cannot step outlasts any step. -/
theorem waitsOn_step {s s' : LockState P L} {p q r : P} (hw : s.waitsOn p q = true)
    (hq : s.step q = none) (hst : s.step r = some s') : s'.waitsOn p q = true := by
  have hpr : p ≠ r := by
    rintro rfl
    rw [step_eq_none_of_waitsOn hw] at hst
    cases hst
  have hqr : q ≠ r := by
    rintro rfl
    rw [hq] at hst
    cases hst
  unfold waitsOn at hw ⊢
  rw [prog_step hst hpr]
  split at hw
  · obtain ⟨h, hh, hhq⟩ := List.any_eq_true.mp hw
    have hq' : h.1 = q := of_decide_eq_true (Bool.and_eq_true _ _ ▸ hhq).1
    obtain ⟨-, -, hkept⟩ := step_eq_some hst
    exact List.any_eq_true.mpr ⟨h, hkept h hh (hq' ▸ hqr), hhq⟩
  · cases hw

/-! ## A deadlock lasts -/

theorem Deadlocked.step {s s' : LockState P L} {S : List P} {r : P} (hd : s.Deadlocked S)
    (hst : s.step r = some s') : s'.Deadlocked S := by
  refine ⟨hd.1, fun p hp => ?_⟩
  obtain ⟨q, hqS, hw⟩ := hd.2 p hp
  -- `q` is in the set, so it spins too and cannot step
  obtain ⟨q', -, hw'⟩ := hd.2 q hqS
  exact ⟨q, hqS, waitsOn_step hw (step_eq_none_of_waitsOn hw') hst⟩

theorem Deadlocked.begin {s : LockState P L} {S : List P} {p : P} (ops : List (LockOp L))
    (hd : s.Deadlocked S) (hp : s.prog p = []) : (s.begin p ops).Deadlocked S := by
  have hpS : ∀ x ∈ S, x ≠ p := by
    rintro x hx rfl
    obtain ⟨q, -, hw⟩ := hd.2 x hx
    exact prog_ne_nil_of_waitsOn hw hp
  refine ⟨hd.1, fun x hx => ?_⟩
  obtain ⟨q, hqS, hw⟩ := hd.2 x hx
  refine ⟨q, hqS, ?_⟩
  unfold waitsOn at hw ⊢
  simp only [LockState.begin, Function.update_of_ne (hpS x hx)]
  exact hw

/-- A member of a deadlocked set can take no step. -/
theorem Deadlocked.step_eq_none {s : LockState P L} {S : List P} {p : P} (hd : s.Deadlocked S)
    (hp : p ∈ S) : s.step p = none := by
  obtain ⟨q, -, hw⟩ := hd.2 p hp
  exact step_eq_none_of_waitsOn hw

end LockState

end Queen
