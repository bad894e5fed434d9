/-
The machine context of a signal frame, `kernel/src/arch/aarch64/signal.rs`:
`MachineContext::from_tf`, which `handle_signal` (`kernel/src/signal/mod.rs`) stores in the
frame's `ucontext`, and `MachineContext::fill_tf`, which writes a saved context back into a
trap frame.

Both copy the thirty-one general registers, the stack pointer, the return address and the
saved program status, one field at a time. Read as functions of the register they name
(`UserContext.reg`, `MachineContext.reg`), `fill_tf` writes every register from the field of
the same name (`reg_fill_tf`), and `from_tf` reads every field from the register of the same
name but one: the field `x11` is read from `x13` (`reg_from_tf`). So a context saved by
`from_tf` describes the trap frame, and writing it back restores the frame, exactly when the
frame's `x11` and `x13` agree (`from_tf_round_trip_iff`).

`aarch64::trap::UserContext` lives outside the tree; its fields here are those the two
functions read and write.
-/
import Queen.Lib.Bytes

set_option autoImplicit false

namespace Queen.Arch

/-- The general registers `x0` to `x30` of `aarch64::trap::UserContext`. -/
structure GeneralRegs where
  x0 : Usize
  x1 : Usize
  x2 : Usize
  x3 : Usize
  x4 : Usize
  x5 : Usize
  x6 : Usize
  x7 : Usize
  x8 : Usize
  x9 : Usize
  x10 : Usize
  x11 : Usize
  x12 : Usize
  x13 : Usize
  x14 : Usize
  x15 : Usize
  x16 : Usize
  x17 : Usize
  x18 : Usize
  x19 : Usize
  x20 : Usize
  x21 : Usize
  x22 : Usize
  x23 : Usize
  x24 : Usize
  x25 : Usize
  x26 : Usize
  x27 : Usize
  x28 : Usize
  x29 : Usize
  x30 : Usize
deriving DecidableEq, Repr, Inhabited

/-- `aarch64::trap::UserContext`: the general registers, `sp`, and the exception return
address and saved program status the trap entry stored. -/
structure UserContext where
  general : GeneralRegs
  sp : Usize
  elr : Usize
  spsr : Usize
deriving DecidableEq, Repr, Inhabited

/-- `struct MachineContext`, the `mcontext` of a signal frame's `ucontext`. -/
structure MachineContext where
  fault_address : Usize
  x0 : Usize
  x1 : Usize
  x2 : Usize
  x3 : Usize
  x4 : Usize
  x5 : Usize
  x6 : Usize
  x7 : Usize
  x8 : Usize
  x9 : Usize
  x10 : Usize
  x11 : Usize
  x12 : Usize
  x13 : Usize
  x14 : Usize
  x15 : Usize
  x16 : Usize
  x17 : Usize
  x18 : Usize
  x19 : Usize
  x20 : Usize
  x21 : Usize
  x22 : Usize
  x23 : Usize
  x24 : Usize
  x25 : Usize
  x26 : Usize
  x27 : Usize
  x28 : Usize
  x29 : Usize
  x30 : Usize
  sp : Usize
  pc : Usize
  pstate : Usize
deriving DecidableEq, Repr

namespace MachineContext

/-- `MachineContext::from_tf(tf)`. -/
def from_tf (tf : UserContext) : MachineContext where
  fault_address := 0
  x0 := tf.general.x0
  x1 := tf.general.x1
  x2 := tf.general.x2
  x3 := tf.general.x3
  x4 := tf.general.x4
  x5 := tf.general.x5
  x6 := tf.general.x6
  x7 := tf.general.x7
  x8 := tf.general.x8
  x9 := tf.general.x9
  x10 := tf.general.x10
  x11 := tf.general.x13
  x12 := tf.general.x12
  x13 := tf.general.x13
  x14 := tf.general.x14
  x15 := tf.general.x15
  x16 := tf.general.x16
  x17 := tf.general.x17
  x18 := tf.general.x18
  x19 := tf.general.x19
  x20 := tf.general.x20
  x21 := tf.general.x21
  x22 := tf.general.x22
  x23 := tf.general.x23
  x24 := tf.general.x24
  x25 := tf.general.x25
  x26 := tf.general.x26
  x27 := tf.general.x27
  x28 := tf.general.x28
  x29 := tf.general.x29
  x30 := tf.general.x30
  sp := tf.sp
  pc := tf.elr
  pstate := tf.spsr

/-- `MachineContext::fill_tf(&self, tf)`: each register of `tf` written in turn. -/
def fill_tf (self : MachineContext) (tf : UserContext) : UserContext :=
  { tf with
    general := { tf.general with
      x0 := self.x0
      x1 := self.x1
      x2 := self.x2
      x3 := self.x3
      x4 := self.x4
      x5 := self.x5
      x6 := self.x6
      x7 := self.x7
      x8 := self.x8
      x9 := self.x9
      x10 := self.x10
      x11 := self.x11
      x12 := self.x12
      x13 := self.x13
      x14 := self.x14
      x15 := self.x15
      x16 := self.x16
      x17 := self.x17
      x18 := self.x18
      x19 := self.x19
      x20 := self.x20
      x21 := self.x21
      x22 := self.x22
      x23 := self.x23
      x24 := self.x24
      x25 := self.x25
      x26 := self.x26
      x27 := self.x27
      x28 := self.x28
      x29 := self.x29
      x30 := self.x30
    }
    sp := self.sp
    elr := self.pc
    spsr := self.pstate }

end MachineContext

/-! ## The registers a context names -/

/-- The registers a trap frame holds and a machine context saves. -/
inductive Reg
  | x0
  | x1
  | x2
  | x3
  | x4
  | x5
  | x6
  | x7
  | x8
  | x9
  | x10
  | x11
  | x12
  | x13
  | x14
  | x15
  | x16
  | x17
  | x18
  | x19
  | x20
  | x21
  | x22
  | x23
  | x24
  | x25
  | x26
  | x27
  | x28
  | x29
  | x30
  | sp
  | elr
  | spsr
deriving DecidableEq, Repr

/-- Register `r` of a trap frame. -/
def UserContext.reg (tf : UserContext) : Reg → Usize
  | .x0 => tf.general.x0
  | .x1 => tf.general.x1
  | .x2 => tf.general.x2
  | .x3 => tf.general.x3
  | .x4 => tf.general.x4
  | .x5 => tf.general.x5
  | .x6 => tf.general.x6
  | .x7 => tf.general.x7
  | .x8 => tf.general.x8
  | .x9 => tf.general.x9
  | .x10 => tf.general.x10
  | .x11 => tf.general.x11
  | .x12 => tf.general.x12
  | .x13 => tf.general.x13
  | .x14 => tf.general.x14
  | .x15 => tf.general.x15
  | .x16 => tf.general.x16
  | .x17 => tf.general.x17
  | .x18 => tf.general.x18
  | .x19 => tf.general.x19
  | .x20 => tf.general.x20
  | .x21 => tf.general.x21
  | .x22 => tf.general.x22
  | .x23 => tf.general.x23
  | .x24 => tf.general.x24
  | .x25 => tf.general.x25
  | .x26 => tf.general.x26
  | .x27 => tf.general.x27
  | .x28 => tf.general.x28
  | .x29 => tf.general.x29
  | .x30 => tf.general.x30
  | .sp => tf.sp
  | .elr => tf.elr
  | .spsr => tf.spsr

/-- The field of a machine context named after register `r`: `x0`–`x30` and `sp` by name, the
return address in `pc`, the program status in `pstate`. -/
def MachineContext.reg (self : MachineContext) : Reg → Usize
  | .x0 => self.x0
  | .x1 => self.x1
  | .x2 => self.x2
  | .x3 => self.x3
  | .x4 => self.x4
  | .x5 => self.x5
  | .x6 => self.x6
  | .x7 => self.x7
  | .x8 => self.x8
  | .x9 => self.x9
  | .x10 => self.x10
  | .x11 => self.x11
  | .x12 => self.x12
  | .x13 => self.x13
  | .x14 => self.x14
  | .x15 => self.x15
  | .x16 => self.x16
  | .x17 => self.x17
  | .x18 => self.x18
  | .x19 => self.x19
  | .x20 => self.x20
  | .x21 => self.x21
  | .x22 => self.x22
  | .x23 => self.x23
  | .x24 => self.x24
  | .x25 => self.x25
  | .x26 => self.x26
  | .x27 => self.x27
  | .x28 => self.x28
  | .x29 => self.x29
  | .x30 => self.x30
  | .sp => self.sp
  | .elr => self.pc
  | .spsr => self.pstate

namespace MachineContext

/-- `fill_tf` writes every register from the field of the same name. -/
@[simp] theorem reg_fill_tf (self : MachineContext) (tf : UserContext) (r : Reg) :
    (self.fill_tf tf).reg r = self.reg r := by
  cases r <;> rfl

/-- `from_tf` reads every field from the register of the same name, except the field `x11`,
which it reads from `x13`. -/
@[simp] theorem reg_from_tf (tf : UserContext) (r : Reg) :
    (from_tf tf).reg r = tf.reg (if r = .x11 then .x13 else r) := by
  cases r <;> rfl

/-- Saving a trap frame and writing it back into any frame: every register as it was, but
`x11`, which comes back holding `x13`. -/
theorem reg_fill_tf_from_tf (tf tf2 : UserContext) (r : Reg) :
    ((from_tf tf).fill_tf tf2).reg r = tf.reg (if r = .x11 then .x13 else r) := by
  rw [reg_fill_tf, reg_from_tf]

/-- A register map that moves only `x11`, to `x13`, keeps every register of `tf` exactly when
`tf` holds the same value in both. -/
theorem reg_x11_to_x13_iff (tf : UserContext) :
    (∀ r, tf.reg (if r = .x11 then .x13 else r) = tf.reg r) ↔ tf.general.x11 = tf.general.x13 := by
  constructor
  · intro h
    exact (h .x11).symm
  · intro h r
    by_cases hr : r = .x11
    · -- the one moved register
      rw [if_pos hr, hr]
      exact h.symm
    · rw [if_neg hr]

/-- **The saved context and the round trip.** For every trap frame `tf` and every frame
`tf2`, each field of `from_tf tf` holds the register of its name, and `fill_tf` of it into
`tf2` gives back every register of `tf`, exactly when `tf`'s `x11` equals its `x13`. -/
theorem from_tf_round_trip_iff (tf tf2 : UserContext) :
    ((∀ r, (from_tf tf).reg r = tf.reg r) ↔ tf.general.x11 = tf.general.x13) ∧
      ((∀ r, ((from_tf tf).fill_tf tf2).reg r = tf.reg r) ↔ tf.general.x11 = tf.general.x13) := by
  constructor
  · simp only [reg_from_tf]
    exact reg_x11_to_x13_iff tf
  · simp only [reg_fill_tf_from_tf]
    exact reg_x11_to_x13_iff tf

/-- A frame with `x13 = 1` and every other register `0`: the saved context holds `1` in `x11`,
and writing it back sets `x11` to `1`. -/
theorem from_tf_round_trip_loses_x11 :
    let tf : UserContext := ⟨{ (default : GeneralRegs) with x13 := 1 }, 0, 0, 0⟩
    (from_tf tf).x11 = 1 ∧ ((from_tf tf).fill_tf tf).general.x11 = 1 ∧ tf.general.x11 = 0 ∧
      ¬ ∀ r, ((from_tf tf).fill_tf tf).reg r = tf.reg r :=
  ⟨rfl, rfl, rfl, fun h => absurd ((from_tf_round_trip_iff _ _).2.mp h) (by decide)⟩

end MachineContext

end Queen.Arch
