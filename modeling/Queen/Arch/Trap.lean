/-
How a user thread's loop dispatches a trap: `kernel/src/arch/aarch64/interrupt/syndrome.rs`,
`kernel/src/arch/aarch64/interrupt/consts.rs`, and the `match trap_num` of the loop of
`Thread::spawn` (`kernel/src/process/thread.rs`).

The loop tries `is_page_fault`, `is_syscall` and `is_irq` in that order and panics on the
rest. `is_page_fault` decodes `ESR_EL1`, cut to `u32`, through `Syndrome::from` and
`Fault::from`, and it takes exactly the data and instruction aborts whose fault status is a
translation, access-flag or permission fault (`dispatch_eq_page_fault_iff`). `is_syscall`
reads `trap_num` alone, so every other synchronous exception from EL0 reaches
`handle_syscall`, whatever its exception class: an undefined instruction, a `BRK`, an
alignment fault, an `SVC` from AArch32 (`dispatch_eq_syscall_iff`).
-/
import Queen.Lib.Bytes

set_option autoImplicit false

namespace Queen.Arch

/-! ## `Fault` and `Syndrome` -/

/-- `enum Fault`: the fault status of an abort. -/
inductive Fault
  | AddressSize
  | Translation
  | AccessFlag
  | Permission
  | Alignment
  | TlbConflict
  | Other (code : BitVec 8)
deriving DecidableEq, Repr

/-- `Fault::from(val)`: the IFSC or DFSC bits, the level bits masked off. -/
def Fault.from (val : BitVec 32) : Fault :=
  match (val &&& 0b111100#32).toNat with
  | 0b000000 => .AddressSize
  | 0b000100 => .Translation
  | 0b001000 => .AccessFlag
  | 0b001100 => .Permission
  | 0b100000 => .Alignment
  | 0b110000 => .TlbConflict
  | _ => .Other ((val &&& 0b111111#32).setWidth 8)

/-- `enum Syndrome`. -/
inductive Syndrome
  | Unknown
  | WfiWfe
  | McrMrc
  | McrrMrrc
  | LdcStc
  | SimdFp
  | Vmrs
  | Mrrc
  | IllegalExecutionState
  | Svc (imm : BitVec 16)
  | Hvc (imm : BitVec 16)
  | Smc (imm : BitVec 16)
  | MsrMrsSystem
  | InstructionAbort (kind : Fault) (level : BitVec 8)
  | PCAlignmentFault
  | DataAbort (kind : Fault) (level : BitVec 8)
  | SpAlignmentFault
  | TrappedFpu
  | SError
  | Breakpoint
  | Step
  | Watchpoint
  | Brk (imm : BitVec 16)
  | Other (ec : BitVec 32)
deriving DecidableEq, Repr

/-- `Syndrome::from(esr)`: the exception class `esr >> 26` selects the variant, the
syndrome `esr & 0xFFFFFF` its fields. -/
def Syndrome.from (esr : BitVec 32) : Syndrome :=
  let ec := esr >>> 26
  let iss := esr &&& 0xFFFFFF#32
  match ec.toNat with
  | 0b000000 => .Unknown
  | 0b000001 => .WfiWfe
  | 0b000011 => .McrMrc
  | 0b000100 => .McrrMrrc
  | 0b000101 => .McrMrc
  | 0b000110 => .LdcStc
  | 0b000111 => .SimdFp
  | 0b001000 => .Vmrs
  | 0b001100 => .Mrrc
  | 0b001110 => .IllegalExecutionState
  | 0b010001 => .Svc ((iss &&& 0xFFFF#32).setWidth 16)
  | 0b010010 => .Hvc ((iss &&& 0xFFFF#32).setWidth 16)
  | 0b010011 => .Smc ((iss &&& 0xFFFF#32).setWidth 16)
  | 0b010101 => .Svc ((iss &&& 0xFFFF#32).setWidth 16)
  | 0b010110 => .Hvc ((iss &&& 0xFFFF#32).setWidth 16)
  | 0b010111 => .Smc ((iss &&& 0xFFFF#32).setWidth 16)
  | 0b011000 => .MsrMrsSystem
  | 0b100000 | 0b100001 => .InstructionAbort (Fault.from iss) ((iss &&& 0b11#32).setWidth 8)
  | 0b100010 => .PCAlignmentFault
  | 0b100100 | 0b100101 => .DataAbort (Fault.from iss) ((iss &&& 0b11#32).setWidth 8)
  | 0b100110 => .SpAlignmentFault
  | 0b101000 => .TrappedFpu
  | 0b101100 => .TrappedFpu
  | 0b101111 => .SError
  | 0b110000 => .Breakpoint
  | 0b110001 => .Breakpoint
  | 0b110010 => .Step
  | 0b110011 => .Step
  | 0b110100 => .Watchpoint
  | 0b110101 => .Watchpoint
  | 0b111100 => .Brk ((iss &&& 0xFFFF#32).setWidth 16)
  | _ => .Other ec

/-! ## The dispatch -/

/-- `is_page_fault(trap)`, with `ESR_EL1` read as `esr_el1`: a synchronous exception from
EL0 (`trap == 0x2`) that is a data or instruction abort of one of three kinds. -/
def is_page_fault (trap : Usize) (esr_el1 : BitVec 64) : Bool :=
  if trap ≠ 0x2 then false
  else
    match Syndrome.from (esr_el1.setWidth 32) with
    | .DataAbort kind _ | .InstructionAbort kind _ =>
      (kind matches .Translation | .AccessFlag | .Permission)
    | _ => false

/-- `Syscall`: a synchronous exception from EL0. -/
def Syscall : Usize := 0x00002#64

/-- `IrqMax`. -/
def IrqMax : Usize := 0x10002#64

/-- `IrqMin`. -/
def IrqMin : Usize := 0x10002#64

/-- `is_syscall(trap)`. -/
def is_syscall (trap : Usize) : Bool := trap == Syscall

/-- `is_irq(trap)`. -/
def is_irq (trap : Usize) : Bool := IrqMin ≤ trap && trap ≤ IrqMax

/-- Where the loop of `Thread::spawn` sends a trap. -/
inductive TrapHandler
  /-- `MemorySet::handle_page_fault` on the faulting address. -/
  | page_fault
  /-- `handle_syscall`. -/
  | syscall
  /-- `handle_pending_irqs`, then a yield. -/
  | irq
  /-- `panic!("unhandled trap ...")`. -/
  | unhandled
deriving DecidableEq, Repr

/-- The `match trap_num` of the loop: the guards in the source's order. -/
def dispatch (trap_num : Usize) (esr_el1 : BitVec 64) : TrapHandler :=
  if is_page_fault trap_num esr_el1 then .page_fault
  else if is_syscall trap_num then .syscall
  else if is_irq trap_num then .irq
  else .unhandled

/-! ## The fields the dispatch reads -/

/-- The exception class of `ESR_EL1`: bits `31:26`. -/
def exception_class (esr_el1 : BitVec 64) : Nat := (esr_el1.setWidth 32 >>> 26).toNat

/-- The fault status of `ESR_EL1` without its level: bits `5:2`, in place. -/
def fault_status (esr_el1 : BitVec 64) : Nat := (esr_el1.setWidth 32 &&& 0b111100#32).toNat

/-- The classes `Syndrome::from` decodes as aborts: instruction and data aborts, from a
lower or the same exception level. -/
def AbortClass (ec : Nat) : Prop := ec = 0b100000 ∨ ec = 0b100001 ∨ ec = 0b100100 ∨ ec = 0b100101

instance : DecidablePred AbortClass := fun _ => inferInstanceAs (Decidable (_ ∨ _ ∨ _ ∨ _))

/-- The fault statuses `is_page_fault` accepts: translation, access flag, permission. -/
def PageFaultStatus (fsc : Nat) : Prop := fsc = 0b000100 ∨ fsc = 0b001000 ∨ fsc = 0b001100

instance : DecidablePred PageFaultStatus := fun _ => inferInstanceAs (Decidable (_ ∨ _ ∨ _))

/-- The fault of an abort, and nothing for the other syndromes. -/
def Syndrome.abort_kind : Syndrome → Option Fault
  | .DataAbort kind _ | .InstructionAbort kind _ => some kind
  | _ => none

/-- `Fault::from` gives one of the three page-fault kinds exactly on their status bits. -/
theorem Fault.from_kind_iff (val : BitVec 32) :
    (Fault.from val matches .Translation | .AccessFlag | .Permission) = true ↔
      PageFaultStatus (val &&& 0b111100#32).toNat := by
  unfold Fault.from PageFaultStatus
  generalize (val &&& 0b111100#32).toNat = n
  by_cases hn : n = 4 ∨ n = 8 ∨ n = 12
  · -- the three page-fault statuses
    rcases hn with rfl | rfl | rfl <;> simp
  · -- any other status gives another kind: the kinds of the three come only from their status
    simp only [hn, iff_false, Bool.not_eq_true]
    split
    case h_4 => rfl
    all_goals
      rename_i heq
      split at heq <;> first | omega | cases heq

/-- `Syndrome::from` decodes an abort exactly on the four abort classes, with the fault
`Fault::from` reads from the syndrome. -/
theorem Syndrome.abort_kind_from (esr : BitVec 32) :
    (Syndrome.from esr).abort_kind =
      if AbortClass (esr >>> 26).toNat then some (Fault.from (esr &&& 0xFFFFFF#32)) else none := by
  unfold Syndrome.from
  dsimp only
  generalize (esr >>> 26).toNat = n
  by_cases hn : AbortClass n
  · -- the four abort classes
    rw [if_pos hn]
    rcases hn with rfl | rfl | rfl | rfl <;> rfl
  · -- every other class decodes to a syndrome with no fault
    rw [if_neg hn]
    split <;> first | rfl | exact (hn (by decide)).elim

/-- Masking with `0xFFFFFF` first keeps the fault status bits. -/
theorem fault_status_iss (esr : BitVec 32) :
    (esr &&& 0xFFFFFF#32 &&& 0b111100#32) = esr &&& 0b111100#32 := by
  rw [BitVec.and_assoc]
  rfl

/-- **What `is_page_fault` takes.** A trap is a page fault exactly when it is a synchronous
exception from EL0 whose class is an abort and whose fault status is a translation,
access-flag or permission fault. -/
theorem is_page_fault_iff (trap : Usize) (esr_el1 : BitVec 64) :
    is_page_fault trap esr_el1 = true ↔
      trap = 0x2 ∧ AbortClass (exception_class esr_el1) ∧ PageFaultStatus (fault_status esr_el1) := by
  by_cases htrap : trap = 0x2
  · have hkind : ∀ s : Syndrome, (match s with
        | .DataAbort kind _ | .InstructionAbort kind _ =>
          (kind matches .Translation | .AccessFlag | .Permission)
        | _ => false) = (s.abort_kind.map fun kind =>
          (kind matches .Translation | .AccessFlag | .Permission)).getD false := by
      intro s
      cases s <;> rfl
    simp only [is_page_fault, htrap, ne_eq, not_true_eq_false, if_false, hkind,
      Syndrome.abort_kind_from, true_and, exception_class, fault_status]
    by_cases hab : AbortClass (esr_el1.setWidth 32 >>> 26).toNat
    · simp only [hab, if_true, Option.map_some, Option.getD_some, true_and]
      rw [Fault.from_kind_iff, fault_status_iss]
    · simp only [hab, if_false, Option.map_none, Option.getD_none, Bool.false_eq_true, false_and]
  · simp only [is_page_fault, ne_eq, htrap, not_false_eq_true, if_true, Bool.false_eq_true,
      false_and]

/-! ## Where each trap goes -/

/-- **Which traps are page faults.** The loop hands a trap to `MemorySet::handle_page_fault`
exactly when it is a synchronous exception from EL0 whose class is an abort and whose fault
status is a translation, access-flag or permission fault. -/
theorem dispatch_eq_page_fault_iff (trap_num : Usize) (esr_el1 : BitVec 64) :
    dispatch trap_num esr_el1 = .page_fault ↔
      trap_num = 0x2 ∧ AbortClass (exception_class esr_el1) ∧
        PageFaultStatus (fault_status esr_el1) := by
  rw [← is_page_fault_iff]
  unfold dispatch
  by_cases hpf : is_page_fault trap_num esr_el1 = true
  · simp only [hpf, if_true]
  · simp only [hpf, Bool.false_eq_true, if_false, iff_false]
    split_ifs <;> simp

/-- **Which traps are system calls.** `is_syscall` reads `trap_num` alone, so every synchronous
exception from EL0 that is not one of those page faults goes to `handle_syscall`, whatever
its exception class. -/
theorem dispatch_eq_syscall_iff (trap_num : Usize) (esr_el1 : BitVec 64) :
    dispatch trap_num esr_el1 = .syscall ↔
      trap_num = 0x2 ∧ ¬ (AbortClass (exception_class esr_el1) ∧
        PageFaultStatus (fault_status esr_el1)) := by
  unfold dispatch is_syscall Syscall
  by_cases htrap : trap_num = 0x2
  · subst htrap
    have hpf : is_page_fault 0x2 esr_el1 = true ↔
        AbortClass (exception_class esr_el1) ∧ PageFaultStatus (fault_status esr_el1) := by
      rw [is_page_fault_iff]
      exact and_iff_right rfl
    by_cases h : is_page_fault 0x2 esr_el1 = true
    · rw [if_pos h]
      exact iff_of_false (fun h' => nomatch h') fun ⟨_, hn⟩ => hn (hpf.mp h)
    · rw [if_neg h, if_pos (by decide)]
      exact iff_of_true rfl ⟨rfl, fun hap => h (hpf.mpr hap)⟩
  · have hnpf : is_page_fault trap_num esr_el1 = false := by
      rw [Bool.eq_false_iff]
      exact fun h => htrap ((is_page_fault_iff _ _).mp h).1
    have hsys : (trap_num == 0x2#64) = false := by
      simpa using htrap
    simp only [hnpf, hsys, Bool.false_eq_true, if_false, htrap, false_and, iff_false]
    split_ifs <;> simp

/-- An undefined instruction in user mode: `ESR_EL1` of class `0` with the 32-bit
instruction bit set, which `Syndrome::from` decodes as `Unknown`. It is not a page fault, so
the loop runs it as a system call. -/
theorem undefined_instruction_dispatched_as_syscall :
    Syndrome.from ((0x0200_0000#64).setWidth 32) = .Unknown ∧
      dispatch Syscall 0x0200_0000#64 = .syscall := by
  refine ⟨by decide, (dispatch_eq_syscall_iff _ _).mpr ⟨rfl, ?_⟩⟩
  -- class `0` is no abort
  rintro ⟨hab, -⟩
  revert hab
  decide

end Queen.Arch
