import MrIss.Interp.Integer
/-!
# An access and the check of its fault

What a load or a store and the `MFCHECK` after it do: either the statements
that follow run, or the function has returned with an exception raised.
-/

namespace MrIss

open EarlyReturn

variable {α : Type} (c : Config) (size : Size) (addr : VA)

namespace Machine

/-- The state after an access that was let through. -/
def passed (s : Machine) (rnW : Bool) (addr : VA) (m : Mem) : Machine :=
  (s.translated false m).accessed rnW addr none

/-- The state after one that was not. -/
def faulted (s : Machine) (rnW : Bool) (addr : VA) (e : Fault) (m : Mem) : Machine :=
  (s.translated false m).accessed rnW addr (some e)

variable (s : Machine) (rnW : Bool) (m : Mem)

@[simp] theorem passed_cpu : (s.passed rnW addr m).cpu = s.cpu := rfl

@[simp] theorem passed_mem : (s.passed rnW addr m).mem = m := rfl

@[simp] theorem faulted_cpu (e : Fault) : (s.faulted rnW addr e m).cpu = s.cpu := rfl

@[simp] theorem faulted_mem (e : Fault) : (s.faulted rnW addr e m).mem = m := rfl

end Machine

/-- The exception for a fault, after which the function has returned. -/
def raiseFault (rnW : Bool) (addr : VA) (e : Fault) (inst : BitVec 32) : InterpM α :=
  raiseMemException rnW false addr e inst >>= fun _ => Prog.ret

/-- The check of an access that was not let through. -/
theorem mfcheck_faulted (rnW : Bool) (e : Fault) (m : Mem) (g : Unit → InterpM α) (s : Machine) :
    (mfcheck rnW >>= g) (s.faulted rnW addr e m) =
      raiseFault rnW addr e s.interp.inst (s.faulted rnW addr e m) := by
  have hcheck : mfcheck rnW (s.faulted rnW addr e m) =
      (raiseMemException rnW false addr e s.interp.inst >>= fun _ => Prog.ret)
        (s.faulted rnW addr e m) := rfl
  rw [Prog.bind_apply, hcheck, raiseFault, Prog.bind_apply, Prog.bind_apply]
  cases raiseMemException rnW false addr e s.interp.inst (s.faulted rnW addr e m) <;> rfl

/-- **A load and its check.** -/
theorem loadX_checked (f : Reg → InterpM α) (s : Machine) :
    (loadX c size addr >>= fun v => mfcheck true >>= fun _ => f v) s =
      match Mmu.load c size addr s.cpu.isPrivileged s.mem with
      | .ok (.ok v) m => f v (s.passed true addr m)
      | .ok (.error e) m => raiseFault true addr e s.interp.inst (s.faulted true addr e m)
      | .ret m => .ret (s.translated false m)
      | .abort e m => .abort e (s.translated false m) := by
  rw [loadX, Prog.bind_assoc, translating, Prog.bind_assoc, Prog.gets_bind_apply, Prog.bind_apply,
    Prog.zoom]
  cases Mmu.load c size addr s.cpu.isPrivileged s.mem with
  | ret m => rfl
  | abort e m => rfl
  | ok res m =>
    cases res with
    | ok v => rfl
    | error e => exact mfcheck_faulted addr true e m (fun _ => f 0) s

/-- **A store and its check.** -/
theorem storeX_checked (val : Reg) (f : InterpM α) (s : Machine) :
    (storeX c size addr val >>= fun _ => mfcheck false >>= fun _ => f) s =
      match Mmu.store c size addr val s.cpu.isPrivileged s.mem with
      | .ok (.ok ()) m => f (s.passed false addr m)
      | .ok (.error e) m => raiseFault false addr e s.interp.inst (s.faulted false addr e m)
      | .ret m => .ret (s.translated false m)
      | .abort e m => .abort e (s.translated false m) := by
  rw [Prog.bind_apply, storeX_apply]
  cases Mmu.store c size addr val s.cpu.isPrivileged s.mem with
  | ret m => rfl
  | abort e m => rfl
  | ok res m =>
    cases res with
    | ok v => rfl
    | error e => exact mfcheck_faulted addr false e m (fun _ => f) s

/-- What raises an exception for a fault does not go on. -/
theorem raiseFault_not_ok {rnW : Bool} {e : Fault} {inst : BitVec 32} {a : α} {s t : Machine} :
    raiseFault rnW addr e inst s ≠ .ok a t := by
  intro h
  obtain ⟨_, _, -, h⟩ := Prog.bind_eq_ok h
  cases h

/-- A load that is followed by more was let through. -/
theorem of_load_checked {f : Reg → InterpM α} {a : α} {s t : Machine}
    (h : (loadX c size addr >>= fun v => mfcheck true >>= fun _ => f v) s = .ok a t) :
    ∃ v m, Mmu.load c size addr s.cpu.isPrivileged s.mem = .ok (.ok v) m ∧
      f v (s.passed true addr m) = .ok a t := by
  rw [loadX_checked] at h
  split at h
  case h_1 v m hl => exact ⟨v, m, hl, h⟩
  case h_2 => exact absurd h (raiseFault_not_ok addr)
  all_goals cases h

/-- A store that is followed by more was let through. -/
theorem of_store_checked {val : Reg} {f : InterpM α} {a : α} {s t : Machine}
    (h : (storeX c size addr val >>= fun _ => mfcheck false >>= fun _ => f) s = .ok a t) :
    ∃ m, Mmu.store c size addr val s.cpu.isPrivileged s.mem = .ok (.ok ()) m ∧
      f (s.passed false addr m) = .ok a t := by
  rw [storeX_checked] at h
  split at h
  case h_1 m hl => exact ⟨m, hl, h⟩
  case h_2 => exact absurd h (raiseFault_not_ok addr)
  all_goals cases h

end MrIss
