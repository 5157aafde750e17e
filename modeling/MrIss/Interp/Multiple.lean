import MrIss.Interp.Strings
import MrIss.Mmu.Redo
/-!
# Multiple registers

`lmw` and `stmw` access a word for each register from one to the last. A
fault ends them with the words before it transferred. `decoded_multiple`
says where they stop, and that executing them again from there ends as a
single execution does.
-/

namespace MrIss

open EarlyReturn

/-- `lmw` and `stmw`. -/
inductive MultipleForm where
  | load
  | store
  deriving DecidableEq, Repr

/-- Registers with words loaded to those from one on. -/
def loadedGPRs (rt : Reg) (ws : List Reg) (g : Fin 32 → Reg) : Fin 32 → Reg :=
  fun r => if rt.toNat ≤ r.val then ws.getD (r.val - rt.toNat) (g r) else g r

/-! ## The registers -/

@[simp] theorem loadedGPRs_nil (rt : Reg) (g : Fin 32 → Reg) : loadedGPRs rt [] g = g := by
  funext r
  simp [loadedGPRs]

theorem toNat_next {r : Reg} (hr : r < 32) : (r + 1).toNat = r.toNat + 1 := by
  have hr' : r.toNat < 32 := BitVec.lt_def.mp hr
  rw [BitVec.toNat_add, show (1 : Reg).toNat = 1 from rfl]
  omega

theorem loadedGPRs_cons {rt : Reg} (hrt : rt < 32) (v : Reg) (ws : List Reg) (g : Fin 32 → Reg) :
    loadedGPRs rt (v :: ws) g =
      loadedGPRs (rt + 1) ws (Function.update g (Fin.ofNat 32 rt.toNat) v) := by
  have hrt' : rt.toNat < 32 := BitVec.lt_def.mp hrt
  funext r
  rw [loadedGPRs, loadedGPRs, toNat_next hrt]
  have hfirst : r = Fin.ofNat 32 rt.toNat ↔ r.val = rt.toNat := by
    rw [Fin.ext_iff, Fin.val_ofNat, Nat.mod_eq_of_lt hrt']
  rcases Nat.lt_trichotomy r.val rt.toNat with hlt | heq | hgt
  · have hne : r ≠ Fin.ofNat 32 rt.toNat := fun h => by
      have := hfirst.mp h
      omega
    rw [if_neg (by omega), if_neg (by omega), Function.update_of_ne hne]
  · rw [if_pos (by omega), if_neg (by omega), hfirst.mpr heq, Function.update_self,
      ← hfirst.mpr heq, heq, Nat.sub_self]
    rfl
  · have hne : r ≠ Fin.ofNat 32 rt.toNat := fun h => by
      have := hfirst.mp h
      omega
    rw [if_pos (by omega), if_pos (by omega), Function.update_of_ne hne,
      show r.val - rt.toNat = r.val - (rt.toNat + 1) + 1 by omega, List.getD_cons_succ]

/-- Registers that are loaded do not keep anything. -/
theorem loadedGPRs_congr {rt : Reg} {ws : List Reg} {g g' : Fin 32 → Reg}
    (h : ∀ r : Fin 32, ¬ (rt.toNat ≤ r.val ∧ r.val < rt.toNat + ws.length) → g' r = g r) :
    loadedGPRs rt ws g' = loadedGPRs rt ws g := by
  funext r
  rw [loadedGPRs, loadedGPRs]
  by_cases hr : rt.toNat ≤ r.val
  · rw [if_pos hr, if_pos hr]
    by_cases hlt : r.val - rt.toNat < ws.length
    · rw [List.getD_eq_getElem?_getD, List.getD_eq_getElem?_getD, List.getElem?_eq_getElem hlt]
      rfl
    · rw [List.getD_eq_default _ _ (by omega), List.getD_eq_default _ _ (by omega),
        h r fun hin => hlt (by omega)]
  · rw [if_neg hr, if_neg hr, h r fun hin => hr hin.1]

theorem regWords_next {r : Reg} (hr : r < 32) (n : ℕ) (s : Machine) :
    regWords r (n + 1) s = s.gpr r :: regWords (r + 1) n s := by
  rw [regWords, regWords, List.range_succ_eq_map, List.map_cons, List.map_map]
  refine congrArg₂ List.cons rfl (List.map_congr_left fun j _ => ?_)
  show s.cpu.user.gprs (stringReg r (j + 1)) = s.cpu.user.gprs (stringReg (r + 1) j)
  rw [stringReg, stringReg, toNat_next hr, Nat.add_right_comm, Nat.add_assoc]

/-! ## The loops -/

section

variable {c : Config}

/-- The machine after words have been loaded, or stored. -/
structure Machine.Moved (s t : Machine) (g : Fin 32 → Reg) (m : Mem) : Prop where
  cpu : t.cpu = { s.cpu with user := { s.cpu.user with gprs := g } }
  mem : t.mem = m
  inst : t.interp.inst = s.interp.inst

/-- **Loads that are let through** are made, and the loop goes on behind
them. -/
theorem lmwLoop_reads {ws : List Reg} : ∀ {left : ℕ} {rt : Reg} {base : VA} {s : Machine} {m : Mem},
    Mmu.Reads c .word s.cpu.isPrivileged base s.mem ws m → ws.length ≤ left →
      rt.toNat + left = 32 → ∃ t, s.Moved t (loadedGPRs rt ws s.cpu.user.gprs) m ∧
        lmwLoop c left rt base s = lmwLoop c (left - ws.length) (rt + BitVec.ofNat 32 ws.length)
          (Mmu.wordAt base ws.length) t := by
  induction ws with
  | nil =>
    intro left rt base s m hr _ _
    cases hr
    refine ⟨s, ⟨by rw [loadedGPRs_nil], rfl, rfl⟩, ?_⟩
    rw [List.length_nil, BitVec.add_zero, Mmu.wordAt_zero, Nat.sub_zero]
  | cons v ws ih =>
    intro left rt base s m hr hlen hrt
    rw [List.length_cons] at hlen
    obtain ⟨left, rfl⟩ : ∃ k, left = k + 1 := ⟨left - 1, by omega⟩
    have hlt : rt < 32 := BitVec.lt_def.mpr (show rt.toNat < 32 by omega)
    cases hr with
    | @cons _ _ u _ _ _ head tail =>
      let s₁ := (s.passed true base u).setUser
        { s.cpu.user with gprs := Function.update s.cpu.user.gprs (Fin.ofNat 32 rt.toNat) v }
      have hstep : lmwLoop c (left + 1) rt base s = lmwLoop c left (rt + 1) (base + 4) s₁ := by
        rw [lmwLoop, loadX_checked, head]
        dsimp only
        rw [writeGPR, Prog.assert_of_true (decide_eq_true hlt)]
        rfl
      obtain ⟨t, hmoved, hrun⟩ := @ih left (rt + 1) (base + 4) s₁ m tail (by omega)
        (by rw [toNat_next hlt]; omega)
      refine ⟨t, ⟨?_, hmoved.mem, hmoved.inst⟩, hstep.trans (hrun.trans ?_)⟩
      · rw [hmoved.cpu, loadedGPRs_cons hlt]
        rfl
      · rw [List.length_cons, Mmu.wordAt_succ, Nat.add_sub_add_right, Nat.add_comm ws.length 1,
          ← BitVec.ofNat_add_ofNat, ← BitVec.add_assoc]
        rfl

/-- Stores that are let through. -/
theorem stmwLoop_writes (k : ℕ) : ∀ {left : ℕ} {rs : Reg} {base : VA} {s : Machine} {m : Mem},
    Mmu.Writes c .word 4 s.cpu.isPrivileged base (regWords rs k s) s.mem m → k ≤ left →
      rs.toNat + left = 32 → ∃ t, s.Moved t s.cpu.user.gprs m ∧
        stmwLoop c left rs base s = stmwLoop c (left - k) (rs + BitVec.ofNat 32 k)
          (Mmu.wordAt base k) t := by
  induction k with
  | zero =>
    intro left rs base s m hw _ _
    cases hw
    refine ⟨s, ⟨rfl, rfl, rfl⟩, ?_⟩
    rw [BitVec.add_zero, Mmu.wordAt_zero, Nat.sub_zero]
  | succ k ih =>
    intro left rs base s m hw hlen hrs
    obtain ⟨left, rfl⟩ : ∃ k, left = k + 1 := ⟨left - 1, by omega⟩
    have hlt : rs < 32 := BitVec.lt_def.mpr (show rs.toNat < 32 by omega)
    rw [regWords_next hlt] at hw
    cases hw with
    | @cons _ _ u _ _ _ head tail =>
      have hstep : stmwLoop c (left + 1) rs base s =
          stmwLoop c left (rs + 1) (base + 4) (s.passed false base u) := by
        rw [stmwLoop, readGPR_bind s hlt, storeX_checked, head]
      obtain ⟨t, hmoved, hrun⟩ := @ih left (rs + 1) (base + 4) (s.passed false base u) m
        tail (by omega) (by rw [toNat_next hlt]; omega)
      refine ⟨t, ⟨hmoved.cpu, hmoved.mem, hmoved.inst⟩, hstep.trans (hrun.trans ?_)⟩
      rw [Mmu.wordAt_succ, Nat.add_sub_add_right, Nat.add_comm k 1, ← BitVec.ofNat_add_ofNat,
        ← BitVec.add_assoc]
      rfl

/-- A loop of loads that goes on to its end has read words. -/
theorem lmwLoop_ok (left : ℕ) : ∀ {rt : Reg} {base : VA} {s t : Machine}, rt.toNat + left = 32 →
    lmwLoop c left rt base s = .ok () t → ∃ ws : List Reg, ws.length = left ∧ ∃ m,
      Mmu.Reads c .word s.cpu.isPrivileged base s.mem ws m := by
  induction left with
  | zero => exact fun _ _ => ⟨[], rfl, _, .nil⟩
  | succ left ih =>
    intro rt base s t hrt h
    have hlt : rt < 32 := BitVec.lt_def.mpr (show rt.toNat < 32 by omega)
    rw [lmwLoop] at h
    obtain ⟨v, m, hload, h⟩ := of_load_checked c .word _ h
    rw [writeGPR, Prog.assert_of_true (decide_eq_true hlt)] at h
    let s₁ := (s.passed true base m).setUser
      { s.cpu.user with gprs := Function.update s.cpu.user.gprs (Fin.ofNat 32 rt.toNat) v }
    have hrest : lmwLoop c left (rt + 1) (base + 4) s₁ = .ok () t := h
    obtain ⟨ws, hlen, m', hreads⟩ := ih (by rw [toNat_next hlt]; omega) hrest
    exact ⟨v :: ws, by rw [List.length_cons, hlen], m', .cons hload hreads⟩

/-- One of stores has stored the registers. -/
theorem stmwLoop_ok (left : ℕ) : ∀ {rs : Reg} {base : VA} {s t : Machine}, rs.toNat + left = 32 →
    stmwLoop c left rs base s = .ok () t →
      ∃ m, Mmu.Writes c .word 4 s.cpu.isPrivileged base (regWords rs left s) s.mem m := by
  induction left with
  | zero => exact fun _ _ => ⟨_, .nil⟩
  | succ left ih =>
    intro rs base s t hrs h
    have hlt : rs < 32 := BitVec.lt_def.mpr (show rs.toNat < 32 by omega)
    rw [stmwLoop, readGPR_bind s hlt] at h
    obtain ⟨m, hstore, h⟩ := of_store_checked c .word _ h
    obtain ⟨m', hwrites⟩ := ih (by rw [toNat_next hlt]; omega) h
    rw [regWords_next hlt]
    exact ⟨m', .cons hstore hwrites⟩

end

/-! ## The instructions -/

namespace MultipleForm

/-- The primary opcodes. -/
def opcode : MultipleForm → ℕ
  | load => 46
  | store => 47

/-- Whether a word is one of the form's. -/
def encodes (o : MultipleForm) (i : BitVec 32) : Bool := (getOpcode i).toNat == o.opcode

/-- The address of the first word. -/
def base (i : BitVec 32) (s : Machine) : VA := (if dRA0 i = 0 then 0 else s.gpr (dRA0 i)) + dD i

/-- The count of words. -/
def count (i : BitVec 32) : ℕ := 32 - (dRT i).toNat

/-- The base register is not one of those that are loaded. -/
def restartable (o : MultipleForm) (i : BitVec 32) : Bool :=
  o == store || dRA0 i == 0 || decide (dRA0 i < dRT i)

/-- What the loop of a form does. -/
def loop (o : MultipleForm) (c : Config) (left : ℕ) (r : Reg) (addr : VA) : InterpM Unit :=
  match o with
  | load => lmwLoop c left r addr
  | store => stmwLoop c left r addr

/-- Words that have been transferred, and what that leaves behind the MMU. -/
def Transferred (o : MultipleForm) (c : Config) (i : BitVec 32) (s : Machine) (ws : List Reg)
    (m : Mem) : Prop :=
  match o with
  | load => Mmu.Reads c .word s.cpu.isPrivileged (base i s) s.mem ws m
  | store => ws = regWords (dRT i) ws.length s ∧
      Mmu.Writes c .word 4 s.cpu.isPrivileged (base i s) ws s.mem m

/-- The registers, when words have been transferred. -/
def after (o : MultipleForm) (i : BitVec 32) (ws : List Reg) (g : Fin 32 → Reg) : Fin 32 → Reg :=
  match o with
  | load => loadedGPRs (dRT i) ws g
  | store => g

/-- An access that is refused: a load's, for any fault; a store's, which is
not made, by translation. -/
def Refused (o : MultipleForm) (c : Config) (priv : Bool) (addr : VA) (f : Fault) (s t : Mem) :
    Prop :=
  match o with
  | load => Mmu.load c .word addr priv s = .ok (.error f) t
  | store => Mmu.translateAddr c addr false false priv s = .ok (.error f) t

/-- Some of the words are transferred, and the access of the next one is
refused. -/
structure StopsAt (o : MultipleForm) (c : Config) (i : BitVec 32) (s : Machine) (ws : List Reg)
    (f : Fault) (m : Mem) : Prop where
  lt : ws.length < count i
  refused : ∃ m₀, o.Transferred c i s ws m₀ ∧
    o.Refused c s.cpu.isPrivileged (Mmu.wordAt (base i s) ws.length) f m₀ m

/-- **Where a fault leaves the machine:** SRR0 at the instruction, DAR at
the first word that has not been transferred, and of the registers those
before it loaded. -/
structure Stopped (o : MultipleForm) (i : BitVec 32) (s : Machine) (ws : List Reg) (m : Mem)
    (t : Machine) : Prop where
  srr0 : t.cpu.os.srr0 = s.cpu.user.pc &&& ~~~3
  dar : t.cpu.os.dar = Mmu.wordAt (base i s) ws.length
  gprs : t.cpu.user.gprs = o.after i ws s.cpu.user.gprs
  memory : t.mem.sys = m.sys

/-- **Executed again.** After a fault that has left `t`, the instruction is
executed from `u`, in which the registers that it had not loaded are what
they were. A single execution starts from `w`, with the registers of the
beginning, where the fault's condition is removed as well, and the memory
is `u`'s but for what the transfers settle. -/
structure Resumed (o : MultipleForm) (c : Config) (i : BitVec 32) (s : Machine) (ws : List Reg)
    (t u w : Machine) : Prop where
  start : w.cpu.user.gprs = s.cpu.user.gprs
  privilege : u.cpu.isPrivileged = w.cpu.isPrivileged
  kept : ∀ r : Fin 32,
    ¬ (o = load ∧ (dRT i).toNat ≤ r.val ∧ r.val < (dRT i).toNat + ws.length) →
      u.cpu.user.gprs r = t.cpu.user.gprs r
  memory : Mmu.Redo c (o == load) w.cpu.isPrivileged (base i s) (count i) w.mem u.mem

variable {c : Config} {o : MultipleForm} {i : BitVec 32} {s : Machine}

/-- What a word of `lmw` or `stmw` runs. -/
theorem decode_multiple (c : Config) (h : o.encodes i = true) (s : Machine) :
    decode c i s = (o.loop c (count i) (dRT i) (base i s) >>= fun _ => incPC) s := by
  have hra : dRA0 i < 32 := field_lt 16 i
  have hop : (getOpcode i).toNat = o.opcode := beq_iff_eq.mp h
  cases o with
  | load =>
    have hrow : Row.d 46 (fun i => opLmw c (dRT i) (dD i) (dRA0 i)) ∈ table c := by
      simp [table, multipleRows]
    rw [decode_d hrow hop]
    show opLmw c (dRT i) (dD i) (dRA0 i) s = _
    rw [opLmw, readGPROZ_bind s hra]
    rfl
  | store =>
    have hrow : Row.d 47 (fun i => opStmw c (dRS i) (dD i) (dRA0 i)) ∈ table c := by
      simp [table, multipleRows]
    rw [decode_d hrow hop]
    show opStmw c (dRS i) (dD i) (dRA0 i) s = _
    rw [opStmw, readGPROZ_bind s hra]
    rfl

theorem first_add_count (i : BitVec 32) : (dRT i).toNat + count i = 32 := by
  have hrt : (dRT i).toNat < 32 := BitVec.lt_def.mp (field_lt 21 i)
  rw [count]
  omega

/-- **Transfers that are let through** are made, and the loop goes on
behind them. -/
theorem loop_transferred {ws : List Reg} {m : Mem} (h : o.Transferred c i s ws m)
    (hlen : ws.length ≤ count i) : ∃ t, s.Moved t (o.after i ws s.cpu.user.gprs) m ∧
      o.loop c (count i) (dRT i) (base i s) s = o.loop c (count i - ws.length)
        (dRT i + BitVec.ofNat 32 ws.length) (Mmu.wordAt (base i s) ws.length) t := by
  cases o with
  | load => exact lmwLoop_reads h hlen (first_add_count i)
  | store =>
    obtain ⟨hws, hwrites⟩ := h
    rw [hws] at hwrites
    exact stmwLoop_writes ws.length hwrites hlen (first_add_count i)

/-- An execution that goes on to its end has transferred every word. -/
theorem transferred_of_ok {t : Machine} (h : o.encodes i = true) (hrun : decode c i s = .ok () t) :
    ∃ ws m, ws.length = count i ∧ o.Transferred c i s ws m := by
  rw [decode_multiple c h] at hrun
  obtain ⟨_, u, hloop, -⟩ := Prog.bind_eq_ok hrun
  cases o with
  | load =>
    obtain ⟨ws, hlen, m, hreads⟩ := lmwLoop_ok _ (first_add_count i) hloop
    exact ⟨ws, m, hlen, hreads⟩
  | store =>
    obtain ⟨m, hwrites⟩ := stmwLoop_ok _ (first_add_count i) hloop
    have hlen : (regWords (dRT i) (count i) s).length = count i := by
      rw [regWords, List.length_map, List.length_range]
    exact ⟨_, m, hlen, by rw [hlen], hwrites⟩

/-- Where every word is transferred, the execution goes on to its end. -/
theorem ok_of_transferred {ws : List Reg} {m : Mem} (h : o.encodes i = true)
    (ht : o.Transferred c i s ws m) (hlen : ws.length = count i) :
    ∃ t, decode c i s = .ok () t ∧ t.cpu.user.gprs = o.after i ws s.cpu.user.gprs ∧ t.mem = m := by
  obtain ⟨t, hmoved, hrun⟩ := loop_transferred ht hlen.le
  rw [hlen, Nat.sub_self] at hrun
  have hend : ∀ r addr, o.loop c 0 r addr = pure () := fun _ _ => by cases o <;> rfl
  rw [hend] at hrun
  refine ⟨t.setUser { t.cpu.user with pc := t.cpu.user.pc + 4 }, ?_, ?_, hmoved.mem⟩
  · rw [decode_multiple c h, Prog.bind_of_ok hrun]
    rfl
  · show t.cpu.user.gprs = _
    rw [hmoved.cpu]

/-- What raising a fault of a data access leaves. -/
theorem raiseFault_data (rnW : Bool) (addr : VA) {f : Fault} (hf : Mmu.DataFault f)
    (inst : BitVec 32) (s : Machine) : ∃ t, raiseFault (α := Unit) rnW addr f inst s = .ret t ∧
      t.cpu.os.srr0 = s.cpu.user.pc &&& ~~~3 ∧ t.cpu.os.dar = addr ∧
      t.cpu.user.gprs = s.cpu.user.gprs ∧ t.mem.sys = s.mem.sys := by
  have hret : ∃ e d, raiseFault (α := Unit) rnW addr f inst s =
      .ret ((s.setOs { s.cpu.os with dar := addr, dsisr := d }).enter e s.cpu.os.msr) := by
    rcases hf with rfl | rfl | rfl
    · exact ⟨.dsi, _, rfl⟩
    · exact ⟨.dsi, _, rfl⟩
    · exact ⟨.align, alignDSISR inst, rfl⟩
  obtain ⟨e, d, hret⟩ := hret
  exact ⟨_, hret, rfl, rfl, rfl, rfl⟩

/-- The loop stops at an access that is refused. -/
theorem loop_refused (left : ℕ) {r : Reg} {addr : VA} {f : Fault} {m : Mem} (hr : r < 32)
    (h : o.Refused c s.cpu.isPrivileged addr f s.mem m) :
    ∃ t, o.loop c (left + 1) r addr s = .ret t ∧ t.cpu.os.srr0 = s.cpu.user.pc &&& ~~~3 ∧
      t.cpu.os.dar = addr ∧ t.cpu.user.gprs = s.cpu.user.gprs ∧ t.mem.sys = m.sys := by
  cases o with
  | load =>
    have hload : Mmu.load c .word addr s.cpu.isPrivileged s.mem = .ok (.error f) m := h
    have hf := Mmu.load_faults _ _ _ hload f rfl
    obtain ⟨t, ht, hd⟩ := raiseFault_data true addr hf s.interp.inst
      (s.faulted true addr f m)
    refine ⟨t, ?_, hd⟩
    show lmwLoop c (left + 1) r addr s = _
    rw [lmwLoop, loadX_checked, hload]
    exact ht
  | store =>
    have htr : Mmu.translateAddr c addr false false s.cpu.isPrivileged s.mem = .ok (.error f) m := h
    have hstore : Mmu.store c .word addr (s.gpr r) s.cpu.isPrivileged s.mem = .ok (.error f) m := by
      rw [Mmu.store, Prog.bind_of_ok htr]
      rfl
    have hf := Mmu.store_faults _ _ _ _ hstore f rfl
    obtain ⟨t, ht, hd⟩ := raiseFault_data false addr hf s.interp.inst
      (s.faulted false addr f m)
    refine ⟨t, ?_, hd⟩
    show stmwLoop c (left + 1) r addr s = _
    rw [stmwLoop, readGPR_bind s hr, storeX_checked, hstore]
    exact ht

/-- After stores every register is what it was. -/
theorem gprs_resumed {ws : List Reg} {m : Mem} {t u w : Machine} (ht : Stopped store i s ws m t)
    (h : Resumed store c i s ws t u w) : u.cpu.user.gprs = w.cpu.user.gprs := by
  funext r
  have hno : ¬ (store = load ∧ (dRT i).toNat ≤ r.val ∧ r.val < (dRT i).toNat + ws.length) :=
    fun hload => MultipleForm.noConfusion hload.1
  rw [h.kept r hno, ht.gprs, h.start]
  rfl

/-- The base register is what it was. -/
theorem base_resumed (hr : o.restartable i = true) {ws : List Reg} {m : Mem} {t u w : Machine}
    (ht : Stopped o i s ws m t) (h : Resumed o c i s ws t u w) :
    base i w = base i s ∧ base i u = base i s := by
  have hra : (dRA0 i).toNat < 32 := BitVec.lt_def.mp (field_lt 16 i)
  have hw : w.gpr (dRA0 i) = s.gpr (dRA0 i) := congrFun h.start _
  refine ⟨by rw [base, base, hw], ?_⟩
  by_cases h0 : dRA0 i = 0
  · rw [base, base, if_pos h0, if_pos h0]
  have hu : u.gpr (dRA0 i) = s.gpr (dRA0 i) := by
    have hval : (Fin.ofNat 32 (dRA0 i).toNat).val = (dRA0 i).toNat := by
      rw [Fin.val_ofNat, Nat.mod_eq_of_lt hra]
    cases o with
    | load =>
      have hlt : (dRA0 i).toNat < (dRT i).toNat := by
        simp only [restartable, h0, beq_iff_eq, Bool.or_eq_true, decide_eq_true_eq, BitVec.lt_def,
          or_false, reduceCtorEq, false_or] at hr
        exact hr
      have hout : ¬ (load = load ∧ (dRT i).toNat ≤ (Fin.ofNat 32 (dRA0 i).toNat).val ∧
          (Fin.ofNat 32 (dRA0 i).toNat).val < (dRT i).toNat + ws.length) := by
        rw [hval]
        omega
      refine (h.kept _ hout).trans ?_
      · rw [ht.gprs]
        show (if _ then _ else _) = _
        rw [hval, if_neg (by omega)]
        rfl
    | store => exact (congrFun (gprs_resumed ht h) _).trans hw
  rw [base, base, if_neg h0, if_neg h0, hu]

/-- The registers that are stored are what they were, and those that are
loaded do not matter. -/
theorem after_resumed {ws vs : List Reg} {m : Mem} {t u w : Machine} (ht : Stopped o i s ws m t)
    (h : Resumed o c i s ws t u w) (hlen : ws.length ≤ vs.length) :
    o.after i vs u.cpu.user.gprs = o.after i vs w.cpu.user.gprs := by
  cases o with
  | load =>
    refine loadedGPRs_congr fun r hr => ?_
    rw [h.kept r fun ⟨_, hle, hlt⟩ => hr ⟨hle, by omega⟩, ht.gprs, h.start]
    show loadedGPRs _ _ _ r = _
    rw [loadedGPRs]
    split_ifs with hle
    · rw [List.getD_eq_default _ _ (by omega)]
    · rfl
  | store => exact gprs_resumed ht h

/-- **Every word is transferred again,** to the same end. -/
theorem transferred_resumed (hr : o.restartable i = true) {ws vs : List Reg} {m m' : Mem}
    {t u w : Machine} (ht : Stopped o i s ws m t) (h : Resumed o c i s ws t u w)
    (hvs : vs.length = count i) (hw : o.Transferred c i w vs m') :
    ∃ n, o.Transferred c i u vs n ∧ n.sys.mem = m'.sys.mem := by
  obtain ⟨hbase, hbase'⟩ := base_resumed hr ht h
  have hmem := h.memory
  rw [← hbase, ← hvs] at hmem
  cases o with
  | load =>
    obtain ⟨n, hreads, hn⟩ := Mmu.Reads.again hw hmem
    refine ⟨n, ?_, hn⟩
    show Mmu.Reads c .word u.cpu.isPrivileged (base i u) u.mem vs n
    rw [h.privilege, hbase', ← hbase]
    exact hreads
  | store =>
    obtain ⟨hwords, hwrites⟩ := hw
    obtain ⟨n, hwrites', hn⟩ := Mmu.Writes.again hwrites hmem
    refine ⟨n, ⟨?_, ?_⟩, hn⟩
    · rw [regWords, gprs_resumed ht h]
      exact hwords
    · rw [h.privilege, hbase', ← hbase]
      exact hwrites'

/-- **`lmw` and `stmw` may be executed again.** Where the access of a word
is refused, the exception leaves SRR0 at the instruction, rounded down to
a multiple of four, DAR at the word, and every register but those loaded
before. Executed again when the fault's condition is removed, with those
other registers and the memory that is read unchanged, the instruction
completes where a single execution does, with the same registers and the
same memory. -/
theorem decoded_multiple (c : Config) (o : MultipleForm) (i : BitVec 32) (h : o.encodes i = true)
    (hr : o.restartable i = true) {s : Machine} {ws : List Reg} {f : Fault} {m : Mem}
    (hf : o.StopsAt c i s ws f m) : ∃ t, decode c i s = .ret t ∧ Stopped o i s ws m t ∧
      ∀ u w x, Resumed o c i s ws t u w → decode c i w = .ok () x →
        ∃ v, decode c i u = .ok () v ∧ v.cpu.user.gprs = x.cpu.user.gprs ∧
          v.mem.sys.mem = x.mem.sys.mem := by
  obtain ⟨m₀, htrans, href⟩ := hf.refused
  have hlt := hf.lt
  obtain ⟨t₀, hmoved, hrun⟩ := loop_transferred htrans hlt.le
  have hpriv : t₀.cpu.isPrivileged = s.cpu.isPrivileged := by
    rw [hmoved.cpu]
    rfl
  have hreg : dRT i + BitVec.ofNat 32 ws.length < 32 := by
    have := first_add_count i
    rw [BitVec.lt_def, BitVec.toNat_add, BitVec.toNat_ofNat, show (32 : Reg).toNat = 32 from rfl]
    omega
  rw [← hpriv, ← hmoved.mem] at href
  obtain ⟨t, ht, hsrr0, hdar, hgprs, hsys⟩ := loop_refused (count i - ws.length - 1) hreg href
  rw [show count i - ws.length - 1 + 1 = count i - ws.length by omega, ← hrun] at ht
  have hstop : Stopped o i s ws m t :=
    { srr0 := by rw [hsrr0, hmoved.cpu]
      dar := hdar
      gprs := by rw [hgprs, hmoved.cpu]
      memory := hsys }
  refine ⟨t, by rw [decode_multiple c h, Prog.bind_of_ret ht], hstop, fun u w x hres hx => ?_⟩
  obtain ⟨vs, n, hvs, hw⟩ := transferred_of_ok h hx
  obtain ⟨n', hu, hmem⟩ := transferred_resumed hr hstop hres hvs hw
  obtain ⟨v, hv, hvg, hvm⟩ := ok_of_transferred h hu hvs
  obtain ⟨x', hx', hxg, hxm⟩ := ok_of_transferred h hw hvs
  cases hx'.symm.trans hx
  refine ⟨v, hv, ?_, ?_⟩
  · rw [hvg, hxg]
    exact after_resumed hstop hres (by omega)
  · rw [hvm, hxm, hmem]

/-- A machine at `lmw r30,0(r4)`, with R4 at the last word of a page that is
mapped; the next page is not. -/
def sample (pc : VA) : Machine :=
  { (Machine.holding 0x1ffc 0).setUser { (Machine.holding 0x1ffc 0).cpu.user with pc := pc } with
    mem := ⟨Mmu.paged, .onePage⟩ }

/-- It stops at the second word, and completes with translation off. -/
theorem decoded_multiple_lmw : ∃ t v x,
    decode (.quiet .default) 0xbbc40000 (sample 0x1000) = .ret t ∧
    Mmu.wordAt 0x1ffc 1 = t.cpu.os.dar ∧
    decode (.quiet .default) 0xbbc40000 { sample 0x1000 with mem := ⟨.zero, .onePage⟩ } = .ok () x ∧
    decode (.quiet .default) 0xbbc40000
      { t with cpu := { t.cpu with os := (sample 0x1000).cpu.os }, mem := ⟨.zero, .onePage⟩ } =
        .ok () v ∧
    v.cpu.user.gprs = x.cpu.user.gprs ∧ v.mem.sys.mem = x.mem.sys.mem := by
  have key : (Mmu.load (.quiet .default) .word 0x1ffc true (sample 0x1000).mem).test fun res m =>
      decide (res = .ok 0) && (Mmu.load (.quiet .default) .word 0x2000 true m).test fun res _ =>
        decide (res = .error .noPage) := by decide +kernel
  have hdone : (decode (.quiet .default) 0xbbc40000
      { sample 0x1000 with mem := ⟨.zero, .onePage⟩ }).test fun _ _ => true := by decide +kernel
  obtain ⟨res, m₀, hload, hres⟩ := Out.of_test key
  rw [Bool.and_eq_true, decide_eq_true_eq] at hres
  obtain ⟨rfl, hres⟩ := hres
  obtain ⟨res, m, hload', hres⟩ := Out.of_test hres
  rw [decide_eq_true_eq] at hres
  subst hres
  have hstops : load.StopsAt (.quiet .default) 0xbbc40000 (sample 0x1000) [0] .noPage m :=
    ⟨by decide, m₀, .cons hload .nil, hload'⟩
  obtain ⟨t, ht, hstop, hagain⟩ := decoded_multiple (.quiet .default) load 0xbbc40000 (by decide)
    (by decide) hstops
  obtain ⟨_, x, hx, -⟩ := Out.of_test hdone
  have hram : ∀ j < 2, (Mmu.uncached (.quiet .default) .zero Sys.onePage.mem (Mmu.wordAt 0x1ffc j)
      false true true).1.toOption.all Mmu.isDirect = true := by decide +kernel
  have hcoh : Mmu.Coherent (.quiet .default) ⟨.zero, .onePage⟩ :=
    Mmu.coherent_of_empty fun _ _ => rfl
  obtain ⟨v, hv, hgprs, hmem⟩ := hagain
    { t with cpu := { t.cpu with os := (sample 0x1000).cpu.os }, mem := ⟨.zero, .onePage⟩ }
    { sample 0x1000 with mem := ⟨.zero, .onePage⟩ } x
    { start := rfl
      privilege := rfl
      kept := fun _ _ => rfl
      memory :=
        { registers := rfl
          walks := fun _ _ => Mmu.walkInRam_of_off rfl
          backed := fun _ _ => ⟨hcoh.hitBacked, hcoh.hitBacked⟩
          entries := fun _ _ => Mmu.EntriesAlike.refl _ _ _ _ _
          ram := fun j hj h hp => by
            have hp' : (Mmu.uncached (.quiet .default) .zero Sys.onePage.mem (Mmu.wordAt 0x1ffc j)
                false true true).1 = .ok h := hp
            have hj' := hram j hj
            rwa [hp'] at hj'
          clear := fun hno => by cases hno
          same := fun _ _ _ _ _ _ _ => rfl
          differ := fun a hne => absurd rfl hne } } hx
  exact ⟨t, v, x, ht, hstop.dar.symm, hx, hv, hgprs, hmem⟩

/-- Where PC is not a multiple of four, SRR0 is not PC. -/
theorem multiple_srr0 : load.encodes 0xbbc40000 = true ∧ load.restartable 0xbbc40000 = true ∧
    let t := (decode (.quiet .default) 0xbbc40000 (sample 0x1002)).state
    .access true 0x2000 (some .noPage) ∈ t.trace ∧ t.cpu.os.srr0 ≠ (sample 0x1002).cpu.user.pc := by
  decide +kernel

end MultipleForm

end MrIss
