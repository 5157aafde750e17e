import MrIss.Interp.Sound
import MrIss.Mmu.DataSide
/-!
# What instructions depend on

The interpreter keeps its own copies of PC and of the word it executes, the
MMU an instruction side, and the bus the device it found last. Two machines
that differ in these alone execute an instruction alike: with one exception,
the alignment interrupt, whose DSISR is made from the interpreter's copy of
the word.
-/

namespace MrIss

open EarlyReturn

/-! ## What is compared -/

/-- The events that are exceptions. -/
def Event.isException : Event → Bool
  | .exception _ => true
  | _ => false

/-- What an instruction may depend on, with the exceptions so far. -/
structure Shown where
  cpu : CpuState
  /-- The interpreter's fields, its copies of PC and of the word cleared. -/
  interp : InterpState
  /-- The MMU's registers and its data side, and what is behind it. -/
  mem : Mmu × HostMem × List IoAccess
  exceptions : List Event

/-- What shows of a machine. -/
def Machine.shown (s : Machine) : Shown where
  cpu := s.cpu
  interp := { s.interp with pc := 0, inst := 0 }
  mem := s.mem.dataSide
  exceptions := s.trace.filter Event.isException

/-- The number of exceptions that have been raised. -/
def Machine.raised (s : Machine) : ℕ := s.shown.exceptions.length

/-- DSISR as it might have been. -/
def Shown.setDSISR (d : Shown) (dsisr : Reg) : Shown :=
  { d with cpu := { d.cpu with os := { d.cpu.os with dsisr := dsisr } } }

/-- An interrupt, on what shows. -/
def Shown.enter (e : Exception) (v : Reg) (d : Shown) : Shown :=
  let msr := d.cpu.os.msr &&& msrIP
  { d with
    cpu := { d.cpu with
      user := { d.cpu.user with
        pc := (if msr &&& msrIP != 0 then 0xfff00000#32 else 0) + e.vector }
      os := { d.cpu.os with
        srr0 := d.cpu.user.pc &&& ~~~3#32, srr1 := v, msr := msr } }
    mem := (d.mem.1.setIRDR (msr &&& msrIR != 0) (msr &&& msrDR != 0), d.mem.2)
    exceptions := .exception e :: d.exceptions }

/-- An exception shows. -/
theorem Machine.shown_enter (s : Machine) (e : Exception) (v : Reg) :
    (s.enter e v).shown = s.shown.enter e v := rfl

variable {i j : BitVec 32} {n : ℕ}

/-- Two machines that show the same, and whose copies of the word are `i`
and `j`; if there have been more than `n` exceptions, the latest is no
alignment interrupt. -/
structure Twin (i j : BitVec 32) (n : ℕ) (s t : Machine) : Prop where
  shown : s.shown = t.shown
  left : s.interp.inst = i
  right : t.interp.inst = j
  before : n ≤ s.raised
  plain : n < s.raised → s.shown.exceptions.head? ≠ some (.exception .align)

/-- Two machines that have just taken an alignment interrupt, and differ in
DSISR as the two words have it. -/
structure Parted (i j : BitVec 32) (n : ℕ) (s t : Machine) : Prop where
  shown : s.shown.setDSISR (alignDSISR j) = t.shown
  left : s.interp.inst = i
  right : t.interp.inst = j
  dsisr : s.cpu.os.dsisr = alignDSISR i
  latest : s.shown.exceptions.head? = some (.exception .align)
  before : n < s.raised

/-- How many exceptions were raised shows. -/
theorem Machine.raised_of_shown {s t : Machine} (h : s.shown = t.shown) :
    s.raised = t.raised := by
  rw [Machine.raised, Machine.raised, h]

namespace Parted

variable {s t : Machine}

/-- Both have raised as many exceptions. -/
theorem raised (h : Parted i j n s t) : s.raised = t.raised := by
  rw [Machine.raised, Machine.raised, ← h.shown]
  rfl

/-- Two machines that are parted show the same if the words have the same
DSISR. -/
theorem shown_eq (h : Parted i j n s t) (hd : alignDSISR i = alignDSISR j) : s.shown = t.shown := by
  rw [← h.shown, ← hd, ← h.dsisr]
  rfl

/-- The registers are the same only then. -/
theorem dsisr_eq (h : Parted i j n s t) (hcpu : s.cpu = t.cpu) : alignDSISR i = alignDSISR j := by
  have ht : t.shown.cpu.os.dsisr = alignDSISR j := by
    rw [← h.shown]
    rfl
  rw [← h.dsisr, hcpu]
  exact ht

end Parted

/-- The coupling of instructions. -/
def twins (i j : BitVec 32) (n : ℕ) : Coupling Machine where
  go := Twin i j n
  leave s t := Twin i j n s t ∨ Parted i j n s t

/-! ## Statements -/

namespace Twin

variable {α : Type} {s t : Machine}

/-- Both have the same processor. -/
theorem cpu (h : Twin i j n s t) : s.cpu = t.cpu := congrArg Shown.cpu h.shown

/-- Both have the same data side. -/
theorem mem (h : Twin i j n s t) : s.mem.dataSide = t.mem.dataSide := congrArg Shown.mem h.shown

/-- The interpreter's other fields are the same. -/
theorem interp (h : Twin i j n s t) {β : Type} (f : InterpState → β)
    (hf : ∀ p, f { p with pc := 0, inst := 0 } = f p) : f s.interp = f t.interp := by
  have hsame : ({ s.interp with pc := 0, inst := 0 } : InterpState) =
      { t.interp with pc := 0, inst := 0 } := congrArg Shown.interp h.shown
  rw [← hf s.interp, hsame, hf]

/-- What is read of a machine, where it is of what shows. -/
theorem gets {f : Machine → α} (k : Shown → α) (hf : ∀ s, f s = k s.shown) :
    Couples (twins i j n) (Prog.gets f : InterpM α) :=
  .gets fun s t h => by rw [hf s, hf t, h.shown]

/-- A change of a machine, where it is one of what shows. -/
theorem modify {f : Machine → Machine} (k : Shown → Shown) (hf : ∀ s, (f s).shown = k s.shown)
    (hinst : ∀ s, (f s).interp.inst = s.interp.inst)
    (hexc : ∀ d, (k d).exceptions = d.exceptions) :
    Couples (twins i j n) (Prog.modify f : InterpM Unit) :=
  .modify fun s t h => by
    have hsame : (f s).shown.exceptions = s.shown.exceptions := by rw [hf s, hexc]
    refine ⟨by rw [hf s, hf t, h.shown], (hinst s).trans h.left, (hinst t).trans h.right, ?_, ?_⟩
    · rw [Machine.raised, hsame]
      exact h.before
    · rw [Machine.raised, hsame]
      exact h.plain

/-- A routine that is left, in both. -/
instance ret : Couples (twins i j n) (Prog.ret : InterpM α) := .ret fun _ _ => .inl

/-- A register of the user is written the same in both. -/
instance onUser (f : UserState → UserState) : Couples (twins i j n) (onUser f) :=
  modify (fun d => { d with cpu := { d.cpu with user := f d.cpu.user } }) (fun _ => rfl)
    (fun _ => rfl) fun _ => rfl

/-- A register of the system is written the same in both. -/
instance onOs (f : OsState → OsState) : Couples (twins i j n) (onOs f) :=
  modify (fun d => { d with cpu := { d.cpu with os := f d.cpu.os } }) (fun _ => rfl)
    (fun _ => rfl) fun _ => rfl

/-- What is no exception does not show. -/
theorem record {e : Event} (he : e.isException = false) : Couples (twins i j n) (record e) :=
  modify id (fun s => by simp [Machine.shown, he]) (fun _ => rfl) fun _ => rfl

/-- A change to the fields of the interpreter that are compared. -/
theorem onInterp (f : InterpState → InterpState)
    (hf : ∀ p, { f p with pc := 0, inst := 0 } =
      { f { p with pc := 0, inst := 0 } with pc := 0, inst := 0 })
    (hinst : ∀ p, (f p).inst = p.inst) :
    Couples (twins i j n) (Prog.modify fun s => { s with interp := f s.interp } : InterpM Unit) :=
  modify (fun d => { d with interp := { f d.interp with pc := 0, inst := 0 } })
    (fun s => by
      simp only [Machine.shown]
      rw [hf s.interp]) (fun s => hinst s.interp) fun _ => rfl

/-- A change to the MMU that is made from its data side. -/
theorem onMmu {f : Mmu → Mmu} (hf : Mmu.OfDataSide f) :
    Couples (twins i j n) (onMmu f) :=
  modify (fun d => { d with mem := ((f d.mem.1).dataSide, d.mem.2) })
    (fun s => by
      have hside : (f s.mem.mmu).dataSide = (f s.mem.mmu.dataSide).dataSide := hf s.mem.mmu
      simp only [Machine.shown, Machine.setMmu, Mem.dataSide, hside]) (fun _ => rfl)
    fun _ => rfl

/-- A mapping is written the same in both. -/
theorem remap {f : Mmu → Mmu} (hf : Mmu.OfDataSide f) :
    Couples (twins i j n) (remap f) :=
  modify (fun d => { d with mem := ((f d.mem.1).dataSide, d.mem.2) })
    (fun s => by
      have hside : (f s.mem.mmu).dataSide = (f s.mem.mmu.dataSide).dataSide := hf s.mem.mmu
      simp only [Machine.shown, Machine.remapped, Machine.setMmu, Mem.dataSide, hside]
      rfl) (fun _ => rfl) fun _ => rfl

/-- MSR is written, with the IR and DR of the MMU, in both. -/
instance writeMSR (v : Reg) : Couples (twins i j n) (writeMSR v) := by
  have hirdr : Couples (twins i j n) (MrIss.onMmu (·.setIRDR (v &&& msrIR != 0) (v &&& msrDR != 0))) :=
    onMmu (Mmu.ofDataSide_setIRDR _ _)
  unfold MrIss.writeMSR
  infer_instance

/-! ### Reading -/

/-- Any part of the user's registers is the same in both. -/
instance gprs (f : UserState → α) : Couples (twins i j n) (Prog.gets (f ·.cpu.user) : InterpM α) :=
  gets (fun d => f d.cpu.user) fun _ => rfl

/-- Any part of the system's registers is the same in both. -/
instance osRegs (f : OsState → α) : Couples (twins i j n) (Prog.gets (f ·.cpu.os) : InterpM α) :=
  gets (fun d => f d.cpu.os) fun _ => rfl

/-- All registers of the user are the same in both. -/
instance getUser : Couples (twins i j n) (Prog.gets (·.cpu.user) : InterpM UserState) := gprs id

/-- All registers of the system are the same in both. -/
instance getOs : Couples (twins i j n) (Prog.gets (·.cpu.os) : InterpM OsState) := osRegs id

/-- A register is the same in both. -/
instance readGPR (reg : Reg) : Couples (twins i j n) (readGPR reg) := by
  have := gprs (i := i) (j := j) (n := n) fun u => u.gprs (Fin.ofNat 32 reg.toNat)
  unfold MrIss.readGPR
  infer_instance

/-- A register is read, or 0, in both. -/
instance readGPROZ (reg : Reg) : Couples (twins i j n) (readGPROZ reg) := by
  unfold MrIss.readGPROZ
  infer_instance

/-- CR is the same in both. -/
instance readCR : Couples (twins i j n) readCR := gprs _

/-- The carry is the same in both. -/
instance readCA : Couples (twins i j n) readCA := gprs _

/-- MSR is the same in both. -/
instance readMSR : Couples (twins i j n) readMSR := osRegs _

/-- PC is the same in both. -/
instance getPC : Couples (twins i j n) getPC := gprs _

/-- The byte count of a string is the same in both. -/
instance readXERSTR : Couples (twins i j n) readXERSTR := gprs fun u => (u.xer &&& xerSTR).toNat

/-- A bit of CR is the same in both. -/
instance getCRb (bit : Reg) : Couples (twins i j n) (getCRb bit) := by
  unfold MrIss.getCRb
  infer_instance

/-- A segment register is the same in both. -/
instance getSegmentReg (sr : Reg) : Couples (twins i j n) (getSegmentReg sr) := by
  have : Couples (twins i j n) (Prog.gets fun s =>
      s.mem.mmu.getSegmentReg (Fin.ofNat 16 sr.toNat) : InterpM Reg) :=
    gets (fun d => d.mem.1.getSegmentReg (Fin.ofNat 16 sr.toNat)) fun _ => rfl
  unfold MrIss.getSegmentReg
  infer_instance

/-- The check for privilege does nothing, in both. -/
instance checkYourPrivilege : Couples (twins i j n) checkYourPrivilege := .pure ()

/-- The check for the hypervisor does nothing, in both. -/
instance checkYourHypPrivilege : Couples (twins i j n) checkYourHypPrivilege := .pure ()

/-- The address of a D-form is the same in both. -/
instance eaD (ra0 d : Reg) : Couples (twins i j n) (eaD ra0 d) := by
  unfold MrIss.eaD
  infer_instance

/-- The address of a D-form with update is the same in both. -/
instance eaDU (ra d : Reg) : Couples (twins i j n) (eaDU ra d) := by
  unfold MrIss.eaDU
  infer_instance

/-- The address of an X-form is the same in both. -/
instance eaX (ra0 rb : Reg) : Couples (twins i j n) (eaX ra0 rb) := by
  unfold MrIss.eaX
  infer_instance

/-- The address of an X-form with update is the same in both. -/
instance eaXU (ra rb : Reg) : Couples (twins i j n) (eaXU ra rb) := by
  unfold MrIss.eaXU
  infer_instance

/-! ### User registers -/

/-- A register is written the same in both. -/
instance writeGPR (reg val : Reg) : Couples (twins i j n) (writeGPR reg val) := by
  unfold MrIss.writeGPR
  infer_instance

/-- CR is written the same in both. -/
instance writeCR (val : Reg) : Couples (twins i j n) (writeCR val) := onUser _

/-- The carry is written the same in both. -/
instance writeCA (ca : Bool) : Couples (twins i j n) (writeCA ca) := onUser _

/-- PC is written the same in both. -/
instance setPC (v : Reg) : Couples (twins i j n) (setPC v) := onUser _

/-- LR is written the same in both. -/
instance setLR (v : Reg) : Couples (twins i j n) (setLR v) := onUser _

/-- CTR is written the same in both. -/
instance setCTR (v : Reg) : Couples (twins i j n) (setCTR v) := onUser _

/-- XER is written the same in both. -/
instance setXER (v : Reg) : Couples (twins i j n) (setXER v) := onUser _

/-- PC goes on to the next word, in both. -/
instance incPC : Couples (twins i j n) incPC := onUser _

/-- CR0 is written, by a result, in both. -/
instance setCR0 (x : Reg) : Couples (twins i j n) (setCR0 x) := by
  unfold MrIss.setCR0
  infer_instance

/-- SO and OV are written the same in both. -/
instance setSoOv (x : Bool) : Couples (twins i j n) (setSoOv x) := by
  unfold MrIss.setSoOv
  infer_instance

/-- A sum is written, with its carry and flags, in both. -/
instance sumTo (ca : Bool) (rt rc oe : Reg) (r : Sum) :
    Couples (twins i j n) (sumTo ca rt rc oe r) := by
  unfold MrIss.sumTo
  infer_instance

/-- A result is written, with CR0, in both. -/
instance resultTo (rt rc val : Reg) : Couples (twins i j n) (resultTo rt rc val) := by
  unfold MrIss.resultTo
  infer_instance

/-- The field of CR that a comparison goes to is written the same in both. -/
instance compareTo (rel : Reg → Reg → Reg → Reg) (bf a b : Reg) :
    Couples (twins i j n) (compareTo rel bf a b) := by
  unfold MrIss.compareTo
  infer_instance

/-! ### Exceptions -/

/-- Every exception but the alignment interrupt. -/
theorem takeException {e : Exception} (he : e ≠ .align) (v : Reg) :
    Couples (twins i j n) (takeException e v) :=
  .modify fun s t h => by
    refine ⟨by rw [Machine.shown_enter, Machine.shown_enter, h.shown], h.left, h.right, ?_,
      fun _ hlast => ?_⟩
    · exact h.before.trans (Nat.le_succ _)
    · rw [Machine.shown_enter] at hlast
      cases Option.some.inj hlast
      exact he rfl

/-- A program exception is raised in both. -/
instance raisePROG (reason : Reg) : Couples (twins i j n) (raisePROGException reason) :=
  .seq inferInstance fun _ => takeException (by decide) _

/-- A system call is raised in both. -/
instance raiseSC : Couples (twins i j n) raiseSCException :=
  .seq inferInstance fun _ => takeException (by decide) _

/-- An instruction storage interrupt is raised in both. -/
instance raiseISI (cause : Reg) : Couples (twins i j n) (raiseISI cause) :=
  .seq inferInstance fun _ => takeException (by decide) _

/-- A data storage interrupt is raised in both. -/
instance raiseDSI (rnW : Bool) (addr : VA) (cause : Reg) :
    Couples (twins i j n) (raiseDSI rnW addr cause) :=
  .seq inferInstance fun _ => .seq inferInstance fun _ => takeException (by decide) _

/-- Every memory exception but that. -/
theorem raiseMem {f : Fault} (hf : f ≠ .align) (rnW inD : Bool) (addr : VA) (inst : BitVec 32) :
    Couples (twins i j n) (raiseMemException rnW inD addr f inst) := by
  unfold MrIss.raiseMemException
  cases f with
  | align => exact absurd rfl hf
  | noPage | noSegment | perms | permsNX => infer_instance

/-- **The alignment interrupt parts the two.** -/
theorem parted_align (rnW : Bool) (addr : VA) (h : Twin i j n s t) :
    ((do raiseMemException rnW false addr .align s.interp.inst; Prog.ret : InterpM Unit)
      s).Coupled (twins i j n)
    ((do raiseMemException rnW false addr .align t.interp.inst; Prog.ret : InterpM Unit) t) := by
  refine .inr ⟨?_, h.left, h.right, congrArg alignDSISR h.left, rfl, Nat.lt_succ_of_le h.before⟩
  rw [h.right]
  have hset : Couples (twins i j n)
    (MrIss.onOs fun o => { o with dar := addr, dsisr := alignDSISR j }) := inferInstance
  obtain ⟨-, hgo⟩ := hset.out s t h
  have hmsr : s.cpu.os.msr = t.cpu.os.msr := congrArg (·.os.msr) h.cpu
  have hentered := congrArg (Shown.enter .align s.cpu.os.msr) hgo.shown
  rw [← Machine.shown_enter, ← Machine.shown_enter] at hentered
  refine Eq.trans ?_ (hentered.trans ?_)
  · rfl
  · rw [hmsr]

/-- The check of the fault that an access has left, in both. -/
instance mfcheck (rnW : Bool) : Couples (twins i j n) (mfcheck rnW) := by
  refine .gets_seq fun s t h => ?_
  have hfault : s.interp.memAccessFault = t.interp.memAccessFault := h.interp _ fun _ => rfl
  have haddr : s.interp.memAccessAddr = t.interp.memAccessAddr := h.interp _ fun _ => rfl
  rw [← hfault, ← haddr]
  cases s.interp.memAccessFault with
  | none => exact ⟨rfl, h⟩
  | some f =>
    have hother (hf : f ≠ .align) (inst : BitVec 32) : Couples (twins i j n) (do
        raiseMemException rnW false s.interp.memAccessAddr f inst
        Prog.ret : InterpM Unit) :=
      .seq (raiseMem hf ..) fun _ => inferInstance
    -- the word is read by the alignment interrupt alone
    cases f with
    | align => exact parted_align rnW _ h
    | noPage | noSegment | perms | permsNX => exact (hother (by simp) _).out s t h

/-! ### Memory -/

/-- The request to break is written the same in both. -/
instance simQuit : Couples (twins i j n) simQuit :=
  onInterp (fun p => { p with wantBreak := true }) (fun _ => rfl) fun _ => rfl

/-- The generation count is written the same in both. -/
instance blowReservation : Couples (twins i j n) blowReservation :=
  onInterp (fun p => { p with excGenerationCount := p.excGenerationCount + 1 }) (fun _ => rfl)
    fun _ => rfl

/-- A run of the MMU, in both. -/
instance translating (x : Bool → MmuM α) [hx : ∀ priv, Couples memCoupling (x priv)] :
    Couples (twins i j n) (translating false x) := by
  have hset (s t : Machine) (u v : Mem) (h : Twin i j n s t) (huv : u.dataSide = v.dataSide) :
      Twin i j n (s.translated false u) (t.translated false v) := by
    refine ⟨?_, h.left, h.right, h.before, h.plain⟩
    have hshown (s : Machine) (u : Mem) : (s.translated false u).shown =
        { s.shown with mem := u.dataSide } := rfl
    rw [hshown, hshown, h.shown, huv]
  have hpriv : Couples (twins i j n) (Prog.gets (·.cpu.isPrivileged) : InterpM Bool) :=
    gets (·.cpu.isPrivileged) fun _ => rfl
  refine .seq hpriv fun priv => ?_
  exact .zoom (hx priv) (fun _ _ h => h.mem) hset fun s t u v h huv => .inl (hset s t u v h huv)

/-- The record of an access, in both. -/
instance accessed (rnW : Bool) (addr : VA) (fault : Option Fault) :
    Couples (twins i j n) (Prog.modify (·.accessed rnW addr fault) : InterpM Unit) :=
  modify (fun d => { d with
    interp := { d.interp with
      memAccessFault := fault
      memAccessAddr := if fault.isSome then addr else d.interp.memAccessAddr } })
    (fun _ => rfl) (fun _ => rfl) fun _ => rfl

variable {c : Config}

/-- A load, which leaves its fault, in both. -/
instance loadX (size : Size) (addr : VA) : Couples (twins i j n) (loadX c size addr) := by
  unfold MrIss.loadX
  infer_instance

/-- A store, which leaves its fault, in both. -/
instance storeX (size : Size) (addr : VA) (val : Reg) :
    Couples (twins i j n) (storeX c size addr val) := by
  unfold MrIss.storeX
  infer_instance

/-- The fault of a translation is none of alignment. -/
theorem icbiCheck {va : VA} {res : Except Fault HVA}
    (hres : Mmu.FaultsIn (Mmu.TranslationFault false) res) :
    Couples (twins i j n) (icbiCheck va res) := by
  unfold MrIss.icbiCheck
  cases res with
  | ok pa => exact .pure ()
  | error f =>
    have hf : f ≠ .align := by
      rintro rfl
      rcases hres _ rfl with h | h | ⟨h, -⟩ <;> cases h
    exact .seq (raiseMem hf ..) fun _ => inferInstance

/-- The words of `lmw`, by induction on how many are left. -/
instance lmwLoop (left : ℕ) (reg : Reg) (base : VA) :
    Couples (twins i j n) (lmwLoop c left reg base) := by
  induction left generalizing reg base with
  | zero => exact .pure ()
  | succ left ih => unfold MrIss.lmwLoop; infer_instance

/-- The words of `stmw`, by induction on how many are left. -/
instance stmwLoop (left : ℕ) (reg : Reg) (base : VA) :
    Couples (twins i j n) (stmwLoop c left reg base) := by
  induction left generalizing reg base with
  | zero => exact .pure ()
  | succ left ih => unfold MrIss.stmwLoop; infer_instance

/-- The words of a string load, by induction on how many are left. -/
instance lswLoop (base : VA) (numbytes words k : ℕ) (reg : Reg) :
    Couples (twins i j n) (lswLoop c base numbytes words k reg) := by
  induction words generalizing k reg with
  | zero => exact .pure ()
  | succ words ih => unfold MrIss.lswLoop; infer_instance

/-- The bytes of a word of a string, by induction on how many are left. -/
instance stswBytes (addr : VA) (v : Reg) (bytes k : ℕ) :
    Couples (twins i j n) (stswBytes c addr v bytes k) := by
  induction bytes generalizing k with
  | zero => exact .pure ()
  | succ bytes ih => unfold MrIss.stswBytes; infer_instance

/-- The words of a string store, by induction on how many are left. -/
instance stswLoop (base : VA) (numbytes words k : ℕ) (reg : Reg) :
    Couples (twins i j n) (stswLoop c base numbytes words k reg) := by
  induction words generalizing k reg with
  | zero => exact .pure ()
  | succ words ih => unfold MrIss.stswLoop; infer_instance

/-- The words of a line, by induction on how many are left. -/
instance dcbzLoop (line : VA) (left k : ℕ) : Couples (twins i j n) (dcbzLoop c line left k) := by
  induction left generalizing k with
  | zero => exact .pure ()
  | succ left ih => unfold MrIss.dcbzLoop; infer_instance

/-! ## The table -/

/-- Arithmetic: every row runs as its twin. -/
theorem arithmeticRows : ∀ r ∈ arithmeticRows, ∀ w, Couples (twins i j n) (r.call w) := by
  simp only [MrIss.arithmeticRows, List.forall_mem_cons, List.not_mem_nil, false_imp_iff,
    implies_true, and_true]
  and_intros
  all_goals
    intro w
    simp only [Row.xo', Row.x, Row.d, argsABT, argsAT, argsASI, opAdd, opAddc, opAdde, opAddi,
      opAddis, opAddic, opAddicRc, opAddme, opAddze, opDivw, opDivwu, opMulhw, opMulhwu, opMulli,
      opMullw, opNeg, opSubf, opSubfc, opSubfe, opSubfic, opSubfme, opSubfze]
    infer_instance

/-- Logic, shifts and rotates: every row runs as its twin. -/
theorem logicalRows : ∀ r ∈ logicalRows, ∀ w, Couples (twins i j n) (r.call w) := by
  simp only [MrIss.logicalRows, List.forall_mem_cons, List.not_mem_nil, false_imp_iff,
    implies_true, and_true]
  and_intros
  all_goals
    intro w
    simp only [Row.x, Row.d, Row.m, argsSBA, argsSA, argsSUI, opAnd, opAndc, opAndiRc, opAndisRc,
      opCntlzw, opEqv, opExtsb, opExtsh, opNand, opNor, opOr, opOrc, opOri, opOris, opRlwimi,
      opRlwinm, opRlwnm, opSlw, opSraw, opSrawi, opSrw, opXor, opXori, opXoris, logicX, logicD,
      logicRS]
    infer_instance

/-- The condition register: every row runs as its twin. -/
theorem condRegRows : ∀ r ∈ condRegRows, ∀ w, Couples (twins i j n) (r.call w) := by
  simp only [MrIss.condRegRows, List.forall_mem_cons, List.not_mem_nil, false_imp_iff,
    implies_true, and_true]
  and_intros
  all_goals
    intro w
    simp only [Row.x, Row.d, Row.xl, Row.xfx, argsBits, opCmp, opCmpi, opCmpl, opCmpli, opCrand,
      opCrandc, opCreqv, opCrnand, opCrnor, opCror, opCrorc, opCrxor, crLogic, opMcrf, opMcrxr,
      opMfcr, opMtcrf]
    infer_instance

/-- A trap, in both. -/
instance trapIf (trap : Bool) : Couples (twins i j n) (trapIf trap) := by
  unfold MrIss.trapIf
  infer_instance

/-- The count of a branch, in both. -/
instance branchCTR (bo : Reg) (branch : Bool) : Couples (twins i j n) (branchCTR bo branch) := by
  unfold MrIss.branchCTR
  infer_instance

/-- A branch that is taken or not, in both. -/
instance branchTo (branch : Bool) (dest : VA) : Couples (twins i j n) (branchTo branch dest) := by
  unfold MrIss.branchTo
  infer_instance

/-- An unknown word is raised in both. -/
instance opUnk : Couples (twins i j n) opUnk := raisePROG _

/-- Branches and traps: every row runs as its twin. -/
theorem branchRows : ∀ r ∈ branchRows, ∀ w, Couples (twins i j n) (r.call w) := by
  simp only [MrIss.branchRows, List.forall_mem_cons, List.not_mem_nil, false_imp_iff,
    implies_true, and_true]
  and_intros
  all_goals
    intro w
    simp only [Row.x, Row.xl, Row.d, opB, opBc, opBclr, opBcctr, opSc, opTw, opTwi]
    infer_instance

/-- Loads: every row runs as its twin. -/
theorem loadRows : ∀ r ∈ loadRows c, ∀ w, Couples (twins i j n) (r.call w) := by
  have hload (size : Size) (ext : Reg → Reg) (rt : Reg) (upd : Option Reg) {ea : InterpM VA}
      [Couples (twins i j n) ea] : Couples (twins i j n) (loadTo c size ext rt upd ea) := by
    unfold loadTo
    infer_instance
  simp only [MrIss.loadRows, List.forall_mem_cons, List.not_mem_nil, false_imp_iff, implies_true,
    and_true]
  and_intros
  all_goals
    intro w
    exact hload _ _ _ _

/-- Stores: every row runs as its twin. -/
theorem storeRows : ∀ r ∈ storeRows c, ∀ w, Couples (twins i j n) (r.call w) := by
  have hstore (size : Size) (conv : Reg → Reg) (rs : Reg) (upd : Option Reg) {ea : InterpM VA}
      [Couples (twins i j n) ea] : Couples (twins i j n) (storeFrom c size conv rs upd ea) := by
    unfold storeFrom
    infer_instance
  simp only [MrIss.storeRows, List.forall_mem_cons, List.not_mem_nil, false_imp_iff, implies_true,
    and_true]
  and_intros
  all_goals
    intro w
    exact hstore _ _ _ _

/-- What is read from the interpreter's fields that are compared. -/
theorem interp_seq {β : Type} {f : InterpState → β} {k : β → InterpM α}
    (hf : ∀ p, f { p with pc := 0, inst := 0 } = f p) (hk : ∀ b, Couples (twins i j n) (k b)) :
    Couples (twins i j n) (Prog.gets Machine.interp >>= fun p => k (f p)) :=
  .gets_seq fun s t h => by
    rw [h.interp f hf]
    exact (hk _).out s t h

/-- `lwarx` and `stwcx.`: every row runs as its twin. -/
theorem reservationRows : ∀ r ∈ reservationRows c, ∀ w, Couples (twins i j n) (r.call w) := by
  have hreserve (addr : VA) : Couples (twins i j n) (Prog.modify fun s => { s with
      interp := { s.interp with
        reservationAddress := addr
        reservationGencount := s.interp.excGenerationCount } } : InterpM Unit) :=
    onInterp (fun p => { p with
      reservationAddress := addr
      reservationGencount := p.excGenerationCount }) (fun _ => rfl) fun _ => rfl
  have hstored (base : VA) (fault : Option Fault) := record (i := i) (j := j) (n := n)
    (e := .stwcxStore base fault) rfl
  have hmade (addr : VA) := record (i := i) (j := j) (n := n) (e := .lwarx addr) rfl
  have hdone := record (i := i) (j := j) (n := n) (e := .stwcx) rfl
  have hstore (base : VA) (v : Reg) : Couples (twins i j n) (condStore c base v) :=
    .seq inferInstance fun _ => interp_seq (f := InterpState.memAccessFault)
      (k := fun fault => do
        MrIss.record (.stwcxStore base fault)
        MrIss.mfcheck false) (fun _ => rfl) inferInstance
  simp only [MrIss.reservationRows, List.forall_mem_cons, List.not_mem_nil, false_imp_iff,
    implies_true, and_true]
  refine ⟨fun w => ?_, fun w => ?_⟩
  · simp only [Row.x, opLwarx]
    infer_instance
  · refine .seq inferInstance fun a => .seq inferInstance fun b => .seq inferInstance fun v =>
      .seq (gprs UserState.getXERSO) fun so => ?_
    refine interp_seq (f := fun p => p.reserved (a + b)) (k := fun held => do
      Prog.when held (condStore c (a + b) v)
      MrIss.blowReservation
      MrIss.record .stwcx
      let cr ← MrIss.readCR
      MrIss.writeCR (writeCRField cr 0 (if held then so ||| 2 else so))
      MrIss.incPC) (fun _ => rfl) inferInstance

/-- A block that is touched, in both. -/
instance touch (ra0 rb : Reg) : Couples (twins i j n) (touch c ra0 rb) := by
  unfold MrIss.touch
  infer_instance

/-- Cache blocks: every row runs as its twin. -/
theorem blockRows : ∀ r ∈ blockRows c, ∀ w, Couples (twins i j n) (r.call w) := by
  simp only [MrIss.blockRows, List.forall_mem_cons, List.not_mem_nil, false_imp_iff, implies_true,
    and_true]
  and_intros
  all_goals
    intro w
    simp only [Row.x, Row.xPriv, argsBlock, opDcbi, opDcbf, opDcbst, opDcbz]
    infer_instance

/-- `icbi`, in both. -/
instance opIcbi (ra0 rb : Reg) : Couples (twins i j n) (opIcbi c ra0 rb) := by
  refine .seq inferInstance fun va => .seq_of inferInstance
    (translating_returns fun _ => Mmu.translateAddr_faults) fun res hres => ?_
  exact .seq (icbiCheck hres) fun _ => inferInstance

/-- Caches: every row runs as its twin. -/
theorem cacheRows : ∀ r ∈ cacheRows c, ∀ w, Couples (twins i j n) (r.call w) := by
  simp only [MrIss.cacheRows, List.forall_mem_cons, List.not_mem_nil, false_imp_iff, implies_true,
    and_true]
  and_intros
  all_goals
    intro w
    simp only [Row.x, argsBlock, opDcba, opDcbt, opDcbtst, opIcbt, cacheNop]
    infer_instance

/-- Multiple words and strings: every row runs as its twin. -/
theorem multipleRows : ∀ r ∈ multipleRows c, ∀ w, Couples (twins i j n) (r.call w) := by
  simp only [MrIss.multipleRows, List.forall_mem_cons, List.not_mem_nil, false_imp_iff,
    implies_true, and_true]
  and_intros
  all_goals
    intro w
    simp only [Row.d, Row.xPriv, opLmw, opStmw, opLswi, opLswx, opStswi, opStswx]
    infer_instance

/-- A case of a number is coupled if every case is. -/
theorem sprCase {β : Type} {cases : List (ℕ × β)} {f : β → InterpM α}
    (h : ∀ k ∈ cases, Couples (twins i j n) (f k.2)) (spr : Reg) :
    Couples (twins i j n) ((sprCase cases spr).elim (Prog.abort (.spr spr.toNat)) f) := by
  cases hc : MrIss.sprCase cases spr with
  | none => exact .abort _
  | some x => exact h _ (sprCase_mem hc)

/-- A special register, to a register, in both. -/
theorem sprTo {cases : List (ℕ × InterpM Reg)} (h : ∀ k ∈ cases, Couples (twins i j n) k.2)
    (rt spr : Reg) : Couples (twins i j n) (sprTo rt spr cases) :=
  .seq (sprCase h spr) fun _ => inferInstance

/-- A register of the user is the same in both. -/
instance readUser (f : UserState → Reg) : Couples (twins i j n) (readUser f) := gprs f

/-- A register of the system is the same in both. -/
instance readOs (f : OsState → Reg) : Couples (twins i j n) (readOs f) := osRegs f

/-- The time base, in both. -/
theorem tbCases : ∀ k ∈ tbCases, Couples (twins i j n) k.2 := by
  simp only [MrIss.tbCases, List.forall_mem_cons, List.not_mem_nil, false_imp_iff, implies_true,
    and_true]
  exact ⟨readOs _, readOs _⟩

/-- The special registers that are read, in both. -/
theorem mfsprCases : ∀ k ∈ mfsprCases, Couples (twins i j n) k.2 := by
  have hpriv (f : OsState → Reg) : Couples (twins i j n) (readOsPriv f) :=
    .seq (readOs f) fun _ => inferInstance
  simp only [MrIss.mfsprCases, List.forall_mem_append, List.forall_mem_cons, List.not_mem_nil,
    false_imp_iff, implies_true, and_true]
  refine ⟨⟨⟨readUser _, readUser _, readUser _, .pure _⟩, tbCases⟩, readOs _, ?_⟩
  and_intros
  all_goals exact hpriv _

/-- Reads of special registers: every row runs as its twin. -/
theorem specialRows : ∀ r ∈ specialRows, ∀ w, Couples (twins i j n) (r.call w) := by
  have hspr := sprTo (mfsprCases (i := i) (j := j) (n := n))
  have htb := sprTo (tbCases (i := i) (j := j) (n := n))
  simp only [MrIss.specialRows, List.forall_mem_cons, List.not_mem_nil, false_imp_iff,
    implies_true, and_true]
  and_intros
  all_goals
    intro w
    simp only [Row.x, Row.xl, Row.xfx, Row.xPriv, opEieio, opIsync, opSync, opMfmsr, opMfspr,
      opMftb, opDEBUG, opMfsr, opMfsrin, opTlbsync]
    infer_instance

/-! ### System registers -/

/-- The BAT registers, in both. -/
theorem batCases {f g : Mmu → Fin 4 → BitVec 32 → Mmu} (hf : ∀ b v, Mmu.OfDataSide (f · b v))
    (hg : ∀ b v, Mmu.OfDataSide (g · b v)) (upper : List ℕ) :
    ∀ k ∈ batCases upper f g, ∀ v, Couples (twins i j n) (k.2 v) := by
  have hset {h : Mmu → Fin 4 → BitVec 32 → Mmu} (hh : ∀ b v, Mmu.OfDataSide (h · b v)) (k : ℕ)
      (v : Reg) : Couples (twins i j n) (writePriv (setBAT h k) v) :=
    .seq inferInstance fun _ => .seq inferInstance fun _ => remap (hh _ v)
  simp only [MrIss.batCases, List.mem_flatMap]
  rintro k ⟨x, -, hk⟩ v
  simp only [List.mem_cons, List.not_mem_nil, or_false] at hk
  rcases hk with rfl | rfl
  · exact hset hg _ v
  · exact hset hf _ v

/-- The call for debugging, in both. -/
instance helperDEBUG (v : Reg) : Couples (twins i j n) (helperDEBUG v) := by
  unfold MrIss.helperDEBUG
  infer_instance

/-- A privileged register, in both. -/
instance writePriv {f : Reg → InterpM Unit} [hf : ∀ v, Couples (twins i j n) (f v)] (v : Reg) :
    Couples (twins i j n) (writePriv f v) := .seq inferInstance fun _ => hf v

/-- The special registers that are written, in both. -/
theorem mtsprCases : ∀ k ∈ mtsprCases, ∀ v, Couples (twins i j n) (k.2 v) := by
  have hsdr (v : Reg) := remap (i := i) (j := j) (n := n) (Mmu.ofDataSide_setSDR1 v)
  simp only [MrIss.mtsprCases, List.forall_mem_append, List.forall_mem_cons, List.not_mem_nil,
    false_imp_iff, implies_true, and_true]
  refine ⟨⟨⟨?_, ?_⟩, ?_⟩, ?_⟩
  · and_intros
    all_goals infer_instance
  · exact batCases Mmu.ofDataSide_setIBATupper Mmu.ofDataSide_setIBATlower _
  · exact batCases Mmu.ofDataSide_setDBATupper Mmu.ofDataSide_setDBATlower _
  · and_intros
    all_goals infer_instance

/-- The system's registers: every row runs as its twin. -/
theorem systemRows : ∀ r ∈ systemRows, ∀ w, Couples (twins i j n) (r.call w) := by
  have hspr (v spr : Reg) := sprCase (i := i) (j := j) (n := n) (f := fun f => f v)
    (fun k hk => mtsprCases k hk v) spr
  have hsr (sr v : Reg) : Couples (twins i j n) (setSegmentReg sr v) :=
    .seq inferInstance fun _ => remap (Mmu.ofDataSide_setSegmentReg _ v)
  have htlbie : Couples (twins i j n) (MrIss.remap (·.tlbie)) := remap Mmu.ofDataSide_flush
  have htlbia : Couples (twins i j n) (MrIss.remap (·.tlbia)) := remap Mmu.ofDataSide_flush
  have hrfi := record (i := i) (j := j) (n := n) (e := .rfi) rfl
  simp only [MrIss.systemRows, List.forall_mem_cons, List.not_mem_nil, false_imp_iff,
    implies_true, and_true]
  and_intros
  all_goals
    intro w
    simp only [Row.xPriv, Row.xfx, opMtmsr, opMtspr, opRfi, opMtsr, opMtsrin, opTlbie, opTlbiel,
      opTlbia]
    infer_instance

/-- **What two machines show decides how every word is executed.** -/
instance decode (w : BitVec 32) : Couples (twins i j n) (decode c w) := by
  unfold MrIss.decode
  cases hrow : rowOf c w with
  | none => exact opUnk
  | some r =>
    have hr : r ∈ table c := (rowOf_mem hrow).1
    simp only [table, List.mem_append] at hr
    rcases hr with ((((((((((hr | hr) | hr) | hr) | hr) | hr) | hr) | hr) | hr) | hr) | hr) | hr
    · exact arithmeticRows r hr w
    · exact logicalRows r hr w
    · exact condRegRows r hr w
    · exact branchRows r hr w
    · exact loadRows r hr w
    · exact storeRows r hr w
    · exact reservationRows r hr w
    · exact blockRows r hr w
    · exact cacheRows r hr w
    · exact multipleRows r hr w
    · exact specialRows r hr w
    · exact systemRows r hr w

end Twin

end MrIss
