import MrIss.Interp.Table
import MrIss.Machine.Run
import MrIss.Mmu.Run
/-!
# User mode

What a program in user mode can do to the state it has no right to write.
The checks of privilege are calls of macros that do nothing, so the
instructions the table marks act in user mode as they do in supervisor
mode; all others leave system state alone, but for `mtspr` to HID0 and
HID1, which the table does not mark.
-/

namespace MrIss

open EarlyReturn

/-! ## What user mode is to keep -/

namespace Machine

/-- An exception has been taken: PC is at a vector, and PR is zero. -/
structure Taken (t : Machine) : Prop where
  pr : t.cpu.os.msr &&& msrPR = 0
  pc : ∃ e : Exception,
    t.cpu.user.pc = (if t.cpu.os.msr &&& msrIP = 0 then 0 else 0xfff00000#32) + e.vector

/-- System state is what it was. -/
structure SystemKept (s t : Machine) : Prop where
  msr : t.cpu.os.msr = s.cpu.os.msr
  srr0 : t.cpu.os.srr0 = s.cpu.os.srr0
  srr1 : t.cpu.os.srr1 = s.cpu.os.srr1
  sprg0 : t.cpu.os.sprg0 = s.cpu.os.sprg0
  sprg1 : t.cpu.os.sprg1 = s.cpu.os.sprg1
  sprg2 : t.cpu.os.sprg2 = s.cpu.os.sprg2
  dar : t.cpu.os.dar = s.cpu.os.dar
  dsisr : t.cpu.os.dsisr = s.cpu.os.dsisr
  dec : t.cpu.os.dec = s.cpu.os.dec
  tb : t.cpu.os.tb = s.cpu.os.tb
  hid0 : t.cpu.os.hid0 = s.cpu.os.hid0
  hid1 : t.cpu.os.hid1 = s.cpu.os.hid1
  sdr1 : t.cpu.os.sdr1 = s.cpu.os.sdr1
  htab : t.mem.mmu.htabPhys = s.mem.mmu.htabPhys ∧ t.mem.mmu.htabMask = s.mem.mmu.htabMask
  segreg : t.mem.mmu.segreg = s.mem.mmu.segreg
  ibat : t.mem.mmu.ibat = s.mem.mmu.ibat
  dbat : t.mem.mmu.dbat = s.mem.mmu.dbat

/-- All of the registers outside user state, and all of the MMU's. -/
def SameSystem (s t : Machine) : Prop :=
  t.cpu.os = s.cpu.os ∧ t.mem.mmu.registers = s.mem.mmu.registers

theorem SameSystem.trans {s t u : Machine} (h : SameSystem s t) (h' : SameSystem t u) :
    SameSystem s u := ⟨h'.1.trans h.1, h'.2.trans h.2⟩

theorem SameSystem.kept {s t : Machine} (h : SameSystem s t) : SystemKept s t := by
  obtain ⟨hos, hmmu⟩ := h
  have hreg {α : Type} (f : Mmu → α) : f t.mem.mmu.registers = f s.mem.mmu.registers :=
    congrArg f hmmu
  constructor
  case htab => exact ⟨hreg Mmu.htabPhys, hreg Mmu.htabMask⟩
  case segreg => exact hreg Mmu.segreg
  case ibat => exact hreg Mmu.ibat
  case dbat => exact hreg Mmu.dbat
  all_goals rw [hos]

/-- What `takeException` leaves is what an exception is to leave. -/
theorem enter_taken (s : Machine) (e : Exception) (v : Reg) : (s.enter e v).Taken := by
  have hmsr : (s.enter e v).cpu.os.msr = s.cpu.os.msr &&& msrIP := rfl
  refine ⟨?_, e, ?_⟩
  · rw [hmsr, BitVec.and_assoc, show msrIP &&& msrPR = 0#32 by decide, BitVec.and_zero]
    rfl
  · rw [enter_pc, hmsr, BitVec.and_assoc, BitVec.and_self]

end Machine

/-- Whether the table marks a word, itself or by its special register. -/
def isMarked (c : Config) (i : BitVec 32) : Bool := (rowOf c i).any (·.marked i)

/-- **User mode is kept out** by a word: where it does not end the process,
an exception has been taken or system state is what it was; and a word that
the table marks raises a program exception. -/
structure Confined (c : Config) (s : Machine) (i : BitVec 32) : Prop where
  kept : ∀ t, decode c i s = .ok () t ∨ decode c i s = .ret t → t.Taken ∨ s.SystemKept t
  marked : isMarked c i = true →
    ∃ evs, (decode c i s).state.trace = evs ++ s.trace ∧ .exception .prog ∈ evs

/-! ## Words that are not marked -/

/-- The frame of user mode. -/
def userFrame : Frame Machine where
  go := Machine.SameSystem
  leave s t := s.SameSystem t ∨ t.Taken
  stop _ _ := True
  go_refl _ := ⟨rfl, rfl⟩
  stop_refl _ := trivial
  go_go := Machine.SameSystem.trans
  go_leave h h' := h'.imp_left h.trans
  go_stop _ _ := trivial

/-- What raises an exception, or ends the process. -/
def Raises (x : InterpM Unit) : Prop :=
  ∀ s, (∃ t, x s = .ok () t ∧ t.Taken) ∨ ∃ e t, x s = .abort e t

theorem Raises.ends {x : InterpM Unit} (h : Raises x) : Ends userFrame x where
  out s := by
    rcases h s with ⟨t, hx, ht⟩ | ⟨e, t, hx⟩
    · rw [hx]
      exact .inr ht
    · rw [hx]
      trivial

theorem Raises.keeps {x : InterpM Unit} (h : Raises x) :
    Keeps userFrame (do x; Prog.ret : InterpM Unit) where
  out s := by
    rcases h s with ⟨t, hx, ht⟩ | ⟨e, t, hx⟩
    · rw [Prog.bind_of_ok hx]
      exact .inr ht
    · rw [Prog.bind_of_abort hx]
      trivial

theorem raises_mem (rnW inD : Bool) (addr : VA) (f : Fault) (inst : BitVec 32) :
    Raises (raiseMemException rnW inD addr f inst) := by
  intro s
  cases f with
  | noPage | perms =>
    cases inD with
    | false => exact .inl ⟨_, rfl, Machine.enter_taken ..⟩
    | true => exact .inl ⟨_, rfl, Machine.enter_taken ..⟩
  | noSegment => exact .inr ⟨_, _, rfl⟩
  | permsNX =>
    cases inD with
    | false => exact .inr ⟨_, _, rfl⟩
    | true => exact .inl ⟨_, rfl, Machine.enter_taken ..⟩
  | align => exact .inl ⟨_, rfl, Machine.enter_taken ..⟩

theorem raises_prog (reason : Reg) : Raises (raisePROGException reason) := fun s =>
  .inl ⟨_, rfl, s.enter_taken ..⟩

instance user_programOps : ProgramOps userFrame where
  leave_refl _ := .inl ⟨rfl, rfl⟩
  onUser _ _ := .modify fun _ => ⟨rfl, rfl⟩
  simQuit := .modify fun _ => ⟨rfl, rfl⟩
  translating _ _ hx := .seq inferInstance fun priv =>
    .zoom (hx priv) (fun _ _ h => ⟨rfl, h.registers⟩) (fun _ _ h => .inl ⟨rfl, h.registers⟩) fun _ _ _ => trivial
  accessed _ _ _ := .modify fun _ => ⟨rfl, rfl⟩
  mfcheck rnW := by
    refine .seq inferInstance fun i => ?_
    split
    · infer_instance
    · exact Raises.keeps (raises_mem rnW false _ _ _)
  icbiCheck va res := by
    have hraise (f : Fault) := Raises.keeps (raises_mem true false va f 0)
    unfold icbiCheck
    infer_instance
  raisePROG reason := Raises.keeps (raises_prog reason)
  endsPROG reason := Raises.ends (raises_prog reason)
  endsSC := Raises.ends fun s => .inl ⟨_, rfl, s.enter_taken ..⟩

instance user_xerOps : XerOps userFrame where
  setXER _ := .modify fun _ => ⟨rfl, rfl⟩

instance user_reservation (c : Config) (ra0 rb eh rt : Reg) :
    Keeps userFrame (opLwarx c ra0 rb eh rt) :=
  keeps_opLwarx (F := userFrame) (fun _ => .modify fun _ => ⟨rfl, rfl⟩)
    (fun _ => .modify fun _ => ⟨rfl, rfl⟩) ..

instance user_conditional (c : Config) (rs ra0 rb : Reg) : Keeps userFrame (opStwcx c rs ra0 rb) :=
  keeps_opStwcx (F := userFrame) (fun _ => .modify fun _ => ⟨rfl, rfl⟩)
    (fun _ _ => .modify fun _ => ⟨rfl, rfl⟩) ..

/-- Whether the table marks `mtspr` to a register. -/
def sprMarked (spr : Reg) : Bool := mtsprPriv.any fun m => spr &&& m.1 == m.2

/-- **The registers that user mode may write:** a case of `mtspr` that is
not marked writes no system state, or it is that of HID0 or HID1. -/
theorem keeps_unmarked_spr : ∀ k ∈ mtsprCases, sprMarked (BitVec.ofNat 32 k.1) = false →
    k.1 ≠ sprHID0 → k.1 ≠ sprHID1 → ∀ v, Keeps userFrame (k.2 v) := by
  have hbat {upper : List ℕ} {f g : Mmu → Fin 4 → BitVec 32 → Mmu}
      (h : (batCases upper f g).all (fun k => sprMarked (BitVec.ofNat 32 k.1)) = true) :
      ∀ k ∈ batCases upper f g, sprMarked (BitVec.ofNat 32 k.1) = false → k.1 ≠ sprHID0 →
        k.1 ≠ sprHID1 → ∀ v, Keeps userFrame (k.2 v) := by
    intro k hk hm
    rw [List.all_eq_true.mp h k hk] at hm
    cases hm
  have hmarked {n : ℕ} {f : Reg → InterpM Unit} (h : sprMarked (BitVec.ofNat 32 n) = true) :
      sprMarked (BitVec.ofNat 32 n) = false → n ≠ sprHID0 → n ≠ sprHID1 →
        ∀ v, Keeps userFrame (f v) := by
    intro hm
    rw [h] at hm
    cases hm
  have hdebug (v : Reg) : Keeps userFrame (writePriv helperDEBUG v) := .seq inferInstance fun _ =>
    keeps_helperDEBUG v
  have hnop (v : Reg) : Keeps userFrame (writePriv (fun _ => pure ()) v) :=
    .seq inferInstance fun _ => inferInstance
  simp only [mtsprCases, List.forall_mem_append, List.forall_mem_cons, List.not_mem_nil,
    false_imp_iff, implies_true, and_true]
  refine ⟨⟨⟨⟨fun _ _ _ _ => inferInstance, fun _ _ _ _ => inferInstance,
    fun _ _ _ _ => inferInstance, hmarked rfl, hmarked rfl⟩, hbat rfl⟩, hbat rfl⟩, ?_⟩
  exact ⟨hmarked rfl, hmarked rfl, hmarked rfl, hmarked rfl, hmarked rfl, hmarked rfl,
    hmarked rfl, hmarked rfl, hmarked rfl, hmarked rfl, hmarked rfl, fun _ h _ => absurd rfl h,
    fun _ _ h => absurd rfl h, fun _ _ _ => hdebug, fun _ _ _ => hnop, fun _ _ _ => hnop⟩

/-- A word of `mtspr` that changes HID0 or HID1. -/
def ChangesHID (s : Machine) (i : BitVec 32) : Prop :=
  isMtspr i = true ∧
    ((xfxSpr i).toNat = sprHID0 ∧
        s.cpu.user.gprs (Fin.ofNat 32 (xfxRS i).toNat) ≠ s.cpu.os.hid0 ∨
      (xfxSpr i).toNat = sprHID1 ∧
        s.cpu.user.gprs (Fin.ofNat 32 (xfxRS i).toNat) ≠ s.cpu.os.hid1)

/-- What a case of `mtspr` that writes one register of the OS does. -/
theorem opMtspr_os {spr rs : Reg} {f : Reg → OsState → OsState} (s : Machine) (hrs : rs < 32)
    (hspr : sprCase mtsprCases spr = some (writePriv fun v => onOs (f v))) :
    opMtspr spr rs s =
      .ok () ((s.setOs (f (s.cpu.user.gprs (Fin.ofNat 32 rs.toNat)) s.cpu.os)).setUser
        { s.cpu.user with pc := s.cpu.user.pc + 4 }) := by
  rw [opMtspr, Prog.bind_of_ok (readGPR_apply hrs s), hspr]
  rfl

/-- **A row that is not marked** leaves system state alone, or takes an
exception; `mtspr` is left to its register. -/
theorem ends_unmarked {c : Config} {r : Row} (hr : r ∈ table c) {i : BitVec 32}
    (hm : r.marked i = false)
    (hspr : r.xo = some 467 → Keeps userFrame (opMtspr (xfxSpr i) (xfxRS i))) :
    Ends userFrame (r.call i) := by
  have hends {x : InterpM Unit} (hx : Keeps userFrame x) : Ends userFrame x :=
    .of_keeps hx user_programOps.leave_refl
  simp only [table, List.mem_append] at hr
  rcases hr with ((((((((((hr | hr) | hr) | hr) | hr) | hr) | hr) | hr) | hr) | hr) | hr) | hr
  · exact hends (keeps_arithmeticRows r hr i)
  · exact hends (keeps_logicalRows r hr i)
  · exact hends (keeps_condRegRows r hr i fun _ => inferInstance)
  · exact ends_branchRows r hr i
  · exact hends (keeps_loadRows r hr i)
  · exact hends (keeps_storeRows r hr i)
  · simp only [reservationRows, List.mem_cons, List.not_mem_nil, or_false] at hr
    rcases hr with rfl | rfl
    · exact hends (user_reservation c _ _ (xEH i) _)
    · exact hends (user_conditional ..)
  · exact hends (keeps_blockRows r hr i)
  · exact hends (keeps_cacheRows r hr i)
  · exact hends (keeps_multipleRows r hr i)
  · exact hends (keeps_specialRows r hr i)
  · rw [Row.marked, Bool.or_eq_false_iff] at hm
    simp only [systemRows, List.mem_cons, List.not_mem_nil, or_false] at hr
    rcases hr with rfl | rfl | rfl | rfl | rfl | rfl | rfl | rfl
    all_goals first
      | exact hends (hspr rfl)
      | cases hm.1

/-! ## Words that are marked -/

/-- No program exception is among the new events. -/
theorem quiet_allows : Allows (Machine.Adds (· ≠ .exception .prog)) :=
  Machine.Adds.allows (by simp) (by simp) (by simp)

instance quiet_accessOps : AccessOps quiet_allows.frame := quiet_allows.accessOps

instance quiet_xerOps : XerOps quiet_allows.frame := quiet_allows.xerOps fun _ _ => .of_eq rfl

instance quiet_systemOps : SystemOps quiet_allows.frame :=
  quiet_allows.systemOps (fun _ _ _ => .cons rfl (by simp)) fun _ _ => .of_eq rfl

instance quiet_reservationOps : ReservationOps quiet_allows.frame :=
  quiet_allows.reservationOps quiet_systemOps (fun _ _ => .of_eq rfl) fun _ e he =>
    .cons rfl (by rintro rfl; cases he)

/-- **A row that is marked raises no program exception.** -/
theorem keeps_marked {c : Config} {r : Row} (hr : r ∈ table c) {i : BitVec 32}
    (hm : r.marked i = true) : Keeps quiet_allows.frame (r.call i) := by
  have hplain {rows : List Row} (h : (rows.all fun r => r.priv == .user && r.sprPriv.isEmpty) = true)
      (hr : r ∈ rows) : r.marked i = false := by
    have := List.all_eq_true.mp h r hr
    rw [Bool.and_eq_true, beq_iff_eq, List.isEmpty_iff] at this
    simp [Row.marked, this.1, this.2]
  have hno (rows : List Row) (h : (rows.all fun r => r.priv == .user && r.sprPriv.isEmpty) = true)
      (hr : r ∈ rows) : Keeps quiet_allows.frame (r.call i) := by
    rw [hplain h hr] at hm
    cases hm
  simp only [table, List.mem_append] at hr
  rcases hr with ((((((((((hr | hr) | hr) | hr) | hr) | hr) | hr) | hr) | hr) | hr) | hr) | hr
  · exact hno arithmeticRows rfl hr
  · exact hno logicalRows rfl hr
  · exact hno condRegRows rfl hr
  · exact hno branchRows rfl hr
  · exact hno (loadRows c) rfl hr
  · exact hno (storeRows c) rfl hr
  · exact hno (reservationRows c) rfl hr
  · exact keeps_blockRows r hr i
  · exact hno (cacheRows c) rfl hr
  · exact keeps_multipleRows r hr i
  · exact keeps_specialRows r hr i
  · exact keeps_systemRows quiet_reservationOps.opRfi r hr i fun _ =>
      keeps_opMtspr (fun _ => quiet_xerOps.setXER) _

/-! ## Which words are confined -/

/-- A word with no row raises a program exception. -/
theorem ends_decode_unmarked {c : Config} {i : BitVec 32} (hm : isMarked c i = false)
    (hspr : isMtspr i = true → Keeps userFrame (opMtspr (xfxSpr i) (xfxRS i))) :
    Ends userFrame (decode c i) := by
  unfold decode
  cases h : rowOf c i with
  | none => exact user_programOps.endsPROG _
  | some r =>
    obtain ⟨hr, hi⟩ := rowOf_mem h
    refine ends_unmarked hr (by simpa [isMarked, h] using hm) fun hxo => ?_
    exact hspr (isMtspr_of_accepts hr hi hxo)

theorem keeps_unmarked_mtspr {spr : Reg} (hm : sprMarked spr = false) (h0 : spr.toNat ≠ sprHID0)
    (h1 : spr.toNat ≠ sprHID1) (rs : Reg) : Keeps userFrame (opMtspr spr rs) := by
  refine .seq inferInstance fun v => .seq ?_ fun _ => inferInstance
  cases hc : sprCase mtsprCases spr with
  | none => exact .abort _
  | some f =>
    exact keeps_unmarked_spr _ (sprCase_mem hc) (by rwa [BitVec.ofNat_toNat, BitVec.setWidth_eq])
      h0 h1 v

/-- What `mtspr` to HID0 or HID1 leaves. -/
theorem decode_hid (c : Config) (s : Machine) {i : BitVec 32} (hi : isMtspr i = true)
    (hspr : (xfxSpr i).toNat = sprHID0 ∨ (xfxSpr i).toNat = sprHID1) :
    ∃ t, decode c i s = .ok () t ∧ t.mem = s.mem ∧
      (t.cpu.os = { s.cpu.os with hid0 := s.cpu.user.gprs (Fin.ofNat 32 (xfxRS i).toNat) } ∧
          (xfxSpr i).toNat = sprHID0 ∨
        t.cpu.os = { s.cpu.os with hid1 := s.cpu.user.gprs (Fin.ofNat 32 (xfxRS i).toNat) } ∧
          (xfxSpr i).toNat = sprHID1) := by
  have hrs : xfxRS i < 32 := field_lt 21 i
  rw [decode_mtspr c hi]
  rcases hspr with h | h
  · have hcase : sprCase mtsprCases (xfxSpr i) = some (writePriv fun v => onOs fun o =>
        { o with hid0 := v }) := by
      rw [show xfxSpr i = BitVec.ofNat 32 1008 from BitVec.eq_of_toNat_eq h]
      rfl
    exact ⟨_, opMtspr_os (f := fun v o => { o with hid0 := v }) s hrs hcase, rfl, .inl ⟨rfl, h⟩⟩
  · have hcase : sprCase mtsprCases (xfxSpr i) = some (writePriv fun v => onOs fun o =>
        { o with hid1 := v }) := by
      rw [show xfxSpr i = BitVec.ofNat 32 1009 from BitVec.eq_of_toNat_eq h]
      rfl
    exact ⟨_, opMtspr_os (f := fun v o => { o with hid1 := v }) s hrs hcase, rfl, .inr ⟨rfl, h⟩⟩

/-- A word that is marked is not confined. -/
theorem Confined.not_marked {c : Config} {s : Machine} {i : BitVec 32} (h : Confined c s i) :
    isMarked c i = false := by
  by_contra hm
  rw [Bool.not_eq_false] at hm
  obtain ⟨evs, hevs, hmem⟩ := h.marked hm
  obtain ⟨r, hrow, hrm⟩ : ∃ r, rowOf c i = some r ∧ r.marked i = true := by
    cases hrow : rowOf c i with
    | none => rw [isMarked, hrow] at hm; cases hm
    | some r => exact ⟨r, rfl, by rwa [isMarked, hrow] at hm⟩
  have hdecode : decode c i = r.call i := by rw [decode, hrow]; rfl
  obtain ⟨evs', hevs', hno⟩ := (keeps_marked (rowOf_mem hrow).1 hrm).state s
  rw [hdecode, hevs'] at hevs
  exact hno _ (List.append_cancel_right hevs ▸ hmem) rfl

/-- In user mode, nor is an `mtspr` that changes HID0 or HID1. -/
theorem Confined.not_changesHID {c : Config} {s : Machine} {i : BitVec 32}
    (hpr : s.cpu.os.msr &&& msrPR ≠ 0) (h : Confined c s i) : ¬ ChangesHID s i := by
  rintro ⟨hi, hspr⟩
  obtain ⟨t, ht, -, hos⟩ := decode_hid c s hi (hspr.imp And.left And.left)
  have hmsr : t.cpu.os.msr = s.cpu.os.msr := by
    rcases hos with ⟨hos, -⟩ | ⟨hos, -⟩ <;> rw [hos]
  rcases h.kept t (.inl ht) with htaken | hkept
  · exact hpr (hmsr ▸ htaken.pr)
  · have h0 := hkept.hid0
    have h1 := hkept.hid1
    rcases hos with ⟨hos, hn⟩ | ⟨hos, hn⟩ <;> rw [hos] at h0 h1
    · rcases hspr with ⟨-, hne⟩ | ⟨hn', -⟩
      · exact hne h0
      · exact absurd (hn.symm.trans hn') (by decide)
    · rcases hspr with ⟨hn', -⟩ | ⟨-, hne⟩
      · exact absurd (hn.symm.trans hn') (by decide)
      · exact hne h1

/-- What leaves the frame of user mode is confined. -/
theorem kept_of_ends {c : Config} {s t : Machine} {i : BitVec 32}
    (h : Ends userFrame (decode c i)) (ht : decode c i s = .ok () t ∨ decode c i s = .ret t) :
    t.Taken ∨ s.SystemKept t := by
  have hleave : s.SameSystem t ∨ t.Taken := ht.elim h.of_ok h.of_ret
  exact hleave.symm.imp_right Machine.SameSystem.kept

/-- **Which words user mode is kept out by.** With PR set, a word is
confined if and only if the table does not mark it and it is not an `mtspr`
that changes HID0 or HID1. -/
theorem confined_iff (c : Config) {s : Machine} (i : BitVec 32)
    (hpr : s.cpu.os.msr &&& msrPR ≠ 0) :
    Confined c s i ↔ isMarked c i = false ∧ ¬ ChangesHID s i := by
  refine ⟨fun h => ⟨h.not_marked, h.not_changesHID hpr⟩, fun ⟨hm, hhid⟩ => ?_⟩
  refine ⟨fun t ht => ?_, fun hmark => by rw [hm] at hmark; cases hmark⟩
  by_cases hspr : isMtspr i = true ∧ ((xfxSpr i).toNat = sprHID0 ∨ (xfxSpr i).toNat = sprHID1)
  · -- the register is written with the value that it has
    obtain ⟨u, hu, hmem, hos⟩ := decode_hid c s hspr.1 hspr.2
    rw [hu] at ht
    obtain rfl : u = t := by rcases ht with ht | ht <;> cases ht; rfl
    refine .inr (Machine.SameSystem.kept ⟨?_, by rw [hmem]⟩)
    rcases hos with ⟨hos, hn⟩ | ⟨hos, hn⟩
    · have hv : s.cpu.user.gprs (Fin.ofNat 32 (xfxRS i).toNat) = s.cpu.os.hid0 :=
        by_contra fun hne => hhid ⟨hspr.1, .inl ⟨hn, hne⟩⟩
      rw [hos, hv]
    · have hv : s.cpu.user.gprs (Fin.ofNat 32 (xfxRS i).toNat) = s.cpu.os.hid1 :=
        by_contra fun hne => hhid ⟨hspr.1, .inr ⟨hn, hne⟩⟩
      rw [hos, hv]
  · refine kept_of_ends (ends_decode_unmarked hm fun hi => ?_) ht
    rw [not_and, not_or] at hspr
    have hrow : sprMarked (xfxSpr i) = false := by
      rw [isMarked, rowOf_mtspr c hi] at hm
      exact hm
    exact keeps_unmarked_mtspr hrow (hspr hi).1 (hspr hi).2 _

/-- A machine in user mode. -/
def Machine.atUser : Machine := .boot 0x1000 0x4000 .zero .zero .fresh

/-- `addi 0,0,0` is confined. -/
theorem confined_addi : Machine.atUser.cpu.os.msr &&& msrPR ≠ 0 ∧
    (Confined (.quiet .default) .atUser 0x38000000 ↔
      isMarked (.quiet .default) 0x38000000 = false ∧ ¬ ChangesHID .atUser 0x38000000) :=
  ⟨by decide, confined_iff (.quiet .default) 0x38000000 (by decide)⟩

/-- `mtmsr 0` clears PR, and the program goes on. -/
theorem not_confined_mtmsr : ¬ ∀ (c : Config) (s : Machine) (i : BitVec 32),
    s.cpu.os.msr &&& msrPR ≠ 0 → Confined c s i := by
  intro hall
  have h := hall (.quiet .default) .atUser 0x7c000124 (by decide)
  have hrow : Row.xPriv 146 .supervisor (fun i => opMtmsr (xRS i)) ∈ table (.quiet .default) := by
    simp [table, systemRows]
  have hdecode : decode (.quiet .default) 0x7c000124 = opMtmsr 0 := decode_of_mem hrow (by decide)
  rcases h.kept _ (.inl (by rw [hdecode]; rfl)) with htaken | hkept
  · obtain ⟨e, he⟩ := htaken.pc
    revert he
    cases e <;> decide
  · have := hkept.msr
    revert this
    decide

end MrIss
