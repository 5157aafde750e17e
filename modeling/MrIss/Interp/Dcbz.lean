import MrIss.Interp.Checked
import MrIss.Mmu.Strings
/-!
# The line that `dcbz` zeroes

`dcbz` makes eight stores, each with a translation and a check of its own.
A line is aligned and lies in one page, so that none is misaligned and the
translation that the first store makes is there for the others: only the
first can fault, before it has written anything.
-/

namespace MrIss

open EarlyReturn

/-! ## Words of a line -/

namespace Mmu

variable {c : Config} {priv : Bool} {s : Mem} {addr : VA} {h : HVA}

theorem alignFault_of_aligned (b : Build) {x : HVA} (hx : x.toNat % 4 = 0) :
    alignFault b .word x = false := by
  have hlow : x &&& 3#64 = 0#64 := by
    apply BitVec.eq_of_toNat_eq
    rw [BitVec.toNat_and, show (3#64).toNat = 2 ^ 2 - 1 from rfl, Nat.and_two_pow_sub_one_eq_mod]
    exact hx
  unfold alignFault
  rw [hlow]
  cases b.alignment <;> rfl

/-- An aligned word is stored in a page that is granted. -/
theorem store32_granted {v : BitVec 32} (hg : Granted c s.mmu addr false false priv h)
    (hd : isDirect h = true) (ha : addr.toNat % 4 = 0) :
    store c .word addr v priv s = .ok (.ok ()) (put s h (ByteMem.ofWord v)) := by
  have hoff := congrArg BitVec.toNat hg.offset
  rw [Block.toNat_offset, Block.toNat_offset, BitVec.toNat_setWidth] at hoff
  have hmem : memWrite .word s.sys.mem h v = ByteMem.writeBytes s.sys.mem h (ByteMem.ofWord v) :=
    ByteMem.write32_eq_writeBytes _ _ _ (by decide)
  rw [store, Prog.bind_of_ok hg.translateAddr]
  dsimp only
  rw [Prog.bind_of_ok (writePA_direct hd), alignFault_of_aligned _ (by omega), hmem]
  rfl

theorem put_append {bs cs : List (BitVec 8)} (hlen : bs.length + cs.length ≤ 2 ^ 64) :
    put s h (bs ++ cs) = put (put s h bs) (h + BitVec.ofNat 64 bs.length) cs := by
  rw [put, put, put, ByteMem.writeBytes_append _ _ hlen]

end Mmu

variable {c : Config} {line : VA} {h : HVA}

/-- **Words of a line that is granted** are zeroed, to its end. -/
theorem dcbzLoop_granted (hline : line.toNat % 32 = 0) (hd : Mmu.isDirect h = true) (left : ℕ) :
    ∀ {i : ℕ} {s : Machine}, i + left = 8 →
      Mmu.Granted c s.mem.mmu line false false s.cpu.isPrivileged h →
      ∃ t, dcbzLoop c line left i s = .ok () t ∧ t.cpu = s.cpu ∧
        t.mem = Mmu.put s.mem (h + BitVec.ofNat 64 (4 * i)) (List.replicate (4 * left) 0) := by
  induction left with
  | zero => exact fun _ _ => ⟨_, rfl, rfl, rfl⟩
  | succ left ih =>
    intro i s hi hg
    have hin : line.toNat % 4096 + 4 * i < 4096 := by omega
    have haddr : (line + BitVec.ofNat 32 (4 * i)).toNat = line.toNat + 4 * i :=
      Block.toNat_add_of_lt (k := 12) (by omega) hin
    have hstore := Mmu.store32_granted (v := 0) (hg.add hin) (Mmu.isDirect_add hg hin hd) (by omega)
    rw [dcbzLoop, Nat.mul_comm i 4, storeX_checked, hstore]
    dsimp only
    let m := Mmu.put s.mem (h + BitVec.ofNat 64 (4 * i)) (ByteMem.ofWord 0)
    have hg' : Mmu.Granted c m.mmu line false false s.cpu.isPrivileged h := hg
    obtain ⟨t, ht, hcpu, hmem⟩ := ih (s := s.passed false (line + BitVec.ofNat 32 (4 * i)) m)
      (i := i + 1) (by omega) hg'
    refine ⟨t, ht, hcpu, ?_⟩
    have hzero : List.replicate (4 * (left + 1)) (0 : BitVec 8) =
        ByteMem.ofWord 0 ++ List.replicate (4 * left) 0 := by
      rw [show ByteMem.ofWord 0 = List.replicate 4 (0 : BitVec 8) by decide,
        List.replicate_append_replicate]
      congr 1
      omega
    rw [hmem, hzero, Mmu.put_append (by simp; omega), ByteMem.length_ofWord, BitVec.add_assoc,
      BitVec.ofNat_add_ofNat, Nat.mul_succ]
    rfl

/-! ## The instruction -/

/-- A word of `dcbz`. -/
def isDcbz (i : BitVec 32) : Bool := (getOpcode i).toNat == 31 && (xXOPC i).toNat == 1014

namespace Machine

/-- The line that a word of `dcbz` names. -/
def dcbzLine (s : Machine) (i : BitVec 32) : VA :=
  ((if xRA0 i = 0 then 0 else s.gpr (xRA0 i)) + s.gpr (xRB i)) &&& ~~~31

theorem dcbzLine_aligned (s : Machine) (i : BitVec 32) : (s.dcbzLine i).toNat % 32 = 0 := by
  have hbase : s.dcbzLine i = Block.base 5 (s.dcbzLine i) := by
    rw [dcbzLine]
    exact (Block.base_base 5 _).symm
  rw [hbase, Block.toNat_base]
  omega

end Machine

theorem decode_dcbz (c : Config) {i : BitVec 32} (h : isDcbz i = true) (s : Machine) :
    decode c i s = (dcbzLoop c (s.dcbzLine i) 8 0 >>= fun _ => incPC) s := by
  rw [isDcbz, Bool.and_eq_true, beq_iff_eq, beq_iff_eq] at h
  have hra : xRA i < 32 := field_lt 16 i
  have hrb : xRB i < 32 := field_lt 11 i
  have hrow : Row.x 1014 (argsBlock (opDcbz c)) ∈ table c := by simp [table, blockRows]
  rw [decode_x hrow h.1 h.2]
  show opDcbz c (xRA i) (xRB i) s = _
  rw [opDcbz, eaX, Prog.bind_assoc, readGPROZ_bind s hra, Prog.bind_assoc, readGPR_bind s hrb]
  rfl

section

variable (c : Config) (s : Machine) (line : VA)

/-- The translation that a store makes. -/
def storeTranslation : Out Abort Mem (Except Fault HVA) :=
  Mmu.translateAddr c line false false s.cpu.isPrivileged s.mem

/-- An address is mapped to RAM: a store's translation does not end the
process, and leads to a byte of RAM where it grants the store. -/
def MappedToRam : Prop :=
  ∃ res m, storeTranslation c s line = .ok res m ∧ ∀ h, res = .ok h → ∃ pa, c.map.ramAt pa = some h

/-- **The line has been zeroed:** of the memory that the translation leaves,
the 32 bytes of the physical line and no others; and no register has
changed but PC. -/
structure LineZeroed (t : Machine) : Prop where
  registers : t.cpu = { s.cpu with user := { s.cpu.user with pc := s.cpu.user.pc + 4 } }
  memory : ∃ pa h m, storeTranslation c s line = .ok (.ok h) m ∧ c.map.ramAt pa = some h ∧
    pa.toNat % 32 = 0 ∧
    (∀ k < 32, ∃ g, c.map.ramAt (pa + BitVec.ofNat 32 k) = some g ∧ t.mem.sys.mem g = 0) ∧
    (∀ g, (∀ k < 32, c.map.ramAt (pa + BitVec.ofNat 32 k) ≠ some g) →
      t.mem.sys.mem g = m.sys.mem g)

/-- **Nothing has been zeroed:** one exception has been raised, memory is
what the translation leaves, and the user registers are what they were. -/
structure LineKept (t : Machine) : Prop where
  exception : ∃ evs, t.trace = .exception .dsi :: (evs ++ s.trace) ∧
    ∀ e ∈ evs, ∀ x, e ≠ .exception x
  registers : t.cpu.user = { s.cpu.user with pc := t.cpu.user.pc }
  memory : ∃ f m, storeTranslation c s line = .ok (.error f) m ∧ t.mem.sys = m.sys

end

/-- Bytes of a physical line are bytes of the host. -/
theorem line_put {B : PagedBus} {pa : PA} {h : HVA} (hpa : B.ramAt pa = some h)
    (hline : pa.toNat % 32 = 0) (mem : HostMem) :
    (∀ k < 32, ∃ g, B.ramAt (pa + BitVec.ofNat 32 k) = some g ∧
      ByteMem.writeBytes mem h (List.replicate 32 0) g = 0) ∧
    ∀ g, (∀ k < 32, B.ramAt (pa + BitVec.ofNat 32 k) ≠ some g) →
      ByteMem.writeBytes mem h (List.replicate 32 0) g = mem g := by
  have hat (k : ℕ) (hk : k < 32) :
      B.ramAt (pa + BitVec.ofNat 32 k) = some (h + BitVec.ofNat 64 k) :=
    PagedBus.ramAt_add (by omega) hpa
  refine ⟨fun k hk => ⟨_, hat k hk, ?_⟩, fun g hg => ?_⟩
  · exact ByteMem.writeBytes_add (by omega) (by rw [List.getElem?_replicate, if_pos hk])
  · refine ByteMem.writeBytes_of_le ?_
    rw [List.length_replicate]
    by_contra hlt
    refine hg (g - h).toNat (by omega) ?_
    rw [hat _ (by omega), BitVec.ofNat_toNat, BitVec.setWidth_eq, BitVec.add_comm,
      BitVec.sub_add_cancel]

/-- **`dcbz` zeroes a line of RAM, or leaves it.** -/
theorem decoded_dcbz (c : Config) {i : BitVec 32} (hi : isDcbz i = true) (s : Machine)
    (hram : MappedToRam c s (s.dcbzLine i)) :
    ((∃ t, decode c i s = .ok () t ∧ LineZeroed c s (s.dcbzLine i) t) ∨
      ∃ t, decode c i s = .ret t ∧ LineKept c s (s.dcbzLine i) t) ∧
    ∀ res m, storeTranslation c s (s.dcbzLine i) = .ok res m →
      Mmu.WalkInRam c.map s.mem.mmu (s.dcbzLine i) false s.cpu.isPrivileged →
        Mmu.RcUpdate c.map s.mem.sys.mem m.sys.mem := by
  refine ⟨?_, fun res m hm hw => (Mmu.translateAddr_noEffect hw hm).mem⟩
  have hline := s.dcbzLine_aligned i
  rw [decode_dcbz c hi]
  generalize s.dcbzLine i = line at hram hline ⊢
  obtain ⟨res, m, htr, hres⟩ := hram
  have hloop : dcbzLoop c line 8 0 s = (storeX c .word line 0 >>= fun _ => mfcheck false >>= fun _ =>
      dcbzLoop c line 7 1) s := by
    rw [dcbzLoop, Nat.zero_mul, BitVec.add_zero]
  rw [storeX_checked] at hloop
  cases res with
  | error f =>
    have hstore : Mmu.store c .word line 0 s.cpu.isPrivileged s.mem = .ok (.error f) m := by
      rw [Mmu.store, Prog.bind_of_ok htr]
      rfl
    rw [hstore] at hloop
    have hkept : ∃ t, dcbzLoop c line 8 0 s = .ret t ∧ LineKept c s line t := by
      rw [hloop]
      have hone : ∀ e ∈ [Event.access false line (some f), .translate false s.mem.mmu.enabledI
          s.mem.mmu.enabledD s.cpu.os.msr], ∀ x, e ≠ .exception x := by
        simp
      rcases Mmu.translateAddr_faults _ _ _ htr f rfl with rfl | rfl | ⟨rfl, hno⟩
      · exact ⟨_, rfl, ⟨_, rfl, hone⟩, rfl, _, m, htr, rfl⟩
      · exact ⟨_, rfl, ⟨_, rfl, hone⟩, rfl, _, m, htr, rfl⟩
      · cases hno
    obtain ⟨t, ht, hkept⟩ := hkept
    exact .inr ⟨t, Prog.bind_of_ret ht, hkept⟩
  | ok h =>
    obtain ⟨pa, hpa⟩ := hres h rfl
    have hd : Mmu.isDirect h = true := isDirect_of_ramAt hpa
    have hg : Mmu.Granted c m.mmu line false false s.cpu.isPrivileged h := Mmu.translateAddr_hit htr
    have hstore : Mmu.store c .word line 0 s.cpu.isPrivileged s.mem =
        .ok (.ok ()) (Mmu.put m h (ByteMem.ofWord 0)) := by
      rw [Mmu.store_after 0 htr]
      exact Mmu.store32_granted hg hd (by omega)
    rw [hstore] at hloop
    dsimp only at hloop
    have hg' : Mmu.Granted c (s.passed false line (Mmu.put m h (ByteMem.ofWord 0))).mem.mmu line
      false false s.cpu.isPrivileged h := hg
    obtain ⟨t, ht, hcpu, hmem⟩ := dcbzLoop_granted hline hd 7 (i := 1) rfl hg'
    rw [ht] at hloop
    refine .inl ⟨t.setUser { t.cpu.user with pc := t.cpu.user.pc + 4 },
      Prog.bind_of_ok hloop, ?_, pa, h, m, htr, hpa, ?_⟩
    · rw [Machine.setUser, hcpu]
      rfl
    have hoff := congrArg BitVec.toNat hg.offset
    rw [Block.toNat_offset, Block.toNat_offset, BitVec.toNat_setWidth] at hoff
    have hpage := PagedBus.ramAt_offset hpa
    have hlow : pa.toNat % 32 = 0 := by omega
    have hjoin : Mmu.put m h (ByteMem.ofWord 0 ++ List.replicate 28 0) =
        Mmu.put (Mmu.put m h (ByteMem.ofWord 0)) (h + BitVec.ofNat 64 4) (List.replicate 28 0) :=
      Mmu.put_append (by simp)
    have hall : t.mem = Mmu.put m h (List.replicate 32 0) := hmem.trans hjoin.symm
    refine ⟨hlow, ?_⟩
    show (∀ k < 32, ∃ g, _ ∧ t.mem.sys.mem g = 0) ∧ ∀ g, _ → t.mem.sys.mem g = _
    rw [hall]
    exact line_put hpa hlow m.sys.mem

/-- RAM with a hash table at 0x10000 whose one entry maps the page at
0x1000 to the table's own page. -/
def Sys.tablePage : Sys :=
  ⟨fun a => if a = 0x10010040 then 0x80 else if a = 0x10010045 then 0x01
    else if a = 0x10010047 then 0x02 else 0, [], 0⟩

/-- The line of the entry itself, by `dcbz 0,4`. -/
theorem decoded_dcbz_table :
    let s : Machine := { Machine.holding 0x1040 0 with mem := ⟨Mmu.paged, .tablePage⟩ }
    ∃ t, decode (.quiet .default) 0x7c0027ec s = .ok () t ∧
      LineZeroed (.quiet .default) s 0x1040 t := by
  intro s
  have key : (storeTranslation (.quiet .default) s 0x1040).test
      fun res _ => decide (res.toOption = some 0x10010040) := by
    decide +kernel
  obtain ⟨res, m, hm, hres⟩ := Out.of_test key
  have hline : s.dcbzLine 0x7c0027ec = 0x1040 := by decide
  have hram : MappedToRam (.quiet .default) s (s.dcbzLine 0x7c0027ec) := by
    rw [hline]
    refine ⟨res, m, hm, ?_⟩
    rintro h rfl
    cases Option.some_inj.mp (of_decide_eq_true hres)
    exact ⟨0x10040, rfl⟩
  obtain ⟨⟨t, ht, hzero⟩ | ⟨t, -, hkept⟩, -⟩ := decoded_dcbz (.quiet .default) (i := 0x7c0027ec)
    (by decide) s hram
  · rw [hline] at hzero
    exact ⟨t, ht, hzero⟩
  · obtain ⟨f, m', hf, -⟩ := hkept.memory
    rw [hline, hm] at hf
    cases hf
    cases of_decide_eq_true hres

end MrIss
