import MrIss.Mmu.Store
/-!
# Guest memory by bytes

A load or store of RAM through a translation of one page is the sequence
of its single-byte accesses, the most significant byte first. Two of the
three alignment settings let no other access through; the third does, and
translates the bytes beyond the page with the page before them.
-/

namespace MrIss

open EarlyReturn Run

namespace Mmu

variable {c : Config} {s t : Mem} {addr b : VA} {inD rnW priv : Bool} {pa h : HVA} {n : ℕ}

/-! ## A granted access stays granted -/

/-- What `do_lookup` grants is in the uTLB. -/
theorem doLookup_hit (n : ℕ) : ∀ s, doLookup c addr inD rnW priv n s = .ok (.ok h) t →
    ∃ p, t.mmu.utlbLookup inD priv addr = some (h, p) ∧ checkPerms c.build p rnW inD = true := by
  induction n with
  | zero => intro s hs; cases hs
  | succ n ih =>
    intro s hs
    rw [doLookup] at hs
    obtain ⟨res, u, -, hs⟩ := Prog.bind_eq_ok hs
    cases res with
    | error f => cases hs
    | ok r =>
      simp only [Prog.gets_bind_apply] at hs
      cases hl : u.mmu.utlbLookup inD priv addr with
      | none => rw [hl] at hs; cases hs
      | some q =>
        obtain ⟨k, p⟩ := q
        rw [hl] at hs
        simp only at hs
        split_ifs at hs with hc
        · cases hs
          exact ⟨p, hl, hc⟩
        · exact ih u hs
        · cases hs

/-- **What translation grants is in the uTLB,** whatever was in it
before. -/
theorem translateAddr_hit (ht : translateAddr c addr inD rnW priv s = .ok (.ok h) t) :
    ∃ p, t.mmu.utlbLookup inD priv addr = some (h, p) ∧ checkPerms c.build p rnW inD = true := by
  rw [translateAddr, Prog.gets_bind_apply] at ht
  cases hl : s.mmu.utlbLookup inD priv addr with
  | none => rw [hl] at ht; exact doLookup_hit 2 s ht
  | some q =>
    obtain ⟨k, p⟩ := q
    rw [hl] at ht
    simp only at ht
    split_ifs at ht with hc
    · cases ht
      exact ⟨p, hl, hc⟩
    · exact doLookup_hit 2 s ht
    · cases ht

/-- A page is granted: its entry lets the access through, to the host
address `h` of `addr`. -/
def Granted (c : Config) (m : Mmu) (addr : VA) (inD rnW priv : Bool) (h : HVA) : Prop :=
  ∃ p, m.utlbLookup inD priv addr = some (h, p) ∧ checkPerms c.build p rnW inD = true

/-- A granted access changes nothing. -/
theorem Granted.translateAddr (hg : Granted c s.mmu addr inD rnW priv h) :
    translateAddr c addr inD rnW priv s = .ok (.ok h) s := by
  obtain ⟨p, hl, hc⟩ := hg
  rw [Mmu.translateAddr, Prog.gets_bind_apply, hl]
  simp only [hc, if_true]
  rfl

/-- The address of a granted access has the offset of its own. -/
theorem Granted.offset (hg : Granted c s.mmu addr inD rnW priv h) :
    Block.offset 12 h = Block.offset 12 (addr.setWidth 64) := by
  obtain ⟨p, hl, -⟩ := hg
  obtain ⟨-, hpa, -⟩ := utlbLookup_eq_some.mp hl
  rw [← hpa, Utlb.getPA, Block.offset_join]

/-- **The page is granted as a whole,** byte after byte. -/
theorem Granted.add (hg : Granted c s.mmu addr inD rnW priv h) (hn : addr.toNat % 4096 + n < 4096) :
    Granted c s.mmu (addr + BitVec.ofNat 32 n) inD rnW priv (h + BitVec.ofNat 64 n) := by
  have hoff := hg.offset
  obtain ⟨p, hl, hc⟩ := hg
  refine ⟨p, ?_, hc⟩
  have hbase : Block.base 12 (addr + BitVec.ofNat 32 n) = Block.base 12 addr :=
    Block.base_add (by omega) (by omega)
  rw [utlbLookup_page hl hbase]
  have hset : (addr + BitVec.ofNat 32 n).setWidth 64 = addr.setWidth 64 + BitVec.ofNat 64 n := by
    apply BitVec.eq_of_toNat_eq
    have h₁ := Block.toNat_add_of_lt (k := 12) (x := addr) (n := n) (by omega) (by omega)
    have := (addr + BitVec.ofNat 32 n).isLt
    rw [BitVec.toNat_setWidth, h₁, BitVec.toNat_add, BitVec.toNat_setWidth, BitVec.toNat_ofNat]
    omega
  have hself : Block.base 12 h ||| Block.offset 12 (addr.setWidth 64) = h := by
    rw [← hoff]
    exact Block.ext (k := 12) (Block.base_join ..) (Block.offset_join ..)
  rw [hset, Block.join_add (by omega) (by rw [BitVec.toNat_setWidth]; omega), hself]

/-- RAM of a page is one piece of the host's memory. -/
theorem isDirect_add (hg : Granted c s.mmu addr inD rnW priv h)
    (hn : addr.toNat % 4096 + n < 4096) (hd : isDirect h = true) :
    isDirect (h + BitVec.ofNat 64 n) = true := by
  have hoff := congrArg BitVec.toNat hg.offset
  rw [Block.toNat_offset, Block.toNat_offset, BitVec.toNat_setWidth] at hoff
  have hbase : Block.base 12 (h + BitVec.ofNat 64 n) = Block.base 12 h :=
    Block.base_add (by omega) (by omega)
  unfold isDirect at hd ⊢
  rw [Block.getLsbD_of_base_eq hbase (by omega)]
  exact hd

/-! ## Single-byte accesses -/

/-- Loads of single bytes at consecutive addresses, each shifted in below
the bytes before it; the first fault ends them. -/
def loadBytes (c : Config) (priv : Bool) : ℕ → VA → BitVec 32 → MmuM (Except Fault (BitVec 32))
  | 0, _, acc => pure (.ok acc)
  | n + 1, addr, acc => do
    match ← load8 c addr priv with
    | .error f => pure (.error f)
    | .ok v => loadBytes c priv n (addr + 1) (acc <<< 8 ||| v)

/-- Stores of single bytes at consecutive addresses, the most significant
of the `n` low bytes of the value first. -/
def storeBytes (c : Config) (val : BitVec 32) (priv : Bool) : ℕ → VA → MmuM (Except Fault Unit)
  | 0, _ => pure (.ok ())
  | n + 1, addr => do
    match ← store8 c addr (val >>> (8 * n)) priv with
    | .error f => pure (.error f)
    | .ok () => storeBytes c val priv n (addr + 1)

/-- The value of `n` bytes of memory below those of `acc`. -/
def bytesFrom (mem : HostMem) : ℕ → HVA → BitVec 32 → BitVec 32
  | 0, _, acc => acc
  | n + 1, h, acc => bytesFrom mem n (h + 1) (acc <<< 8 ||| (mem h).setWidth 32)

/-- Memory with `n` bytes of the value put in. -/
def bytesTo (val : BitVec 32) : ℕ → HVA → HostMem → HostMem
  | 0, _, mem => mem
  | n + 1, h, mem => bytesTo val n (h + 1) (ByteMem.write8 mem h ((val >>> (8 * n)).setWidth 8))

/-- What a direct read gives. -/
def memRead (size : Size) (mem : HostMem) (h : HVA) : BitVec 32 :=
  match size with
  | .byte => (mem h).setWidth 32
  | .half => (ByteMem.swap16 (ByteMem.read16 mem h)).setWidth 32
  | .word => ByteMem.swap32 (ByteMem.read32 mem h)

theorem readPA_direct {size : Size} (hd : isDirect pa = true) :
    readPA c size pa s = .ok (memRead size s.sys.mem pa) s := by
  cases size <;> simp [readPA, hd, onBus, Prog.zoom, memRead, Prog.gets_bind_apply]

/-- **A word of guest memory is its bytes,** the most significant first. -/
theorem memRead_eq (size : Size) (mem : HostMem) (h : HVA) :
    memRead size mem h = bytesFrom mem size.bytes h 0 := by
  cases size with
  | byte => simp [memRead, Size.bytes, bytesFrom]
  | half =>
    rw [memRead, ByteMem.swap16_read16]
    simp only [Size.bytes, bytesFrom]
    ext i hi
    simp only [BitVec.getElem_setWidth, BitVec.getLsbD_append, BitVec.getElem_or,
      BitVec.getElem_shiftLeft]
    grind
  | word =>
    have h2 : h + 1 + 1 = h + 2#64 := by rw [BitVec.add_assoc]; rfl
    have h3 : h + 2#64 + 1 = h + 3#64 := by rw [BitVec.add_assoc]; rfl
    rw [memRead, ByteMem.swap32_read32]
    simp only [Size.bytes, bytesFrom, h2, h3]
    ext i hi
    simp only [BitVec.getElem_append, BitVec.getElem_setWidth, BitVec.getElem_or,
      BitVec.getElem_shiftLeft]
    grind

/-- **A word is written as its bytes,** the most significant first. -/
theorem memWrite_eq (size : Size) (mem : HostMem) (h : HVA) (val : BitVec 32) :
    memWrite size mem h val = bytesTo val size.bytes h mem := by
  have hb : ∀ n : ℕ, (val >>> (8 * n)).setWidth 8 = val.extractLsb' (8 * n) 8 := by
    intro n
    ext i hi
    simp
  cases size with
  | byte => simp [memWrite, Size.bytes, bytesTo]
  | half =>
    have h8 : (val.setWidth 16).extractLsb' 8 8 = val.extractLsb' (8 * 1) 8 := by
      ext i hi
      simp only [BitVec.getElem_extractLsb', BitVec.getLsbD_setWidth]
      grind
    have h0 : (val.setWidth 16).extractLsb' 0 8 = val.extractLsb' (8 * 0) 8 := by
      ext i hi
      simp only [BitVec.getElem_extractLsb', BitVec.getLsbD_setWidth]
      grind
    rw [memWrite, ByteMem.write16_swap16, h8, h0]
    simp only [Size.bytes, bytesTo, hb]
    rfl
  | word =>
    have h2 : h + 1 + 1 = h + 2#64 := by rw [BitVec.add_assoc]; rfl
    have h3 : h + 2#64 + 1 = h + 3#64 := by rw [BitVec.add_assoc]; rfl
    rw [memWrite, ByteMem.write32_swap32]
    simp only [Size.bytes, bytesTo, hb, h2, h3]
    rfl

/-! ## A word's access is its bytes' -/

/-- A single-byte access of a granted page. -/
theorem load8_granted (hg : Granted c s.mmu addr false true priv h) (hd : isDirect h = true) :
    load8 c addr priv s = .ok (.ok ((s.sys.mem h).setWidth 32)) s := by
  rw [load8, load, Prog.bind_of_ok hg.translateAddr]
  simp only
  rw [Prog.bind_of_ok (readPA_direct hd)]
  simp [alignFault, memRead]

theorem store8_granted {val : BitVec 32} (hg : Granted c s.mmu addr false false priv h)
    (hd : isDirect h = true) : store8 c addr val priv s = .ok (.ok ())
      { s with sys := { s.sys with mem := ByteMem.write8 s.sys.mem h (val.setWidth 8) } } := by
  rw [store8, store, Prog.bind_of_ok hg.translateAddr]
  simp only
  rw [Prog.bind_of_ok (writePA_direct hd)]
  simp [alignFault, memWrite]

/-- Loads of the bytes of one page. -/
theorem loadBytes_granted (n : ℕ) : ∀ {addr : VA} {h : HVA} (acc : BitVec 32),
    Granted c s.mmu addr false true priv h → isDirect h = true → addr.toNat % 4096 + n ≤ 4096 →
      loadBytes c priv n addr acc s = .ok (.ok (bytesFrom s.sys.mem n h acc)) s := by
  induction n with
  | zero => intro addr h acc _ _ _; rfl
  | succ n ih =>
    intro addr h acc hg hd hp
    rw [loadBytes, Prog.bind_of_ok (load8_granted hg hd)]
    rcases Nat.eq_zero_or_pos n with rfl | hn
    · rfl
    · have hnext : addr.toNat % 4096 + 1 < 4096 := by omega
      have haddr : (addr + 1).toNat = addr.toNat + 1 :=
        Block.toNat_add_of_lt (k := 12) (by omega) hnext
      exact ih _ (hg.add hnext) (isDirect_add hg hnext hd) (by rw [haddr]; omega)

/-- Stores of the bytes of one page. -/
theorem storeBytes_granted {val : BitVec 32} (n : ℕ) : ∀ {s : Mem} {addr : VA} {h : HVA},
    Granted c s.mmu addr false false priv h → isDirect h = true → addr.toNat % 4096 + n ≤ 4096 →
      storeBytes c val priv n addr s =
        .ok (.ok ()) { s with sys := { s.sys with mem := bytesTo val n h s.sys.mem } } := by
  induction n with
  | zero => intro s addr h _ _ _; rfl
  | succ n ih =>
    intro s addr h hg hd hp
    rw [storeBytes, Prog.bind_of_ok (store8_granted hg hd)]
    rcases Nat.eq_zero_or_pos n with rfl | hn
    · rfl
    · have hnext : addr.toNat % 4096 + 1 < 4096 := by omega
      have haddr : (addr + 1).toNat = addr.toNat + 1 :=
        Block.toNat_add_of_lt (k := 12) (by omega) hnext
      exact ih (hg.add hnext) (isDirect_add hg hnext hd) (by rw [haddr]; omega)

/-- The first byte's access makes the translation that the word's made. -/
theorem loadBytes_after {acc : BitVec 32} (n : ℕ)
    (ht : translateAddr c addr false true priv s = .ok (.ok h) t) :
    loadBytes c priv (n + 1) addr acc s = loadBytes c priv (n + 1) addr acc t := by
  have hload : load8 c addr priv s = load8 c addr priv t := by
    rw [load8, load, Prog.bind_of_ok ht, Prog.bind_of_ok (Granted.translateAddr (translateAddr_hit ht))]
  rw [loadBytes, Prog.bind_apply, hload, ← Prog.bind_apply]

theorem storeBytes_after {val : BitVec 32} (n : ℕ)
    (ht : translateAddr c addr false false priv s = .ok (.ok h) t) :
    storeBytes c val priv (n + 1) addr s = storeBytes c val priv (n + 1) addr t := by
  have hstore : ∀ v, store8 c addr v priv s = store8 c addr v priv t := by
    intro v
    rw [store8, store, Prog.bind_of_ok ht, Prog.bind_of_ok (Granted.translateAddr (translateAddr_hit ht))]
  rw [storeBytes, Prog.bind_apply, hstore, ← Prog.bind_apply]

theorem bytes_eq_succ (size : Size) : ∃ n, size.bytes = n + 1 := by
  cases size <;> exact ⟨_, rfl⟩

/-- **A load that succeeds is the loads of its bytes.** -/
theorem loadBytes_eq_load {size : Size} {v : BitVec 32}
    (hram : ∀ h u, translateAddr c addr false true priv s = .ok (.ok h) u → isDirect h = true)
    (hp : addr.toNat % 4096 + size.bytes ≤ 4096) (hl : load c size addr priv s = .ok (.ok v) t) :
    loadBytes c priv size.bytes addr 0 s = .ok (.ok v) t := by
  obtain ⟨res, u, ht, hl⟩ := Prog.bind_eq_ok hl
  cases res with
  | error f => cases hl
  | ok h =>
    have hd := hram h u ht
    simp only at hl
    rw [Prog.bind_of_ok (readPA_direct hd), Prog.pure_apply] at hl
    split_ifs at hl
    · cases hl
    cases hl
    obtain ⟨n, hn⟩ := bytes_eq_succ size
    rw [memRead_eq, hn, loadBytes_after n ht,
      loadBytes_granted (n + 1) 0 (translateAddr_hit ht) hd (by omega)]

/-- **A store that succeeds is the stores of its bytes.** -/
theorem storeBytes_eq_store {size : Size} {val : BitVec 32}
    (hram : ∀ h u, translateAddr c addr false false priv s = .ok (.ok h) u → isDirect h = true)
    (hp : addr.toNat % 4096 + size.bytes ≤ 4096)
    (hl : store c size addr val priv s = .ok (.ok ()) t) :
    storeBytes c val priv size.bytes addr s = .ok (.ok ()) t := by
  obtain ⟨res, u, ht, hl⟩ := Prog.bind_eq_ok hl
  cases res with
  | error f => cases hl
  | ok h =>
    have hd := hram h u ht
    simp only at hl
    rw [Prog.bind_of_ok (writePA_direct hd), Prog.pure_apply] at hl
    split_ifs at hl
    · cases hl
    cases hl
    obtain ⟨n, hn⟩ := bytes_eq_succ size
    rw [memWrite_eq, hn, storeBytes_after n ht,
      storeBytes_granted (n + 1) (translateAddr_hit ht) hd (by omega)]

/-- Alignment within 64 bits keeps an access in its page. -/
theorem inPage_of_aligned (size : Size) (hb : c.build.alignment ≠ .any)
    (ht : translateAddr c addr false rnW priv s = .ok (.ok h) t)
    (ha : alignFault c.build size h = false) : addr.toNat % 4096 + size.bytes ≤ 4096 := by
  have hoff := congrArg BitVec.toNat (Granted.offset (translateAddr_hit ht))
  rw [Block.toNat_offset, Block.toNat_offset, BitVec.toNat_setWidth] at hoff
  have h1 : (h &&& 1#64).toNat = h.toNat % 2 ^ 1 := Block.toNat_offset 1 h
  have h3 : (h &&& 3#64).toNat = h.toNat % 2 ^ 2 := Block.toNat_offset 2 h
  have h7 : (h &&& 7#64).toNat = h.toNat % 2 ^ 3 := Block.toNat_offset 3 h
  have := addr.isLt
  cases size with
  | byte => simp only [Size.bytes]; omega
  | half =>
    cases hk : c.build.alignment with
    | any => exact absurd hk hb
    | strict =>
      simp [alignFault, hk, ← BitVec.toNat_inj, h1] at ha
      simp only [Size.bytes]
      omega
    | within64 =>
      simp [alignFault, hk, ← BitVec.toNat_inj, h1, h7] at ha
      simp only [Size.bytes]
      omega
  | word =>
    cases hk : c.build.alignment with
    | any => exact absurd hk hb
    | strict =>
      simp [alignFault, hk, ← BitVec.toNat_inj, h3] at ha
      simp only [Size.bytes]
      omega
    | within64 =>
      simp [alignFault, hk, ← BitVec.toNat_inj, h3, BitVec.lt_def, h7] at ha
      simp only [Size.bytes]
      omega

/-! ## Runs -/

/-- A load or a store. -/
inductive Access where
  | load (size : Size) (addr : VA) (priv : Bool)
  | store (size : Size) (addr : VA) (val : BitVec 32) (priv : Bool)
  deriving DecidableEq, Repr

namespace Access

/-- What the access returns; a store returns no value. -/
def run (c : Config) : Access → MmuM (Except Fault (Option (BitVec 32)))
  | .load size addr priv => do
    let res ← Mmu.load c size addr priv
    pure (res.map some)
  | .store size addr val priv => do
    let res ← Mmu.store c size addr val priv
    pure (res.map fun _ => none)

/-- The same of the single-byte accesses. -/
def runBytes (c : Config) : Access → MmuM (Except Fault (Option (BitVec 32)))
  | .load size addr priv => do
    let res ← loadBytes c priv size.bytes addr 0
    pure (res.map some)
  | .store size addr val priv => do
    let res ← storeBytes c val priv size.bytes addr
    pure (res.map fun _ => none)

/-- An access to RAM: where translation lets it through, the host's memory
is accessed. -/
def ToRam (c : Config) (s : Mem) : Access → Prop
  | .load _ addr priv =>
    ∀ h t, translateAddr c addr false true priv s = .ok (.ok h) t → isDirect h = true
  | .store _ addr _ priv =>
    ∀ h t, translateAddr c addr false false priv s = .ok (.ok h) t → isDirect h = true

/-- The bytes of an access lie in one page. -/
def InPage : Access → Prop
  | .load size addr _ | .store size addr _ _ => addr.toNat % 4096 + size.bytes ≤ 4096

end Access

/-- A step of a run of loads and stores to RAM. -/
inductive RamStep (c : Config) : Mem → Access × Except Fault (Option (BitVec 32)) → Mem → Prop where
  | access {s t : Mem} {a : Access} {res : Except Fault (Option (BitVec 32))} (hram : a.ToRam c s)
      (h : a.run c s = .ok res t) : RamStep c s (a, res) t

/-- The same step where an access that is let through is made byte by
byte. -/
inductive ByteStep (c : Config) : Mem → Access × Except Fault (Option (BitVec 32)) → Mem → Prop where
  | bytes {s t : Mem} {a : Access} {v : Option (BitVec 32)} (h : a.runBytes c s = .ok (.ok v) t) :
      ByteStep c s (a, .ok v) t
  | fault {s t : Mem} {a : Access} {f : Fault} (h : a.run c s = .ok (.error f) t) :
      ByteStep c s (a, .error f) t

/-- An access that is let through stays in its page, but in the build that
takes any alignment. -/
theorem Access.inPage {a : Access} {v : Option (BitVec 32)} (hb : c.build.alignment ≠ .any)
    (h : a.run c s = .ok (.ok v) t) : a.InPage := by
  cases a with
  | load size addr priv =>
    obtain ⟨res, u, hl, hv⟩ := Prog.bind_eq_ok h
    cases res with
    | error f => cases hv
    | ok w =>
      obtain ⟨res, u, ht, hl⟩ := Prog.bind_eq_ok hl
      cases res with
      | error f => cases hl
      | ok k =>
        obtain ⟨w, u, -, hl⟩ := Prog.bind_eq_ok hl
        refine inPage_of_aligned size hb ht ?_
        by_contra hne
        rw [if_pos (by simpa using hne)] at hl
        cases hl
  | store size addr val priv =>
    obtain ⟨res, u, hl, hv⟩ := Prog.bind_eq_ok h
    cases res with
    | error f => cases hv
    | ok w =>
      obtain ⟨res, u, ht, hl⟩ := Prog.bind_eq_ok hl
      cases res with
      | error f => cases hl
      | ok k =>
        obtain ⟨w, u, -, hl⟩ := Prog.bind_eq_ok hl
        refine inPage_of_aligned size hb ht ?_
        by_contra hne
        rw [if_pos (by simpa using hne)] at hl
        cases hl

/-- **One access.** -/
theorem Access.runBytes_eq {a : Access} {v : Option (BitVec 32)} (hram : a.ToRam c s)
    (hp : a.InPage) (h : a.run c s = .ok (.ok v) t) : a.runBytes c s = .ok (.ok v) t := by
  cases a with
  | load size addr priv =>
    obtain ⟨res, u, hl, hv⟩ := Prog.bind_eq_ok h
    cases res with
    | error f => cases hv
    | ok w => rw [runBytes, Prog.bind_of_ok (loadBytes_eq_load hram hp hl)]; exact hv
  | store size addr val priv =>
    obtain ⟨res, u, hl, hv⟩ := Prog.bind_eq_ok h
    cases res with
    | error f => cases hv
    | ok w => rw [runBytes, Prog.bind_of_ok (storeBytes_eq_store hram hp hl)]; exact hv

/-- **Guest memory is big-endian byte memory.** From every state, a run of
loads and stores to RAM is, with the same results and through the same
states, a run in which every access that is let through is made byte by
byte, each byte translated by itself. In the build that takes any
alignment this asks that no access leave its page. -/
theorem ramSteps_bytes {es : List (Access × Except Fault (Option (BitVec 32)))}
    (hrun : Steps (RamStep c) s es t)
    (hpage : c.build.alignment = .any → ∀ e ∈ es, e.1.InPage) : Steps (ByteStep c) s es t := by
  induction hrun with
  | nil => exact .nil
  | snoc _ last ih =>
    refine .snoc (ih fun hb e he => hpage hb e (by simp [he])) ?_
    cases last with
    | @access _ a r hram h =>
      cases r with
      | error f => exact .fault h
      | ok v =>
        refine .bytes (Access.runBytes_eq hram ?_ h)
        by_cases hb : c.build.alignment = .any
        · exact hpage hb (a, .ok v) (by simp)
        · exact Access.inPage hb h

/-- In the build that takes any alignment, a word at the end of the page
of the sample table is loaded; the bytes beyond have no page. -/
theorem load_past_page :
    (∃ v t, (Access.load .word 0x1ffe true).run (.quiet ⟨true, .any⟩) ⟨paged, .onePage⟩ =
        .ok (.ok v) t) ∧
      ∃ t, (Access.load .word 0x1ffe true).runBytes (.quiet ⟨true, .any⟩) ⟨paged, .onePage⟩ =
        .ok (.error .noPage) t := by
  have hrun : ((Access.load .word 0x1ffe true).run (.quiet ⟨true, .any⟩) ⟨paged, .onePage⟩).test
      (fun res _ => res.toBool) := by decide +kernel
  have hbytes : ((Access.load .word 0x1ffe true).runBytes (.quiet ⟨true, .any⟩)
      ⟨paged, .onePage⟩).test fun res _ => decide (res = .error .noPage) := by decide +kernel
  obtain ⟨res, t, ht, hok⟩ := Out.of_test hrun
  obtain ⟨res', t', ht', hno⟩ := Out.of_test hbytes
  rw [decide_eq_true_eq] at hno
  subst hno
  cases res with
  | error f => cases hok
  | ok v => exact ⟨⟨v, t, ht⟩, t', ht'⟩

/-- A word that is not aligned, in the page of the sample table. -/
theorem ramSteps_bytes_paged : ∃ v t, Steps (ByteStep (.quiet ⟨true, .any⟩)) ⟨paged, .onePage⟩
    [(.load .word 0x1ffb true, .ok v)] t := by
  have hrun : ((Access.load .word 0x1ffb true).run (.quiet ⟨true, .any⟩) ⟨paged, .onePage⟩).test
      (fun res _ => res.toBool) := by decide +kernel
  have hram : (translateAddr (.quiet ⟨true, .any⟩) 0x1ffb false true true ⟨paged, .onePage⟩).test
      (fun res _ => res.toOption.all isDirect) := by decide +kernel
  obtain ⟨res, t, ht, hok⟩ := Out.of_test hrun
  cases res with
  | error f => cases hok
  | ok v =>
    refine ⟨v, t, ramSteps_bytes (.single (.access ?_ ht)) ?_⟩
    · intro h u hu
      rw [hu] at hram
      exact hram
    · intro _ e he
      obtain rfl := List.mem_singleton.mp he
      show (0x1ffb : VA).toNat % 4096 + 4 ≤ 4096
      decide

end Mmu

end MrIss
