import MrIss.Interp.Table
import MrIss.Machine.Run
import MrIss.Mmu.Run
/-!
# The byte count in XER

XER[25:31] says how many bytes the indexed string instructions move. The
setters of SO, OV and CA leave it alone; what writes XER as a whole is
`mtspr`, and `mcrxr`, which clears more than the bits it has moved.
-/

namespace MrIss

open EarlyReturn

/-- A word of `mtspr` to XER. -/
def isMtsprXER (i : BitVec 32) : Bool := isMtspr i && (xfxSpr i).toNat == sprXER

/-- The byte count. -/
def UserState.count (u : UserState) : Reg := u.xer &&& xerSTR

/-- The machines with one byte count. -/
theorem count_allows : Allows fun s t => t.cpu.user.count = s.cpu.user.count where
  refl _ := rfl
  trans h h' := h'.trans h
  user _ _ h := h
  quit _ := rfl
  translated _ _ _ _ := rfl
  accessed _ _ _ _ := rfl
  os _ _ _ := rfl
  enter _ _ _ _ := rfl
  fetched _ _ _ := rfl
  tick _ _ := rfl

theorem count_enter (s : Machine) (e : Exception) (v : Reg) :
    (s.enter e v).cpu.user.count = s.cpu.user.count := rfl

instance count_programOps : ProgramOps count_allows.frame :=
  count_allows.programOps fun s v => count_enter s .prog v

instance count_systemOps : SystemOps count_allows.frame :=
  count_allows.systemOps (fun _ _ _ => rfl) fun _ _ => rfl

instance count_reservationOps : ReservationOps count_allows.frame :=
  count_allows.reservationOps count_systemOps (fun _ _ => rfl) fun _ _ _ => rfl

/-- **What leaves the byte count alone:** every word but those two. -/
theorem count_kept (c : Config) (s : Machine) {i : BitVec 32} (hm : isMcrxr i = false)
    (hx : isMtsprXER i = false) :
    (decode c i s).state.cpu.user.count = s.cpu.user.count := by
  suffices h : Ends count_allows.frame (decode c i) from h.state s
  unfold decode
  cases hrow : rowOf c i with
  | none => exact count_programOps.endsPROG _
  | some r =>
    obtain ⟨hr, hi⟩ := rowOf_mem hrow
    refine ends_table c r hr (fun hxo => ?_) fun hxo => keeps_opMtspr (fun hspr => ?_) _
    · rw [isMcrxr_of_accepts hr hi hxo] at hm
      cases hm
    · simp [isMtsprXER, isMtspr_of_accepts hr hi hxo, hspr] at hx

/-- `mcrxr` leaves no byte count. -/
theorem opMcrxr_count (bf : Reg) (s : Machine) :
    (opMcrxr bf s).state.cpu.user.count = 0 := by
  change 0#32 &&& 0xe000007f#32 &&& xerSTR = 0
  decide

/-- A machine whose XER has a count of eight bytes. -/
def Machine.atCount : Machine :=
  (Machine.boot 0x1000 0 .zero .zero .fresh).setUser { CpuState.construct.user with xer := 8 }

/-- **When the byte count survives.** A word other than an `mtspr` to XER,
executed in any state and whatever exception it raises, leaves XER[25:31]
as it was, if and only if it is not an `mcrxr`, or the count was zero. -/
theorem count_kept_iff (c : Config) (s : Machine) {i : BitVec 32} (hx : isMtsprXER i = false) :
    (decode c i s).state.cpu.user.count = s.cpu.user.count ↔
      isMcrxr i = false ∨ s.cpu.user.count = 0 := by
  cases hm : isMcrxr i with
  | false => exact ⟨fun _ => .inl rfl, fun _ => count_kept c s hm hx⟩
  | true =>
    rw [decode_mcrxr c hm, opMcrxr_count]
    refine ⟨fun h => .inr h.symm, fun h => ?_⟩
    rcases h with h | h
    · cases h
    · exact h.symm

/-- `mcrxr 0` with eight bytes to move. -/
theorem count_kept_mcrxr : isMtsprXER 0x7c000400 = false ∧
    ((decode (.quiet .default) 0x7c000400 .atCount).state.cpu.user.count =
        Machine.atCount.cpu.user.count ↔
      isMcrxr 0x7c000400 = false ∨ Machine.atCount.cpu.user.count = 0) :=
  ⟨by decide, count_kept_iff (.quiet .default) .atCount (by decide)⟩

/-- After it no byte is moved. -/
theorem count_lost : ¬ ∀ (c : Config) (s : Machine) (i : BitVec 32), isMtsprXER i = false →
    (decode c i s).state.cpu.user.count = s.cpu.user.count := by
  intro hall
  have h := hall (.quiet .default) .atCount 0x7c000400 (by decide)
  rw [decode_mcrxr _ (by decide), opMcrxr_count] at h
  revert h
  decide

end MrIss
