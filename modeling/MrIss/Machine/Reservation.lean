import MrIss.Interp.Table
import MrIss.Lib.Licence
import MrIss.Machine.Run
import MrIss.Mmu.Run
/-!
# Reservations

`lwarx` grants a licence to its address, `rfi` and a completed `stwcx.`
revoke it, and `exc_generation_count` is the counter that keeps it. What
`stwcx.` compares decides whether it is licensed; exceptions and changes
of the MMU's mappings are no revocations.
-/

namespace MrIss

open EarlyReturn Licence Run

/-- The events that reservations are kept by. -/
def reservationKind : Kind Event VA where
  grants
    | .lwarx addr => some addr
    | _ => none
  revokes
    | .stwcx | .rfi => true
    | _ => false
  apart e h := by cases e <;> first | rfl | cases h

/-- Events that are about something else change no licence. -/
theorem Event.other {e : Event} (h : e.ofReservation = false) :
    reservationKind.grants e = none ∧ reservationKind.revokes e = false := by
  cases e <;> first | exact ⟨rfl, rfl⟩ | cases h

section

variable (i : InterpState)

/-- The `stwcx.` of an address is licensed; `i` is what the memory held
before the interpreter was constructed. -/
def Licensed (tr : List Event) (addr : VA) : Prop :=
  Licence.Licensed (K := reservationKind) i.reservationAddress i.reservationGencount tr addr

instance (tr : List Event) (addr : VA) : Decidable (Licensed i tr addr) :=
  inferInstanceAs (Decidable (Licence.Licensed ..))

/-- Every store without a fault has been followed by a revocation. -/
def Settled (tr : List Event) : Prop :=
  ∀ post addr pre, tr = post ++ .stwcxStore addr none :: pre →
    1 ≤ revocations reservationKind post

/-- Every store that `stwcx.` has called has a property: of its address,
its fault, and the trace before it. -/
def Stores (P : VA → Option Fault → List Event → Prop) (tr : List Event) : Prop :=
  ∀ post addr f pre, tr = post ++ .stwcxStore addr f :: pre → P addr f pre

/-- Every store that `stwcx.` has made was licensed, and those before it
were settled. -/
def UsesLicensed (tr : List Event) : Prop :=
  Stores (fun addr _ pre => Licensed i pre addr ∧ Settled pre) tr

namespace Machine

/-- The registers of the reservation are kept as the trace says. -/
structure Keeping (s : Machine) : Prop where
  tracks : Tracks (K := reservationKind) i.reservationAddress i.reservationGencount s.trace
    s.interp.excGenerationCount s.interp.reservationAddress s.interp.reservationGencount
  uses : UsesLicensed i s.trace

/-- So they are, and every store is settled. -/
structure Reserves (s : Machine) : Prop extends Keeping i s where
  settled : Settled s.trace

end Machine

end

/-! ## What one event does -/

section

variable {i : InterpState} {tr : List Event} {e : Event}

/-- The parts of a trace with a new event. -/
theorem cons_split {x : Event} {post pre : List Event} (h : e :: tr = post ++ x :: pre) :
    (post = [] ∧ e = x ∧ tr = pre) ∨ ∃ post', post = e :: post' ∧ tr = post' ++ x :: pre := by
  rcases List.cons_eq_append_iff.mp h with ⟨rfl, heq⟩ | ⟨post', rfl, heq⟩
  · obtain ⟨rfl, rfl⟩ := List.cons.inj heq
    exact .inl ⟨rfl, rfl, rfl⟩
  · exact .inr ⟨post', rfl, heq⟩

theorem Stores.nil {P : VA → Option Fault → List Event → Prop} : Stores P [] :=
  fun post _ _ _ h => by cases post <;> cases h

theorem Stores.cons {P : VA → Option Fault → List Event → Prop} (h : Stores P tr)
    (he : ∀ addr f, e = .stwcxStore addr f → P addr f tr) : Stores P (e :: tr) := by
  intro post addr f pre hsplit
  rcases cons_split hsplit with ⟨rfl, rfl, rfl⟩ | ⟨post', rfl, htail⟩
  · exact he addr f rfl
  · exact h post' addr f pre htail

theorem Settled.cons (h : Settled tr) (he : ∀ addr, e ≠ .stwcxStore addr none) :
    Settled (e :: tr) := by
  intro post addr pre hsplit
  rcases cons_split hsplit with ⟨rfl, rfl, rfl⟩ | ⟨post', rfl, htail⟩
  · exact absurd rfl (he addr)
  · exact (h post' addr pre htail).trans revocations_cons_le

/-- A revocation settles whatever came before. -/
theorem Settled.revoke (he : reservationKind.revokes e = true) : Settled (e :: tr) := by
  intro post addr pre hsplit
  rcases cons_split hsplit with ⟨rfl, rfl, rfl⟩ | ⟨post', rfl, -⟩
  · cases he
  · exact one_le_revocations (List.mem_cons_self ..) he

namespace Machine

variable {s t : Machine}

/-- The parts of a machine that reservations are about are the same. -/
structure SameReservation (s t : Machine) : Prop where
  count : t.interp.excGenerationCount = s.interp.excGenerationCount
  addr : t.interp.reservationAddress = s.interp.reservationAddress
  stamp : t.interp.reservationGencount = s.interp.reservationGencount

theorem Keeping.same (h : s.Keeping i) (hs : SameReservation s t) (ht : t.trace = s.trace) :
    t.Keeping i := by
  obtain ⟨hc, ha, hg⟩ := hs
  refine ⟨?_, by rw [ht]; exact h.uses⟩
  rw [hc, ha, hg, ht]
  exact h.tracks

theorem Reserves.same (h : s.Reserves i) (hs : SameReservation s t) (ht : t.trace = s.trace) :
    t.Reserves i :=
  ⟨h.toKeeping.same hs ht, by rw [ht]; exact h.settled⟩

theorem Keeping.other (h : s.Keeping i) (hs : SameReservation s t) (ht : t.trace = e :: s.trace)
    (he : e.ofReservation = false) : t.Keeping i := by
  obtain ⟨hc, ha, hg⟩ := hs
  refine ⟨?_, ?_⟩
  · rw [hc, ha, hg, ht]
    exact h.tracks.other (Event.other he).1 (Event.other he).2
  · rw [ht]
    exact Stores.cons h.uses fun addr f h => by rw [h] at he; cases he

theorem Reserves.other (h : s.Reserves i) (hs : SameReservation s t) (ht : t.trace = e :: s.trace)
    (he : e.ofReservation = false) : t.Reserves i := by
  refine ⟨h.toKeeping.other hs ht he, ?_⟩
  rw [ht]
  exact h.settled.cons fun addr h => by rw [h] at he; cases he

/-- A revocation leaves everything in order. -/
theorem Keeping.revoke (h : s.Keeping i) (he : reservationKind.revokes e = true)
    (hc : t.interp.excGenerationCount = s.interp.excGenerationCount + 1)
    (ha : t.interp.reservationAddress = s.interp.reservationAddress)
    (hg : t.interp.reservationGencount = s.interp.reservationGencount)
    (ht : t.trace = e :: s.trace) : t.Reserves i := by
  refine ⟨⟨?_, ?_⟩, ?_⟩
  · rw [hc, ha, hg, ht]
    exact h.tracks.revoke he
  · rw [ht]
    exact Stores.cons h.uses fun addr f h => by rw [h] at he; cases he
  · rw [ht]
    exact .revoke he

/-- A grant stores the address and the count. -/
theorem Reserves.grant (h : s.Reserves i) {addr : VA}
    (hc : t.interp.excGenerationCount = s.interp.excGenerationCount)
    (ha : t.interp.reservationAddress = addr)
    (hg : t.interp.reservationGencount = s.interp.excGenerationCount)
    (ht : t.trace = .lwarx addr :: s.trace) : t.Reserves i := by
  refine ⟨⟨?_, ?_⟩, ?_⟩
  · rw [hc, ha, hg, ht]
    exact h.tracks.grant rfl
  · rw [ht]
    exact Stores.cons h.uses fun addr f h => by cases h
  · rw [ht]
    exact h.settled.cons fun addr h => by cases h

/-- What `stwcx.` compares is whether it is licensed. -/
theorem Keeping.reserved_iff (h : s.Keeping i) (base : VA) :
    s.interp.reserved base = true ↔ Licensed i s.trace base := by
  rw [InterpState.reserved, Bool.and_eq_true, beq_iff_eq, beq_iff_eq]
  exact h.tracks.holds_iff

end Machine

end

/-! ## The run of `stwcx.` -/

namespace Machine

/-- The address of an `stwcx.`. -/
def stwcxEA (s : Machine) (inst : BitVec 32) : VA :=
  (if xRA0 inst != 0 then s.gpr (xRA0 inst) else 0) + s.gpr (xRB inst)

/-- Whether the reservation holds for it. -/
def stwcxReserved (s : Machine) (inst : BitVec 32) : Bool := s.interp.reserved (s.stwcxEA inst)

end Machine

/-- How `stwcx.` completes. -/
def completeStwcx (stored : Bool) (so : Reg) : InterpM Unit := do
  blowReservation
  record .stwcx
  let cr ← readCR
  writeCR (writeCRField cr 0 (if stored then so ||| 2 else so))
  incPC

/-- A word of `stwcx.` stores while the reservation holds, and completes. -/
theorem decode_stwcx_apply (c : Config) {inst : BitVec 32} (h : isStwcx inst = true)
    (s : Machine) : decode c inst s = (do
      Prog.when (s.stwcxReserved inst) (condStore c (s.stwcxEA inst) (s.gpr (xRS inst)))
      completeStwcx (s.stwcxReserved inst) s.cpu.user.getXERSO : InterpM Unit) s := by
  have hra : xRA0 inst < 32 := field_lt 16 inst
  have hrb : xRB inst < 32 := field_lt 11 inst
  have hrs : xRS inst < 32 := field_lt 21 inst
  rw [decode_stwcx c h, opStwcx, Prog.bind_of_ok (readGPROZ_apply hra s),
    Prog.bind_of_ok (readGPR_apply hrb s), Prog.bind_of_ok (readGPR_apply hrs s)]
  rfl

/-- Memory that holds a program from an address on, and one word everywhere
else. -/
def Sys.program (addr : HVA) (program word : List (BitVec 8)) : Sys :=
  ⟨fun a => program.getD (a - addr).toNat (word.getD (a.toNat % 4) 0), [], 0⟩

/-! ## What every statement does -/

section

variable (i : InterpState) {c : Config}

theorem reserves_allows : Allows fun s t => s.Reserves i → t.Reserves i where
  refl _ h := h
  trans h h' := h' ∘ h
  user _ _ _ h := h.same ⟨rfl, rfl, rfl⟩ rfl
  quit _ h := h.same ⟨rfl, rfl, rfl⟩ rfl
  translated _ inD _ _ h := h.other (e := .translate inD _ _ _) ⟨rfl, rfl, rfl⟩ rfl rfl
  accessed _ rnW addr fault h := h.other (e := .access rnW addr fault) ⟨rfl, rfl, rfl⟩ rfl rfl
  os _ _ _ h := h.same ⟨rfl, rfl, rfl⟩ rfl
  enter _ e _ _ h := h.other (e := .exception e) ⟨rfl, rfl, rfl⟩ rfl rfl
  fetched _ _ _ h := h.same ⟨rfl, rfl, rfl⟩ rfl
  tick _ _ h := h.same ⟨rfl, rfl, rfl⟩ rfl

theorem reserves_prog (s : Machine) (v : Reg) (h : s.Reserves i) : (s.enter .prog v).Reserves i :=
  h.other (e := .exception .prog) ⟨rfl, rfl, rfl⟩ rfl rfl

instance reserves_accessOps : AccessOps (reserves_allows i).frame := (reserves_allows i).accessOps

instance reserves_xerOps : XerOps (reserves_allows i).frame :=
  (reserves_allows i).xerOps fun _ _ h => h.same ⟨rfl, rfl, rfl⟩ rfl

instance reserves_systemOps : SystemOps (reserves_allows i).frame :=
  (reserves_allows i).systemOps
    (fun _ _ _ h => h.other (e := .mapping) ⟨rfl, rfl, rfl⟩ rfl rfl)
    fun _ _ h => h.same ⟨rfl, rfl, rfl⟩ rfl

theorem reserves_opLwarx (ra0 rb eh rt : Reg) :
    Keeps (reserves_allows i).frame (opLwarx c ra0 rb eh rt) := by
  refine .seq inferInstance fun a => .seq inferInstance fun b => .seq inferInstance fun v => ?_
  exact .modify_modify (fun s h => h.grant rfl rfl rfl rfl) fun _ => inferInstance

variable {i}

/-- A store that is licensed. -/
theorem Machine.Reserves.use {s t : Machine} (h : s.Reserves i) {base : VA} {f : Option Fault}
    (hres : s.interp.reserved base = true) (hs : Machine.SameReservation s t)
    (ht : t.trace = .stwcxStore base f :: s.trace) : t.Keeping i := by
  have hlic := (h.toKeeping.reserved_iff base).mp hres
  obtain ⟨hc, ha, hg⟩ := hs
  refine ⟨?_, ?_⟩
  · rw [hc, ha, hg, ht]
    exact h.tracks.other rfl rfl
  · rw [ht]
    refine Stores.cons h.uses fun addr f heq => ?_
    cases heq
    exact ⟨hlic, h.settled⟩

/-- The store of `stwcx.`, made while it is licensed. -/
theorem condStore_reserves (base : VA) (v : Reg) :
    Triple (fun s : Machine => s.interp.reserved base = true ∧ s.Reserves i)
      (condStore c base v) (fun _ => Machine.Keeping i) (Machine.Reserves i)
      fun _ => Machine.Reserves i := by
  rintro s ⟨hres, h⟩
  rw [condStore, Prog.bind_apply, storeX_apply]
  have htr (m : Mem) : (s.translated false m).Reserves i :=
    h.other (e := .translate false _ _ _) ⟨rfl, rfl, rfl⟩ rfl rfl
  cases Mmu.store c .word base v s.cpu.isPrivileged s.mem with
  | ret m => exact htr m
  | abort e m => exact htr m
  | ok res m =>
    let u := (s.translated false m).accessed false base (faultOf res)
    have hu : u.Reserves i :=
      (htr m).other (e := .access false base (faultOf res)) ⟨rfl, rfl, rfl⟩ rfl rfl
    let w : Machine := { u with trace := .stwcxStore base (faultOf res) :: u.trace }
    have hw : w.Keeping i := hu.use hres ⟨rfl, rfl, rfl⟩ rfl
    cases res with
    | ok _ => exact hw
    | error f =>
      -- the store has faulted, and is none that is to be settled
      have hcheck := (Triple.of_keeps ((reserves_accessOps i).mfcheck false)).post fun _ t h =>
        Machine.Reserves.toKeeping h
      exact hcheck w ⟨hw, hu.settled.cons fun addr heq => by cases heq⟩

variable (i)

/-- `blow_reservation`, with its event. -/
theorem revoke_reserves {α : Type} {e : Event} (he : reservationKind.revokes e = true)
    {x : InterpM α} (hx : Keeps (reserves_allows i).frame x) :
    Triple (Machine.Keeping i) (do blowReservation; record e; x : InterpM α)
      (fun _ => Machine.Reserves i) (Machine.Reserves i) fun _ => Machine.Reserves i := by
  intro s hs
  let u : Machine := { s with
    interp := { s.interp with excGenerationCount := s.interp.excGenerationCount + 1 }
    trace := e :: s.trace }
  exact Triple.of_keeps hx u (hs.revoke he rfl rfl rfl rfl)

theorem reserves_opStwcx (rs ra0 rb : Reg) :
    Keeps (reserves_allows i).frame (opStwcx c rs ra0 rb) := by
  refine .seq inferInstance fun a => .seq inferInstance fun b => .seq inferInstance fun v =>
    .seq inferInstance fun so => Triple.keeps (.bind (.gets _) fun j => ?_)
  refine .bind (Q := fun _ => Machine.Keeping i) ?_ fun _ => revoke_reserves i rfl inferInstance
  cases hj : j.reserved (a + b) with
  | true => exact (condStore_reserves _ _).pre fun s ⟨hs, h⟩ => ⟨hs ▸ hj, h⟩
  | false => exact .pure fun s ⟨_, h⟩ => h.toKeeping

instance reserves_reservationOps : ReservationOps (reserves_allows i).frame where
  opLwarx _ := reserves_opLwarx i
  opStwcx _ := reserves_opStwcx i
  opRfi := .seq inferInstance fun _ => .seq inferInstance fun _ =>
    Triple.keeps ((revoke_reserves i rfl (.seq inferInstance fun _ =>
      (reserves_systemOps i).writeMSR _)).pre fun _ h => h.toKeeping)

end

end MrIss
