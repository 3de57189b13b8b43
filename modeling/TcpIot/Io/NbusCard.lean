import Mathlib.Data.Nat.Bitwise
import TcpIot.Io.NbusLock

/-!
# The outputs of a shared card

What the processes that share the bus see of the relay outputs. The card is a window behind three
registers of the bus; of its answers to whole transfers only what the routines rely on is assumed.
-/

namespace TcpIot.Io

open Framework

section Alone

variable {σ : Type*} (gpio : Gpio σ) {α β : Type}

/-- The routine in a process that has the semaphore, with at most `n` steps. -/
def Prog.run : Nat → Prog α → σ → Option (σ × α)
  | 0, _, _ => none
  | n + 1, prog, s =>
    match prog with
    | .ret a => some (s, a)
    | .locked next => run n (next true) s
    | .setInited next | .release next => run n next s
    | .acquire _ => none
    | prog => (access gpio s prog).bind fun r => run n r.2 r.1

/-- The routine leads from `s` to `t` and returns `a`. -/
def Leads (p : Prog α) (s t : σ) (a : α) : Prop := ∃ n, p.run gpio n s = some (t, a)

variable {gpio} {s t : σ}

namespace Leads

theorem next {p q : Prog α} {s' : σ} {a : α} (h : Leads gpio q s' t a)
    (hstep : ∀ n, p.run gpio (n + 1) s = q.run gpio n s') : Leads gpio p s t a := by
  obtain ⟨n, hn⟩ := h
  exact ⟨n + 1, (hstep n).trans hn⟩

theorem locked_inv {next : Bool → Prog α} {a : α} (h : Leads gpio (.locked next) s t a) :
    Leads gpio (next true) s t a := by
  obtain ⟨n, hn⟩ := h
  cases n with
  | zero => cases hn
  | succ n => exact ⟨n, hn⟩

theorem store_inv {reg : Nat} {v : UInt32} {next : Prog α} {a : α}
    (h : Leads gpio (.store reg v next) s t a) : Leads gpio next (gpio.store s reg v) t a := by
  obtain ⟨n, hn⟩ := h
  cases n with
  | zero => cases hn
  | succ n => exact ⟨n, hn⟩

theorem load_inv {reg : Nat} {next : UInt32 → Prog α} {a : α}
    (h : Leads gpio (.load reg next) s t a) :
    Leads gpio (next (gpio.load s reg).2) (gpio.load s reg).1 t a := by
  obtain ⟨n, hn⟩ := h
  cases n with
  | zero => cases hn
  | succ n => exact ⟨n, hn⟩

theorem fetch_inv {next : UInt16 → Prog α} {a : α} (h : Leads gpio (.fetch next) s t a) :
    Leads gpio (Prog.fetchTurn.bind next) s t a := by
  obtain ⟨n, hn⟩ := h
  cases n with
  | zero => cases hn
  | succ n => exact ⟨n, hn⟩

theorem ready_inv {next : Prog α} {a : α} (h : Leads gpio (.ready next) s t a)
    (hready : busy (gpio.load s 0x900).2 = false) :
    Leads gpio next (gpio.load s 0x900).1 t a := by
  obtain ⟨n, hn⟩ := h
  cases n with
  | zero => cases hn
  | succ n =>
    have hturn : Prog.run gpio n (if busy (gpio.load s 0x900).2 then
      Prog.readyTurn.bind fun _ => next else next) (gpio.load s 0x900).1 = some (t, a) := hn
    rw [hready] at hturn
    exact ⟨n, hturn⟩

theorem setInited_inv {next : Prog α} {a : α} (h : Leads gpio (.setInited next) s t a) :
    Leads gpio next s t a := by
  obtain ⟨n, hn⟩ := h
  cases n with
  | zero => cases hn
  | succ n => exact ⟨n, hn⟩

theorem didLock_inv {body : Prog α} {a : α} (h : Leads gpio (Prog.didLock body) s t a) :
    Leads gpio body s t a := h.locked_inv

theorem ret_inv {a b : α} (h : Leads gpio (.ret a) s t b) : s = t ∧ a = b := by
  obtain ⟨n, hn⟩ := h
  cases n with
  | zero => cases hn
  | succ n =>
    cases hn
    exact ⟨rfl, rfl⟩

theorem unlock_inv {a b : α} (h : Leads gpio (Prog.nbusunlock.bind fun _ => .ret a) s t b) :
    s = t ∧ a = b := by
  obtain ⟨n, hn⟩ := h.locked_inv
  cases n with
  | zero => cases hn
  | succ n => exact ret_inv ⟨n, hn⟩

theorem bind_inv {p : Prog α} {f : α → Prog β} {b : β} (h : Leads gpio (p.bind f) s t b) :
    ∃ u a, Leads gpio p s u a ∧ Leads gpio (f a) u t b := by
  obtain ⟨n, hn⟩ := h
  induction n generalizing p s with
  | zero => cases hn
  | succ n ih =>
    cases p with
    | ret a => exact ⟨s, a, ⟨1, rfl⟩, ⟨n + 1, hn⟩⟩
    | acquire next => cases hn
    | locked next =>
      obtain ⟨u, a, hp, hf⟩ := ih hn
      exact ⟨u, a, hp.next fun _ => rfl, hf⟩
    | setInited next | release next =>
      obtain ⟨u, a, hp, hf⟩ := ih hn
      exact ⟨u, a, hp.next fun _ => rfl, hf⟩
    | store reg v next | load reg next =>
      obtain ⟨u, a, hp, hf⟩ := ih hn
      exact ⟨u, a, hp.next fun _ => rfl, hf⟩
    | fetch next =>
      have hturn : (Prog.fetchTurn.bind fun v => (next v).bind f).run gpio n s = some (t, b) := hn
      rw [← Prog.bind_assoc] at hturn
      obtain ⟨u, a, hp, hf⟩ := ih hturn
      exact ⟨u, a, hp.next fun _ => rfl, hf⟩
    | ready next =>
      have hturn : Prog.run gpio n (if busy (gpio.load s 0x900).2 then
          Prog.readyTurn.bind fun _ => next.bind f else next.bind f) (gpio.load s 0x900).1 =
            some (t, b) := hn
      have hbind : (if busy (gpio.load s 0x900).2 then
          Prog.readyTurn.bind fun _ => next.bind f else next.bind f) =
            (if busy (gpio.load s 0x900).2 then Prog.readyTurn.bind fun _ => next else next).bind
              f := by
        split
        · exact (Prog.bind_assoc _ _ _).symm
        · rfl
      rw [hbind] at hturn
      obtain ⟨u, a, hp, hf⟩ := ih hturn
      exact ⟨u, a, hp.next fun _ => rfl, hf⟩

/-- Pieces that no other process comes between are the routine executed alone. -/
theorem of_pieces {T : Type*} {v : Visit T} {p : PortProg} {r : Option UInt8}
    (h : Pieces (busPiece gpio) s (v, p) t (.inr r)) : Leads gpio p s t r := by
  let At (x : (Visit T × PortProg) ⊕ Option UInt8) (u : σ) : Prop :=
    match x with
    | .inl q => ∀ t a, Leads gpio q.2 u t a → Leads gpio p s t a
    | .inr a => Leads gpio p s u a
  have hkeep : ∀ q u u' x, At (.inl q) u → busPiece gpio q u = some (u', x) → At x u' := by
    rintro ⟨w, prog⟩ u u' x hat hpiece
    cases prog with
    | locked next | setInited next | store reg v next | load reg next | ready next | fetch next =>
      cases hpiece
      exact fun t a ha => hat t a (ha.next fun _ => rfl)
    | acquire next | ret a => cases hpiece
    | release next =>
      cases next with
      | ret a =>
        cases hpiece
        exact hat u a ⟨2, rfl⟩
      | _ => cases hpiece
  exact h.rule hkeep fun t a ha => ha

end Leads

end Alone

/-- The address of an output port register, as the port routines have it. -/
def portAddress (port : Fin 3) : UInt32 := .ofNat (portAddr port)

/-- The window of a card: whole transfers on the bus set its address and its configuration, and
through its data register the output ports are written and read. -/
structure Card {σ : Type*} (gpio : Gpio σ) where
  adr : σ → UInt16
  conf : σ → UInt16
  outputs : σ → Nat → UInt8
  adr_poke : ∀ {s t w}, Leads gpio (Prog.nbusPoke16 Prog.mwAdr w) s t () →
    adr t = w ∧ outputs t = outputs s
  conf_poke : ∀ {s t w}, Leads gpio (Prog.nbusPoke16 Prog.mwConf w) s t () →
    adr t = adr s ∧ conf t = w ∧ outputs t = outputs s
  dat_poke : ∀ {s t w}, Leads gpio (Prog.nbusPoke16 Prog.mwDat1 w) s t () →
    ∀ port, adr s = Prog.adrWord (portAddress port) → conf s = Prog.confWord (portAddress port) →
      outputs t = Function.update (outputs s) (portAddr port) w.toUInt8
  dat_peek : ∀ {s t v}, Leads gpio (Prog.nbusPeek16 Prog.mwDat1) s t v →
    outputs t = outputs s ∧ ∀ port, adr s = Prog.adrWord (portAddress port) →
      conf s = Prog.confWord (portAddress port) → v.toUInt8 = outputs s (portAddr port)
  setup : ∀ {s t}, Leads gpio Prog.setup s t () → outputs t = outputs s

namespace Card

variable {σ : Type*} {gpio : Gpio σ} (card : Card gpio) {s t : σ} {port : Fin 3}

theorem select {addr : UInt32} {u : Unit}
    (h : Leads gpio ((Prog.nbusPoke16 Prog.mwAdr (Prog.adrWord addr)).bind fun _ =>
      Prog.nbusPoke16 Prog.mwConf (Prog.confWord addr)) s t u) :
    card.adr t = Prog.adrWord addr ∧ card.conf t = Prog.confWord addr ∧
      card.outputs t = card.outputs s := by
  obtain ⟨s', _, hadr, hconf⟩ := h.bind_inv
  obtain ⟨hadr, hkept⟩ := card.adr_poke hadr
  obtain ⟨hkeptAdr, hconf, hkept'⟩ := card.conf_poke hconf
  exact ⟨hkeptAdr.trans hadr, hconf, hkept'.trans hkept⟩

theorem winpoke8 {dat : UInt8} {u : Unit}
    (h : Leads gpio (Prog.winpoke8 (portAddress port) dat) s t u) :
    card.outputs t = Function.update (card.outputs s) (portAddr port) dat := by
  obtain ⟨s₁, _, hadr, hrest⟩ := h.didLock_inv.bind_inv
  obtain ⟨s₂, _, hconf, hdat⟩ := hrest.bind_inv
  obtain ⟨hadr, hkept⟩ := card.adr_poke hadr
  obtain ⟨hkeptAdr, hconf, hkept'⟩ := card.conf_poke hconf
  rw [card.dat_poke hdat port (hkeptAdr.trans hadr) hconf, hkept', hkept,
    UInt8.toUInt8_toUInt16]

theorem winpeek8 {addr : UInt32} {v : UInt8} (h : Leads gpio (Prog.winpeek8 addr) s t v) :
    card.outputs t = card.outputs s ∧
      ∀ port, addr = portAddress port → v = card.outputs s (portAddr port) := by
  obtain ⟨s₁, _, hselect, hrest⟩ := h.bind_inv
  obtain ⟨hadr, hconf, hkept⟩ := card.select hselect.didLock_inv
  obtain ⟨s₂, ret, hpeek, hret⟩ := hrest.bind_inv
  obtain ⟨hkept', hread⟩ := card.dat_peek hpeek
  obtain ⟨rfl, hv⟩ := hret.ret_inv
  refine ⟨hkept'.trans hkept, fun port haddr => ?_⟩
  subst haddr
  have hlow : (ret &&& 0xff).toUInt8 = ret.toUInt8 := by
    rw [UInt16.toUInt8_and]
    exact UInt8.and_neg_one
  rw [← hv, hlow, hread port hadr hconf, hkept]

/-- Executed alone, a port routine is the read-modify-write of a plain memory. -/
theorem outPort {onoff : Int} {bit : Nat} {u : Unit}
    (h : Leads gpio (Prog.outPort (portAddress port) onoff bit) s t u) :
    card.outputs t = Io.outPort memory (portAddr port) onoff bit (card.outputs s) := by
  obtain ⟨s', val, hpeek, hpoke⟩ := h.bind_inv
  obtain ⟨hkept, hval⟩ := card.winpeek8 hpeek
  rw [Io.outPort]
  by_cases honoff : onoff = 1
  · rw [if_pos honoff] at hpoke ⊢
    rw [card.winpoke8 hpoke, hkept, hval port rfl]
    rfl
  · rw [if_neg honoff] at hpoke ⊢
    rw [card.winpoke8 hpoke, hkept, hval port rfl]
    rfl

/-- The output that a call switches. -/
def write : PortCall → Option ((Fin 3 × Fin 8) × Bool)
  | .outPort port onoff bit => some ((port, bit), decide (onoff = 1))
  | .inPortByte _ => none

/-- The outputs that the calls switch, in order. -/
def writes {T : Type*} (log : List (Visit T × Option UInt8)) : List ((Fin 3 × Fin 8) × Bool) :=
  log.filterMap fun e => write e.1.call

theorem locked {c : PortCall} {r : Option UInt8} (h : Leads gpio c.locked s t r) :
    portBit memory (card.outputs t) = match write c with
      | some w => Function.update (portBit memory (card.outputs s)) w.1 w.2
      | none => portBit memory (card.outputs s) := by
  cases c with
  | outPort port onoff bit =>
    obtain ⟨s', _, hport, hunlock⟩ := h.bind_inv
    obtain ⟨rfl, -⟩ := hunlock.unlock_inv
    rw [card.outPort hport]
    exact outPort_portBit (port, bit) onoff (card.outputs s)
  | inPortByte port =>
    obtain ⟨s', val, hpeek, hunlock⟩ := h.bind_inv
    obtain ⟨rfl, -⟩ := hunlock.unlock_inv
    rw [(card.winpeek8 hpeek).1]
    rfl

theorem entry {c : PortCall} {inited : Bool} {r : Option UInt8}
    (h : Leads gpio (c.entry inited) s t r) :
    portBit memory (card.outputs t) = match write c with
      | some w => Function.update (portBit memory (card.outputs s)) w.1 w.2
      | none => portBit memory (card.outputs s) := by
  cases inited with
  | true => exact card.locked h
  | false =>
    have hsetup : Leads gpio (Prog.setup.bind fun _ => c.locked) s t r := h
    obtain ⟨s', _, hset, hcall⟩ := hsetup.bind_inv
    rw [card.locked hcall, card.setup hset]

/-- Calls that are executed one after the other leave the last of what they wrote. -/
theorem lastWrite_of_serial {T : Type*} {log : List (Visit T × Option UInt8)}
    (h : Serial (busPiece gpio) begins s (log.map whole) t) (p : Fin 3 × Fin 8) :
    portBit memory (card.outputs t) p =
      (lastWrite p (writes log)).getD (portBit memory (card.outputs s) p) := by
  have hfold : portBit memory (card.outputs t) =
      ((log.map whole).filterMap fun e => write e.1.1.call).foldl
        (fun f w => Function.update f w.1 w.2) (portBit memory (card.outputs s)) := by
    apply h.rule (I := fun log t => portBit memory (card.outputs t) =
      (log.filterMap fun e => write e.1.1.call).foldl (fun f w => Function.update f w.1 w.2)
        (portBit memory (card.outputs s)))
    · rintro log t ⟨v, prog⟩ t' r ih hbegins hpieces
      obtain rfl : prog = v.entry := hbegins
      rw [card.entry (Leads.of_pieces hpieces), List.filterMap_append, List.foldl_append, ← ih,
        List.filterMap_cons]
      cases write v.call with
      | none => rfl
      | some w => rfl
    · rfl
  have hwrites : ((log.map whole).filterMap fun e => write e.1.1.call) = writes log := by
    rw [List.filterMap_map]
    rfl
  have hview : id ((writes log).foldl (fun f w => Function.update f w.1 w.2)
      (portBit memory (card.outputs s))) p =
        (lastWrite p ((writes log).map id)).getD (id (portBit memory (card.outputs s)) p) :=
    view_foldl (fun _ _ _ => rfl) _ p
  rw [hfold, hwrites]
  rw [List.map_id] at hview
  exact hview

end Card

/-- Any processes that switch outputs and read inputs of one card, in any interleaving of their
steps, with a card that answers whole transfers as its window does: whenever nobody has the
semaphore, every output is as the last call for it has left it, or as it was, and no call of a
process that is not making one is missing. -/
theorem shared_outputs {T σ : Type*} [DecidableEq T] {gpio : Gpio σ} (card : Card gpio) (s : σ)
    {S : Bus T σ} (events : List (BusEvent T))
    (hrun : exec (Bus.step gpio) (Bus.start s) events = some S)
    (hfree : ∀ i, (S.processes i).nbuslocked = false) :
    (∀ p, portBit memory (card.outputs S.gpio) p =
      (lastWrite p (Card.writes S.log)).getD (portBit memory (card.outputs s) p)) ∧
    ∀ i, (S.processes i).running = none →
      (S.log.filter fun e => e.1.who = i).map (fun e => e.1.call) = Bus.callsOf i events := by
  have h : Bus.Inv gpio s S := Bus.Inv.run hrun
  constructor
  · intro p
    obtain ⟨t, hserial, -, hidle⟩ := h.sections.serial
    have hgpio : S.gpio = t := by
      apply hidle
      intro i e he
      simp [Bus.inside_sections, Process.place, hfree i] at he
    rw [hgpio]
    exact card.lastWrite_of_serial hserial p
  · intro i hi
    have hissued := (Bus.Inv.start s).issued_run hrun i
    rw [Bus.issued, Bus.pending, hi, List.append_nil] at hissued
    exact hissued

/-- Whether pin `k` is among those of a store. -/
def has (v : UInt32) (k : Nat) : Bool := v.toBitVec.getLsbD k

/-- The other end of the pins: the address latched by the strobe while pin 26 is set, pin 24 for a
write, the bytes of the transfer, and the registers of the window. -/
structure Slave where
  data : UInt8
  latching : Bool
  writing : Bool
  latched : UInt8
  dat : UInt16
  input : UInt8
  high : Bool
  adr : UInt16
  conf : UInt16
  ports : Nat → UInt8

namespace Slave

/-- The register that the window shows. -/
def address (s : Slave) : Nat := s.adr.toNat * 2048 + s.conf.toNat % 2048

def strobe (s : Slave) : Slave :=
  if s.latching then { s with latched := s.data, high := true }
  else if s.writing then { s with dat := (s.dat <<< 8) ||| s.data.toUInt16 }
  else { s with input := if s.high then 0 else s.ports s.address, high := !s.high }

/-- The end of a transfer. -/
def finish (s : Slave) : Slave :=
  if s.writing then
    if s.latched = 0x70 then { s with adr := s.dat }
    else if s.latched = 0x72 then { s with conf := s.dat }
    else if s.latched = 0x74 then
      { s with ports := Function.update s.ports s.address s.dat.toUInt8 }
    else s
  else s

def clear (s : Slave) (v : UInt32) : Slave :=
  { s with
    data := s.data &&& ~~~v.toUInt8
    latching := s.latching && !has v 26
    writing := s.writing && !has v 24 }

def set (s : Slave) (v : UInt32) : Slave :=
  let driven : Slave := { s with
    data := s.data ||| v.toUInt8
    latching := s.latching || has v 26
    writing := s.writing || has v 24 }
  let strobed := if has v 25 then driven.strobe else driven
  if has v 16 then strobed.finish else strobed

/-- The pins of the slave. -/
def gpio : Gpio Slave where
  store s reg v := if reg = 0x704 then s.set v else if reg = 0x708 then s.clear v else s
  load s _ := (s, s.input.toUInt32)

theorem has_or (v w : UInt32) (k : Nat) : has (v ||| w) k = (has v k || has w k) := by
  simp [has]

theorem has_byte (b : UInt8) {k : Nat} (hk : 8 ≤ k) : has b.toUInt32 k = false := by
  simp [has]
  intro _
  exact BitVec.getLsbD_of_ge _ _ hk

theorem clear_eq {v : UInt32} (hv : v.toUInt8 = 0xff) (s : Slave) :
    s.clear v = { s with
      data := 0, latching := s.latching && !has v 26, writing := s.writing && !has v 24 } := by
  rw [clear, hv]
  congr 1
  exact UInt8.and_zero

theorem set_strobe (s : Slave) : s.set (pin 25) = s.strobe := by
  have hlow : (pin 25).toUInt8 = 0 := by decide
  have hpins : has (pin 25) 26 = false ∧ has (pin 25) 24 = false := by decide
  simp +decide [set, hlow, hpins]

theorem not_busy (b : UInt8) : busy b.toUInt32 = false := by
  have hpin : b.toUInt32 &&& pin 21 = 0 := by
    apply UInt32.toNat_inj.mp
    have hbit : b.toNat.testBit 21 = false :=
      Nat.testBit_lt_two_pow (Nat.lt_trans b.toNat_lt (by decide))
    rw [UInt32.toNat_and, UInt8.toNat_toUInt32, (by decide : (pin 21).toNat = 2 ^ 21),
      Nat.and_comm, Nat.two_pow_and, hbit]
    rfl
  simp [busy, hpin]

theorem load_eq (s : Slave) (reg : Nat) : gpio.load s reg = (s, s.input.toUInt32) := rfl

theorem store_set (s : Slave) (v : UInt32) : gpio.store s 0x704 v = s.set v := rfl

theorem store_dir (s : Slave) (v : UInt32) : gpio.store s 0xb08 v = s := rfl

theorem store_high (s : Slave) (v : UInt32) : gpio.store s 0xb04 v = s := rfl

theorem store_clear (s : Slave) (v : UInt32) : gpio.store s 0x708 v = s.clear v := rfl

theorem start_poke (s : Slave) (adr : UInt8) :
    ((s.clear (pin 16 ||| pin 25 ||| 0xff)).set (pin 24 ||| pin 26 ||| adr.toUInt32)).set (pin 25) =
      { s with data := adr, latching := true, writing := true, latched := adr, high := true } := by
  have hlow : (pin 24 ||| pin 26 ||| adr.toUInt32).toUInt8 = adr := by
    rw [UInt32.toUInt8_or, UInt8.toUInt8_toUInt32, (by decide : (pin 24 ||| pin 26).toUInt8 = 0),
      UInt8.zero_or]
  rw [clear_eq (by decide), set_strobe]
  simp +decide [set, has_or, has_byte, strobe, hlow]

theorem byte (s : Slave) (b : UInt8) (hw : s.writing = true) :
    ((s.clear (pin 26 ||| pin 25 ||| 0xff)).set b.toUInt32).set (pin 25) =
      { s with data := b, latching := false, dat := (s.dat <<< 8) ||| b.toUInt16 } := by
  rw [clear_eq (by decide), set_strobe]
  simp +decide [set, has_byte, strobe, hw]

theorem set_finish (s : Slave) : s.set (pin 16) = s.finish := by
  have hlow : (pin 16).toUInt8 = 0 := by decide
  have hpins : has (pin 16) 26 = false ∧ has (pin 16) 24 = false := by decide
  simp +decide [set, hlow, hpins]

theorem two_bytes (d w : UInt16) :
    (((d <<< 8) ||| (w >>> 8).toUInt8.toUInt16) <<< 8) ||| w.toUInt8.toUInt16 = w := by
  apply UInt16.eq_of_toBitVec_eq
  apply BitVec.eq_of_getLsbD_eq
  intro k hk
  have h8 : UInt16.toBitVec 8 % 16 = 8#16 := by decide
  simp only [UInt16.toBitVec_or, UInt16.toBitVec_shiftLeft, UInt16.toBitVec_shiftRight,
    UInt8.toBitVec_toUInt16, UInt16.toBitVec_toUInt8, BitVec.getLsbD_or, BitVec.getLsbD_setWidth,
    h8, BitVec.shiftLeft_eq', BitVec.ushiftRight_eq', BitVec.getLsbD_shiftLeft,
    BitVec.getLsbD_ushiftRight, hk, decide_true, Bool.true_and, BitVec.toNat_ofNat]
  by_cases hlow : k < 8
  · simp [hlow]
  · simp [hlow, show k - 8 < 8 by omega, show k - 8 < 16 by omega, show 8 + (k - 8) = k by omega]

theorem poke {s t : Slave} {adr : UInt8} {dat : UInt16} {u : Unit}
    (h : Leads gpio (Prog.nbusPoke16 adr dat) s t u) :
    t = finish { s with
      data := dat.toUInt8, latching := false, writing := true, latched := adr, high := true,
      dat := dat } := by
  have haddress := h.didLock_inv.store_inv.store_inv.store_inv
  have hhigh := haddress.store_inv.store_inv.store_inv
  have hlow := hhigh.store_inv.store_inv.store_inv
  obtain ⟨hend, -⟩ := (hlow.store_inv.ready_inv (not_busy _)).ret_inv
  simp only [store_set, store_clear] at hend
  rw [start_poke] at hend
  let p : Slave :=
    { s with data := adr, latching := true, writing := true, latched := adr, high := true }
  have hfirst := byte p (dat >>> 8).toUInt8 rfl
  rw [hfirst, byte _ dat.toUInt8 rfl, two_bytes, set_finish] at hend
  exact hend.symm

theorem start_peek (s : Slave) (adr : UInt8) :
    ((s.clear (pin 16 ||| pin 25 ||| pin 24 ||| 0xff)).set (pin 26 ||| adr.toUInt32)).set (pin 25) =
      { s with data := adr, latching := true, writing := false, latched := adr, high := true } := by
  have hlow : (pin 26 ||| adr.toUInt32).toUInt8 = adr := by
    rw [UInt32.toUInt8_or, UInt8.toUInt8_toUInt32, (by decide : (pin 26).toUInt8 = 0),
      UInt8.zero_or]
  rw [clear_eq (by decide), set_strobe]
  simp +decide [set, has_or, has_byte, strobe, hlow]

theorem answer (s : Slave) (hw : s.writing = false) :
    (s.clear (pin 26 ||| pin 25 ||| 0xff)).set (pin 25) =
      { s with data := 0, latching := false, input := if s.high then 0 else s.ports s.address,
               high := !s.high } := by
  rw [clear_eq (by decide), set_strobe]
  simp +decide [strobe, hw, address]

theorem low_byte (b : UInt8) : (b.toUInt32 &&& 0xff).toUInt16.toUInt8 = b := by
  have hmask : (UInt32.toUInt16 255).toUInt8 = 255 := by decide
  rw [UInt32.toUInt16_and, UInt16.toUInt8_and, hmask, UInt8.toUInt16_toUInt32,
    UInt8.toUInt8_toUInt16]
  exact UInt8.and_neg_one

theorem peek {s t : Slave} {adr : UInt8} {v : UInt16}
    (h : Leads gpio (Prog.nbusPeek16 adr) s t v) :
    t.ports = s.ports ∧ v.toUInt8 = s.ports s.address := by
  have haddress := h.didLock_inv.store_inv.store_inv.store_inv.store_inv
  have hhigh := haddress.fetch_inv.store_inv.store_inv.load_inv
  have hlow := hhigh.store_inv.store_inv.load_inv
  have hturn := hlow.store_inv.store_inv.load_inv
  simp only [store_set, store_clear, store_dir, load_eq, Prog.bind, not_busy, Bool.false_eq_true,
    if_false] at hturn
  have hend := hturn.store_inv.store_inv
  simp only [store_set, store_high] at hend
  obtain ⟨hstate, hv⟩ := hend.ret_inv
  rw [start_peek] at hstate hv
  let p : Slave :=
    { s with data := adr, latching := true, writing := false, latched := adr, high := true }
  have hfirst := answer p rfl
  rw [hfirst] at hstate hv
  rw [answer _ rfl] at hstate hv
  rw [set_finish] at hstate
  constructor
  · rw [← hstate, set_finish]
    simp [finish, clear, p]
  · rw [← hv]
    have hhigh : ((0 : UInt8).toUInt32 &&& 0xff).toUInt16 <<< 8 = 0 := by decide
    simp only [p, if_true, Bool.not_true, Bool.false_eq_true, if_false, hhigh, UInt16.zero_or,
      low_byte]
    rfl

theorem address_port {s : Slave} {port : Fin 3}
    (hadr : s.adr = Prog.adrWord (portAddress port))
    (hconf : s.conf = Prog.confWord (portAddress port)) : s.address = portAddr port := by
  have hports : ∀ port : Fin 3, (Prog.adrWord (portAddress port)).toNat * 2048 +
      (Prog.confWord (portAddress port)).toNat % 2048 = portAddr port := by decide
  rw [address, hadr, hconf]
  exact hports port

theorem set_all (s : Slave) : (s.set 0x070100ff).ports = s.ports := by
  have hlow : s.data ||| 0x070100ff = 0xff := UInt8.or_neg_one
  simp +decide [set, strobe, finish, hlow]

/-- The slave answers whole transfers as the window does. -/
def card : Card gpio where
  adr := Slave.adr
  conf := Slave.conf
  outputs := Slave.ports
  adr_poke h := by
    rw [poke h]
    exact ⟨rfl, rfl⟩
  conf_poke h := by
    rw [poke h]
    exact ⟨rfl, rfl, rfl⟩
  dat_poke h port hadr hconf := by
    rw [poke h, ← address_port hadr hconf]
    rfl
  dat_peek h := by
    obtain ⟨hkept, hread⟩ := peek h
    exact ⟨hkept, fun port hadr hconf => by rw [hread, address_port hadr hconf]⟩
  setup h := by
    obtain ⟨hend, -⟩ := h.store_inv.store_inv.store_inv.store_inv.setInited_inv.ret_inv
    rw [← hend]
    exact set_all _

def dark : Slave := ⟨0, false, false, 0, 0, 0, false, 0, 0, fun _ => 0⟩

end Slave

local instance lampProcessNeZero : NeZero 2 := ⟨Nat.succ_ne_zero 1⟩

local instance lampPortNeZero : NeZero 3 := ⟨Nat.succ_ne_zero 2⟩

local instance lampBitNeZero : NeZero 8 := ⟨Nat.succ_ne_zero 7⟩

/-- Two processes switch outputs of one port; the second waits for the first. -/
def twoLamps : List (BusEvent (Fin 2)) :=
  .call 0 (.outPort 2 1 3) :: .call 1 (.outPort 2 1 0) :: .step 1 ::
    List.replicate 89 (.step 0) ++ List.replicate 88 (.step 1)

theorem shared_outputs_lamps :
    ∃ S ∈ exec (Bus.step Slave.gpio) (Bus.start Slave.dark) twoLamps,
      portBit memory S.gpio.ports (2, 3) = true ∧ portBit memory S.gpio.ports (2, 0) = true := by
  have hend : (exec (Bus.step Slave.gpio) (Bus.start Slave.dark) twoLamps).map
      (fun S => ((S.processes 0).nbuslocked, (S.processes 1).nbuslocked, Card.writes S.log)) =
        some (false, false, [((2, 3), true), ((2, 0), true)]) := by
    decide +kernel
  obtain ⟨S, hS, hend⟩ := Option.map_eq_some_iff.mp hend
  obtain ⟨hfirst, hsecond, hwrites⟩ :
      (S.processes 0).nbuslocked = false ∧ (S.processes 1).nbuslocked = false ∧
        Card.writes S.log = [((2, 3), true), ((2, 0), true)] := by
    simpa only [Prod.mk.injEq] using hend
  have hfree : ∀ i, (S.processes i).nbuslocked = false := by
    intro i
    match i with
    | 0 => exact hfirst
    | 1 => exact hsecond
  obtain ⟨houtputs, -⟩ := shared_outputs Slave.card Slave.dark twoLamps hS hfree
  refine ⟨S, hS, (houtputs (2, 3)).trans ?_, (houtputs (2, 0)).trans ?_⟩
  · rw [hwrites]
    rfl
  · rw [hwrites]
    rfl

end TcpIot.Io
