import TcpIot.Io.Outputs

/-!
# The routines of the bus

The routines that reach the registers of the card, as their stores and loads of the pins and what
they ask of the semaphore, one at a time, so that other processes can come between any two.
-/

namespace TcpIot.Io

open Framework

/-- `1 << k`. -/
def pin (k : UInt32) : UInt32 := 1 <<< k

/-- The registers that `mxsgpioregs` points to. -/
structure Gpio (σ : Type*) where
  store : σ → Nat → UInt32 → σ
  load : σ → Nat → σ × UInt32

/-- What is left of a routine that returns an `α`. -/
inductive Prog (α : Type) where
  | store (reg : Nat) (v : UInt32) (next : Prog α)
  | load (reg : Nat) (next : UInt32 → Prog α)
  /-- The loop at the end of `nbus_poke16`. -/
  | ready (next : Prog α)
  /-- The loop of `nbus_peek16`. -/
  | fetch (next : UInt16 → Prog α)
  /-- A test of `nbuslocked`. -/
  | locked (next : Bool → Prog α)
  /-- The `semop` of `nbuslock`; what follows depends on `inited`. -/
  | acquire (next : Bool → Prog α)
  | setInited (next : Prog α)
  /-- The `semop` of `nbusunlock`. -/
  | release (next : Prog α)
  | ret (result : α)

namespace Prog

variable {α β γ : Type}

protected def bind : Prog α → (α → Prog β) → Prog β
  | .store reg v next, f => .store reg v (next.bind f)
  | .load reg next, f => .load reg fun v => (next v).bind f
  | .ready next, f => .ready (next.bind f)
  | .fetch next, f => .fetch fun v => (next v).bind f
  | .locked next, f => .locked fun b => (next b).bind f
  | .acquire next, f => .acquire fun b => (next b).bind f
  | .setInited next, f => .setInited (next.bind f)
  | .release next, f => .release (next.bind f)
  | .ret a, f => f a

instance : Monad Prog where
  pure := .ret
  bind := Prog.bind

def poke (reg : Nat) (v : UInt32) : Prog Unit := .store reg v (.ret ())

def peek (reg : Nat) : Prog UInt32 := .load reg .ret

/-- The pins of a process that has just mapped them. -/
def setup : Prog Unit := do
  poke 0x104 0x0000ffff
  poke 0x114 0x003f0c03
  poke 0x704 0x070100ff
  poke 0xb00 0x070100ff
  .setInited (.ret ())

def nbuslock : Prog Unit :=
  .locked fun nbuslocked => if nbuslocked then .ret () else
    .acquire fun inited => if inited then .ret () else setup

def nbusunlock : Prog Unit :=
  .locked fun nbuslocked => if nbuslocked then .release (.ret ()) else .ret ()

/-- `if(!nbuslocked) { nbuslock(); did_lock++; }` in front of a body and
`if(did_lock) nbusunlock();` behind it. -/
def didLock (body : Prog α) : Prog α :=
  .locked fun nbuslocked => if nbuslocked then body else do
    nbuslock
    let r ← body
    nbusunlock
    return r

/-- The byte `dat` on the pins and the strobe. -/
def pokeByte (dat : UInt8) : Prog Unit := do
  poke 0x708 (pin 26 ||| pin 25 ||| 0xff)
  poke 0x704 dat.toUInt32
  poke 0x704 (pin 25)

def nbusPoke16 (adr : UInt8) (dat : UInt16) : Prog Unit := didLock do
  poke 0x708 (pin 16 ||| pin 25 ||| 0xff)
  poke 0x704 (pin 24 ||| pin 26 ||| adr.toUInt32)
  poke 0x704 (pin 25)
  pokeByte (dat >>> 8).toUInt8
  pokeByte dat.toUInt8
  poke 0x704 (pin 16)
  .ready (.ret ())

def nbusPeek16 (adr : UInt8) : Prog UInt16 := didLock do
  poke 0x708 (pin 16 ||| pin 25 ||| pin 24 ||| 0xff)
  poke 0x704 (pin 26 ||| adr.toUInt32)
  poke 0x704 (pin 25)
  poke 0xb08 0xff
  let ret ← Prog.fetch .ret
  poke 0x704 (pin 16)
  poke 0xb04 0xff
  return ret

def mwAdr : UInt8 := 0x70
def mwConf : UInt8 := 0x72
def mwDat1 : UInt8 := 0x74

def adrWord (adr : UInt32) : UInt16 := (adr >>> 11).toUInt16
def confWord (adr : UInt32) : UInt16 :=
  (adr &&& (0x7ff : UInt32) ||| (0x18 : UInt32) <<< 11).toUInt16

def winpoke8 (adr : UInt32) (dat : UInt8) : Prog Unit := didLock do
  nbusPoke16 mwAdr (adrWord adr)
  nbusPoke16 mwConf (confWord adr)
  nbusPoke16 mwDat1 dat.toUInt16

/-- The data register is read behind `if(did_lock) nbusunlock();`. -/
def winpeek8 (adr : UInt32) : Prog UInt8 := do
  didLock do
    nbusPoke16 mwAdr (adrWord adr)
    nbusPoke16 mwConf (confWord adr)
  let ret ← nbusPeek16 mwDat1
  return (ret &&& 0xff).toUInt8

/-- What `OutPortA`, `OutPortB` and `OutPortC` do between lock and unlock. -/
def outPort (addr : UInt32) (onoff : Int) (bit : Nat) : Prog Unit := do
  let val ← winpeek8 addr
  if onoff = 1 then winpoke8 addr (orBit val bit)
  else winpoke8 addr (andNotBit val bit)

/-- From `nbuslock` on. -/
def outPortLocked (addr : UInt32) (onoff : Int) (bit : Nat) : Prog (Option UInt8) := do
  outPort addr onoff bit
  nbusunlock
  return none

def outPortA (onoff : Int) (bit : Nat) : Prog (Option UInt8) := do
  nbuslock
  outPortLocked 0x10300 onoff bit

def outPortB (onoff : Int) (bit : Nat) : Prog (Option UInt8) := do
  nbuslock
  outPortLocked 0x10301 onoff bit

def outPortC (onoff : Int) (bit : Nat) : Prog (Option UInt8) := do
  nbuslock
  outPortLocked 0x10302 onoff bit

/-- What `InPortByteA`, `InPortByteB` and `InPortByteC` do from `nbuslock` on. -/
def inPortLocked (addr : UInt32) : Prog (Option UInt8) := do
  let val ← winpeek8 addr
  nbusunlock
  return some val

def inPortByteA : Prog (Option UInt8) := do
  nbuslock
  inPortLocked 0x10304

def inPortByteB : Prog (Option UInt8) := do
  nbuslock
  inPortLocked 0x10305

def inPortByteC : Prog (Option UInt8) := do
  nbuslock
  inPortLocked 0x10306

theorem bind_assoc (p : Prog α) (f : α → Prog β) (g : β → Prog γ) :
    (p.bind f).bind g = p.bind fun a => (f a).bind g := by
  induction p with
  | store reg v next ih => exact congrArg (Prog.store reg v) ih
  | load reg next ih => exact congrArg (Prog.load reg) (funext ih)
  | ready next ih => exact congrArg Prog.ready ih
  | fetch next ih => exact congrArg Prog.fetch (funext ih)
  | locked next ih => exact congrArg Prog.locked (funext ih)
  | acquire next ih => exact congrArg Prog.acquire (funext ih)
  | setInited next ih => exact congrArg Prog.setInited ih
  | release next ih => exact congrArg Prog.release ih
  | ret a => rfl

end Prog

inductive PortCall where
  | outPort (port : Fin 3) (onoff : Int) (bit : Fin 8)
  | inPortByte (port : Fin 3)
deriving DecidableEq

namespace PortCall

def prog : PortCall → Prog (Option UInt8)
  | .outPort 0 onoff bit => .outPortA onoff bit
  | .outPort 1 onoff bit => .outPortB onoff bit
  | .outPort 2 onoff bit => .outPortC onoff bit
  | .inPortByte 0 => .inPortByteA
  | .inPortByte 1 => .inPortByteB
  | .inPortByte 2 => .inPortByteC

/-- What the call does from `nbuslock` on. -/
def locked : PortCall → Prog (Option UInt8)
  | .outPort port onoff bit => .outPortLocked (.ofNat (portAddr port)) onoff bit
  | .inPortByte port => .inPortLocked (.ofNat (portAddr port) + 4)

/-- What the call does from its `semop` on. -/
def entry (c : PortCall) (inited : Bool) : Prog (Option UInt8) :=
  if inited then c.locked else Prog.setup.bind fun _ => c.locked

theorem prog_eq (c : PortCall) :
    c.prog = .locked fun nbuslocked => if nbuslocked then c.locked else .acquire c.entry := by
  have hlock : c.prog = Prog.nbuslock.bind fun _ => c.locked := by
    cases c with
    | outPort port onoff bit =>
      match port with
      | 0 => rfl
      | 1 => rfl
      | 2 => rfl
    | inPortByte port =>
      match port with
      | 0 => rfl
      | 1 => rfl
      | 2 => rfl
  rw [hlock, Prog.nbuslock, Prog.bind]
  congr 1
  funext nbuslocked
  cases nbuslocked with
  | true => rfl
  | false =>
    rw [if_neg Bool.false_ne_true, if_neg Bool.false_ne_true, Prog.bind]
    congr 1
    funext inited
    cases inited with
    | true => rfl
    | false => rfl

end PortCall

abbrev PortProg := Prog (Option UInt8)

section Access

variable {σ : Type*} (gpio : Gpio σ)

/-- Pin 21 while the card is not ready. -/
def busy (v : UInt32) : Bool := (v &&& pin 21) ≠ 0

/-- `(mxsgpioregs[0x900/4] & 0xff)` after the strobe. -/
def Prog.peekByte : Prog UInt16 := do
  poke 0x708 (pin 26 ||| pin 25 ||| 0xff)
  poke 0x704 (pin 25)
  let v ← peek 0x900
  return (v &&& 0xff).toUInt16

/-- A turn of the loop in `nbus_poke16` that finds the card busy. -/
def Prog.readyTurn : Prog Unit := do
  poke 0x708 (pin 16)
  poke 0x704 (pin 16)
  .ready (.ret ())

/-- A turn of the loop in `nbus_peek16`. -/
def Prog.fetchTurn : Prog UInt16 := do
  let hi ← peekByte
  let lo ← peekByte
  poke 0x704 (pin 16)
  poke 0x708 (pin 16)
  let v ← peek 0x900
  if busy v then .fetch .ret else return (hi <<< 8) ||| lo

/-- The next access to the pins, if that is what is next. -/
def access {α : Type} (s : σ) : Prog α → Option (σ × Prog α)
  | .store reg v next => some (gpio.store s reg v, next)
  | .load reg next => let r := gpio.load s reg; some (r.1, next r.2)
  | .ready next =>
    let r := gpio.load s 0x900
    some (r.1, if busy r.2 then Prog.readyTurn.bind fun _ => next else next)
  | .fetch next => some (s, Prog.fetchTurn.bind next)
  | _ => none

end Access

/-- In a process that has the semaphore the routine only works on the pins. -/
def Prog.Quiet {α : Type} : Prog α → Prop
  | .store _ _ next => next.Quiet
  | .load _ next => ∀ v, (next v).Quiet
  | .ready next => next.Quiet
  | .fetch next => ∀ v, (next v).Quiet
  | .locked next => (next true).Quiet
  | .acquire _ | .setInited _ | .release _ => False
  | .ret _ => True

/-- The routine gives the semaphore back once, at its end and with `inited` set, and does not ask
for it. -/
def Prog.Inside {α : Type} : Prog α → Bool → Prop
  | .store _ _ next, inited => next.Inside inited
  | .load _ next, inited => ∀ v, (next v).Inside inited
  | .ready next, inited => next.Inside inited
  | .fetch next, inited => ∀ v, (next v).Inside inited
  | .locked next, inited => (next true).Inside inited
  | .acquire _, _ => False
  | .setInited next, _ => next.Inside true
  | .release next, inited => inited = true ∧ ∃ r, next = .ret r
  | .ret _, _ => False

section Routines

variable {α β : Type} {inited : Bool}

namespace Prog

theorem quiet_bind {p : Prog α} {f : α → Prog β} (hp : p.Quiet) (hf : ∀ a, (f a).Quiet) :
    (p.bind f).Quiet := by
  induction p with
  | store reg v next ih | ready next ih => exact ih hp
  | load reg next ih | fetch next ih => exact fun v => ih v (hp v)
  | locked next ih => exact ih true hp
  | acquire | setInited | release => cases hp
  | ret a => exact hf a

theorem inside_bind {p : Prog α} {f : α → Prog β} (hp : p.Quiet)
    (hf : ∀ a, (f a).Inside inited) : (p.bind f).Inside inited := by
  induction p with
  | store reg v next ih | ready next ih => exact ih hp
  | load reg next ih | fetch next ih => exact fun v => ih v (hp v)
  | locked next ih => exact ih true hp
  | acquire | setInited | release => cases hp
  | ret a => exact hf a

theorem quiet_poke (reg : Nat) (v : UInt32) : (poke reg v).Quiet := trivial

theorem quiet_peek (reg : Nat) : (peek reg).Quiet := fun _ => trivial

theorem quiet_didLock {body : Prog α} (h : body.Quiet) : (didLock body).Quiet := h

theorem quiet_pokeByte (dat : UInt8) : (pokeByte dat).Quiet :=
  quiet_bind (quiet_poke ..) fun _ => quiet_bind (quiet_poke ..) fun _ => quiet_poke ..

theorem quiet_nbusPoke16 (adr : UInt8) (dat : UInt16) : (nbusPoke16 adr dat).Quiet := by
  apply quiet_didLock
  refine quiet_bind (quiet_poke ..) fun _ => quiet_bind (quiet_poke ..) fun _ =>
    quiet_bind (quiet_poke ..) fun _ => quiet_bind (quiet_pokeByte _) fun _ =>
    quiet_bind (quiet_pokeByte _) fun _ => quiet_bind (quiet_poke ..) fun _ => trivial

theorem quiet_nbusPeek16 (adr : UInt8) : (nbusPeek16 adr).Quiet := by
  apply quiet_didLock
  refine quiet_bind (quiet_poke ..) fun _ => quiet_bind (quiet_poke ..) fun _ =>
    quiet_bind (quiet_poke ..) fun _ => quiet_bind (quiet_poke ..) fun _ =>
    quiet_bind (fun _ => trivial) fun _ => quiet_bind (quiet_poke ..) fun _ =>
    quiet_bind (quiet_poke ..) fun _ => trivial

theorem quiet_winpoke8 (adr : UInt32) (dat : UInt8) : (winpoke8 adr dat).Quiet := by
  apply quiet_didLock
  exact quiet_bind (quiet_nbusPoke16 ..) fun _ => quiet_bind (quiet_nbusPoke16 ..) fun _ =>
    quiet_nbusPoke16 ..

theorem quiet_winpeek8 (adr : UInt32) : (winpeek8 adr).Quiet := by
  have hselect := quiet_didLock <|
    quiet_bind (quiet_nbusPoke16 mwAdr (adrWord adr)) fun _ =>
      quiet_nbusPoke16 mwConf (confWord adr)
  exact quiet_bind hselect fun _ => quiet_bind (quiet_nbusPeek16 mwDat1) fun _ => trivial

theorem quiet_outPort (addr : UInt32) (onoff : Int) (bit : Nat) :
    (outPort addr onoff bit).Quiet := by
  apply quiet_bind (quiet_winpeek8 addr)
  intro val
  split
  · exact quiet_winpoke8 ..
  · exact quiet_winpoke8 ..

theorem quiet_peekByte : peekByte.Quiet :=
  quiet_bind (quiet_poke ..) fun _ => quiet_bind (quiet_poke ..) fun _ =>
    quiet_bind (quiet_peek _) fun _ => trivial

theorem quiet_readyTurn : readyTurn.Quiet :=
  quiet_bind (quiet_poke ..) fun _ => quiet_bind (quiet_poke ..) fun _ => trivial

theorem quiet_fetchTurn : fetchTurn.Quiet := by
  refine quiet_bind quiet_peekByte fun hi => quiet_bind quiet_peekByte fun lo =>
    quiet_bind (quiet_poke ..) fun _ => quiet_bind (quiet_poke ..) fun _ =>
    quiet_bind (quiet_peek _) fun v => ?_
  split
  · exact fun _ => trivial
  · trivial

theorem inside_unlock (r : α) : (nbusunlock.bind fun _ => .ret r).Inside true := ⟨rfl, r, rfl⟩

end Prog

theorem PortCall.inside_locked (c : PortCall) : c.locked.Inside true := by
  cases c with
  | outPort port onoff bit =>
    exact Prog.inside_bind (Prog.quiet_outPort _ _ _) fun _ => Prog.inside_unlock none
  | inPortByte port =>
    exact Prog.inside_bind (Prog.quiet_winpeek8 _) fun val => Prog.inside_unlock (some val)

theorem PortCall.inside_entry (c : PortCall) (inited : Bool) : (c.entry inited).Inside inited := by
  cases inited with
  | true => exact c.inside_locked
  | false => exact c.inside_locked

variable {σ : Type*} {gpio : Gpio σ} {s s' : σ} {prog prog' : Prog α}

theorem inside_access (h : prog.Inside inited) (haccess : access gpio s prog = some (s', prog')) :
    prog'.Inside inited := by
  cases prog with
  | store reg v next =>
    cases haccess
    exact h
  | load reg next =>
    cases haccess
    exact h _
  | ready next =>
    cases haccess
    split
    · exact Prog.inside_bind Prog.quiet_readyTurn fun _ => h
    · exact h
  | fetch next =>
    cases haccess
    exact Prog.inside_bind Prog.quiet_fetchTurn h
  | locked | acquire | setInited | release | ret => cases haccess

end Routines

end TcpIot.Io
