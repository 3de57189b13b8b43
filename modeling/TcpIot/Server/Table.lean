import Mathlib.Data.List.FinRange
import TcpIot.Framework.Buffer
import TcpIot.Framework.Sweep
import TcpIot.Wire.Commands

/-!
# The server's connection table

The globals of the server program and the functions that search, fill and free the slots of
`pthreads_list`. The fields `main_key`, `qid` and `listen_thread` of a slot are written but
never read by the modelled code and are left out.
-/

namespace TcpIot

/-- `MAX_THREADS`. -/
abbrev maxThreads : Nat := 7

instance neZeroMaxThreads : NeZero maxThreads := ⟨Nat.succ_ne_zero 6⟩

namespace Server

open Framework

structure Threads where
  sock : Int
  clientName : CString 30
  winCl : Int
  ipadd : List UInt8
  dest : Int
  timeStamp : Int
  orgTimeStamp : Int
  dirtyFlag : Int
deriving DecidableEq

/-- The globals of the server, and the text buffer that `timer_thread` keeps between visits. -/
structure State where
  pthreadsList : Fin maxThreads → Threads
  noThreads : Int
  highestSock : Int
  winClIndex : Int
  clientName : CString 30
  buff : Buffer 100
deriving DecidableEq

/-- What the server does to sockets: frames sent with `send_msg` or `send_msgb`, and closes.
A frame carries the memory its `msg` argument points to. -/
inductive Effect where
  | sendMsg (sock : Int) (msgLen : Nat) (msg : List UInt8) (msgType : UInt8)
  | sendMsgb (sock : Int) (msgLen : Nat) (msg : List UInt8) (msgType : UInt8)
  | close (sock : Int)
deriving DecidableEq

/-- The slot holds a connection: `pthreads_list[i].sock > 0`. -/
def State.Live (s : State) (i : Fin maxThreads) : Prop := 0 < (s.pthreadsList i).sock

instance (s : State) : DecidablePred s.Live := fun i =>
  inferInstanceAs (Decidable (0 < (s.pthreadsList i).sock))

def emptySlot : Threads where
  sock := -1
  clientName := CString.empty 29
  winCl := 0
  ipadd := []
  dest := -1
  timeStamp := 0
  orgTimeStamp := 0
  dirtyFlag := 0

/-- `strcpy(buff,"timer \0")` over whatever the stack held. -/
def timerBuff (stack : Buffer 100) : Buffer 100 :=
  ⟨[116, 105, 109, 101, 114, 32, 0] ++ stack.bytes.drop 7, by simp⟩

/-- The state in which `main` has started the threads. -/
def init (stack : Buffer 100) : State where
  pthreadsList := fun _ => emptySlot
  noThreads := 0
  highestSock := 0
  winClIndex := -1
  clientName := CString.empty 29
  buff := timerBuff stack

def State.setSlot (s : State) (i : Fin maxThreads) (t : Threads) : State :=
  { s with pthreadsList := Function.update s.pthreadsList i t }

section SetSlot

variable (s : State) (i j : Fin maxThreads) (t : Threads)

@[simp] theorem setSlot_same : (s.setSlot i t).pthreadsList i = t := by simp [State.setSlot]

theorem setSlot_ne {i j : Fin maxThreads} (h : j ≠ i) :
    (s.setSlot i t).pthreadsList j = s.pthreadsList j := by simp [State.setSlot, h]

end SetSlot

/-- `get_dest`, from the listed slots on. Past the last slot the loop stops whatever the memory
behind the table holds. -/
def getDestFrom (s : State) (dest : Int) : List (Fin maxThreads) → Nat
  | [] => maxThreads
  | i :: is =>
    if dest ≠ (s.pthreadsList i).dest ∧ (s.pthreadsList i).sock ≤ s.highestSock then
      getDestFrom s dest is
    else i

/-- `get_dest`. -/
def getDest (s : State) (dest : Int) : Nat := getDestFrom s dest (List.finRange maxThreads)

theorem getDest_congr {s t : State} (dest : Int) (hslots : t.pthreadsList = s.pthreadsList)
    (hhigh : t.highestSock = s.highestSock) : getDest t dest = getDest s dest := by
  unfold getDest
  induction List.finRange maxThreads with
  | nil => rfl
  | cons i is ih => simp only [getDestFrom, hslots, hhigh, ih]

/-- The slot lookup at the start of every turn of `listen_thread`: the last slot that holds the
thread's socket, and slot 0 when there is none. -/
def lookupIndex (s : State) (sock : Int) : Fin maxThreads :=
  (List.finRange maxThreads).foldl
    (fun index i => if sock = (s.pthreadsList i).sock then i else index) 0

private theorem getDestFrom_cases (s : State) (dest : Int)
    (hle : ∀ i, (s.pthreadsList i).sock ≤ s.highestSock) (l : List (Fin maxThreads)) :
    (∃ before i after, l = before ++ i :: after ∧ (∀ j ∈ before, (s.pthreadsList j).dest ≠ dest) ∧
      (s.pthreadsList i).dest = dest ∧ getDestFrom s dest l = i) ∨
    ((∀ i ∈ l, (s.pthreadsList i).dest ≠ dest) ∧ getDestFrom s dest l = maxThreads) := by
  induction l with
  | nil => exact .inr ⟨by simp, rfl⟩
  | cons a l ih =>
    by_cases ha : (s.pthreadsList a).dest = dest
    · refine .inl ⟨[], a, l, rfl, by simp, ha, ?_⟩
      simp [getDestFrom, ha]
    · have hstep : getDestFrom s dest (a :: l) = getDestFrom s dest l := by
        rw [getDestFrom, if_pos ⟨Ne.symm ha, hle a⟩]
      rw [hstep]
      rcases ih with ⟨before, i, after, rfl, hbefore, hi, hget⟩ | ⟨hall, hget⟩
      · exact .inl ⟨a :: before, i, after, rfl, List.forall_mem_cons.mpr ⟨ha, hbefore⟩, hi, hget⟩
      · exact .inr ⟨List.forall_mem_cons.mpr ⟨ha, hall⟩, hget⟩

/-- As long as `highest_sock` bounds the descriptors, `get_dest` finds the first slot with the
destination, and runs past the table when there is none. -/
theorem getDest_cases (s : State) (dest : Int)
    (hle : ∀ i, (s.pthreadsList i).sock ≤ s.highestSock) :
    (∃ i : Fin maxThreads, (s.pthreadsList i).dest = dest ∧
      (∀ j < i, (s.pthreadsList j).dest ≠ dest) ∧ getDest s dest = i) ∨
    ((∀ i, (s.pthreadsList i).dest ≠ dest) ∧ getDest s dest = maxThreads) := by
  rcases getDestFrom_cases s dest hle (List.finRange maxThreads) with
    ⟨before, i, after, hl, hbefore, hi, hget⟩ | ⟨hall, hget⟩
  · refine .inl ⟨i, hi, ?_, hget⟩
    intro j hj
    apply hbefore
    have hsorted : (before ++ i :: after).Pairwise (· < ·) :=
      hl ▸ List.pairwise_lt_finRange maxThreads
    have hmem : j ∈ before ++ i :: after := hl ▸ List.mem_finRange j
    rcases List.mem_append.mp hmem with hmem | hmem
    · exact hmem
    · rcases List.mem_cons.mp hmem with rfl | hmem
      · exact absurd hj (lt_irrefl j)
      · have hij := List.rel_of_pairwise_cons (List.pairwise_append.mp hsorted).2.1 hmem
        exact absurd (hj.trans hij) (lt_irrefl j)
  · exact .inr ⟨fun i => hall i (List.mem_finRange i), hget⟩

theorem lookupIndex_eq {s : State} {i : Fin maxThreads}
    (huniq : ∀ j, (s.pthreadsList j).sock = (s.pthreadsList i).sock → j = i) :
    lookupIndex s (s.pthreadsList i).sock = i := by
  have hfold (l : List (Fin maxThreads)) (index : Fin maxThreads) (h : i ∈ l ∨ index = i) :
      l.foldl (fun index j => if (s.pthreadsList i).sock = (s.pthreadsList j).sock then j
        else index) index = i := by
    induction l generalizing index with
    | nil => simpa using h
    | cons a l ih =>
      apply ih
      dsimp only
      by_cases ha : (s.pthreadsList i).sock = (s.pthreadsList a).sock
      · rw [if_pos ha]
        exact .inr (huniq a ha.symm)
      · rw [if_neg ha]
        rcases h with h | h
        · rcases List.mem_cons.mp h with rfl | h
          · exact absurd rfl ha
          · exact .inl h
        · exact .inr h
  exact hfold _ _ (.inl (List.mem_finRange i))

/-- The scan of `new_sock_thread` over the printed address: skip three dots. -/
def skipDots (i j : Nat) : List UInt8 → List UInt8
  | [] => []
  | c :: rest =>
    if i < 3 ∧ j < 17 ∧ c ≠ 0 then skipDots (if c = 46 then i + 1 else i) (j + 1) rest
    else c :: rest

/-- The last octet of the peer's address, as text of at most three digits. -/
def lastOctet (address : List UInt8) : List UInt8 :=
  ((skipDots 0 0 address).take 3).takeWhile (· ≠ 0)

/-- The destination assigned to a known address; an unknown one leaves the field as it was. -/
def destOf (octet : List UInt8) (old : Int) : Int :=
  if octet = [49, 53, 56] then 0         -- "158"
  else if octet = [49, 53, 52] then 1    -- "154"
  else if octet = [49, 52, 55] then 2    -- "147"
  else if octet = [49, 52, 54] then 3    -- "146"
  else if octet = [49, 53, 49] then 4    -- "151"
  else if octet = [50, 51, 57] then 5    -- "239"
  else old

/-- What the registration in `new_sock_thread` makes of the slot it writes. -/
def registered (old : Threads) (newSocket : Int) (address : List UInt8) : Threads :=
  { old with
    sock := newSocket
    winCl := if lastOctet address = [49, 53, 56] then 1 else 0
    ipadd := lastOctet address
    dest := destOf (lastOctet address) old.dest }

/-- The slot `new_sock_thread` writes next, when it lies inside the table. -/
def nextSlot (s : State) : Option (Fin maxThreads) :=
  if h : 0 ≤ s.noThreads ∧ s.noThreads < maxThreads then
    some ⟨s.noThreads.toNat, by omega⟩
  else none

/-- One turn of `new_sock_thread` after `accept` returned; undefined when it writes outside
`pthreads_list`. -/
def newSockThread (s : State) (newSocket : Int) (address : List UInt8) : Option State :=
  (nextSlot s).map fun k =>
    { s.setSlot k (registered (s.pthreadsList k) newSocket address) with
      highestSock := if newSocket > s.highestSock then newSocket else s.highestSock
      noThreads := s.noThreads + 1 }

theorem nextSlot_eq_some {s : State} {k : Fin maxThreads} :
    nextSlot s = some k ↔ s.noThreads = k := by
  have hk := k.isLt
  unfold nextSlot
  constructor
  · intro h
    split at h
    · cases h
      dsimp only
      omega
    · cases h
  · intro h
    rw [dif_pos (by omega)]
    congr 1
    apply Fin.ext
    dsimp only
    omega

theorem nextSlot_isSome {s : State} :
    (nextSlot s).isSome ↔ 0 ≤ s.noThreads ∧ s.noThreads < maxThreads := by
  unfold nextSlot
  split
  · rename_i h
    simpa using h
  · rename_i h
    simpa using h

/-- `close(sock); sock = -1; dest = -1`. -/
def Threads.closed (t : Threads) : Threads := { t with sock := -1, dest := -1 }

/-- The same, followed by zeroing the name. -/
def Threads.wiped (t : Threads) : Threads :=
  { t with sock := -1, dest := -1, clientName := CString.empty 29 }

def NamedLive (name : List UInt8) (_ : Fin maxThreads) (t : Threads) : Prop :=
  t.clientName.chars = name ∧ 0 < t.sock

instance (name : List UInt8) (i : Fin maxThreads) (t : Threads) :
    Decidable (NamedLive name i t) := inferInstanceAs (Decidable (_ ∧ _))

/-- `logoff_client`. -/
def logoffClient (s : State) (name : List UInt8) : State × List Effect :=
  let r := sweep (NamedLive name) Threads.closed (List.finRange maxThreads) s.pthreadsList
  ({ s with pthreadsList := r.1, noThreads := s.noThreads - r.2.length },
    r.2.map fun i => .close (s.pthreadsList i).sock)

def State.Named (s : State) (name : List UInt8) (i : Fin maxThreads) : Prop :=
  NamedLive name i (s.pthreadsList i)

instance (s : State) (name : List UInt8) : DecidablePred (s.Named name) := fun i =>
  inferInstanceAs (Decidable (NamedLive name i (s.pthreadsList i)))

theorem logoffClient_slot (s : State) (name : List UInt8) (i : Fin maxThreads) :
    (logoffClient s name).1.pthreadsList i =
      if s.Named name i then (s.pthreadsList i).closed else s.pthreadsList i := by
  simp only [logoffClient, sweep_fst _ _ _ _ (List.nodup_finRange maxThreads),
    List.mem_finRange, true_and]
  rfl

theorem logoffClient_noThreads (s : State) (name : List UInt8) :
    (logoffClient s name).1.noThreads = s.noThreads - slotCount (s.Named name) := by
  simp only [logoffClient, sweep_snd _ _ _ _ (List.nodup_finRange maxThreads)]
  rw [← slotCount_eq_length]
  rfl

end Server

end TcpIot
