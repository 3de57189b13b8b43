import TcpIot.Framework.Loop
import TcpIot.Server.Routing

/-!
# The slots that `get_dest` reads

The loop condition of `get_dest` compares the destination of a slot before it tests the bound, so
the search for a destination that no slot holds reads one slot behind the table.
-/

namespace TcpIot.Server

open Framework

/-- `pthreads_list[i]`; what lies behind the table is whatever the memory holds. -/
def slotOrBeyond (s : State) (beyond : Nat → Threads) (i : Nat) : Threads :=
  if h : i < maxThreads then s.pthreadsList ⟨i, h⟩ else beyond i

/-- A test of the loop condition of `get_dest` at an index, with the slots read so far. -/
def getDestBody (s : State) (beyond : Nat → Threads) (dest : Int) (st : Nat × List Nat) :
    Nat × List Nat ⊕ Nat × List Nat :=
  let i := st.1
  if dest ≠ (slotOrBeyond s beyond i).dest ∧ i < maxThreads ∧
      (slotOrBeyond s beyond i).sock ≤ s.highestSock then
    .inl (i + 1, st.2 ++ [i])
  else .inr (i, st.2 ++ [i])

/-- The call `get_dest(dest)` returns `k` after reading the listed slots. -/
def GetDestEnds (s : State) (beyond : Nat → Threads) (dest : Int) (k : Nat) (reads : List Nat) :
    Prop := Ends (getDestBody s beyond dest) (0, []) (k, reads)

/-- The least index with the destination, and `MAX_THREADS` when no slot has it. -/
def LeastDest (s : State) (dest : Int) (k : Nat) : Prop :=
  (∃ i : Fin maxThreads, k = i ∧ (s.pthreadsList i).dest = dest ∧
    ∀ j < i, (s.pthreadsList j).dest ≠ dest) ∨
  ((∀ i, (s.pthreadsList i).dest ≠ dest) ∧ k = maxThreads)

/-- What the search should do: end, stay inside the table and find the first slot. -/
def SearchesTable (s : State) (beyond : Nat → Threads) (dest : Int) : Prop :=
  ∃ k reads, GetDestEnds s beyond dest k reads ∧ (∀ i ∈ reads, i < maxThreads) ∧
    LeastDest s dest k

section Loop

variable {s : State} {beyond : Nat → Threads} {dest : Int}

theorem slotOrBeyond_fin (i : Fin maxThreads) :
    slotOrBeyond s beyond i = s.pthreadsList i := by
  simp [slotOrBeyond]

variable (hle : ∀ i, (s.pthreadsList i).sock ≤ s.highestSock)

include hle

theorem getDest_skip {i n : Nat} (hn : i + n ≤ maxThreads)
    (hskip : ∀ j : Fin maxThreads, i ≤ j → j < i + n → (s.pthreadsList j).dest ≠ dest)
    (reads : List Nat) (r : Nat × List Nat) :
    Ends (getDestBody s beyond dest) (i, reads) r ↔
      Ends (getDestBody s beyond dest) (i + n, reads ++ List.range' i n) r := by
  induction n generalizing i reads with
  | zero => simp
  | succ n ih =>
    have hi : i < maxThreads := by omega
    have hslot : slotOrBeyond s beyond i = s.pthreadsList ⟨i, hi⟩ := slotOrBeyond_fin ⟨i, hi⟩
    have hne : (s.pthreadsList ⟨i, hi⟩).dest ≠ dest :=
      hskip ⟨i, hi⟩ le_rfl (Nat.lt_add_of_pos_right n.succ_pos)
    have hgo : getDestBody s beyond dest (i, reads) = .inl (i + 1, reads ++ [i]) := by
      rw [getDestBody, if_pos]
      rw [hslot]
      exact ⟨hne.symm, hi, hle _⟩
    have hrest := @ih (i + 1) (by omega) (fun j hij hjn => hskip j (by omega) (by omega))
      (reads ++ [i])
    rw [ends_goes_on hgo, hrest, List.range'_succ, List.append_assoc, List.singleton_append,
      show i + 1 + n = i + (n + 1) by omega]

theorem getDest_found {k : Fin maxThreads} (hk : (s.pthreadsList k).dest = dest)
    (hfirst : ∀ j < k, (s.pthreadsList j).dest ≠ dest) :
    GetDestEnds s beyond dest k (List.range' 0 k ++ [k.val]) := by
  have hstop : getDestBody s beyond dest (k.val, List.range' 0 k) =
      .inr (k.val, List.range' 0 k ++ [k.val]) := by
    rw [getDestBody, if_neg]
    rw [slotOrBeyond_fin]
    exact fun hgo => hgo.1 hk.symm
  have hskip := @getDest_skip s beyond dest hle 0 k (by omega) (fun j _ hj => hfirst j (by omega))
  rw [GetDestEnds, hskip, Nat.zero_add, List.nil_append]
  exact ends_of_result hstop

theorem getDest_missing (hnone : ∀ i, (s.pthreadsList i).dest ≠ dest) :
    GetDestEnds s beyond dest maxThreads (List.range' 0 maxThreads ++ [maxThreads]) := by
  have hstop : getDestBody s beyond dest (maxThreads, List.range' 0 maxThreads) =
      .inr (maxThreads, List.range' 0 maxThreads ++ [maxThreads]) := by
    rw [getDestBody, if_neg]
    exact fun hgo => lt_irrefl _ hgo.2.1
  have hskip := @getDest_skip s beyond dest hle 0 maxThreads (by omega) (fun j _ _ => hnone j)
  rw [GetDestEnds, hskip, Nat.zero_add, List.nil_append]
  exact ends_of_result hstop

/-- The loop ends in every case, with the index that `getDest` gives. -/
theorem getDest_ends : ∃ reads, GetDestEnds s beyond dest (getDest s dest) reads := by
  rcases getDest_cases s dest hle with ⟨k, hk, hfirst, hget⟩ | ⟨hnone, hget⟩
  · rw [hget]
    exact ⟨_, getDest_found hle hk hfirst⟩
  · rw [hget]
    exact ⟨_, getDest_missing hle hnone⟩

theorem searchesTable_iff :
    SearchesTable s beyond dest ↔ ∃ i, (s.pthreadsList i).dest = dest := by
  rcases getDest_cases s dest hle with ⟨k, hk, hfirst, -⟩ | ⟨hnone, -⟩
  · refine iff_of_true ⟨_, _, getDest_found hle hk hfirst, ?_, ?_⟩ ⟨k, hk⟩
    · intro i hi
      simp only [List.mem_append, List.mem_range'_1, List.mem_singleton] at hi
      omega
    · exact .inl ⟨k, rfl, hk, hfirst⟩
  · refine iff_of_false ?_ (fun ⟨i, hi⟩ => hnone i hi)
    rintro ⟨k, reads, hends, hin, -⟩
    cases hends.unique (getDest_missing hle hnone)
    exact absurd (hin maxThreads (by simp)) (lt_irrefl _)

end Loop

/-- In every reachable state and for every destination byte, whatever lies behind the table:
`get_dest` ends, reads slots of the table only and returns the least index with the destination
(`MAX_THREADS` without one) iff some slot has the destination. -/
theorem getDest_searches_iff {fixed2 : Int → Nat → List UInt8} {stack : Buffer 100} {s : State}
    (hreach : Reachable (step fixed2) Feasible (init stack) s) (beyond : Nat → Threads)
    (dest : UInt8) :
    SearchesTable s beyond dest.toNat ↔ ∃ i, (s.pthreadsList i).dest = dest.toNat :=
  searchesTable_iff (reachable_wellformed hreach).highest

theorem getDest_searches_iff_connected :
    SearchesTable threeConnected (fun _ => emptySlot) (2 : UInt8).toNat :=
  (@getDest_searches_iff (fun _ _ => ascii "0.00") (Buffer.zero 100) _
    ⟨threeClients, by decide, by decide⟩ (fun _ => emptySlot) 2).mpr (by decide)

/-- The ESP32 is not connected: the search for its destination reads slot 7. -/
theorem getDest_reads_beyond :
    Reachable (step fun _ _ => ascii "0.00") Feasible (init (Buffer.zero 100)) threeConnected ∧
    GetDestEnds threeConnected (fun _ => emptySlot) 5 7 [0, 1, 2, 3, 4, 5, 6, 7] ∧
    ¬ SearchesTable threeConnected (fun _ => emptySlot) (5 : UInt8).toNat := by
  have hreach : Reachable (step fun _ _ => ascii "0.00") Feasible (init (Buffer.zero 100))
      threeConnected := ⟨threeClients, by decide, by decide⟩
  refine ⟨hreach, ⟨8, by decide⟩, ?_⟩
  rw [searchesTable_iff (reachable_wellformed hreach).highest]
  decide

end TcpIot.Server
