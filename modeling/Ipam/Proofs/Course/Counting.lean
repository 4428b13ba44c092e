import Mathlib.Algebra.BigOperators.Group.Finset.Basic
import Ipam.Proofs.Course.System

/-!
# How far the counter gets

A create makes at most one record, and nothing else makes any. So the counter of the store, together
with the records that creates under way may still make (`System.reserve`), grows by at most one for
each create that arrives. Where there is room for all creates of a run, the counter does not start
again on the way (`System.along_keepsCounting`).
-/

namespace Ipam

/-- Whether an operation makes a record. -/
def Operation.isCreate : Operation → Bool
  | .create .. => true
  | _ => false

/-- Whether a create arrives with a move. -/
def Move.isCreate : Move → Bool
  | .start _ op => op.isCreate
  | .call .. => false

/-- The number of records that a request at a stage may still make. -/
def Stage.pending : Stage → Nat
  | .choosing => 1
  | .holding _ => 1
  | _ => 0

theorem Stage.pending_first (op : Operation) :
    (first op).pending = if op.isCreate then 1 else 0 := by
  cases op <;> rfl

/-- A turn leaves the counter alone and the request has no more to make than before, or the request
has made its record. -/
theorem Turn.counter_cases {repo : Repository} {m m' : Memory} {op : Operation} {st st' : Stage}
    {c : Call} {fate : Fate} (h : Turn repo m op st c fate m' st') :
    (m'.store.nextId = m.store.nextId ∧ st'.pending ≤ st.pending) ∨
      (m'.store.nextId = m.store.nextId + 1 ∧ st.pending = 1 ∧ st'.pending = 0) := by
  cases h with
  | fail hst hc hs hh => exact .inl ⟨by rw [hs], Nat.zero_le _⟩
  | look hc hs hh => exact .inl ⟨by rw [hs], Nat.le_refl _⟩
  | take x hc hx hs hh hst =>
    refine .inl ⟨by rw [hs], ?_⟩
    rcases hst with rfl | ⟨rfl, -⟩
    · exact Nat.le_refl _
    · exact Nat.zero_le _
  | record r hfree hst =>
    refine .inr ⟨rfl, rfl, ?_⟩
    rcases hst with rfl | ⟨rfl, -⟩ <;> rfl
  | revise new old l₁ l₂ hnew hl hst =>
    refine .inl ⟨rfl, ?_⟩
    rcases hst with rfl | ⟨rfl, -⟩ <;> exact Nat.le_refl _
  | release r hr ht hst =>
    refine .inl ⟨rfl, ?_⟩
    rcases hst with rfl | ⟨rfl, -⟩ <;> exact Nat.le_refl _
  | remove r o l₁ l₂ hl hid ht hst =>
    refine .inl ⟨rfl, ?_⟩
    rcases hst with rfl | ⟨rfl, -⟩ <;> exact Nat.le_refl _
  | _ => exact .inl ⟨rfl, Nat.zero_le _⟩

namespace System

/-- The number of records that the requests under way may still make. -/
def reserve (s : System) (σ : Nat → Stage) : Nat :=
  ∑ i ∈ Finset.range s.tasks.length, (σ i).pending

/-- A request that changes its stage changes the reserve by what it may make itself. -/
theorem sum_pending_update (σ : Nat → Stage) (st : Stage) {n i : Nat} (hi : i < n) :
    ∑ j ∈ Finset.range n, (Function.update σ i st j).pending + (σ i).pending =
      ∑ j ∈ Finset.range n, (σ j).pending + st.pending := by
  have hmem := Finset.mem_range.2 hi
  have hother : ∑ j ∈ (Finset.range n).erase i, (Function.update σ i st j).pending =
      ∑ j ∈ (Finset.range n).erase i, (σ j).pending := by
    refine Finset.sum_congr rfl fun j hj => ?_
    rw [Function.update_of_ne (Finset.ne_of_mem_erase hj)]
  have hnew := Finset.add_sum_erase _ (fun j => (Function.update σ i st j).pending) hmem
  have hold := Finset.add_sum_erase _ (fun j => (σ j).pending) hmem
  rw [Function.update_self] at hnew
  omega

/-- A request that arrives adds to the reserve what it may make. -/
theorem sum_pending_succ (σ : Nat → Stage) (st : Stage) (n : Nat) :
    ∑ i ∈ Finset.range (n + 1), (Function.update σ n st i).pending =
      ∑ i ∈ Finset.range n, (σ i).pending + st.pending := by
  have hold : ∑ i ∈ Finset.range n, (Function.update σ n st i).pending =
      ∑ i ∈ Finset.range n, (σ i).pending := by
    refine Finset.sum_congr rfl fun i hi => ?_
    rw [Function.update_of_ne (Nat.ne_of_lt (Finset.mem_range.1 hi))]
  rw [Finset.sum_range_succ, hold, Function.update_self]

variable {s s' : System} {σ σ' : Nat → Stage} {mv : Move}

/-- As long as there is room for what the requests may still make, the counter does not start again
with a move, and it grows only at the cost of the reserve. -/
theorem Next.counter (hn : s.Next σ mv s' σ')
    (hroom : s.memory.store.nextId.toNat + s.reserve σ < 2 ^ 64) :
    s.memory.store.nextId ≤ s'.memory.store.nextId ∧
      s'.memory.store.nextId.toNat + s'.reserve σ' ≤
        s.memory.store.nextId.toNat + s.reserve σ + if mv.isCreate then 1 else 0 := by
  cases hn with
  | start repo op =>
    refine ⟨UInt64.le_refl _, ?_⟩
    have hnew : reserve ⟨s.memory, s.tasks ++ [.start repo op]⟩
        (Function.update σ s.tasks.length (.first op)) =
          s.reserve σ + if op.isCreate then 1 else 0 := by
      rw [reserve, List.length_append, List.length_singleton, sum_pending_succ,
        Stage.pending_first]
      rfl
    rw [hnew, Nat.add_assoc]
    exact Nat.le_refl _
  | idle mv => exact ⟨UInt64.le_refl _, Nat.le_add_right _ _⟩
  | call rest hi hover hturn =>
    rename_i i fate t c m st
    have hlt := (List.getElem?_eq_some_iff.1 hi).1
    have hsum := sum_pending_update σ st hlt
    simp only [reserve, List.length_set] at hroom ⊢
    rcases hturn.counter_cases with ⟨hnext, hle⟩ | ⟨hnext, hone, hzero⟩
    · rw [hnext]
      exact ⟨UInt64.le_refl _, by omega⟩
    · have hnat := Store.toNat_succ (n := s.memory.store.nextId) (by omega)
      rw [hnext, UInt64.le_iff_toNat_le, hnat]
      omega

/-- The counter does not start again where there is room for all creates, those under way and those
that arrive. -/
theorem Staged.along_keepsCounting (hs : s.Staged σ) {moves : List Move}
    (hroom : s.memory.store.nextId.toNat + s.reserve σ + moves.countP Move.isCreate < 2 ^ 64) :
    s.Along KeepsCounting moves := by
  induction moves generalizing s σ with
  | nil => trivial
  | cons mv moves ih =>
    obtain ⟨σ', hn, hs'⟩ := hs.next mv
    rw [List.countP_cons] at hroom
    obtain ⟨hle, hcount⟩ := hn.counter (by omega)
    exact ⟨hle, ih hs' (by omega)⟩

/-- The counter does not start again where there is room for all creates of a run. -/
theorem along_keepsCounting {m : Memory} {moves : List Move}
    (hroom : m.store.nextId.toNat + moves.countP Move.isCreate < 2 ^ 64) :
    (start m).Along KeepsCounting moves :=
  (staged_start m).along_keepsCounting hroom

end System

end Ipam
