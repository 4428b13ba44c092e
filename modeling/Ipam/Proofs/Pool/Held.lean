import Ipam.Allocate
import Ipam.Proofs.Prefix.Text

/-!
# What a pool holds

A request to a pool names prefixes and addresses by their texts, which are read back, so that a
call for an address changes the pairs that are held by just the pair it names. Taking an address
adds a pair that was not held (`acquire_eq`), giving one back removes the pair or finds it missing
(`release_eq`), and a refused call leaves the pairs alone.
-/

namespace Ipam

/-! ## Free hosts -/

namespace Prefix

theorem isHost_iff {p : Prefix} {a : Addr} :
    p.isHost a = true ↔ a.family = p.family ∧ p.firstHost ≤ a.value ∧ a.value ≤ p.lastHost := by
  simp [isHost, and_assoc]

theorem contains_of_isHost {p : Prefix} {a : Addr} (h : p.isHost a = true) :
    p.contains a = true := by
  obtain ⟨hf, hl, hr⟩ := isHost_iff.1 h
  refine contains_iff.2 ⟨hf, ?_, ?_⟩
  · unfold firstHost at hl
    split at hl <;> omega
  · unfold lastHost at hr
    split at hr <;> omega

/-- A free host is one with a number in the range, and it is not taken. -/
theorem mem_freeFrom {p : Prefix} {taken : Addr → Bool} {limit n : Nat} {a : Addr}
    (h : a ∈ p.freeFrom taken limit n) :
    a.family = p.family ∧ n ≤ a.value ∧ a.value ≤ p.lastHost ∧ taken a = false := by
  fun_induction Prefix.freeFrom p taken limit n with
  | case1 n hn => cases h
  | case2 n hn limit b ht ih =>
    obtain ⟨hf, hl, hr, hfree⟩ := ih h
    exact ⟨hf, by omega, hr, hfree⟩
  | case3 n hn limit b ht ih =>
    rcases List.mem_cons.1 h with rfl | h
    · exact ⟨rfl, Nat.le_refl n, hn, by simpa using ht⟩
    · obtain ⟨hf, hl, hr, hfree⟩ := ih h
      exact ⟨hf, by omega, hr, hfree⟩
  | case4 limit n hn => cases h

/-- Where no free host is found, all hosts in the range are taken. -/
theorem taken_of_freeFrom_eq_nil {p : Prefix} {taken : Addr → Bool} {limit n : Nat}
    (hl : 0 < limit) (h : p.freeFrom taken limit n = []) {a : Addr} (hf : a.family = p.family)
    (hn : n ≤ a.value) (ha : a.value ≤ p.lastHost) : taken a = true := by
  fun_induction Prefix.freeFrom p taken limit n with
  | case1 n hle => exact absurd hl (Nat.lt_irrefl 0)
  | case2 n hle limit b ht ih =>
    by_cases he : n = a.value
    · have hab : a = b := Addr.ext hf he.symm
      rwa [hab]
    · exact ih (by omega) h (by omega)
  | case3 n hle limit b ht ih => cases h
  | case4 limit n hle => omega

end Prefix

namespace Pool

/-- A pool hands out hosts of the prefix that are not held. -/
theorem mem_candidates {pool : Pool} {p : Prefix} {a : Addr} (h : a ∈ pool.candidates p) :
    p.isHost a = true ∧ (p, a) ∉ pool.held := by
  rw [candidates_eq] at h
  obtain ⟨hf, hl, hr, hfree⟩ := Prefix.mem_freeFrom h
  refine ⟨Prefix.isHost_iff.2 ⟨hf, hl, hr⟩, fun hm => ?_⟩
  rw [isHeld_iff.2 hm] at hfree
  cases hfree

/-- A pool has nothing to choose from just when all hosts of the prefix are held. -/
theorem candidates_eq_nil_iff {pool : Pool} {p : Prefix} :
    pool.candidates p = [] ↔ ∀ a, p.isHost a = true → (p, a) ∈ pool.held := by
  constructor
  · intro h a ha
    obtain ⟨hf, hl, hr⟩ := Prefix.isHost_iff.1 ha
    rw [candidates_eq] at h
    exact isHeld_iff.1 (Prefix.taken_of_freeFrom_eq_nil (by decide) h hf hl hr)
  · intro h
    cases hc : pool.candidates p with
    | nil => rfl
    | cons a as =>
      obtain ⟨ha, hn⟩ := mem_candidates (hc ▸ List.mem_cons_self)
      exact absurd (h a ha) hn

theorem choose_eq_none_iff {α : Type} {pick : Nat} {l : List α} : choose pick l = none ↔ l = [] := by
  cases l with
  | nil => simp [choose]
  | cons a l =>
    have : pick % (l.length + 1) < l.length + 1 := Nat.mod_lt pick (by omega)
    simp [choose]
    omega

theorem mem_of_choose {α : Type} {pick : Nat} {l : List α} {a : α} (h : choose pick l = some a) :
    a ∈ l := List.mem_of_getElem? h

/-! ## Texts -/

@[simp] theorem readPrefix_text (p : Prefix) : readPrefix p.text = .ok p := by
  unfold readPrefix
  rw [Prefix.parse?_text]

@[simp] theorem readAddr_text (a : Addr) : readAddr a.text = .ok a := by
  unfold readAddr
  rw [Addr.parse?_text]

/-! ## Taking and giving back -/

@[simp] theorem drop_held (pool : Pool) (p : Prefix) (a : Addr) :
    (pool.drop p a).held = pool.held.erase (p, a) := rfl

/-- The address that a pool selects lies in the prefix, is not held, and is the wanted one. -/
theorem select_eq_ok {pool : Pool} {pick : Nat} {p : Prefix} {wanted : Option Addr} {a : Addr}
    (h : pool.select pick p (wanted.map Addr.text) = .ok a) :
    p.contains a = true ∧ (p, a) ∉ pool.held ∧
      match wanted with
      | none => p.isHost a = true
      | some w => a = w := by
  cases wanted with
  | none =>
    simp only [Option.map_none, select] at h
    split at h
    · next b hb =>
      cases h
      obtain ⟨hh, hn⟩ := mem_candidates (mem_of_choose hb)
      exact ⟨Prefix.contains_of_isHost hh, hn, hh⟩
    · cases h
  | some w =>
    simp only [Option.map_some, select, readAddr_text, bind, Except.bind] at h
    by_cases hc : p.contains w = true
    · by_cases hh : pool.isHeld p w = true
      · simp [hc, hh] at h
      · simp only [hc, hh, Bool.not_true, Bool.false_eq_true, if_false] at h
        cases h
        exact ⟨hc, fun hm => hh (isHeld_iff.2 hm), rfl⟩
    · simp [hc] at h

/-- A call for an address of a prefix is refused, or it adds a pair that was not held. -/
theorem acquire_eq (pool : Pool) (pick : Nat) (p : Prefix) (wanted : Option Addr) :
    (∃ a, pool.acquire pick ⟨p.text, wanted.map Addr.text⟩ = (.ok ⟨a.text, p.text⟩, pool.hold p a) ∧
      p.contains a = true ∧ (p, a) ∉ pool.held ∧ (wanted = none ∨ wanted = some a)) ∨
    (∃ e, pool.acquire pick ⟨p.text, wanted.map Addr.text⟩ = (.error e, pool.learn p)) := by
  unfold acquire
  simp only [readPrefix_text]
  cases hs : pool.select pick p (wanted.map Addr.text) with
  | error e => exact .inr ⟨e, rfl⟩
  | ok a =>
    obtain ⟨hc, hn, hw⟩ := select_eq_ok hs
    refine .inl ⟨a, rfl, hc, hn, ?_⟩
    cases wanted with
    | none => exact .inl rfl
    | some w => exact .inr (by rw [hw])

/-- A call for any address of a prefix adds a host that was not held, or finds that all are. -/
theorem acquire_any (pool : Pool) (pick : Nat) (p : Prefix) :
    (∃ a, p.isHost a = true ∧ (p, a) ∉ pool.held ∧
      pool.acquire pick ⟨p.text, none⟩ = (.ok ⟨a.text, p.text⟩, pool.hold p a)) ∨
    ((∀ a, p.isHost a = true → (p, a) ∈ pool.held) ∧
      ∃ detail, pool.acquire pick ⟨p.text, none⟩ = (.error ⟨.notFound, detail⟩, pool.learn p)) := by
  unfold acquire
  simp only [readPrefix_text, select]
  cases hc : choose pick (pool.candidates p) with
  | none => exact .inr ⟨candidates_eq_nil_iff.1 (choose_eq_none_iff.1 hc), _, rfl⟩
  | some a =>
    obtain ⟨hh, hn⟩ := mem_candidates (mem_of_choose hc)
    exact .inl ⟨a, hh, hn, rfl⟩

/-- A call for an address in a prefix adds it, or finds that it is held. -/
theorem acquire_wanted (pool : Pool) (pick : Nat) {p : Prefix} {w : Addr}
    (hc : p.contains w = true) :
    ((p, w) ∉ pool.held ∧
      pool.acquire pick ⟨p.text, some w.text⟩ = (.ok ⟨w.text, p.text⟩, pool.hold p w)) ∨
    ((p, w) ∈ pool.held ∧ ∃ detail,
      pool.acquire pick ⟨p.text, some w.text⟩ = (.error ⟨.alreadyExists, detail⟩, pool.learn p)) := by
  unfold acquire
  simp only [readPrefix_text, select, readAddr_text, bind, Except.bind]
  by_cases hh : (p, w) ∈ pool.held
  · refine .inr ⟨hh, ?_⟩
    simp only [hc, isHeld_iff.2 hh]
    exact ⟨_, rfl⟩
  · have hn : pool.isHeld p w = false := Bool.eq_false_iff.2 fun ht => hh (isHeld_iff.1 ht)
    refine .inl ⟨hh, ?_⟩
    simp only [hc, hn]
    rfl

/-- A call that gives back a pair removes it, or finds that it is not held. -/
theorem release_eq (pool : Pool) (a : Addr) (p : Prefix) :
    ((p, a) ∈ pool.held ∧ pool.release ⟨a.text, p.text⟩ = (.ok (), pool.drop p a)) ∨
    ((p, a) ∉ pool.held ∧ ∃ detail, pool.release ⟨a.text, p.text⟩ = (.error ⟨.notFound, detail⟩, pool)) := by
  unfold release
  simp only [readPrefix_text, readAddr_text]
  by_cases h : (p, a) ∈ pool.held
  · exact .inl ⟨h, by simp [isHeld_iff.2 h]⟩
  · have hn : pool.isHeld p a ≠ true := fun ht => h (isHeld_iff.1 ht)
    exact .inr ⟨h, _, by simp only [hn]; rfl⟩

end Pool

/-- A call that gives a pair back names it. -/
theorem releaseCall_inj {x y : Slot} (h : releaseCall x.2 x.1 = releaseCall y.2 y.1) : x = y := by
  simp only [releaseCall, Call.release.injEq, ReleaseRequest.mk.injEq] at h
  exact Prod.ext (Prefix.text_inj h.2) (Addr.text_inj h.1)

/-- The answer to a call for an address of a prefix is read as the address that it names. -/
theorem readAcquire_ok {p : Prefix} {wanted : Option Addr} {a : Addr} (hc : p.contains a = true)
    (hw : wanted = none ∨ wanted = some a) :
    readAcquire p wanted (.ok (.ok ⟨a.text, p.text⟩)) = .ok a := by
  unfold readAcquire readAcquired
  rcases hw with rfl | rfl <;> simp [Addr.parse?_text, hc]

/-- A refusal of the allocator is read as no address. -/
theorem readAcquire_error (p : Prefix) (wanted : Option Addr) (e : AllocatorError) :
    ∃ e', readAcquire p wanted (.ok (.error e)) = .error e' := by
  obtain ⟨code, detail⟩ := e
  cases code <;> exact ⟨_, rfl⟩

end Ipam
