import Ipam.Proofs.Course.Deletion

/-!
# Who answers for a pair

Every pair of a stored record is held until a delete of the record gives it back, and every pair
that a create has taken is held until it is recorded or given back. `Owned` is the invariant behind
that: what answers for a pair is one record or one request, never two. It is kept by every move, as
long as no delete gives back the address of a record whose address was given back before
(`System.Accounted.next`); two deletes of one record can do that, and one alone cannot
(`System.Fresh`).

So in a system where no record is the target of two deletes, whatever becomes of the calls, no
address is handed out twice or given back on behalf of another.
-/

namespace Ipam

/-- The pair that a create at a stage has taken and answers for. -/
def Stage.claim? : Stage → Option Slot
  | .holding x => some x
  | .refused x => some x
  | _ => none

/-- Whether a delete at a stage is under way. -/
def Stage.IsDeleting : Stage → Prop
  | .seeking => True
  | .found _ => True
  | .returned _ => True
  | _ => False

@[simp] theorem Stage.first_claim? (op : Operation) : (first op).claim? = none := by
  cases op <;> rfl

/-- Who answers for the pairs that are held: the records that are not spent, and the requests that
have a claim. -/
structure Owned (entries : List (String × Slot)) (held : OrderedSet Slot)
    (claim : Nat → Option Slot) (spent : String → Prop) : Prop where
  /-- The pair of a record that is not spent is held. -/
  stored : ∀ id x, (id, x) ∈ entries → ¬ spent id → x ∈ held
  /-- A pair that is claimed is held. -/
  claimed : ∀ i x, claim i = some x → x ∈ held
  /-- No two requests claim a pair. -/
  claim_inj : ∀ i j x, claim i = some x → claim j = some x → i = j
  /-- A record with a pair that is claimed is spent. -/
  spent_of_claim : ∀ i id x, claim i = some x → (id, x) ∈ entries → spent id

namespace Owned

variable {entries entries' : List (String × Slot)} {held : OrderedSet Slot}
  {claim claim' : Nat → Option Slot} {spent spent' : String → Prop} {i : Nat} {x : Slot}
  {id : String}

/-- Records may go, claims may be dropped, and records may become spent. -/
theorem shrink (h : Owned entries held claim spent) (he : ∀ e ∈ entries', e ∈ entries)
    (hc : ∀ i x, claim' i = some x → claim i = some x) (hs : ∀ id, spent id → spent' id) :
    Owned entries' held claim' spent' where
  stored id x hx hn := h.stored id x (he _ hx) fun hsp => hn (hs id hsp)
  claimed i x hi := h.claimed i x (hc i x hi)
  claim_inj i j x hi hj := h.claim_inj i j x (hc i x hi) (hc j x hj)
  spent_of_claim i id x hi hx := hs id (h.spent_of_claim i id x (hc i x hi) (he _ hx))

/-- A pair that is not held may be taken, with or without a claim. -/
theorem take (h : Owned entries held claim spent) (hx : x ∉ held)
    (hi : claim' i = some x ∨ claim' i = none) (hj : ∀ j, j ≠ i → claim' j = claim j)
    (hs : ∀ id, spent id → spent' id) : Owned entries (held.insert x) claim' spent' := by
  have hcases : ∀ j y, claim' j = some y → j = i ∧ y = x ∨ j ≠ i ∧ claim j = some y := by
    intro j y hy
    by_cases hji : j = i
    · subst hji
      rcases hi with hi | hi
      · exact .inl ⟨rfl, by rw [hi] at hy; cases hy; rfl⟩
      · rw [hi] at hy
        cases hy
    · exact .inr ⟨hji, hj j hji ▸ hy⟩
  constructor
  · intro id y hy hn
    exact OrderedSet.mem_insert.2 (.inr (h.stored id y hy fun hsp => hn (hs id hsp)))
  · intro j y hy
    rcases hcases j y hy with ⟨-, rfl⟩ | ⟨-, hy⟩
    · exact OrderedSet.mem_insert.2 (.inl rfl)
    · exact OrderedSet.mem_insert.2 (.inr (h.claimed j y hy))
  · intro j k y hy hz
    rcases hcases j y hy with ⟨rfl, rfl⟩ | ⟨-, hy⟩
    · rcases hcases k y hz with ⟨rfl, -⟩ | ⟨-, hz⟩
      · rfl
      · exact absurd (h.claimed k y hz) hx
    · rcases hcases k y hz with ⟨-, rfl⟩ | ⟨-, hz⟩
      · exact absurd (h.claimed j y hy) hx
      · exact h.claim_inj j k y hy hz
  · intro j id y hy hmem
    rcases hcases j y hy with ⟨-, rfl⟩ | ⟨-, hy⟩
    · exact Classical.byContradiction fun hn => hx (h.stored id y hmem fun hsp => hn (hs id hsp))
    · exact hs id (h.spent_of_claim j id y hy hmem)

/-- A record may take over a claim. -/
theorem record (h : Owned entries held claim spent) (hi : claim i = some x) (hi' : claim' i = none)
    (hj : ∀ j, j ≠ i → claim' j = claim j) (hs : ∀ id, spent id → spent' id) :
    Owned (entries ++ [(id, x)]) held claim' spent' := by
  have hcases : ∀ j y, claim' j = some y → j ≠ i ∧ claim j = some y := by
    intro j y hy
    have hji : j ≠ i := by
      rintro rfl
      rw [hi'] at hy
      cases hy
    exact ⟨hji, hj j hji ▸ hy⟩
  constructor
  · intro id' y hy hn
    rcases List.mem_append.1 hy with hy | hy
    · exact h.stored id' y hy fun hsp => hn (hs id' hsp)
    · cases List.mem_singleton.1 hy
      exact h.claimed i x hi
  · exact fun j y hy => h.claimed j y (hcases j y hy).2
  · exact fun j k y hy hz => h.claim_inj j k y (hcases j y hy).2 (hcases k y hz).2
  · intro j id' y hy hmem
    obtain ⟨hji, hy⟩ := hcases j y hy
    rcases List.mem_append.1 hmem with hmem | hmem
    · exact hs id' (h.spent_of_claim j id' y hy hmem)
    · cases List.mem_singleton.1 hmem
      exact absurd (h.claim_inj j i x hy hi) hji

/-- A pair that nothing else answers for may be given back. -/
theorem giveBack (h : Owned entries held claim spent)
    (hother : ∀ id, (id, x) ∈ entries → spent' id)
    (hc : ∀ i y, claim' i = some y → y ≠ x ∧ claim i = some y) (hs : ∀ id, spent id → spent' id) :
    Owned entries (held.erase x) claim' spent' where
  stored id y hy hn := by
    refine OrderedSet.mem_erase.2 ⟨?_, h.stored id y hy fun hsp => hn (hs id hsp)⟩
    rintro rfl
    exact hn (hother id hy)
  claimed i y hy := OrderedSet.mem_erase.2 ⟨(hc i y hy).1, h.claimed i y (hc i y hy).2⟩
  claim_inj i j y hi hj := h.claim_inj i j y (hc i y hi).2 (hc j y hj).2
  spent_of_claim i id y hi hy := hs id (h.spent_of_claim i id y (hc i y hi).2 hy)

end Owned

namespace System

open Stage

variable {s s' : System} {σ σ' : Nat → Stage} {mv : Move}

/-- The records whose address was not given back, and the creates under way, answer for the pairs
that are held. -/
def Accounted (s : System) (σ : Nat → Stage) : Prop :=
  Owned s.memory.store.entries s.memory.pool.held (fun i => (σ i).claim?) s.Released

theorem accounted_start {m : Memory} (hheld : ∀ r ∈ m.store.records, r.slot ∈ m.pool.held) :
    (start m).Accounted fun _ => .ended := by
  constructor
  · intro id x hx _
    obtain ⟨r, hr, -, rfl⟩ := Store.mem_entries.1 hx
    exact hheld r hr
  · intro i x hx
    cases hx
  · intro i j x hx
    cases hx
  · intro i id x hx
    cases hx

/-- A record that was read is there still, and its address was not given back. -/
def IsFresh (s : System) (r : Record) : Prop :=
  (∃ x, (r.id, x) ∈ s.memory.store.entries) ∧ ¬ s.Released r.id

/-- A move keeps who answers for what, unless a delete gives back a pair that is held, but no more
for the record that the delete has read. -/
theorem Accounted.next (h : s.Accounted σ) (hs : s.Sound σ)
    (hf : ∀ i fate r, mv = .call i fate → σ i = .found r → r.slot ∈ s.memory.pool.held → s.IsFresh r)
    (hn : s.Next σ mv s' σ') (hc : s.memory.store.nextId ≤ s'.memory.store.nextId) :
    s'.Accounted σ' := by
  have hspent : ∀ id, s.Released id → s'.Released id := fun id => hn.released
  cases hn with
  | start repo op =>
    refine h.shrink (fun _ he => he) ?_ hspent
    intro i x hi
    by_cases hlen : i = s.tasks.length
    · rw [hlen, Function.update_self, first_claim?] at hi
      cases hi
    · rwa [Function.update_of_ne hlen] at hi
  | idle mv => exact h
  | call rest hi hover hturn =>
    rename_i i fate t c m st
    have hoff : ∀ j, j ≠ i → (Function.update σ i st j).claim? = (σ j).claim? := by
      intro j hj
      rw [Function.update_of_ne hj]
    have hdrop : st.claim? = none ∨ st.claim? = (σ i).claim? → ∀ j x,
        (Function.update σ i st j).claim? = some x → (σ j).claim? = some x := by
      intro hst j x hx
      by_cases hj : j = i
      · subst hj
        rw [Function.update_self] at hx
        rcases hst with hst | hst
        · rw [hst] at hx
          cases hx
        · rwa [← hst]
      · rwa [hoff j hj] at hx
    have hat : ∀ x, st.claim? = x → (Function.update σ i st i).claim? = x := by
      intro x hx
      rw [Function.update_self, hx]
    obtain ⟨repo, op, course⟩ := t
    generalize hst : σ i = before at hturn hdrop
    show Owned m.store.entries m.pool.held (fun j => (Function.update σ i st j).claim?) _
    cases hturn with
    | look htakes hs' hh' =>
      rw [hs', hh']
      exact h.shrink (fun _ he => he) (hdrop (.inl rfl)) hspent
    | fail hidle htakes hs' hh' =>
      rw [hs', hh']
      exact h.shrink (fun _ he => he) (hdrop (.inl rfl)) hspent
    | take x htakes hx hs' hh' hafter =>
      rw [hs', hh']
      refine h.take (i := i) hx ?_ hoff hspent
      rcases hafter with rfl | ⟨rfl, -⟩
      · exact .inl (hat _ rfl)
      · exact .inr (hat _ rfl)
    | record r hfree hafter =>
      rw [Store.entries_append]
      refine h.record (i := i) ?_ (hat _ ?_) hoff hspent
      · show (σ i).claim? = some r.slot
        rw [hst]
        rfl
      · rcases hafter with rfl | ⟨rfl, -⟩
        · rfl
        · rfl
    | giveBack x hx =>
      have hclaim : (σ i).claim? = some x := by
        rw [hst]
        rfl
      refine Owned.giveBack h (fun id he => hspent id (h.spent_of_claim i id x hclaim he)) ?_ hspent
      intro j y hy
      have hj : j ≠ i := by
        rintro rfl
        rw [hat none rfl] at hy
        cases hy
      rw [hoff j hj] at hy
      refine ⟨?_, hy⟩
      rintro rfl
      exact hj (h.claim_inj j i _ hy hclaim)
    | revise new old l₁ l₂ hnew hl hafter =>
      obtain ⟨hid, hslot⟩ := Repository.revise_eq hnew
      refine h.shrink (fun e he => ?_) (hdrop (.inl ?_)) hspent
      · simpa only [Store.entries, hl, List.map_append, List.map_cons, hid, hslot] using he
      · rcases hafter with rfl | ⟨rfl, -⟩
        · rfl
        · rfl
    | release r hr ht hafter =>
      have hloaded : (σ i).loaded? = some r := by
        rw [hst]
        rfl
      have hop := hs.target i _ r hi hloaded
      obtain ⟨⟨x, hx⟩, hnot⟩ := hf i fate r rfl hst hr
      cases (hs.reads i r hloaded).pair x hx
      refine Owned.giveBack (x := r.slot) h ?_ ?_ hspent
      · intro id he
        rw [hs.wellFormed.id_eq he hx]
        exact released_set hi hop ⟨_, rfl⟩ ht
      · intro j y hy
        have hy := hdrop (.inl (by rcases hafter with rfl | ⟨rfl, -⟩ <;> rfl)) j y hy
        refine ⟨?_, hy⟩
        rintro rfl
        exact hnot (h.spent_of_claim j r.id r.slot hy hx)
    | remove r o l₁ l₂ hl hid ht hafter =>
      refine h.shrink (fun e he => (Store.mem_entries_remove hl).2 (.inr he)) (hdrop (.inl ?_)) hspent
      rcases hafter with rfl | ⟨rfl, -⟩
      · rfl
      · rfl
    | refuse r hr => exact h.shrink (fun _ he => he) (hdrop (.inr rfl)) hspent
    | _ => exact h.shrink (fun _ he => he) (hdrop (.inl rfl)) hspent

/-- Every delete is about to act on a record as it found it. -/
def Fresh (s : System) (σ : Nat → Stage) : Prop := ∀ i r, σ i = .found r → s.IsFresh r

/-- No two deletes of one record are under way. -/
def NoRivals (s : System) (σ : Nat → Stage) : Prop :=
  ∀ i j t u id, s.tasks[i]? = some t → s.tasks[j]? = some u → t.operation = .delete id →
    u.operation = .delete id → (σ i).IsDeleting → (σ j).IsDeleting → i = j

/-- A delete that has not read its record yet will not find it if its address was given back. -/
def NoneLeft (s : System) (σ : Nat → Stage) : Prop :=
  ∀ i t id, s.tasks[i]? = some t → t.operation = .delete id → σ i = .seeking → s.Released id →
    ∀ x, (id, x) ∉ s.memory.store.entries

/-- A delete acts on a record as it found it if no other delete of the record interferes. -/
theorem Fresh.next (hf : s.Fresh σ) (hst : s.Staged σ) (hs : s.Sound σ) (hr : s.NoRivals σ)
    (hl : s.NoneLeft σ) (hn : s.Next σ mv s' σ') : s'.Fresh σ' := by
  intro j r hj
  have hreleased := fun h : s'.Released r.id => hn.released_cases h
  cases hn with
  | start repo op =>
    have hlen : j ≠ s.tasks.length := by
      rintro rfl
      rw [Function.update_self] at hj
      have := first_loaded? op
      rw [hj] at this
      cases this
    rw [Function.update_of_ne hlen] at hj
    obtain ⟨hx, hnot⟩ := hf j r hj
    refine ⟨hx, fun h => ?_⟩
    rcases hreleased h with h | ⟨i, t, o, fate, hmv, -⟩
    · exact hnot h
    · cases hmv
  | idle mv => exact hf j r hj
  | call rest hi hover hturn =>
    rename_i i fate t c m st
    by_cases hij : j = i
    · subst hij
      rw [Function.update_self] at hj
      have hseek := (hturn.seeking_of_found (.inr ⟨r, hj⟩)).1
      rcases hturn.loaded_cases (r := r) (by rw [hj]; rfl) with h | ⟨-, rfl, hmem, hop, -⟩
      · rw [hseek] at h
        cases h
      · have hmem := Store.mem_entries_of_mem hmem
        refine ⟨⟨_, hmem⟩, fun h => ?_⟩
        rcases hreleased h with h | ⟨k, u, o, fate, hmv, -, -, hk⟩
        · exact hl j t r.id hi hop hseek h _ hmem
        · cases hmv
          rw [hseek] at hk
          cases hk
    · rw [Function.update_of_ne hij] at hj
      obtain ⟨⟨x, hx⟩, hnot⟩ := hf j r hj
      obtain ⟨u, hu⟩ := hst.exists_task (i := j) (by rw [hj]; nofun)
      have hop := hs.target j u r hu (by rw [hj]; rfl)
      -- The request that makes the call is not a delete of the same record.
      have hother : t.operation = .delete r.id → (σ i).IsDeleting → False := fun hopt hdel =>
        hij (hr j i u t r.id hu hi hop hopt (by rw [hj]; trivial) hdel)
      refine ⟨⟨x, ?_⟩, fun h => ?_⟩
      · rcases hturn.store_cases with
          ⟨-, he⟩ | ⟨o, -, -, he⟩ | ⟨o, p, l₁, l₂, hsti, -, -, hid, hl, he⟩
        · rwa [he]
        · rw [he, Store.entries_append]
          exact List.mem_append_left _ hx
        · rw [he]
          rcases (Store.mem_entries_remove hl).1 hx with hx | hx
          · refine (hother ?_ (by rw [hsti]; trivial)).elim
            have hopt := hs.target i t o hi (by rw [hsti]; rfl)
            have hro : r.id = o.id := (congrArg Prod.fst hx).trans hid
            rwa [hro]
          · exact hx
      · rcases hreleased h with h | ⟨k, v, o, fate, hmv, hv, hopv, hk⟩
        · exact hnot h
        · cases hmv
          rw [hi] at hv
          cases hv
          exact hother hopv (by rw [hk]; trivial)

end System

/-! ## What can be seen of it -/

/-- A request that is about to record a pair or to give it back has a claim to it. -/
theorem Leads.claim_of_holds {t : Task} {st : Stage} {Q : Response → Stage → Prop} {x : Slot}
    (h : Leads t.repository t.operation t.course.rest st Q) (hx : t.Holds x) :
    st.claim? = some x := by
  rcases hx with ⟨r, next, hrest, rfl⟩ | ⟨next, hrest⟩
  · rw [hrest] at h
    obtain ⟨st', hg, -⟩ := h (.error .canceled)
    rw [hg.eq_holding]
    rfl
  · rw [hrest] at h
    obtain ⟨⟨y, rfl⟩, h⟩ := h
    obtain ⟨st', hg, -⟩ := h (.ok () : Except AllocatorError Unit)
    rw [releaseCall_inj hg.eq_releaseCall]
    rfl

/-- A delete that is about to give a pair back has read a record with it. -/
theorem Leads.found_of_givesBack {t : Task} {st : Stage} {Q : Response → Stage → Prop}
    {id : String} {x : Slot} (h : Leads t.repository t.operation t.course.rest st Q)
    (hx : t.GivesBack id x) : ∃ r, st = .found r ∧ r.slot = x := by
  obtain ⟨hop, next, hrest⟩ := hx
  rw [hrest] at h
  obtain ⟨st', hg, -⟩ := h (.error .canceled)
  obtain ⟨r, hst, hc⟩ := hg.eq_found hop ⟨_, rfl⟩
  exact ⟨r, hst, (releaseCall_inj (x := x) (y := r.slot) hc).symm⟩

namespace System

/-- Every pair of a record whose address was not given back is held, and so is every pair that a
request has taken; none of these pairs are the same. -/
structure Backed (s : System) : Prop where
  /-- No two records share an id or a pair. -/
  wellFormed : s.memory.store.WellFormed
  /-- The pairs of records are held. -/
  stored : ∀ r ∈ s.memory.store.records, ¬ s.Released r.id → r.slot ∈ s.memory.pool.held
  /-- The pairs of requests are held. -/
  holds : ∀ (i : Nat) (t : Task) x, s.tasks[i]? = some t → t.Holds x → x ∈ s.memory.pool.held
  /-- No two requests share a pair. -/
  holds_inj : ∀ (i j : Nat) (t u : Task) x, s.tasks[i]? = some t → s.tasks[j]? = some u →
    t.Holds x → u.Holds x → i = j
  /-- No request shares a pair with a record whose address was not given back. -/
  released_of_holds : ∀ (i : Nat) (t : Task) r, s.tasks[i]? = some t → r ∈ s.memory.store.records →
    t.Holds r.slot → s.Released r.id
  /-- A delete gives back the pair of its own record, if that was not given back. -/
  gives_own : ∀ (i : Nat) (t : Task) id x, s.tasks[i]? = some t → t.GivesBack id x →
    ¬ s.Released id → ∃ r ∈ s.memory.store.records, r.id = id ∧ r.slot = x

variable {s : System} {σ : Nat → Stage}

/-- A delete that is about to give a pair back does so for the record with its id, as far as there
is one. -/
theorem Sound.givesBack (hs : s.Sound σ) (hst : s.Staged σ) {i : Nat} {t : Task} {id : String}
    {x : Slot} (ht : s.tasks[i]? = some t) (hx : t.GivesBack id x) :
    ∃ r, σ i = .found r ∧ r.id = id ∧ r.slot = x ∧ s.Reads r := by
  obtain ⟨r, hr, hslot⟩ := (hst.leads i t ht).found_of_givesBack hx
  have hloaded : (σ i).loaded? = some r := by
    rw [hr]
    rfl
  have hop := hs.target i t r ht hloaded
  rw [hx.1] at hop
  cases hop
  exact ⟨r, hr, rfl, hslot, hs.reads i r hloaded⟩

theorem Accounted.backed (h : s.Accounted σ) (hst : s.Staged σ) (hs : s.Sound σ)
    (hkept : ∀ i r, σ i = .found r → ¬ s.Released r.id →
      ∃ x, (r.id, x) ∈ s.memory.store.entries) : s.Backed where
  wellFormed := hs.wellFormed
  stored := fun r hr hn => h.stored r.id r.slot (Store.mem_entries_of_mem hr) hn
  holds := fun i t x ht hx => h.claimed i x ((hst.leads i t ht).claim_of_holds hx)
  holds_inj := fun i j t u x ht hu hx hy => h.claim_inj i j x ((hst.leads i t ht).claim_of_holds hx)
    ((hst.leads j u hu).claim_of_holds hy)
  released_of_holds := fun i t r ht hr hx => h.spent_of_claim i r.id r.slot
    ((hst.leads i t ht).claim_of_holds hx) (Store.mem_entries_of_mem hr)
  gives_own := by
    intro i t id x ht hx hnot
    obtain ⟨r, hr, rfl, rfl, hreads⟩ := hs.givesBack hst ht hx
    obtain ⟨y, hy⟩ := hkept i r hr hnot
    cases hreads.pair y hy
    exact Store.mem_entries.1 hy

/-! ## One delete for each record -/

/-- The ids of the records that the requests are to delete. -/
def targets (s : System) : List String := (s.tasks.map Task.operation).filterMap Operation.target?

/-- A delete that arrives is the first of its record. -/
def DeletesOnce (s : System) (mv : Move) : Prop := ∀ id, mv.target? = some id → id ∉ s.targets

theorem mem_targets {s : System} {t : Task} {id : String} (ht : t ∈ s.tasks)
    (hop : t.operation = .delete id) : id ∈ s.targets :=
  List.mem_filterMap.2 ⟨_, List.mem_map_of_mem ht, Operation.target?_eq_some.2 hop⟩

theorem targets_apply (s : System) (mv : Move) :
    (s.apply mv).targets = s.targets ++ mv.target?.toList := by
  cases mv with
  | start repo op =>
    simp only [apply, targets, Task.start, Move.target?, List.map_append, List.map_cons,
      List.map_nil, List.filterMap_append, List.filterMap_cons, List.filterMap_nil]
    cases op.target? <;> rfl
  | call i fate =>
    simp only [apply, Move.target?, Option.toList_none, List.append_nil]
    cases ht : s.tasks[i]? with
    | none => rfl
    | some t =>
      obtain ⟨hi, rfl⟩ := List.getElem?_eq_some_iff.1 ht
      simp only [targets, List.map_set]
      congr 1
      exact (List.map_set ..).symm.trans (by rw [List.set_getElem_self])

/-- If the deletes that arrive are of different records, each is the first of its record. -/
theorem along_deletesOnce {s : System} {moves : List Move}
    (h : (s.targets ++ moves.filterMap Move.target?).Nodup) : s.Along DeletesOnce moves := by
  induction moves generalizing s with
  | nil => trivial
  | cons mv moves ih =>
    constructor
    · intro id hid hmem
      rw [List.filterMap_cons, hid] at h
      exact (List.nodup_append.1 h).2.2 id hmem id List.mem_cons_self rfl
    · refine ih ?_
      rw [targets_apply]
      cases hid : mv.target? with
      | none => simpa [List.filterMap_cons, hid] using h
      | some id => simpa [List.filterMap_cons, hid] using h

/-- No two requests are to delete the same record. -/
def Single (s : System) : Prop :=
  ∀ (i j : Nat) (t u : Task) id, s.tasks[i]? = some t → s.tasks[j]? = some u →
    t.operation = .delete id → u.operation = .delete id → i = j

theorem Single.next {s' : System} {σ' : Nat → Stage} {mv : Move} (h : s.Single)
    (hn : s.Next σ mv s' σ') (hd : s.DeletesOnce mv) : s'.Single := by
  intro i j t u id ht hu hopt hopu
  rcases hn.task_cases ht with ⟨repo, op, rfl, rfl, rfl⟩ | ⟨v, hv, hopv⟩
  · rcases hn.task_cases hu with ⟨-, -, -, rfl, -⟩ | ⟨w, hw, hopw⟩
    · rfl
    · have hnew := hd id (Operation.target?_eq_some.2 hopt)
      exact absurd (mem_targets (List.mem_of_getElem? hw) (hopw.trans hopu)) hnew
  · rcases hn.task_cases hu with ⟨repo, op, rfl, rfl, rfl⟩ | ⟨w, hw, hopw⟩
    · have hnew := hd id (Operation.target?_eq_some.2 hopu)
      exact absurd (mem_targets (List.mem_of_getElem? hv) (hopv.trans hopt)) hnew
    · exact h i j v w id hv hw (hopv.trans hopt) (hopw.trans hopu)

theorem Single.noRivals (h : s.Single) : s.NoRivals σ :=
  fun i j t u id ht hu hopt hopu _ _ => h i j t u id ht hu hopt hopu

/-- A delete that is the only one of its record has given nothing back before it reads. -/
theorem Single.noneLeft (h : s.Single) (hs : s.Sound σ) : s.NoneLeft σ := by
  rintro i t id ht hop hseek ⟨u, hu, hopu, hr⟩
  obtain ⟨j, hj⟩ := List.mem_iff_getElem?.1 hu
  cases h i j t u id ht hj hop hopu
  rw [ht] at hj
  cases hj
  exact absurd hr (hs.early i t ht (.inl hseek)).1

/-- Whatever becomes of the calls of any requests, in whatever order they are made, records and
requests under way are backed, and every delete gives back the pair of its own record only, as long
as no record is the target of two deletes. -/
theorem backed_of_single_deletes (m : Memory) (hm : m.store.WellFormed)
    (hheld : ∀ r ∈ m.store.records, r.slot ∈ m.pool.held) (moves : List Move)
    (hsingle : (moves.filterMap Move.target?).Nodup)
    (hcount : (start m).Along KeepsCounting moves) :
    ((start m).run moves).Backed ∧
      ∀ (i : Nat) (t : Task) id x, ((start m).run moves).tasks[i]? = some t → t.GivesBack id x →
        ¬ ((start m).run moves).Released id := by
  have hfresh : (start m).Fresh fun _ => .ended := by
    intro i r hr
    cases hr
  have hone : (start m).Single := by
    intro i j t u id ht
    cases ht
  have honce : (start m).Along DeletesOnce moves := along_deletesOnce hsingle
  obtain ⟨σ, hst, hs, ha, hf, -⟩ := run_keeps
    (P := fun s σ => s.Sound σ ∧ s.Accounted σ ∧ s.Fresh σ ∧ s.Single)
    (fun s σ mv s' σ' hC hst ⟨hs, ha, hf, hone⟩ he hn _ => by
      subst he
      exact ⟨hs.next hn hC.1, ha.next hs (fun i _ r _ hr _ => hf i r hr) hn hC.1,
        hf.next hst hs hone.noRivals (hone.noneLeft hs) hn, hone.next hn hC.2⟩)
    (staged_start m) ⟨sound_start hm, accounted_start hheld, hfresh, hone⟩ (hcount.and honce)
  refine ⟨ha.backed hst hs fun i r hr _ => (hf i r hr).1, ?_⟩
  intro i t id x ht hx
  obtain ⟨r, hr, rfl, -⟩ := hs.givesBack hst ht hx
  exact (hf i r hr).2

/-- A create takes the address of a record whose delete was given up after it gave that back. -/
def takeover : List Move :=
  let repo : Repository := ⟨.unscoped, true⟩
  [.start repo (.delete "1"), .start repo (.create Small.stamp Small.createRequest),
    .call 0 (.served 0), .call 0 (.orphaned 0 .canceled), .call 1 (.served 0), .call 1 (.served 0),
    .call 1 (.served 0)]

theorem takeover_backed :
    (takeover.filterMap Move.target?).Nodup ∧ (start Small.memory).Along KeepsCounting takeover ∧
      ((start Small.memory).run takeover).Backed := by
  have hsingle : (takeover.filterMap Move.target?).Nodup := by decide
  have hcount : (start Small.memory).Along KeepsCounting takeover := by decide +kernel
  exact ⟨hsingle, hcount, (backed_of_single_deletes Small.memory Small.wellFormed_memory
    Small.held_memory takeover hsingle hcount).1⟩

end System

end Ipam
