import Ipam.Proofs.Course.Placement

/-!
# Requests that share a store

Any number of requests work on one store, one call at a time, in any order (`Traffic`). Nothing is
assumed of the answers they get but that the networks are served ones: an allocator may name one
address twice, or name none, and a call of the store may be reported to have failed, or to have
succeeded, whether it took effect or not. A request that is given up makes no further call.

The store alone keeps records from sharing a pair, and `Operation.upholds` says that every pair it
is given lies in a served network. So if prefixes that are served have no address in common unless
they are equal, no two records share an address (`Traffic.Sound.addresses_nodup`).
-/

namespace Ipam

/-- The pairs of the records. -/
def Store.slots (s : Store) : List Slot := s.records.map Record.slot

/-- The store after a call that took effect; only a call of the store has any. -/
def Store.after (s : Store) (c : Call) : Store :=
  (Memory.perform ⟨⟨[], []⟩, ∅, s⟩ 0 c).2.store

/-- Requests that work on a store. -/
structure Traffic where
  /-- The store. -/
  store : Store
  /-- What is left of the requests, in the order in which they arrived. -/
  tasks : List (Request Response)

namespace Traffic

/-- What happens next. -/
inductive Event where
  /-- A request arrives. -/
  | arrive (repository : Repository) (operation : Operation)
  /-- The request with a number makes its next call and learns something of it. The call takes
  effect or not. -/
  | exchange (i : Nat) (e : Exchange) (takesEffect : Bool)

/-- The traffic after an event, if it can happen. -/
def step (x : Traffic) : Event → Option Traffic
  | .arrive repo op => some { x with tasks := x.tasks ++ [op.request repo] }
  | .exchange i e takesEffect => do
    let p ← x.tasks[i]?
    let q ← p.take? e
    return ⟨if takesEffect then x.store.after e.call else x.store, x.tasks.set i q⟩

/-- The traffic after some events, if they can happen one after the other. -/
def run (x : Traffic) : List Event → Option Traffic
  | [] => some x
  | event :: events => (x.step event).bind fun y => y.run events

/-- No records and no requests. -/
def empty : Traffic := ⟨∅, []⟩

end Traffic

/-- Whether the network of an exchange, if one was found, is a served one. -/
def Exchange.Serves (served : Network → Prop) (e : Exchange) : Prop :=
  ∀ project id n, e = ⟨.network project id, .ok (.ok n)⟩ → served n

/-- Whether the networks that are found in an event are served ones. -/
def Traffic.Event.Serves (served : Network → Prop) : Traffic.Event → Prop
  | .arrive .. => True
  | .exchange _ e _ => e.Serves served

/-- Whether the address of a pair lies in its prefix, and the prefix is one of a served network. -/
def Slot.IsServed (served : Network → Prop) (x : Slot) : Prop :=
  x.1.contains x.2 = true ∧ ∃ n, served n ∧ x.1 ∈ n.prefixes

/-! ## The pairs of a store -/

namespace Store

variable (s : Store)

/-- A record is put under a pair of its own, or not at all. -/
theorem slots_after_create (r : Record) :
    (s.after (.storeCreate r)).slots = s.slots ∨
    (r.slot ∉ s.slots ∧ (s.after (.storeCreate r)).slots = s.slots ++ [r.slot]) := by
  have hafter : s.after (.storeCreate r) = (s.create r).2 := rfl
  rcases s.create_eq r with ⟨-, he⟩ | ⟨hfree, he⟩
  · left
    rw [hafter, he]
  · right
    rw [hafter, he]
    refine ⟨fun hmem => ?_, by simp [slots]⟩
    obtain ⟨o, ho, hslot⟩ := List.mem_map.1 hmem
    exact hfree o ho hslot

/-- No other call puts a pair into a store, as long as changes keep the pairs. -/
theorem slots_after_sublist {c : Call} (hcreate : ∀ r, c ≠ .storeCreate r)
    (hupdate : ∀ new old, c = .storeUpdate new old → new.slot = old.slot) :
    (s.after c).slots.Sublist s.slots := by
  cases c with
  | storeCreate r => exact absurd rfl (hcreate r)
  | storeUpdate new old =>
    have hafter : s.after (.storeUpdate new old) = (s.update new old).2 := rfl
    rw [hafter]
    cases hu : (s.update new old).1 with
    | ok u =>
      obtain ⟨l₁, l₂, hl, -, he⟩ := update_eq_ok hu
      have hslots : (s.update new old).2.slots = s.slots := by
        simp [he, slots, hl, hupdate new old rfl]
      rw [hslots]
    | error e => rw [update_snd_of_error hu]
  | storeDelete r =>
    have hafter : s.after (.storeDelete r) = (s.delete r).2 := rfl
    rw [hafter]
    cases hd : (s.delete r).1 with
    | ok u =>
      obtain ⟨l₁, o, l₂, hl, -, -, he⟩ := delete_eq_ok hd
      rw [he, slots, slots, hl]
      exact ((List.sublist_cons_self o l₂).append_left l₁).map Record.slot
    | error e => rw [(delete_snd_of_error hd).1]
  | project id => exact List.Sublist.refl _
  | network project id => exact List.Sublist.refl _
  | acquire req => exact List.Sublist.refl _
  | release req => exact List.Sublist.refl _
  | storeGet id => exact List.Sublist.refl _
  | storeList q => exact List.Sublist.refl _

end Store

/-! ## What all traffic keeps -/

namespace Traffic

/-- The pairs of the records are distinct and served, and what is left of each request hands nothing
to the store but what the request has a licence for. -/
structure Sound (served : Network → Prop) (x : Traffic) : Prop where
  slots_nodup : x.store.slots.Nodup
  slots_served : ∀ slot ∈ x.store.slots, Slot.IsServed served slot
  licensed : ∀ p ∈ x.tasks, ∃ (op : Operation) (es : List Exchange),
    (∀ e ∈ es, e.Serves served) ∧ p.Upholds op.Licenses es fun _ _ => True

variable {served : Network → Prop} {x y : Traffic}

theorem Sound.of_empty : empty.Sound served where
  slots_nodup := List.nodup_nil
  slots_served := by
    intro slot hslot
    cases hslot
  licensed := by
    intro p hp
    cases hp

/-- A pair that an operation is licensed to record is one of a network that it has found. -/
theorem isServed_of_licenses {op : Operation} {es : List Exchange} {r : Record}
    (hes : ∀ e ∈ es, e.Serves served) (h : op.Licenses es (.storeCreate r)) :
    Slot.IsServed served r.slot := by
  obtain ⟨stamp, req, p, n, -, hprefix, hr⟩ := h
  have hfound : (⟨.network p.id req.network, .ok (.ok n)⟩ : Exchange) ∈ es :=
    hprefix.subset (by simp)
  exact ⟨hr.contains, n, hes _ hfound _ _ n rfl, hr.prefix_mem⟩

/-- A call that an operation is licensed to make keeps the pairs distinct and served. -/
theorem Sound.slots_after {op : Operation} {es : List Exchange} {c : Call} (h : x.Sound served)
    (hes : ∀ e ∈ es, e.Serves served) (hc : op.Licenses es c) :
    (x.store.after c).slots.Nodup ∧ ∀ slot ∈ (x.store.after c).slots, Slot.IsServed served slot := by
  by_cases hcreate : ∃ r, c = .storeCreate r
  · obtain ⟨r, rfl⟩ := hcreate
    rcases x.store.slots_after_create r with hsame | ⟨hnew, happend⟩
    · rw [hsame]
      exact ⟨h.slots_nodup, h.slots_served⟩
    · rw [happend]
      refine ⟨h.slots_nodup.append (List.nodup_singleton _) (by simpa using hnew), ?_⟩
      intro slot hslot
      rcases List.mem_append.1 hslot with hold | hlast
      · exact h.slots_served slot hold
      · rw [List.mem_singleton.1 hlast]
        exact isServed_of_licenses hes hc
  · have hsub : (x.store.after c).slots.Sublist x.store.slots := by
      refine x.store.slots_after_sublist (fun r hr => hcreate ⟨r, hr⟩) ?_
      rintro new old rfl
      obtain ⟨now, req, -, hrev⟩ := hc
      exact hrev.slot_eq
    exact ⟨hsub.nodup h.slots_nodup, fun slot hslot => h.slots_served slot (hsub.subset hslot)⟩

theorem Sound.step {event : Event} (h : x.Sound served) (hserves : event.Serves served)
    (hy : x.step event = some y) : y.Sound served := by
  cases event with
  | arrive repo op =>
    cases hy
    refine ⟨h.slots_nodup, h.slots_served, fun p hp => ?_⟩
    rcases List.mem_append.1 hp with hp | hp
    · exact h.licensed p hp
    · rw [List.mem_singleton.1 hp]
      exact ⟨op, [], by simp, op.upholds repo⟩
  | exchange i e takesEffect =>
    obtain ⟨p, hp, hy⟩ := Option.bind_eq_some_iff.1 hy
    obtain ⟨q, hq, hy⟩ := Option.bind_eq_some_iff.1 hy
    cases hy
    -- only the request that moves learns anything, and its licence covers the call it makes
    obtain ⟨op, es, hes, hupholds⟩ := h.licensed p (List.mem_of_getElem? hp)
    have hlicense : op.Licenses es e.call := hupholds.call (Program.call?_of_take? hq)
    have hslots := h.slots_after hes hlicense
    refine ⟨?_, ?_, fun p' hp' => ?_⟩
    · cases takesEffect with
      | true => exact hslots.1
      | false => exact h.slots_nodup
    · cases takesEffect with
      | true => exact hslots.2
      | false => exact h.slots_served
    · rcases List.mem_or_eq_of_mem_set hp' with hp' | rfl
      · exact h.licensed p' hp'
      · refine ⟨op, es ++ [e], fun f hf => ?_, hupholds.take hq⟩
        rcases List.mem_append.1 hf with hf | hf
        · exact hes f hf
        · rw [List.mem_singleton.1 hf]
          exact hserves

theorem Sound.run {events : List Event} (h : x.Sound served)
    (hserves : ∀ event ∈ events, event.Serves served) (hy : x.run events = some y) :
    y.Sound served := by
  induction events generalizing x with
  | nil =>
    cases hy
    exact h
  | cons event events ih =>
    obtain ⟨x', hx', hy⟩ := Option.bind_eq_some_iff.1 hy
    refine ih (h.step (hserves event List.mem_cons_self) hx') ?_ hy
    exact fun event' hmem => hserves event' (List.mem_cons_of_mem event hmem)

/-- Pairs of prefixes that are equal or have nothing in common are told apart by their addresses. -/
theorem Sound.addresses_nodup (h : x.Sound served)
    (hdisjoint : ∀ n m, served n → served m → ∀ p ∈ n.prefixes, ∀ q ∈ m.prefixes,
      p = q ∨ ∀ a, ¬ (p.contains a = true ∧ q.contains a = true)) :
    (x.store.records.map Record.address).Nodup := by
  have hslots := h.slots_nodup
  unfold Store.slots at hslots
  rw [List.nodup_iff_pairwise_ne, List.pairwise_map] at hslots ⊢
  refine hslots.imp_of_mem ?_
  intro r o hr ho hne haddr
  obtain ⟨hrc, n, hn, hrp⟩ := h.slots_served r.slot (List.mem_map_of_mem hr)
  obtain ⟨hoc, m, hm, hop⟩ := h.slots_served o.slot (List.mem_map_of_mem ho)
  rcases hdisjoint n m hn hm _ hrp _ hop with hprefix | hapart
  · exact hne (Prod.ext hprefix haddr)
  · refine hapart r.address ⟨hrc, ?_⟩
    rw [haddr]
    exact hoc

/-- If prefixes that are served have no address in common unless they are equal, no two records share
an address, and every record lies in its prefix, which is a served one. -/
theorem records_placed
    (hdisjoint : ∀ n m, served n → served m → ∀ p ∈ n.prefixes, ∀ q ∈ m.prefixes,
      p = q ∨ ∀ a, ¬ (p.contains a = true ∧ q.contains a = true))
    {events : List Event} (hserves : ∀ event ∈ events, event.Serves served) {s : Store}
    (hrun : (empty.run events).map Traffic.store = some s) :
    (s.records.map Record.address).Nodup ∧
      ∀ r ∈ s.records, r.parentPrefix.contains r.address = true ∧
        ∃ n, served n ∧ r.parentPrefix ∈ n.prefixes := by
  obtain ⟨y, hy, rfl⟩ := Option.map_eq_some_iff.1 hrun
  have hsound : y.Sound served := Sound.of_empty.run hserves hy
  refine ⟨hsound.addresses_nodup hdisjoint, fun r hr => ?_⟩
  exact hsound.slots_served r.slot (List.mem_map_of_mem hr)

end Traffic

namespace Small

/-- Any repository. -/
def openRepository : Repository := ⟨.unscoped, false⟩

/-- What a request learns that finds its network and is handed the address of the record. -/
def lookups (i : Nat) : List Traffic.Event :=
  [.exchange i ⟨.project "prj", .ok (.ok ⟨"prj"⟩)⟩ false,
   .exchange i ⟨.network "prj" "net", .ok (.ok wideNetwork)⟩ false,
   .exchange i ⟨.acquire ⟨"10.0.0.0/24", none⟩, .ok (.ok ⟨"10.0.0.1", ""⟩)⟩ false]

/-- Two creates are handed one address. The first one's record is stored, but the request is given
up; the second one's is refused. Then an update is told that it failed, although it did not. -/
def contested : List Traffic.Event :=
  [.arrive openRepository (.create stamp { createRequest with ip := none, name := some "a" }),
   .arrive openRepository (.create stamp { createRequest with ip := none, name := some "b" })]
  ++ lookups 0 ++ lookups 1 ++
  [.exchange 0 ⟨.storeCreate { record with id := "", name := "a" }, .error .canceled⟩ true,
   .exchange 1 ⟨.storeCreate { record with id := "", name := "b" },
     .ok (.error (.alreadyExists ""))⟩ true,
   .arrive openRepository (.update stamp.now ⟨"1", "prj", some "c", none, none, none⟩),
   .exchange 2 ⟨.storeGet "1", .ok (.ok { record with name := "a" })⟩ false,
   .exchange 2 ⟨.storeUpdate { record with name := "c" } { record with name := "a" },
     .ok (.error (.conflict ""))⟩ true]

theorem wideNetwork_disjoint : ∀ p ∈ wideNetwork.prefixes, ∀ q ∈ wideNetwork.prefixes,
    p = q ∨ ∀ a, ¬ (p.contains a = true ∧ q.contains a = true) := by
  have hpair : ∀ {p q : Prefix}, p.last < q.first →
      ∀ a, ¬ (p.contains a = true ∧ q.contains a = true) := by
    intro p q hlt a hboth
    have hp := (Prefix.contains_iff.1 hboth.1).2.2
    have hq := (Prefix.contains_iff.1 hboth.2).2.1
    omega
  intro p hp q hq
  simp only [wideNetwork, Network.ofPrefixes, List.mem_cons, List.not_mem_nil, or_false] at hp hq
  rcases hp with rfl | rfl <;> rcases hq with rfl | rfl
  · exact .inl rfl
  · exact .inr (hpair (by decide))
  · exact .inr fun a h => hpair (by decide) a h.symm
  · exact .inl rfl

end Small

theorem Traffic.records_placed_contested :
    ([{ Small.record with name := "c" }].map Record.address).Nodup ∧
      ∀ r ∈ [{ Small.record with name := "c" }], r.parentPrefix.contains r.address = true ∧
        ∃ n, n = Small.wideNetwork ∧ r.parentPrefix ∈ n.prefixes := by
  have hdisjoint : ∀ n m, n = Small.wideNetwork → m = Small.wideNetwork →
      ∀ p ∈ n.prefixes, ∀ q ∈ m.prefixes,
        p = q ∨ ∀ a, ¬ (p.contains a = true ∧ q.contains a = true) := by
    rintro n m rfl rfl
    exact Small.wideNetwork_disjoint
  have hserves : ∀ event ∈ Small.contested, event.Serves (· = Small.wideNetwork) := by
    simp only [Small.contested, Small.lookups, List.cons_append, List.nil_append, List.forall_mem_cons]
    simp [Event.Serves, Exchange.Serves]
  have hrun : (empty.run Small.contested).map Traffic.store =
      some ⟨1, [{ Small.record with name := "c" }]⟩ := by decide +kernel
  exact records_placed hdisjoint hserves hrun

end Ipam
