import Ipam.Proofs.Course.Fate
import Ipam.Proofs.Course.Stage
import Ipam.Proofs.Record.Revision

/-!
# What a call does

`Turn` lists all that a call can do to the memory, by the stage at which it is made, together with
the stage it leads to. Every call that a request makes is one of these turns (`Stage.Goes.turn`,
`Course.advance_turn`), so that what holds of the memory and the stages needs a proof for each turn
only, whatever the programs look like.
-/

namespace Ipam

/-- Whether a request that ends at a stage has done nothing that matters. -/
def Stage.IsIdle : Stage → Prop
  | .reading => True
  | .choosing => True
  | .comparing => True
  | .revising _ => True
  | .seeking => True
  | _ => False

/-- What a call at a stage does to the memory, and the stage it leads to. Where the answer to a call
that took effect is lost, the request is over instead. -/
inductive Turn (repo : Repository) (m : Memory) :
    Operation → Stage → Call → Fate → Memory → Stage → Prop where
  /-- A get or a list is answered. -/
  | read {op c fate} (hop : (∃ id, op = .get id) ∨ ∃ q, op = .list q) (response) :
      Turn repo m op .reading c fate m (.complete response)
  /-- A create goes on looking for an address. -/
  | look {op c fate m'} (hc : c.takesAway = false) (hs : m'.store = m.store)
      (hh : m'.pool.held = m.pool.held) : Turn repo m op .choosing c fate m' .choosing
  /-- A request ends with nothing done. -/
  | fail {op st c fate m'} (hst : st.IsIdle) (hc : c.takesAway = false)
      (hs : m'.store = m.store) (hh : m'.pool.held = m.pool.held) :
      Turn repo m op st c fate m' .ended
  /-- A create takes a pair that was not held. -/
  | take {stamp req c fate m' st'} (x : Slot) (hc : c.takesAway = false)
      (hx : x ∉ m.pool.held) (hs : m'.store = m.store) (hh : m'.pool.held = m.pool.held.insert x)
      (hst : st' = .holding x ∨ st' = .ended ∧ fate.isServed = false) :
      Turn repo m (.create stamp req) .choosing c fate m' st'
  /-- A create records its pair. -/
  | record {stamp req fate st'} (r : Record) (hfree : ∀ o ∈ m.store.records, o.slot ≠ r.slot)
      (hst : st' = .complete (.record (m.store.numberedNext r)) ∨
        st' = .ended ∧ fate.isServed = false) :
      Turn repo m (.create stamp req) (.holding r.slot) (.storeCreate r) fate
        { m with store := ⟨m.store.nextId + 1, m.store.records ++ [m.store.numberedNext r]⟩ } st'
  /-- The record of a create is refused, and its pair is to be given back. -/
  | refuse {stamp req fate} (r : Record) (hr : repo.releaseOnRefusal = true) :
      Turn repo m (.create stamp req) (.holding r.slot) (.storeCreate r) fate m (.refused r.slot)
  /-- A create leaves a pair behind that has no record. -/
  | abandon {stamp req fate} (r : Record)
      (hr : fate.isServed = true → repo.releaseOnRefusal = false) :
      Turn repo m (.create stamp req) (.holding r.slot) (.storeCreate r) fate m .ended
  /-- A create gives its pair back. -/
  | giveBack {stamp req c fate} (x : Slot) (hx : x ∈ m.pool.held) :
      Turn repo m (.create stamp req) (.refused x) c fate
        { m with pool := m.pool.drop x.1 x.2 } .ended
  /-- A create fails to give its pair back. -/
  | keep {stamp req c fate} (x : Slot) (hx : fate.takesEffect = true → x ∉ m.pool.held) :
      Turn repo m (.create stamp req) (.refused x) c fate m .ended
  /-- An update reads its record. -/
  | load {now c fate} {req : Wire.UpdateRequest} (old : Record) (hold : old ∈ m.store.records)
      (hid : old.id = req.ip) : Turn repo m (.update now req) .comparing c fate m (.revising old)
  /-- An update changes its record. -/
  | revise {now req c fate st'} (new old : Record) (l₁ l₂ : List Record)
      (hnew : Repository.revise now req old = .ok new) (hl : m.store.records = l₁ ++ old :: l₂)
      (hst : st' = .complete (.record new) ∨ st' = .ended ∧ fate.isServed = false) :
      Turn repo m (.update now req) (.revising old) c fate
        { m with store := ⟨m.store.nextId, l₁ ++ new :: l₂⟩ } st'
  /-- A delete reads its record. -/
  | seek {id c fate} (r : Record) (hc : c.takesAway = false) (hr : r ∈ m.store.records)
      (hid : r.id = id) : Turn repo m (.delete id) .seeking c fate m (.found r)
  /-- A delete gives the address of its record back. -/
  | release {id fate st'} (r : Record) (hr : r.slot ∈ m.pool.held) (ht : fate.takesEffect = true)
      (hst : st' = .returned r ∨ st' = .ended ∧ fate.isServed = false) :
      Turn repo m (.delete id) (.found r) (releaseCall r.address r.parentPrefix) fate
        { m with pool := m.pool.drop r.parentPrefix r.address } st'
  /-- A delete is told that the address of its record is not held. -/
  | absent {id fate} (r : Record)
      (hr : fate.takesEffect = true ∧ r.slot ∉ m.pool.held ∨
        ∃ fault, fate = .failed fault ∧ fault.allocator.code = .notFound) :
      Turn repo m (.delete id) (.found r) (releaseCall r.address r.parentPrefix) fate m (.returned r)
  /-- A delete ends before it gives the address of its record back. -/
  | stay {id fate} (r : Record) (hf : fate.isServed = false) :
      Turn repo m (.delete id) (.found r) (releaseCall r.address r.parentPrefix) fate m .ended
  /-- A delete removes its record. -/
  | remove {id fate st'} (r o : Record) (l₁ l₂ : List Record)
      (hl : m.store.records = l₁ ++ o :: l₂) (hid : o.id = r.id) (ht : fate.takesEffect = true)
      (hst : st' = .complete (.record r) ∨ st' = .ended ∧ fate.isServed = false) :
      Turn repo m (.delete id) (.returned r) (.storeDelete r) fate
        { m with store := ⟨m.store.nextId, l₁ ++ l₂⟩ } st'
  /-- A delete does not get to remove its record. -/
  | gone {id fate} (r : Record)
      (hr : fate.takesEffect = true → ∀ o ∈ m.store.records, o.id ≠ r.id) :
      Turn repo m (.delete id) (.returned r) (.storeDelete r) fate m .ended

/-- A turn leaves the ids and the pairs of the records alone, or it adds a record with the pair that
the request has taken, or it removes a record with the id that the request has read. -/
theorem Turn.store_cases {repo : Repository} {m m' : Memory} {op : Operation} {st st' : Stage}
    {c : Call} {fate : Fate} (h : Turn repo m op st c fate m' st') :
    (m'.store.nextId = m.store.nextId ∧ m'.store.entries = m.store.entries) ∨
    (∃ r, st = .holding r.slot ∧ (∀ o ∈ m.store.records, o.slot ≠ r.slot) ∧
      m'.store = ⟨m.store.nextId + 1, m.store.records ++ [m.store.numberedNext r]⟩) ∨
    (∃ r o l₁ l₂, st = .returned r ∧ c = .storeDelete r ∧ fate.takesEffect = true ∧
      o.id = r.id ∧ m.store.records = l₁ ++ o :: l₂ ∧ m'.store = ⟨m.store.nextId, l₁ ++ l₂⟩) := by
  cases h with
  | look hc hs hh => exact .inl ⟨by rw [hs], by rw [hs]⟩
  | fail hst hc hs hh => exact .inl ⟨by rw [hs], by rw [hs]⟩
  | take x hc hx hs hh hst => exact .inl ⟨by rw [hs], by rw [hs]⟩
  | record r hfree hst => exact .inr (.inl ⟨r, rfl, hfree, rfl⟩)
  | revise new old l₁ l₂ hnew hl hst =>
    obtain ⟨hid, hslot⟩ := Repository.revise_eq hnew
    refine .inl ⟨rfl, ?_⟩
    simp only [Store.entries, hl, List.map_append, List.map_cons, hid, hslot]
  | remove r o l₁ l₂ hl hid ht hst => exact .inr (.inr ⟨r, o, l₁, l₂, rfl, rfl, ht, hid, hl, rfl⟩)
  | _ => exact .inl ⟨rfl, rfl⟩

/-- An answer is lost only if the call is not served. -/
theorem Memory.not_isServed_of_meet {m : Memory} {c : Call} {fate : Fate} {cause : Interruption}
    (h : (m.meet c fate).1 = .error cause) : fate.isServed = false := by
  cases fate with
  | served pick => cases h
  | failed fault => rfl
  | dropped cause => rfl
  | orphaned pick cause => rfl

namespace Stage

variable {repo : Repository} {m : Memory} {fate : Fate}

theorem onAnswer_eq {ε α : Type} (out : Except Interruption (Except ε α)) (next : α → Stage) :
    (∃ a, out = .ok (.ok a) ∧ onAnswer out next = next a) ∨ onAnswer out next = .ended := by
  rcases out with i | e | a
  · exact .inr rfl
  · exact .inr rfl
  · exact .inl ⟨a, rfl, rfl⟩

theorem onRecord_eq (repo : Repository) (out : Except Interruption (Except StoreError Record))
    (next : Record → Stage) :
    (∃ r, out = .ok (.ok r) ∧ onRecord repo out next = next r) ∨
      onRecord repo out next = .ended := by
  rcases out with i | e | r
  · exact .inr rfl
  · exact .inr rfl
  · by_cases hr : repo.scope.admits r.projectId = true
    · exact .inl ⟨r, rfl, if_pos hr⟩
    · exact .inr (if_neg hr)

theorem onRelease_eq (r : Record) (out : Except Interruption (Except AllocatorError Unit)) :
    onRelease r out = .returned r ∨ onRelease r out = .ended := by
  rcases out with i | answer
  · exact .inr rfl
  · cases hback : readRelease answer with
    | ok back => exact .inl (by simp only [onRelease, hback])
    | error e => exact .inr (by simp only [onRelease, hback])

/-! ### Calls that take effect -/

theorem turn_acquire (stamp : Stamp) (req : Wire.CreateRequest) (p : Prefix)
    (wanted : Option Addr) :
    Turn repo m (.create stamp req) .choosing (acquireCall p wanted) fate
      (m.meet (acquireCall p wanted) fate).2
      (onAcquire p (readAcquire p wanted (m.meet (acquireCall p wanted) fate).1)) := by
  rcases Memory.meet_acquire m fate p wanted with
    ⟨a, hn, -, hm, ha | ⟨cause, hc⟩⟩ | ⟨pool, hh, hm, e, he⟩
  · rw [hm, ha]
    exact .take (p, a) rfl hn rfl rfl (.inl rfl)
  · rw [hm, hc]
    exact .take (p, a) rfl hn rfl rfl (.inr ⟨rfl, Memory.not_isServed_of_meet hc⟩)
  · rw [hm, he]
    cases e with
    | exhausted => exact .look rfl rfl hh
    | taken => exact .fail trivial rfl rfl hh
    | failed e => exact .fail trivial rfl rfl hh

theorem turn_create (stamp : Stamp) (req : Wire.CreateRequest) (r : Record) :
    Turn repo m (.create stamp req) (.holding r.slot) (.storeCreate r) fate
      (m.meet (.storeCreate r) fate).2 (onCreate repo r.slot (m.meet (.storeCreate r) fate).1) := by
  rcases Memory.meet_storeCreate m fate r with
    ⟨-, hfree, hm, ha | ⟨cause, hc⟩⟩ | ⟨-, hm, ⟨e, he⟩ | ⟨cause, hc⟩⟩
  · rw [hm, ha]
    exact .record r hfree (.inl rfl)
  · rw [hm, hc]
    exact .record r hfree (.inr ⟨rfl, Memory.not_isServed_of_meet hc⟩)
  · rw [hm, he]
    show Turn repo m _ _ _ _ _ (if repo.releaseOnRefusal then .refused r.slot else .ended)
    by_cases hr : repo.releaseOnRefusal = true
    · rw [if_pos hr]
      exact .refuse r hr
    · rw [if_neg hr]
      exact .abandon r fun _ => by simpa using hr
  · rw [hm, hc]
    refine .abandon r fun hs => ?_
    rw [Memory.not_isServed_of_meet hc] at hs
    cases hs

theorem turn_revise {now : Instant} {req : Wire.UpdateRequest} {new old : Record}
    (hnew : Repository.revise now req old = .ok new) :
    Turn repo m (.update now req) (.revising old) (.storeUpdate new old) fate
      (m.meet (.storeUpdate new old) fate).2
      (onAnswer (m.meet (.storeUpdate new old) fate).1 fun _ => .complete (.record new)) := by
  rcases Memory.meet_storeUpdate m fate new old with
    ⟨-, l₁, l₂, hl, -, hm, ha | ⟨cause, hc⟩⟩ | ⟨hm, ⟨e, he⟩ | ⟨cause, hc⟩⟩
  · rw [hm, ha]
    exact .revise new old l₁ l₂ hnew hl (.inl rfl)
  · rw [hm, hc]
    exact .revise new old l₁ l₂ hnew hl (.inr ⟨rfl, Memory.not_isServed_of_meet hc⟩)
  · rw [hm, he]
    exact .fail trivial rfl rfl rfl
  · rw [hm, hc]
    exact .fail trivial rfl rfl rfl

theorem turn_release (id : String) (r : Record) :
    Turn repo m (.delete id) (.found r) (releaseCall r.address r.parentPrefix) fate
      (m.meet (releaseCall r.address r.parentPrefix) fate).2
      (onRelease r (m.meet (releaseCall r.address r.parentPrefix) fate).1) := by
  rcases Memory.meet_release m fate r.address r.parentPrefix with
    ⟨-, hm, ⟨fault, hf, ha⟩ | ⟨cause, hc⟩⟩ | ⟨ht, hx, hm, ha | ⟨cause, hc⟩⟩ |
      ⟨ht, hx, hm, ⟨detail, ha⟩ | ⟨cause, hc⟩⟩
  · rw [hm, ha]
    show Turn repo m _ _ _ _ _
      (onRelease r (.ok (.error fault.allocator : Except AllocatorError Unit)))
    by_cases hcode : fault.allocator.code = .notFound
    · have hst : onRelease r (.ok (.error fault.allocator)) = .returned r := by
        simp [onRelease, readRelease, hcode]
      rw [hst]
      exact .absent r (.inr ⟨fault, hf, hcode⟩)
    · have hst : onRelease r (.ok (.error fault.allocator)) = .ended := by
        simp [onRelease, readRelease, hcode]
      rw [hst]
      exact .stay r (by rw [hf]; rfl)
  · rw [hm, hc]
    exact .stay r (Memory.not_isServed_of_meet hc)
  · rw [hm, ha]
    exact .release r hx ht (.inl rfl)
  · rw [hm, hc]
    exact .release r hx ht (.inr ⟨rfl, Memory.not_isServed_of_meet hc⟩)
  · rw [hm, ha]
    exact .absent r (.inl ⟨ht, hx⟩)
  · rw [hm, hc]
    exact .stay r (Memory.not_isServed_of_meet hc)

theorem turn_remove (id : String) (r : Record) :
    Turn repo m (.delete id) (.returned r) (.storeDelete r) fate (m.meet (.storeDelete r) fate).2
      (onAnswer (m.meet (.storeDelete r) fate).1 fun _ => .complete (.record r)) := by
  rcases Memory.meet_storeDelete m fate r with
    ⟨ht, l₁, o, l₂, hl, hid, -, hm, ha | ⟨cause, hc⟩⟩ | ⟨hne, hm, ⟨e, he⟩ | ⟨cause, hc⟩⟩
  · rw [hm, ha]
    exact .remove r o l₁ l₂ hl hid ht (.inl rfl)
  · rw [hm, hc]
    exact .remove r o l₁ l₂ hl hid ht (.inr ⟨rfl, Memory.not_isServed_of_meet hc⟩)
  · rw [hm, he]
    exact .gone r hne
  · rw [hm, hc]
    exact .gone r hne

/-- Every call that a request may make at a stage is a turn. -/
theorem Goes.turn {op : Operation} {st st' : Stage} {c : Call}
    {out : Except Interruption c.Answer} (h : Goes repo op st c out st')
    (hout : out = (m.meet c fate).1) : Turn repo m op st c fate (m.meet c fate).2 st' := by
  cases h with
  | get id out =>
    rw [Memory.meet_storeGet]
    rcases onRecord_eq repo out fun r => .complete (.record r) with ⟨r, -, h⟩ | h
    · rw [h]
      exact .read (.inl ⟨id, rfl⟩) _
    · rw [h]
      exact .fail trivial rfl rfl rfl
  | list q out =>
    rw [Memory.meet_storeList]
    rcases onAnswer_eq out fun rs : List Record =>
      .complete (.records (rs.filter fun r => !r.tags.isMachineBound)) with ⟨rs, -, h⟩ | h
    · rw [h]
      exact .read (.inr ⟨q, rfl⟩) _
    · rw [h]
      exact .fail trivial rfl rfl rfl
  | project stamp req out =>
    rw [Memory.meet_project]
    rcases onAnswer_eq out fun _ => .choosing with ⟨p, -, h⟩ | h
    · rw [h]
      exact .look rfl rfl rfl
    · rw [h]
      exact .fail trivial rfl rfl rfl
  | network stamp req p out =>
    rw [Memory.meet_network]
    rcases onAnswer_eq out fun _ => .choosing with ⟨n, -, h⟩ | h
    · rw [h]
      exact .look rfl rfl rfl
    · rw [h]
      exact .fail trivial rfl rfl rfl
  | acquire stamp req p wanted =>
    subst hout
    exact turn_acquire stamp req p wanted
  | create stamp req x r hx =>
    subst hout hx
    exact turn_create stamp req r
  | compensate stamp req x answer =>
    rcases Memory.meet_release m fate x.2 x.1 with
      ⟨ht, hm, -⟩ | ⟨-, hx, hm, -⟩ | ⟨-, hx, hm, -⟩
    · rw [hm]
      refine .keep x fun h => ?_
      rw [ht] at h
      cases h
    · rw [hm]
      exact .giveBack x hx
    · rw [hm]
      exact .keep x fun _ => hx
  | load now req out =>
    rw [Memory.meet_storeGet]
    rcases onRecord_eq repo out .revising with ⟨r, hr, h⟩ | h
    · rw [h]
      obtain ⟨hmem, hid⟩ := Memory.mem_of_meet_storeGet (hout.symm.trans hr)
      exact .load r hmem hid
    · rw [h]
      exact .fail trivial rfl rfl rfl
  | revise now req new old hnew =>
    subst hout
    exact turn_revise hnew
  | seek id out =>
    rw [Memory.meet_storeGet]
    rcases onRecord_eq repo out .found with ⟨r, hr, h⟩ | h
    · rw [h]
      obtain ⟨hmem, hid⟩ := Memory.mem_of_meet_storeGet (hout.symm.trans hr)
      exact .seek r rfl hmem hid
    · rw [h]
      exact .fail trivial rfl rfl rfl
  | release id r =>
    subst hout
    exact turn_release id r
  | remove id r =>
    subst hout
    exact turn_remove id r

end Stage

namespace Course

variable {α : Type} {repo : Repository} {op : Operation} {Q : α → Stage → Prop}

/-- The next call of a course that keeps to the stages is made at its stage, unless there is none, or
it is one to give a pair back that cannot be given up. -/
theorem advance_goes {c : Course (Except RequestError α)} {st : Stage}
    (h : Leads repo op c.rest st Q) (m : Memory) (fate : Fate) :
    (c.advance m fate = (c, m) ∧ ∀ call, c.rest.call? = some call → ∃ req, call = .release req) ∨
    ∃ call rest st', c.rest.call? = some call ∧
      c.advance m fate = (⟨rest, c.trace ++ [(call, fate)]⟩, (m.meet call fate).2) ∧
      Stage.Goes repo op st call (m.meet call fate).1 st' ∧ Leads repo op rest st' Q ∧ ¬ c.IsOver := by
  obtain ⟨rest, trace⟩ := c
  cases rest with
  | done a =>
    refine .inl ⟨rfl, ?_⟩
    intro call hcall
    cases hcall
  | guarded call next =>
    obtain ⟨st', hg, hl⟩ := h (m.meet call fate).1
    refine .inr ⟨call, next (m.meet call fate).1, st', rfl, rfl, hg, hl, ?_⟩
    rintro ⟨a, ha⟩
    cases ha
  | detached call next =>
    obtain ⟨⟨x, rfl⟩, h⟩ := h
    cases hr : m.meet call fate with
    | mk out m' =>
      cases out with
      | error i =>
        refine .inl ⟨?_, ?_⟩
        · unfold advance
          dsimp only
          rw [hr]
        · rintro _ ⟨⟩
          obtain ⟨st', hg, -⟩ := h (m.perform 0 call).1
          exact ⟨_, hg.eq_releaseCall⟩
      | ok a =>
        obtain ⟨st', hg, hl⟩ := h a
        refine .inr ⟨call, next a, st', rfl, ?_, by rw [hr]; exact hg, hl, ?_⟩
        · unfold advance
          dsimp only
          rw [hr]
        · rintro ⟨b, hb⟩
          cases hb

/-- The next call of a course that keeps to the stages is a turn, unless there is none or it cannot
be given up. -/
theorem advance_turn {c : Course (Except RequestError α)} {st : Stage}
    (h : Leads repo op c.rest st Q) (m : Memory) (fate : Fate) :
    c.advance m fate = (c, m) ∨
    ∃ call rest st', c.advance m fate = (⟨rest, c.trace ++ [(call, fate)]⟩, (m.meet call fate).2) ∧
      Turn repo m op st call fate (m.meet call fate).2 st' ∧ Leads repo op rest st' Q := by
  rcases advance_goes h m fate with ⟨h, -⟩ | ⟨call, rest, st', -, h, hg, hl, -⟩
  · exact .inl h
  · exact .inr ⟨call, rest, st', h, hg.turn rfl, hl⟩

/-- What every turn keeps holds however a course is followed. -/
theorem follow_keeps {P : Stage → Trace → Memory → Prop}
    (hstep : ∀ st trace m call fate m' st', P st trace m → Turn repo m op st call fate m' st' →
      P st' (trace ++ [(call, fate)]) m')
    {c : Course (Except RequestError α)} {m : Memory} {st : Stage}
    (hl : Leads repo op c.rest st Q) (hP : P st c.trace m) (fates : List Fate) :
    ∃ st', Leads repo op (c.follow m fates).1.rest st' Q ∧
      P st' (c.follow m fates).1.trace (c.follow m fates).2 := by
  induction fates generalizing c m st with
  | nil => exact ⟨st, hl, hP⟩
  | cons fate fates ih =>
    show ∃ st', Leads repo op ((c.advance m fate).1.follow (c.advance m fate).2 fates).1.rest st' Q ∧ _
    rcases advance_turn hl m fate with h | ⟨call, rest, st', h, ht, hl'⟩
    · simp only [follow, h]
      exact ih hl hP
    · simp only [follow, h]
      exact ih hl' (hstep _ _ _ _ _ _ _ hP ht)

end Course

end Ipam
