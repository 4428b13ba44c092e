import Ipam.Proofs.Course.Turn

/-!
# What a request leaves behind

A request makes its calls one after the other, and any of them may fail or be given up. What it
leaves behind is always the effect of a first part of its work: nothing, the work half done
(`Operation.Halfway`), or all of it (`Operation.Done`). It answers well only when all is done.

The proof accounts for what was done at each stage of a request (`Operation.Accounts`), shows that
every turn keeps the account, and follows the request along any course of fates.
-/

namespace Ipam

namespace Memory

variable (m m' : Memory)

/-- The records and the pairs held are the same. -/
def Same : Prop := m'.store = m.store ∧ m'.pool.held = m.pool.held

/-- A pair that was not held is held now, and the records are the same. -/
def Took (x : Slot) : Prop :=
  x ∉ m.pool.held ∧ m'.store = m.store ∧ m'.pool.held = m.pool.held.insert x

/-- A pair that was not held is held now, and a record of it stands at the end under the next
number. No other record has that pair. -/
def Recorded (r : Record) : Prop :=
  r.slot ∉ m.pool.held ∧ (∀ o ∈ m.store.records, o.slot ≠ r.slot) ∧
    r.id = toString (m.store.nextId + 1).toNat ∧
    m'.store = ⟨m.store.nextId + 1, m.store.records ++ [r]⟩ ∧
    m'.pool.held = m.pool.held.insert r.slot

/-- One record is replaced where it stands, and the pairs held are the same. -/
def Replaced (old new : Record) : Prop :=
  ∃ l₁ l₂, m.store.records = l₁ ++ old :: l₂ ∧ m'.store = ⟨m.store.nextId, l₁ ++ new :: l₂⟩ ∧
    m'.pool.held = m.pool.held

/-- The pair of a record was held and is held no more, and the records are the same. -/
def GaveBack (r : Record) : Prop :=
  r ∈ m.store.records ∧ r.slot ∈ m.pool.held ∧ m'.store = m.store ∧
    m'.pool.held = m.pool.held.erase r.slot

/-- One record is gone, and the others stay. -/
def Removed (r : Record) : Prop :=
  ∃ l₁ l₂, m.store.records = l₁ ++ r :: l₂ ∧ m'.store = ⟨m.store.nextId, l₁ ++ l₂⟩

end Memory

namespace Operation

/-- The work that an operation leaves half done, if it does. -/
def Halfway (op : Operation) (trace : Trace) (m m' : Memory) : Prop :=
  match op with
  | .create .. => (∃ x, m.Took m' x) ∧ ¬ trace.Releases
  | .delete id => ∃ r, r.id = id ∧ m.GaveBack m' r
  | _ => False

/-- The work of an operation that is answered with a response. -/
def Done (op : Operation) (response : Response) (trace : Trace) (m m' : Memory) : Prop :=
  match op, response with
  | .get _, _ => m.Same m'
  | .list _, _ => m.Same m'
  | .create .., .record r => m.Recorded m' r ∧ ¬ trace.Releases
  | .update now req, .record new => ∃ old, old.id = req.ip ∧
      Repository.revise now req old = .ok new ∧ m.Replaced m' old new
  | .delete id, .record r => r.id = id ∧ m.Removed m' r ∧
      (m'.pool.held = m.pool.held.erase r.slot ∨ m'.pool.held = m.pool.held ∧ trace.ToldAbsent r)
  | _, .records _ => False

/-- What an operation leaves behind if all its calls are served and it fails. -/
def Refused (repo : Repository) (op : Operation) (m m' : Memory) : Prop :=
  match op with
  | .create .. => m.Same m' ∨ repo.releaseOnRefusal = false ∧ ∃ x, m.Took m' x
  | _ => m.Same m'

/-- What was done when a request is at a stage. -/
def Accounts (repo : Repository) (op : Operation) (m : Memory) (trace : Trace) (m' : Memory) :
    Stage → Prop
  | .reading => m.Same m'
  | .choosing => m.Same m' ∧ ¬ trace.Releases
  | .holding x => m.Took m' x ∧ ¬ trace.Releases ∧ ∃ stamp req, op = .create stamp req
  | .refused x => m.Took m' x ∧ ¬ trace.Releases ∧ ∃ stamp req, op = .create stamp req
  | .comparing => m.Same m'
  | .revising old => m.Same m' ∧ ∃ now req, op = .update now req ∧ old.id = req.ip
  | .seeking => m.Same m'
  | .found r => m.Same m' ∧ r ∈ m.store.records ∧ op = .delete r.id
  | .returned r => m'.store = m.store ∧ r ∈ m.store.records ∧ op = .delete r.id ∧
      (m'.pool.held = m.pool.held.erase r.slot ∨ m'.pool.held = m.pool.held ∧ trace.ToldAbsent r)
  | .complete response => op.Done response trace m m'
  | .ended => (m.Same m' ∨ op.Halfway trace m m' ∨ ∃ response, op.Done response trace m m') ∧
      (trace.Served → op.Refused repo m m')

end Operation

/-! ## Memories -/

namespace Memory

variable {m m₁ m₂ : Memory} {x : Slot}

theorem Same.trans (h : m.Same m₁) (hs : m₂.store = m₁.store) (hh : m₂.pool.held = m₁.pool.held) :
    m.Same m₂ := ⟨hs.trans h.1, hh.trans h.2⟩

/-- A pair that is taken after nothing else was done is one that was not held. -/
theorem Same.took (h : m.Same m₁) (hx : x ∉ m₁.pool.held) (hs : m₂.store = m₁.store)
    (hh : m₂.pool.held = m₁.pool.held.insert x) : m.Took m₂ x :=
  ⟨h.2 ▸ hx, hs.trans h.1, h.2 ▸ hh⟩

/-- A pair that was taken and is given back leaves no trace. -/
theorem Took.erase (h : m.Took m₁ x) : m.Same { m₁ with pool := m₁.pool.drop x.1 x.2 } := by
  refine ⟨h.2.1, OrderedSet.ext fun y => ?_⟩
  rw [Pool.drop_held, OrderedSet.mem_erase, h.2.2, OrderedSet.mem_insert]
  constructor
  · rintro ⟨hne, rfl | hy⟩
    · exact absurd rfl hne
    · exact hy
  · intro hy
    exact ⟨fun (he : y = x) => h.1 (he ▸ hy), .inr hy⟩

/-- A pair that is not held stays so when it is given back. -/
theorem erase_of_not_mem {s : OrderedSet Slot} (h : x ∉ s) : s.erase x = s := by
  refine OrderedSet.ext fun y => ?_
  rw [OrderedSet.mem_erase]
  exact ⟨fun hy => hy.2, fun hy => ⟨fun he => h (he ▸ hy), hy⟩⟩

theorem Took.recorded {r : Record} (h : m.Took m₁ r.slot)
    (hfree : ∀ o ∈ m₁.store.records, o.slot ≠ r.slot) :
    m.Recorded { m₁ with store :=
      ⟨m₁.store.nextId + 1, m₁.store.records ++ [m₁.store.numberedNext r]⟩ }
      (m.store.numberedNext r) := by
  obtain ⟨hx, hs, hh⟩ := h
  rw [hs] at hfree ⊢
  exact ⟨hx, hfree, rfl, rfl, hh⟩

end Memory

namespace Operation

open Memory Stage

variable {repo : Repository} {op : Operation} {m : Memory}

theorem refused_of_same {m' : Memory} (h : m.Same m') : op.Refused repo m m' := by
  cases op with
  | create stamp req => exact .inl h
  | _ => exact h

/-- The account at any stage is of nothing, a first half or all of the work. -/
theorem Accounts.effect {trace : Trace} {m' : Memory} {st : Stage}
    (h : op.Accounts repo m trace m' st) :
    m.Same m' ∨ op.Halfway trace m m' ∨ ∃ response, op.Done response trace m m' := by
  cases st with
  | reading => exact .inl h
  | choosing => exact .inl h.1
  | holding x =>
    obtain ⟨htook, hn, stamp, req, rfl⟩ := h
    exact .inr (.inl ⟨⟨x, htook⟩, hn⟩)
  | refused x =>
    obtain ⟨htook, hn, stamp, req, rfl⟩ := h
    exact .inr (.inl ⟨⟨x, htook⟩, hn⟩)
  | comparing => exact .inl h
  | revising old => exact .inl h.1
  | seeking => exact .inl h
  | found r => exact .inl h.1
  | returned r =>
    obtain ⟨hs, hmem, rfl, hh | ⟨hh, -⟩⟩ := h
    · by_cases hx : r.slot ∈ m.pool.held
      · exact .inr (.inl ⟨r, rfl, hmem, hx, hs, hh⟩)
      · exact .inl ⟨hs, hh.trans (erase_of_not_mem hx)⟩
    · exact .inl ⟨hs, hh⟩
  | complete response => exact .inr (.inr ⟨response, h⟩)
  | ended => exact h.1

/-- Every turn keeps the account of what was done. -/
theorem Accounts.turn (hids : (m.store.records.map Record.id).Nodup) {trace : Trace}
    {m₁ m₂ : Memory} {st st' : Stage} {c : Call} {fate : Fate}
    (h : op.Accounts repo m trace m₁ st) (ht : Turn repo m₁ op st c fate m₂ st') :
    op.Accounts repo m (trace ++ [(c, fate)]) m₂ st' := by
  cases ht with
  | read hop response =>
    rcases hop with ⟨id, rfl⟩ | ⟨q, rfl⟩
    · exact h
    · exact h
  | look hc hs hh => exact ⟨h.1.trans hs hh, Trace.not_releases_append _ h.2 hc⟩
  | fail hst hc hs hh =>
    have hsame : m.Same m₁ := by
      cases st with
      | reading => exact h
      | choosing => exact h.1
      | comparing => exact h
      | revising old => exact h.1
      | seeking => exact h
      | _ => exact hst.elim
    have := hsame.trans hs hh
    exact ⟨.inl this, fun _ => refused_of_same this⟩
  | take x hc hx hs hh hst =>
    have htook := h.1.took hx hs hh
    have hn := Trace.not_releases_append fate h.2 hc
    rcases hst with rfl | ⟨rfl, hf⟩
    · exact ⟨htook, hn, _, _, rfl⟩
    · exact ⟨.inr (.inl ⟨⟨x, htook⟩, hn⟩), fun hs => absurd hs (Trace.not_served_append hf)⟩
  | record r hfree hst =>
    have hrec := h.1.recorded hfree
    rw [← h.1.2.1] at hrec
    have hdone := And.intro hrec
      (Trace.not_releases_append (c := .storeCreate r) fate h.2.1 rfl)
    rcases hst with rfl | ⟨rfl, hf⟩
    · exact hdone
    · exact ⟨.inr (.inr ⟨.record _, hdone⟩), fun hs => absurd hs (Trace.not_served_append hf)⟩
  | refuse r hr => exact ⟨h.1, Trace.not_releases_append _ h.2.1 rfl, h.2.2⟩
  | abandon r hr =>
    refine ⟨.inr (.inl ⟨⟨_, h.1⟩, Trace.not_releases_append _ h.2.1 rfl⟩), fun hserved => ?_⟩
    exact .inr ⟨hr (Trace.served_append.1 hserved).2, _, h.1⟩
  | giveBack x hx => exact ⟨.inl h.1.erase, fun _ => .inl h.1.erase⟩
  | keep x hx =>
    have hmem : x ∈ m₁.pool.held := by
      rw [h.1.2.2]
      exact OrderedSet.mem_insert.2 (.inl rfl)
    have hn : ¬ Trace.Releases (trace ++ [(c, fate)]) := by
      rw [Trace.releases_append]
      rintro (hr | ⟨-, ht⟩)
      · exact h.2.1 hr
      · exact hx ht hmem
    refine ⟨.inr (.inl ⟨⟨x, h.1⟩, hn⟩), fun hserved => ?_⟩
    exact absurd hmem (hx (Fate.takesEffect_of_isServed (Trace.served_append.1 hserved).2))
  | load old hold hid => exact ⟨h, _, _, rfl, hid⟩
  | revise new old l₁ l₂ hnew hl hst =>
    obtain ⟨⟨hs, hh⟩, now', req', he, hid⟩ := h
    cases he
    rw [hs] at hl ⊢
    have hrep : Done (.update _ _) (.record new) (trace ++ [(c, fate)]) m
        { m₁ with store := ⟨m.store.nextId, l₁ ++ new :: l₂⟩ } :=
      ⟨old, hid, hnew, l₁, l₂, hl, rfl, hh⟩
    rcases hst with rfl | ⟨rfl, hf⟩
    · exact hrep
    · exact ⟨.inr (.inr ⟨.record new, hrep⟩), fun hs => absurd hs (Trace.not_served_append hf)⟩
  | seek r hc hr hid =>
    subst hid
    exact ⟨h, h.1 ▸ hr, rfl⟩
  | release r hr ht hst =>
    obtain ⟨⟨hs, hh⟩, hmem, he⟩ := h
    cases he
    have hh' : (m₁.pool.drop r.parentPrefix r.address).held = m.pool.held.erase r.slot := by
      rw [Pool.drop_held, hh]
      rfl
    rcases hst with rfl | ⟨rfl, hf⟩
    · exact ⟨hs, hmem, rfl, .inl hh'⟩
    · refine ⟨.inr (.inl ⟨r, rfl, hmem, hh ▸ hr, hs, hh'⟩), fun hs => ?_⟩
      exact absurd hs (Trace.not_served_append hf)
  | absent r hr =>
    obtain ⟨⟨hs, hh⟩, hmem, he⟩ := h
    refine ⟨hs, hmem, he, ?_⟩
    rcases hr with ⟨-, hn⟩ | ⟨fault, hf, hcode⟩
    · rw [hh] at hn ⊢
      exact .inl (erase_of_not_mem hn).symm
    · subst hf
      exact .inr ⟨hh, fault, List.mem_append_right _ List.mem_cons_self, hcode⟩
  | stay r hf => exact ⟨.inl h.1, fun hs => absurd hs (Trace.not_served_append hf)⟩
  | remove r o l₁ l₂ hl hid ht hst =>
    obtain ⟨hs, hmem, he, hh⟩ := h
    cases he
    rw [hs] at hl ⊢
    have ho : o = r := Store.eq_of_id_eq hids (hl ▸ List.mem_append_right _ List.mem_cons_self) hmem hid
    subst ho
    have hdone : Done (.delete o.id) (.record o) (trace ++ [(.storeDelete o, fate)]) m
        { m₁ with store := ⟨m.store.nextId, l₁ ++ l₂⟩ } :=
      ⟨rfl, ⟨l₁, l₂, hl, rfl⟩, hh.imp_right fun h => ⟨h.1, h.2.append⟩⟩
    rcases hst with rfl | ⟨rfl, hf⟩
    · exact hdone
    · exact ⟨.inr (.inr ⟨.record o, hdone⟩), fun hs => absurd hs (Trace.not_served_append hf)⟩
  | gone r hr =>
    obtain ⟨hs, hmem, he, hh⟩ := h
    have hstill : Accounts repo (.delete _) m (trace ++ [(.storeDelete r, fate)]) m₁ (.returned r) :=
      ⟨hs, hmem, he, hh.imp_right fun h => ⟨h.1, h.2.append⟩⟩
    refine ⟨hstill.effect, fun hserved => ?_⟩
    have ht := Fate.takesEffect_of_isServed (Trace.served_append.1 hserved).2
    exact absurd rfl (hr ht r (hs ▸ hmem))

/-- Nothing is done at the start. -/
theorem accounts_first (repo : Repository) (op : Operation) (m : Memory) :
    op.Accounts repo m [] m (first op) := by
  cases op with
  | create stamp req =>
    refine ⟨⟨rfl, rfl⟩, ?_⟩
    rintro ⟨req, fate, h, -⟩
    cases h
  | _ => exact ⟨rfl, rfl⟩

/-- Wherever a request is, and whatever became of its calls, nothing, a first half or all of its
work is done. It has answered well only if all is done. If all its calls were served and it has
failed, nothing is done, except that a create whose record is refused may leave a pair behind. A
create that has given its pair back leaves nothing behind. -/
theorem request_effect (repo : Repository) (op : Operation) (m : Memory)
    (hids : (m.store.records.map Record.id).Nodup) (fates : List Fate) :
    let r := (Course.start (op.request repo)).follow m fates
    (m.Same r.2 ∨ op.Halfway r.1.trace m r.2 ∨ ∃ response, op.Done response r.1.trace m r.2) ∧
    (∀ response, r.1.rest = .done (.ok response) → op.Done response r.1.trace m r.2) ∧
    (∀ e, r.1.rest = .done (.error e) → r.1.trace.Served → op.Refused repo m r.2) ∧
    (∀ stamp req, op = .create stamp req → r.1.trace.Releases → m.Same r.2) := by
  intro r
  have hstart : Leads repo op (Course.start (op.request repo)).rest (first op)
      fun response st => st = .complete response := Operation.leads repo op
  obtain ⟨st, hl, ha⟩ := Course.follow_keeps (P := fun st trace m' => op.Accounts repo m trace m' st)
    (fun _ _ _ _ _ _ _ h ht => h.turn hids ht) hstart (accounts_first repo op m) fates
  refine ⟨ha.effect, ?_, ?_, ?_⟩
  · intro response hr
    rw [hr] at hl
    have hst : st = .complete response := hl
    subst hst
    exact ha
  · intro e hr hserved
    rw [hr] at hl
    have hst : st.MayFail := hl
    cases st with
    | choosing => exact refused_of_same ha.1
    | revising old => exact refused_of_same ha.1
    | ended => exact ha.2 hserved
    | _ => exact hst.elim
  · rintro stamp req rfl hr
    rcases ha.effect with hsame | hhalf | ⟨response, hdone⟩
    · exact hsame
    · exact absurd hr hhalf.2
    · cases response with
      | record r => exact absurd hr hdone.2
      | records rs => exact hdone.elim

/-- A delete whose release takes effect and whose answer is lost leaves its record without the
pair. -/
theorem request_effect_of_lost_release :
    (Small.memory.store.records.map Record.id).Nodup ∧
    (let r := (Course.start ((delete "1").request ⟨.unscoped, false⟩)).follow Small.memory
        [.served 0, .orphaned 0 .canceled];
      Small.memory.Same r.2 ∨ (delete "1").Halfway r.1.trace Small.memory r.2 ∨
        ∃ response, (delete "1").Done response r.1.trace Small.memory r.2) :=
  ⟨by decide, (request_effect ⟨.unscoped, false⟩ (delete "1") Small.memory (by decide)
    [.served 0, .orphaned 0 .canceled]).1⟩

end Operation

end Ipam
