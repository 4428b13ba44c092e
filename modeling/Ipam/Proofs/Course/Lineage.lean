import Ipam.Proofs.Course.Counting
import Ipam.Proofs.Course.Traffic
import Ipam.Proofs.Store.Descent

/-!
# The lineage of records among requests that share a store

Whoever asks, whatever they are answered, and whether their calls take effect or not: what requests
hand to the store is such that it accepts (`Operation.accepts_of_licenses`), and no more records are
made than creates arrive (`Traffic.Staged.step`). So the records of a store that started empty stand
in the order in which they were made, and each stays about the same allocation until it is removed
(`Traffic.records_descend`).
-/

namespace Ipam

/-! ## What is handed to the store -/

/-- What an operation is licensed to hand to the store leaves the keys of tags distinct, and records
about what they are about. -/
theorem Operation.accepts_of_licenses {op : Operation} {es : List Exchange} {c : Call}
    (h : op.Licenses es c) : Store.Accepts c := by
  cases c with
  | storeCreate r =>
    obtain ⟨stamp, req, p, n, -, -, hr⟩ := h
    show (r.tags.toList.map Tag.key).Nodup
    rw [hr.tags]
    exact (TagSet.legible_ofStrings _).keys_nodup
  | storeUpdate new old =>
    obtain ⟨now, req, -, hrev⟩ := h
    refine ⟨hrev.identity_eq, fun hold => ?_⟩
    rcases hrev.tags with ⟨-, htags⟩ | ⟨tags, -, htags⟩
    · rwa [htags]
    · rw [htags]
      exact (TagSet.legible_ofStrings _).keys_nodup
  | _ => trivial

namespace Stage

theorem pending_onAnswer_le {ε α : Type} {out : Except Interruption (Except ε α)}
    {next : α → Stage} {n : Nat} (h : ∀ a, (next a).pending ≤ n) :
    (onAnswer out next).pending ≤ n := by
  rcases out with i | e | a
  · exact Nat.zero_le n
  · exact Nat.zero_le n
  · exact h a

theorem pending_onRecord_le {repo : Repository}
    {out : Except Interruption (Except StoreError Record)} {next : Record → Stage} {n : Nat}
    (h : ∀ r, (next r).pending ≤ n) : (onRecord repo out next).pending ≤ n := by
  refine pending_onAnswer_le fun r => ?_
  split
  · exact h r
  · exact Nat.zero_le n

/-- A request makes the records that it may still make at the cost of making them later. -/
theorem Goes.made_le {repo : Repository} {op : Operation} {st st' : Stage} {c : Call}
    {out : Except Interruption c.Answer} (h : Goes repo op st c out st') :
    Store.made c + st'.pending ≤ st.pending := by
  cases h with
  | get id out => exact (Nat.zero_add _).trans_le (pending_onRecord_le fun r => Nat.le_refl 0)
  | list q out => exact (Nat.zero_add _).trans_le (pending_onAnswer_le fun rs => Nat.le_refl 0)
  | project stamp req out =>
    exact (Nat.zero_add _).trans_le (pending_onAnswer_le fun p => Nat.le_refl 1)
  | network stamp req p out =>
    exact (Nat.zero_add _).trans_le (pending_onAnswer_le fun n => Nat.le_refl 1)
  | acquire stamp req p wanted out =>
    show 0 + (onAcquire p (readAcquire p wanted out)).pending ≤ 1
    rcases readAcquire p wanted out with (_ | _ | e) | a
    · exact Nat.le_refl 1
    · exact Nat.zero_le 1
    · exact Nat.zero_le 1
    · exact Nat.le_refl 1
  | create stamp req x r hx out =>
    -- whatever comes of it, this was the one record
    show 1 + (onCreate repo x out).pending ≤ 1
    rcases out with i | e | stored
    · exact Nat.le_refl 1
    · show 1 + (if repo.releaseOnRefusal then refused x else ended).pending ≤ 1
      split <;> exact Nat.le_refl 1
    · exact Nat.le_refl 1
  | compensate stamp req x answer => exact Nat.le_refl 0
  | load now req out =>
    exact (Nat.zero_add _).trans_le (pending_onRecord_le fun r => Nat.le_refl 0)
  | revise now req new old h out =>
    exact (Nat.zero_add _).trans_le (pending_onAnswer_le fun u => Nat.le_refl 0)
  | seek id out => exact (Nat.zero_add _).trans_le (pending_onRecord_le fun r => Nat.le_refl 0)
  | release id r out =>
    show 0 + (onRelease r out).pending ≤ 0
    unfold onRelease
    split
    · split <;> exact Nat.le_refl 0
    · exact Nat.le_refl 0
  | remove id r out => exact (Nat.zero_add _).trans_le (pending_onAnswer_le fun u => Nat.le_refl 0)

end Stage

/-- What is left of a program after an exchange keeps to the stages from the next one on. -/
theorem Leads.take {α : Type} {repo : Repository} {op : Operation}
    {p q : Program (Except RequestError α)} {st : Stage} {Q : α → Stage → Prop} {e : Exchange}
    (h : Leads repo op p st Q) (he : p.take? e = some q) :
    ∃ st', Stage.Goes repo op st e.call e.outcome st' ∧ Leads repo op q st' Q := by
  obtain ⟨call, outcome⟩ := e
  rcases Program.take?_cases he with ⟨next, rfl, rfl⟩ | ⟨next, answer, rfl, hout, rfl⟩
  · exact h outcome
  · replace hout : outcome = .ok answer := hout
    rw [hout]
    exact h.2 answer

namespace Traffic

/-! ## How many records are made -/

/-- Whether a create arrives with an event. -/
def Event.isCreate : Event → Bool
  | .arrive _ op => op.isCreate
  | .exchange .. => false

/-- How many records an event may make. -/
def Event.made : Event → Nat
  | .arrive .. => 0
  | .exchange _ e takesEffect => if takesEffect then Store.made e.call else 0

/-- What is left of each request keeps to the stages from the one it has come to on. -/
def Staged (x : Traffic) (σ : Nat → Stage) : Prop :=
  ∀ (i : Nat) (p : Request Response), x.tasks[i]? = some p → ∃ repo op,
    Leads repo op p (σ i) fun response st => st = .complete response

/-- The number of records that the requests under way may still make. -/
def reserve (x : Traffic) (σ : Nat → Stage) : Nat :=
  ∑ i ∈ Finset.range x.tasks.length, (σ i).pending

theorem staged_empty (σ : Nat → Stage) : empty.Staged σ := by
  intro i p hp
  cases hp

variable {x y z : Traffic} {σ : Nat → Stage}

/-- An event makes records at the cost of the reserve, which grows only with the creates that
arrive. -/
theorem Staged.step {event : Event} (h : x.Staged σ) (hy : x.step event = some y) :
    ∃ σ', y.Staged σ' ∧
      event.made + y.reserve σ' ≤ x.reserve σ + if event.isCreate then 1 else 0 := by
  cases event with
  | arrive repo op =>
    cases hy
    refine ⟨Function.update σ x.tasks.length (.first op), ?_, ?_⟩
    · intro i p hp
      rcases System.getElem?_concat_cases hp with ⟨rfl, rfl⟩ | ⟨hi, hp⟩
      · rw [Function.update_self]
        exact ⟨repo, op, op.leads repo⟩
      · rw [Function.update_of_ne hi]
        exact h i p hp
    · show 0 + ∑ i ∈ Finset.range (x.tasks ++ [op.request repo]).length, _ ≤ _
      rw [List.length_append, List.length_singleton, System.sum_pending_succ, Stage.pending_first,
        Nat.zero_add]
      exact Nat.le_refl _
  | exchange i e takesEffect =>
    obtain ⟨p, hp, hy⟩ := Option.bind_eq_some_iff.1 hy
    obtain ⟨q, hq, hy⟩ := Option.bind_eq_some_iff.1 hy
    cases hy
    obtain ⟨repo, op, hleads⟩ := h i p hp
    obtain ⟨st, hgoes, hleads'⟩ := hleads.take hq
    have hlt := (List.getElem?_eq_some_iff.1 hp).1
    refine ⟨Function.update σ i st, ?_, ?_⟩
    · intro j r hr
      rcases System.getElem?_set_cases hp hr with ⟨rfl, rfl⟩ | ⟨hj, hr⟩
      · rw [Function.update_self]
        exact ⟨repo, op, hleads'⟩
      · rw [Function.update_of_ne hj]
        exact h j r hr
    · have hsum := System.sum_pending_update σ st hlt
      have hmade := hgoes.made_le
      have hle : (Event.exchange i e takesEffect).made ≤ Store.made e.call := by
        cases takesEffect with
        | true => exact Nat.le_refl _
        | false => exact Nat.zero_le _
      simp only [reserve, List.length_set]
      omega

/-! ## What becomes of the store -/

theorem store_of_exchange {i : Nat} {e : Exchange} {takesEffect : Bool}
    (hy : x.step (.exchange i e takesEffect) = some y) :
    y.store = if takesEffect then x.store.after e.call else x.store := by
  obtain ⟨p, hp, hy⟩ := Option.bind_eq_some_iff.1 hy
  obtain ⟨q, hq, hy⟩ := Option.bind_eq_some_iff.1 hy
  cases hy
  rfl

/-- The requests hand nothing to the store but what they are licensed to, and its records are in
order. -/
structure Settled (x : Traffic) : Prop where
  sound : x.Sound fun _ => True
  orderly : x.store.Orderly

theorem settled_empty : empty.Settled := ⟨.of_empty, Store.orderly_empty⟩

theorem Settled.step {event : Event} (h : x.Settled) (hy : x.step event = some y)
    (hroom : x.store.nextId.toNat + event.made < 2 ^ 64) :
    y.Settled ∧ x.store.Descent y.store ∧
      y.store.nextId.toNat ≤ x.store.nextId.toNat + event.made := by
  have hserves : event.Serves fun _ => True := by
    cases event with
    | arrive repo op => trivial
    | exchange i e takesEffect => exact fun _ _ _ _ => trivial
  have hsound := h.sound.step hserves hy
  cases event with
  | arrive repo op =>
    cases hy
    exact ⟨⟨hsound, h.orderly⟩, .refl _, Nat.le_add_right _ _⟩
  | exchange i e takesEffect =>
    have hstore := store_of_exchange hy
    cases takesEffect with
    | false =>
      have hsame : y.store = x.store := hstore
      refine ⟨⟨hsound, ?_⟩, ?_, ?_⟩
      · exact hsame.symm ▸ h.orderly
      · exact hsame.symm ▸ .refl _
      · exact hsame.symm ▸ Nat.le_add_right _ _
    | true =>
      obtain ⟨p, hp, hy⟩ := Option.bind_eq_some_iff.1 hy
      obtain ⟨q, hq, -⟩ := Option.bind_eq_some_iff.1 hy
      obtain ⟨op, es, -, hupholds⟩ := h.sound.licensed p (List.mem_of_getElem? hp)
      have haccepts := Operation.accepts_of_licenses (hupholds.call (Program.call?_of_take? hq))
      have hchange : x.store.Change e.call y.store := by
        rw [hstore]
        exact Store.change_perform ⟨⟨[], []⟩, ∅, x.store⟩ 0 e.call
      exact ⟨⟨hsound, hchange.orderly h.orderly haccepts hroom⟩, hchange.descent haccepts hroom,
        (hchange.nextId_le hroom).2⟩

/-- Where there is room for all records that may still be made, the store stays in order, and the
records descend from those at the start. -/
theorem Settled.run {events : List Event} (h : x.Settled) (hσ : x.Staged σ)
    (hroom : x.store.nextId.toNat + x.reserve σ + events.countP Event.isCreate < 2 ^ 64)
    (hy : x.run events = some y) :
    y.Settled ∧ x.store.Descent y.store ∧ ∃ σ', y.Staged σ' ∧
      y.store.nextId.toNat + y.reserve σ' ≤
        x.store.nextId.toNat + x.reserve σ + events.countP Event.isCreate := by
  induction events generalizing x σ with
  | nil =>
    cases hy
    exact ⟨h, .refl _, σ, hσ, Nat.le_add_right _ _⟩
  | cons event events ih =>
    obtain ⟨x', hx', hy⟩ := Option.bind_eq_some_iff.1 hy
    rw [List.countP_cons] at hroom ⊢
    obtain ⟨σ', hσ', hmade⟩ := hσ.step hx'
    obtain ⟨hsettled, hdescent, hnext⟩ := h.step hx' (by omega)
    obtain ⟨hsettled', hdescent', σ'', hσ'', hcount⟩ := ih hsettled hσ' (by omega) hy
    exact ⟨hsettled', hdescent.trans hdescent', σ'', hσ'', by omega⟩

/-! ## The lineage of records -/

theorem run_append (x : Traffic) (events events' : List Event) :
    x.run (events ++ events') = (x.run events).bind fun y => y.run events' := by
  induction events generalizing x with
  | nil => rfl
  | cons event events ih =>
    show (x.step event).bind (fun y => y.run (events ++ events')) = _
    rw [run, Option.bind_assoc]
    exact congrArg _ (funext fun y => ih y)

/-- Requests of any kind share a store that starts empty. Their calls may take effect or not, and
they may be answered anything. At any time the records stand in the order of their numbers, which
grow up to the counter, no two share a pair, and no two tags of one share a key. Since any earlier
time the counter has not gone back, and a record that was there already is about the same allocation
and stands before and behind the same ones. Records are listed in the order of their numbers. A
record that is refused because its pair is taken changes nothing. -/
theorem records_descend {before between : List Event} {s t : Store}
    (hroom : (before ++ between).countP Event.isCreate < 2 ^ 64 - 1)
    (hs : (empty.run before).map Traffic.store = some s)
    (ht : (empty.run (before ++ between)).map Traffic.store = some t) :
    t.Orderly ∧ s.nextId ≤ t.nextId ∧
    (∀ r ∈ s.records, ∀ r' ∈ t.records, r'.id = r.id → r'.identity = r.identity) ∧
    (∀ r o r' o', [r, o].Sublist s.records → r' ∈ t.records → o' ∈ t.records → r'.id = r.id →
      o'.id = o.id → [r', o'].Sublist t.records) ∧
    (∀ q, (t.list q).Pairwise fun r o => Store.Earlier r.id o.id) ∧
    ∀ i r what takesEffect u, (empty.run (before ++ between ++
        [.exchange i ⟨.storeCreate r, .ok (.error (.alreadyExists what))⟩ takesEffect])).map
          Traffic.store = some u →
      (takesEffect = true → (t.create r).1 = .error (.alreadyExists what)) → u = t := by
  obtain ⟨x, hx, rfl⟩ := Option.map_eq_some_iff.1 hs
  obtain ⟨y, hy, rfl⟩ := Option.map_eq_some_iff.1 ht
  have hnext : empty.store.nextId.toNat = 0 := rfl
  have hreserve : empty.reserve (fun _ => .ended) = 0 := rfl
  have hxy : x.run between = some y := by
    rw [run_append, hx] at hy
    exact hy
  rw [List.countP_append] at hroom
  obtain ⟨hsettled, -, σ, hσ, hcount⟩ := settled_empty.run (staged_empty fun _ => .ended) (by omega) hx
  obtain ⟨hsettled', hdescent, -⟩ := hsettled.run hσ (by omega) hxy
  refine ⟨hsettled'.orderly, hdescent.nextId_le, ?_, ?_, ?_, ?_⟩
  · intro r hr r' hr' hid
    exact hdescent.identity_eq hsettled.orderly hr hr' hid
  · intro r o r' o' hro hr' ho' hid hid'
    exact hsettled.orderly.sublist_of_sublist hsettled'.orderly hro hr' ho' hid hid'
  · exact fun q => hsettled'.orderly.earlier.sublist List.filter_sublist
  · intro i r what takesEffect u hu hrefused
    obtain ⟨z, hz, rfl⟩ := Option.map_eq_some_iff.1 hu
    rw [run_append, hy] at hz
    obtain ⟨z', hstep, hz⟩ := Option.bind_eq_some_iff.1 (show (y.step _).bind _ = some z from hz)
    cases hz
    rw [store_of_exchange hstep]
    cases takesEffect with
    | false => rfl
    | true => exact Store.create_snd_of_error (hrefused rfl)

end Traffic

namespace Small

/-- A create takes an address and records it, but never learns that it has. -/
def creation (i : Nat) (a : Addr) : List Traffic.Event :=
  [.arrive openRepository (.create stamp { createRequest with ip := none }),
   .exchange i ⟨.project "prj", .ok (.ok ⟨"prj"⟩)⟩ false,
   .exchange i ⟨.network "prj" "net", .ok (.ok wideNetwork)⟩ false,
   .exchange i ⟨.acquire ⟨"10.0.0.0/24", none⟩, .ok (.ok ⟨a.text, ""⟩)⟩ false,
   .exchange i ⟨.storeCreate { record with id := "", address := a }, .error .canceled⟩ true]

/-- The second of two records is changed, and the first one is removed. -/
def turnover : List Traffic.Event :=
  [.arrive openRepository (.update stamp.now ⟨"2", "prj", some "b", none, none, none⟩),
   .exchange 2 ⟨.storeGet "2", .ok (.ok otherRecord)⟩ false,
   .exchange 2 ⟨.storeUpdate { otherRecord with name := "b" } otherRecord,
     .ok (.error (.backend ""))⟩ true,
   .arrive openRepository (.delete "1"),
   .exchange 3 ⟨.storeGet "1", .ok (.ok record)⟩ false,
   .exchange 3 ⟨.release ⟨"10.0.0.1", "10.0.0.0/24"⟩, .ok (.ok ())⟩ false,
   .exchange 3 ⟨.storeDelete record, .ok (.ok ())⟩ true]

end Small

theorem Traffic.records_descend_turnover :
    let t : Store := ⟨3, [{ Small.otherRecord with name := "b" }, { Small.record with id := "3" }]⟩
    t.Orderly ∧ ∀ r' ∈ t.records, r'.id = "2" → r'.identity = Small.otherRecord.identity := by
  have hs : (empty.run (Small.creation 0 Small.slot.2 ++ Small.creation 1 Small.otherRecord.address)).map
      Traffic.store = some ⟨2, [Small.record, Small.otherRecord]⟩ := by decide +kernel
  have ht : (empty.run (Small.creation 0 Small.slot.2 ++ Small.creation 1 Small.otherRecord.address ++
      (Small.turnover ++ Small.creation 4 Small.slot.2))).map Traffic.store =
        some ⟨3, [{ Small.otherRecord with name := "b" }, { Small.record with id := "3" }]⟩ := by
    decide +kernel
  obtain ⟨horderly, -, hidentity, -⟩ := records_descend (by decide) hs ht
  exact ⟨horderly, hidentity Small.otherRecord (by simp)⟩

end Ipam
