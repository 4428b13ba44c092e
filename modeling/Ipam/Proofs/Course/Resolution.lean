import Ipam.Proofs.Course.Acquisition
import Ipam.Proofs.Network.Families

/-!
# Families that can be served

The family of a create that names no address has prefixes in the network. So the create says that no
address is left only after it has asked for one in all of them, and there is one at least to ask
(`Network.chosen_family_served`).
-/

namespace Ipam

variable {S : Type}

theorem Tries.eq_exhausted {network : String} {f : Family} {ps : List Prefix}
    {log : List (Attempt S)} {r : Option (Except RequestError Lease)} (h : Tries network f ps log r)
    {e : RequestError} (he : r = some (.error e)) (hkind : e.kind = .resourceExhausted) :
    e = .exhausted f network := by
  induction h with
  | exhausted =>
    cases he
    rfl
  | goesOn _ _ _ ih => exact ih he
  | decided ps hasks hr => exact absurd hkind (hr.kind_ne he)

/-- A passage ends with the word that no address is left. -/
structure Passage.RunsOut {α : Type} (x : Passage S (Except RequestError α)) (e : RequestError) :
    Prop where
  /-- The error is the result. -/
  result : x.result = some (.error e)
  /-- It says that no address is left. -/
  kind : e.kind = .resourceExhausted

/-- The last calls of a passage, one at least, ask for any address of some prefixes in order, and none
has one. -/
def Passage.AsksInVain {α : Type} (x : Passage S α) (ps : List Prefix) : Prop :=
  ∃ looked asked, x.log = looked ++ asked ∧ asked ≠ [] ∧
    List.Forall₂ (fun a p => a.Asks p none ∧ a.FailsWith .notFound) asked ps

/-- A passage asks for an address in the first one of some prefixes that contains it, and nothing
else. -/
structure Passage.Searches (x : Passage S (Except RequestError Lease)) (network : String)
    (ps : List Prefix) (w : Addr) : Prop where
  /-- If none contains the address, the request is refused as it stands. -/
  outside : (∀ p ∈ ps, p.contains w = false) →
    x.log = [] ∧ x.result = some (.error (.invalid (.literalOutside w network)))
  /-- If one is the first to contain it, it is asked. -/
  asks : ∀ before q after, ps = before ++ q :: after → (∀ p ∈ before, p.contains w = false) →
    q.contains w = true → ∃ a, x.log = [a] ∧ a.Asks q (some w)

namespace Host

variable {h : Host S} {s : S} {α β : Type} {e : RequestError}

/-! ## What does not run out -/

/-- A request that begins with a call and runs out has gone on with the answer. -/
theorem ask_runsOut {c : Call} {f : c.Answer → Request β}
    (hx : (h.attend (Request.ask c >>= f : Request β) s).RunsOut e) :
    ∃ answer a, a.exchange? = some ⟨c, .ok answer⟩ ∧
      h.attend (Request.ask c >>= f : Request β) s =
        (h.attend (f answer) a.meeting.after).after a ∧
      (h.attend (f answer) a.meeting.after).RunsOut e := by
  have hcases := h.attend_guarded_cases c
    (fun out => ExceptT.bindCont f (out.mapError RequestError.interrupted)) s
  obtain ⟨hresult, hkind⟩ := hx
  rcases hcases with ⟨out, hout, he⟩ | ⟨-, he⟩
  · replace he : h.attend (Request.ask c >>= f : Request β) s = _ := he
    rw [he] at hresult ⊢
    cases out with
    | ok answer =>
      exact ⟨answer, ⟨s, true, c, h.meet s c⟩, exchange?_of_outcome hout, rfl, hresult, hkind⟩
    | error i =>
      cases hresult
      cases i <;> cases hkind
  · replace he : h.attend (Request.ask c >>= f : Request β) s = _ := he
    rw [he] at hresult
    cases hresult

theorem accept_runsOut {r : Except StoreError α} {f : α → Request β}
    (hx : (h.attend (Request.accept r >>= f : Request β) s).RunsOut e) :
    ∃ a, r = .ok a ∧
      h.attend (Request.accept r >>= f : Request β) s = h.attend (f a) s ∧
      (h.attend (f a) s).RunsOut e := by
  cases r with
  | ok a => exact ⟨a, rfl, rfl, hx⟩
  | error err =>
    obtain ⟨hresult, hkind⟩ := hx
    cases hresult
    cases err <;> cases hkind

theorem ofExcept_runsOut {r : Except RequestError α} {f : α → Request β} {k : ErrorKind}
    (hk : k ≠ .resourceExhausted) (hr : ∀ err, r = .error err → err.kind = k)
    (hx : (h.attend (Request.ofExcept r >>= f : Request β) s).RunsOut e) :
    ∃ a, r = .ok a ∧
      h.attend (Request.ofExcept r >>= f : Request β) s = h.attend (f a) s ∧
      (h.attend (f a) s).RunsOut e := by
  cases r with
  | ok a => exact ⟨a, rfl, rfl, hx⟩
  | error err =>
    obtain ⟨hresult, hkind⟩ := hx
    cases hresult
    exact absurd ((hr _ rfl).symm.trans hkind) hk

theorem persist_not_runsOut {repo : Repository} {r : Record} :
    ¬ (h.attend (repo.persist r) s).RunsOut e := by
  rintro ⟨hresult, hkind⟩
  obtain ⟨v, hreaches, hover⟩ := h.reaches_attend (repo.persist r) s
  rw [(hover _).1 hresult] at hreaches
  have hpersisting := Repository.persist_reaches hreaches
  generalize (h.attend (repo.persist r) s).log.filterMap Attempt.exchange? = es at hpersisting
  cases hpersisting with
  | lost i => cases i <;> cases hkind
  | keeps err ho => cases err <;> cases hkind
  | released err ho answer => cases err <;> cases hkind

/-- If the first one of two requests does not run out and the other one does, the first one has
succeeded. -/
theorem bind_runsOut {x : Request α} {f : α → Request β}
    (hf : ∀ a t, ¬ (h.attend (f a) t).RunsOut e)
    (hx : (h.attend (x >>= f : Request β) s).RunsOut e) :
    (h.attend x s).RunsOut e ∧ (h.attend (x >>= f : Request β) s).log = (h.attend x s).log := by
  rw [attend_bind] at hx ⊢
  generalize h.attend x s = y at hx ⊢
  obtain ⟨log, final, - | (err | a)⟩ := y
  · cases hx.result
  · cases hx.result
    exact ⟨⟨rfl, hx.kind⟩, rfl⟩
  · exact absurd ⟨hx.result, hx.kind⟩ (hf a final)

/-! ## Creates that run out -/

/-- A create without a specific address that runs out has looked its project and its network up and
then, in vain, for any address of the family that it has chosen. -/
theorem create_runsOut {repo : Repository} {stamp : Stamp} {req : Wire.CreateRequest}
    (hip : req.ip = none) (hx : (h.attend (repo.create stamp req) s).RunsOut e) :
    ∃ a b p n f t, a.exchange? = some ⟨.project req.project, .ok (.ok p)⟩ ∧
      b.exchange? = some ⟨.network p.id req.network, .ok (.ok n)⟩ ∧
      chooseFamily req.family none n = .ok f ∧ (h.attend (anyAddress n f) t).RunsOut e ∧
      (h.attend (repo.create stamp req) s).log = a :: b :: (h.attend (anyAddress n f) t).log := by
  rw [Repository.create_eq] at hx ⊢
  obtain ⟨hx, hlog⟩ := bind_runsOut (fun r t => persist_not_runsOut) hx
  rw [hlog]
  unfold Repository.prepare at hx ⊢
  obtain ⟨answer, a, ha, he, hx⟩ := ask_runsOut hx
  rw [he]
  obtain ⟨p, rfl, he, hx⟩ := accept_runsOut hx
  rw [he]
  obtain ⟨answer, b, hb, he, hx⟩ := ask_runsOut hx
  rw [he]
  obtain ⟨n, rfl, he, hx⟩ := accept_runsOut hx
  rw [he]
  obtain ⟨f, hf, he, hx⟩ := ofExcept_runsOut (by decide) (fun _ => chooseFamily_kind) hx
  rw [he]
  obtain ⟨-, -, he, hx⟩ := ofExcept_runsOut (by decide) (fun _ => checkOpen_kind) hx
  rw [he]
  obtain ⟨retention, -, he, hx⟩ :=
    ofExcept_runsOut (by decide) (fun _ => Repository.requestedRetention_kind) hx
  rw [he]
  rw [hip] at hf hx ⊢
  obtain ⟨hx, hlog⟩ := bind_runsOut (fun lease t hdone => by cases hdone.result) hx
  exact ⟨a, b, p, n, f, b.meeting.after, ha, hb, hf, hx,
    congrArg (fun log => a :: b :: log) hlog⟩

/-- In a network with just the families of its prefixes, all prefixes of the family have been asked
for, at least one, and none has an address. -/
theorem asked_of_runsOut {repo : Repository} {stamp : Stamp} {req : Wire.CreateRequest}
    {n : Network} (hn : n.Consistent) (hne : n.prefixes ≠ []) (hip : req.ip = none)
    (hx : (h.attend (repo.create stamp req) s).RunsOut e)
    (hfound : ∃ a ∈ (h.attend (repo.create stamp req) s).log, ∃ p,
      a.exchange? = some ⟨.network p req.network, .ok (.ok n)⟩) :
    ∃ f, chooseFamily req.family none n = .ok f ∧ e = .exhausted f n.id ∧
      (h.attend (repo.create stamp req) s).AsksInVain (n.prefixesOf f) := by
  obtain ⟨a, b, p, m, f, t, ha, hb, hf, hexhausted, hlog⟩ := create_runsOut hip hx
  have htries := h.tries_attend m.id f (m.prefixesOf f) t
  replace hexhausted : (h.attend (anyAddressOf m.id f (m.prefixesOf f)) t).RunsOut e := hexhausted
  replace hlog : (h.attend (repo.create stamp req) s).log =
    a :: b :: (h.attend (anyAddressOf m.id f (m.prefixesOf f)) t).log := hlog
  generalize h.attend (anyAddressOf m.id f (m.prefixesOf f)) t = y at htries hexhausted hlog
  -- the only network that was looked up is the one that was searched
  have hm : m = n := by
    obtain ⟨c, hc, q, hnetwork⟩ := hfound
    rw [hlog] at hc
    rcases List.mem_cons.1 hc with rfl | hc
    · cases ha.symm.trans hnetwork
    rcases List.mem_cons.1 hc with rfl | hc
    · cases hb.symm.trans hnetwork
      rfl
    · obtain ⟨q', -, hasks, -⟩ := htries.cases_of_mem c hc
      have hcall := hasks.2.symm.trans (Attempt.call_of_exchange? hnetwork)
      cases hcall
  subst hm
  have hforall := htries.exhausted_iff.1 ⟨e, hexhausted.result, hexhausted.kind⟩
  refine ⟨f, hf, htries.eq_exhausted hexhausted.result hexhausted.kind, [a, b], y.log, hlog, ?_,
    hforall⟩
  rintro hnil
  rw [hnil, List.forall₂_nil_left_iff] at hforall
  exact ((hn.chooseFamily_eq_ok_iff hne).1 hf).1 hforall

end Host

/-! ## The literal -/

theorem chooseFamily_literal_iff {literal : String} {m : Network} {f : Family} :
    chooseFamily none (some literal) m = .ok f ↔
      ∃ w, Addr.parse? literal = some w ∧ w.family = f := by
  have hchoose : chooseFamily none (some literal) m = (readLiteral literal).map Addr.family := rfl
  rw [hchoose]
  constructor
  · intro h
    cases hw : readLiteral literal with
    | error e =>
      rw [hw] at h
      cases h
    | ok w =>
      rw [hw] at h
      cases h
      exact ⟨w, readLiteral_eq_ok hw, rfl⟩
  · rintro ⟨w, hw, rfl⟩
    rw [readLiteral_of_parse? hw]
    rfl

/-- The address of a text is searched for in the prefixes of its family. -/
theorem Host.searches_attend (h : Host S) (m : Network) {literal : String} {w : Addr}
    (hw : Addr.parse? literal = some w) (s : S) :
    (h.attend (specificAddress m literal) s).Searches m.id (m.prefixesOf w.family) w where
  outside hout := by
    rw [h.attend_specificAddress_outside m hw (prefixFor?_eq_none_iff.2 hout)]
    exact ⟨rfl, rfl⟩
  asks before q after hsplit hbefore hq := by
    have hfirst : prefixFor? m w = some q :=
      List.find?_eq_some_iff_append.2 ⟨hq, before, after, hsplit, by simpa using hbefore⟩
    exact ⟨h.asking q (some w) s, (h.attend_specificAddress m hw hfirst s).1, h.asks_asking q _ s⟩

/-- A family that is chosen can be served. In a network with the families of its prefixes, of which
there are some, the family of a request without an address is one with prefixes: the one asked for,
else the only one, else version 4; and the order of the prefixes does not matter. So if a create
without an address ends with the word that none is left, the allocator has been asked at least once,
and it has found none in any prefix of the family. The family of a request for an address is told by
the address, if it is one, and then that is searched for in the prefixes of that family. -/
theorem Network.chosen_family_served (id owner : String) (parent : Option String) (shared : Bool)
    (prefixes : List Prefix) (hne : prefixes ≠ []) :
    let offering : List Prefix → Network := fun ps =>
      { Network.ofPrefixes id owner ps with parentId := parent, shared := shared }
    let n := offering prefixes
    (∀ requested f, chooseFamily requested none n = .ok f ↔
      n.prefixesOf f ≠ [] ∧ n.Chooses f requested) ∧
    (∀ requested ps, prefixes.Perm ps →
      chooseFamily requested none (offering ps) = chooseFamily requested none n) ∧
    (∀ (S : Type) (h : Host S) (s : S) (repo : Repository) (stamp : Stamp)
      (req : Wire.CreateRequest) (e : RequestError), req.ip = none →
      let x := h.attend (repo.create stamp req) s
      (∃ a ∈ x.log, ∃ p, a.exchange? = some ⟨.network p req.network, .ok (.ok n)⟩) →
      x.result = some (.error e) → e.kind = .resourceExhausted →
        ∃ f, chooseFamily req.family none n = .ok f ∧ e = .exhausted f n.id ∧
          x.AsksInVain (n.prefixesOf f)) ∧
    ∀ (m : Network) (literal : String),
      ((∃ f, chooseFamily none (some literal) m = .ok f) ↔ ∃ w, Addr.parse? literal = some w) ∧
      ∀ f, chooseFamily none (some literal) m = .ok f →
        ∃ w, Addr.parse? literal = some w ∧ w.family = f ∧ ∀ (S : Type) (h : Host S) (s : S),
          (h.attend (specificAddress m literal) s).Searches m.id (m.prefixesOf f) w := by
  intro offering n
  have hconsistent : ∀ ps, (offering ps).Consistent := fun ps => consistent_of_families rfl
  refine ⟨fun requested f => (hconsistent prefixes).chooseFamily_eq_ok_iff hne,
    fun requested ps hperm => ?_, ?_, fun m literal => ⟨?_, fun f hf => ?_⟩⟩
  · refine (hconsistent ps).chooseFamily_congr (hconsistent prefixes) rfl (fun f => ?_) none
    exact exists_congr fun p => and_congr_left fun _ => hperm.symm.mem_iff
  · intro S h s repo stamp req e hip x hfound hresult hkind
    exact Host.asked_of_runsOut (hconsistent prefixes) hne hip ⟨hresult, hkind⟩ hfound
  · constructor
    · rintro ⟨f, hf⟩
      obtain ⟨w, hw, -⟩ := chooseFamily_literal_iff.1 hf
      exact ⟨w, hw⟩
    · rintro ⟨w, hw⟩
      exact ⟨w.family, chooseFamily_literal_iff.2 ⟨w, hw, rfl⟩⟩
  · obtain ⟨w, hw, rfl⟩ := chooseFamily_literal_iff.1 hf
    exact ⟨w, hw, rfl, fun S h s => h.searches_attend m hw s⟩

namespace Small

/-- A host of which the allocator never finds an address. -/
def barren : Host Memory where
  context _ := ⟨false, none⟩
  guarded s c :=
    match c with
    | .acquire _ => ⟨[], some (.error ⟨.notFound, ""⟩), s⟩
    | c => ⟨[], some (s.perform 0 c).1, (s.perform 0 c).2⟩
  detached s c := (some (s.perform 0 c).1, (s.perform 0 c).2)

/-- A memory with a network that has prefixes of both families. -/
def mixedMemory : Memory := { memory with catalog := ⟨[overlapping], [⟨"prj"⟩]⟩ }

/-- A request for any address of version 6. -/
def anyRequest6 : Wire.CreateRequest := { createRequest with ip := none, family := some .v6 }

end Small

theorem Network.chosen_family_served_barren :
    chooseFamily none none Small.overlapping = .ok .v4 ∧
    (Small.barren.attend (Repository.create ⟨.unscoped, false⟩ Small.stamp Small.anyRequest6)
      Small.mixedMemory).AsksInVain [Small.prefix6, Small.longer6] ∧
    (Small.barren.attend (specificAddress Small.overlapping "2001:DB8:0::9") Small.mixedMemory).Searches
      "net" [Small.prefix6, Small.longer6] Small.address6 := by
  obtain ⟨hchoose, -, hexhausted, hliteral⟩ := Network.chosen_family_served "net" "prj" none false
    [Small.slot.1, Small.prefix6, Small.longer6] (by decide)
  obtain ⟨f, hf, -, hasked⟩ := hexhausted Memory Small.barren Small.mixedMemory ⟨.unscoped, false⟩
    Small.stamp Small.anyRequest6 (.exhausted .v6 "net") rfl
    ⟨_, List.mem_cons_of_mem _ List.mem_cons_self, "prj", rfl⟩ rfl rfl
  obtain rfl : f = .v6 := by cases hf; rfl
  obtain ⟨w, hw, hfamily, hsearches⟩ := (hliteral Small.overlapping "2001:DB8:0::9").2 .v6
    (by decide +kernel)
  have hparse : Addr.parse? "2001:DB8:0::9" = some Small.address6 := by decide +kernel
  cases hw.symm.trans hparse
  exact ⟨(hchoose none .v4).2 ⟨by decide, .inr ⟨rfl, ⟨_, List.mem_cons_self, rfl⟩, Small.prefix6,
    by decide, rfl⟩⟩, hasked, hsearches _ Small.barren Small.mixedMemory⟩

end Ipam
