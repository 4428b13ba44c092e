import Ipam.Proofs.Course.Compensation
import Ipam.Proofs.Pool.Exhaustion

/-!
# Which prefix decides

A call for an address of a prefix decides the request that makes it (`Attempt.Decides`), except that
a request for any address goes on to the next prefix where the allocator has found none
(`Host.attend_acquire`). So at any host such a request goes through the prefixes of its family in
their order, up to the first one that decides (`Network.anyAddress_walks`), and a request for a
specific address is decided by the first prefix that contains it (`Network.specificAddress_decided`).
-/

namespace Ipam

variable {S : Type}

/-! ## What a call for an address says -/

namespace Attempt

/-- The request asks for an address of a prefix, the wanted one or any. -/
def Asks (a : Attempt S) (p : Prefix) (wanted : Option Addr) : Prop :=
  a.guarded = true ∧ a.call = acquireCall p wanted

/-- What the request learns of its call for an address. -/
def Learns (a : Attempt S) (out : Except Interruption (Except AllocatorError AcquireAnswer)) : Prop :=
  ∃ req, a.exchange? = some ⟨.acquire req, out⟩

/-- The text of the answer names an address. -/
def Names (a : Attempt S) (w : Addr) : Prop :=
  ∃ answer, a.Learns (.ok (.ok answer)) ∧ Addr.parse? answer.ip = some w

/-- The allocator refuses with a code. -/
def FailsWith (a : Attempt S) (code : AllocatorCode) : Prop :=
  ∃ e, a.Learns (.ok (.error e)) ∧ e.code = code

variable {a : Attempt S}

theorem Asks.unique {p q : Prefix} {v w : Option Addr} (hp : a.Asks p v) (hq : a.Asks q w) :
    p = q ∧ v = w := by
  have hcall := hp.2.symm.trans hq.2
  simp only [acquireCall, Call.acquire.injEq, AcquireRequest.mk.injEq] at hcall
  obtain ⟨hparent, haddr⟩ := hcall
  exact ⟨Prefix.text_inj hparent, Option.map_injective (fun _ _ => Addr.text_inj) haddr⟩

/-- What the request sees of its call is what it learns. -/
theorem Asks.learns_error {p : Prefix} {wanted : Option Addr} (h : a.Asks p wanted) {i : Interruption}
    (hi : a.meeting.outcome = some (.error i)) : a.Learns (.error i) := by
  obtain ⟨state, guarded, call, meeting⟩ := a
  obtain ⟨-, hcall⟩ := h
  dsimp only at hcall
  subst hcall
  exact ⟨_, Host.exchange?_of_outcome hi⟩

theorem Learns.unique {out out' : Except Interruption (Except AllocatorError AcquireAnswer)}
    (h : a.Learns out) (h' : a.Learns out') : out = out' := by
  obtain ⟨req, h⟩ := h
  obtain ⟨req', h'⟩ := h'
  cases h.symm.trans h'
  rfl

theorem Learns.ne_none {out : Except Interruption (Except AllocatorError AcquireAnswer)}
    (h : a.Learns out) : a.meeting.outcome ≠ none := by
  obtain ⟨req, h⟩ := h
  intro hnone
  rw [Host.exchange?_of_stuck hnone] at h
  cases h

theorem Names.unique {v w : Addr} (hv : a.Names v) (hw : a.Names w) : v = w := by
  obtain ⟨answer, hlearns, hv⟩ := hv
  obtain ⟨answer', hlearns', hw⟩ := hw
  cases hlearns.unique hlearns'
  exact Option.some.inj (hv.symm.trans hw)

theorem FailsWith.unique {code code' : AllocatorCode} (h : a.FailsWith code)
    (h' : a.FailsWith code') : code = code' := by
  obtain ⟨e, hlearns, rfl⟩ := h
  obtain ⟨e', hlearns', rfl⟩ := h'
  cases hlearns.unique hlearns'
  rfl

theorem Names.not_failsWith {w : Addr} (hw : a.Names w) (code : AllocatorCode) :
    ¬ a.FailsWith code := by
  obtain ⟨answer, hlearns, -⟩ := hw
  rintro ⟨e, hlearns', -⟩
  cases hlearns.unique hlearns'

/-- The request is not interrupted: the allocator has answered. -/
def IsAnswered (a : Attempt S) : Prop := ∃ answer, a.Learns (.ok answer)

theorem Names.isAnswered {w : Addr} (hw : a.Names w) : a.IsAnswered := by
  obtain ⟨answer, hlearns, -⟩ := hw
  exact ⟨_, hlearns⟩

theorem FailsWith.isAnswered {code : AllocatorCode} (h : a.FailsWith code) : a.IsAnswered := by
  obtain ⟨e, hlearns, -⟩ := h
  exact ⟨_, hlearns⟩

theorem IsAnswered.not_interrupted (h : a.IsAnswered) (i : Interruption) : ¬ a.Learns (.error i) := by
  obtain ⟨answer, hlearns⟩ := h
  intro hi
  cases hlearns.unique hi

theorem IsAnswered.ne_none (h : a.IsAnswered) : a.meeting.outcome ≠ none := by
  obtain ⟨answer, hlearns⟩ := h
  exact hlearns.ne_none

/-- What comes of a request whose call for an address of a prefix decides it. -/
inductive Decides (a : Attempt S) (p : Prefix) (wanted : Option Addr) :
    Option (Except RequestError Lease) → Prop where
  /-- The address that the allocator names is taken. -/
  | takes {w : Addr} (hw : a.Names w) (hc : p.contains w = true)
      (hwanted : ∀ v, wanted = some v → v = w) : Decides a p wanted (some (.ok ⟨w, p⟩))
  /-- The wanted address is handed out already. -/
  | taken {w : Addr} (hwanted : wanted = some w) (hf : a.FailsWith .alreadyExists) :
      Decides a p wanted (some (.error (.conflict (.taken w))))
  /-- The allocator is at fault, whatever else it has answered. -/
  | faulty (fault : BackendFault) (ha : a.IsAnswered)
      (hnames : ∀ w, a.Names w → p.contains w = true → ∃ v, wanted = some v ∧ v ≠ w)
      (htaken : a.FailsWith .alreadyExists → wanted = none)
      (hnone : a.FailsWith .notFound → wanted ≠ none) :
      Decides a p wanted (some (.error (.internal fault)))
  /-- The call is refused or abandoned. -/
  | interrupted {i : Interruption} (hi : a.Learns (.error i)) :
      Decides a p wanted (some (.error (.interrupted i)))
  /-- The call waits for ever. -/
  | silent (hs : a.meeting.outcome = none) : Decides a p wanted none

namespace Decides

variable {p : Prefix} {wanted : Option Addr} {r : Option (Except RequestError Lease)}

theorem eq_ok (h : a.Decides p wanted r) {w : Addr} (hw : a.Names w) (hc : p.contains w = true)
    (hwanted : ∀ v, wanted = some v → v = w) : r = some (.ok ⟨w, p⟩) := by
  cases h with
  | takes hw' _ _ => rw [hw.unique hw']
  | taken _ hf => exact absurd hf (hw.not_failsWith _)
  | faulty fault _ hnames _ _ =>
    obtain ⟨v, hv, hne⟩ := hnames w hw hc
    exact absurd (hwanted v hv) hne
  | interrupted hi => exact absurd hi (hw.isAnswered.not_interrupted _)
  | silent hs => exact absurd hs hw.isAnswered.ne_none

theorem eq_conflict {w : Addr} (h : a.Decides p (some w) r) (hf : a.FailsWith .alreadyExists) :
    r = some (.error (.conflict (.taken w))) := by
  cases h with
  | takes hw _ _ => exact absurd hf (hw.not_failsWith _)
  | taken hwanted _ =>
    cases hwanted
    rfl
  | faulty fault _ _ htaken _ => cases htaken hf
  | interrupted hi => exact absurd hi (hf.isAnswered.not_interrupted _)
  | silent hs => exact absurd hs hf.isAnswered.ne_none

theorem eq_internal (h : a.Decides p wanted r) (ha : a.IsAnswered)
    (hnames : ∀ w, a.Names w → p.contains w = true → ∃ v, wanted = some v ∧ v ≠ w)
    (htaken : a.FailsWith .alreadyExists → wanted = none) :
    ∃ fault, r = some (.error (.internal fault)) := by
  cases h with
  | takes hw hc hwanted =>
    obtain ⟨v, hv, hne⟩ := hnames _ hw hc
    exact absurd (hwanted v hv) hne
  | taken hwanted hf =>
    rw [htaken hf] at hwanted
    cases hwanted
  | faulty fault _ _ _ _ => exact ⟨fault, rfl⟩
  | interrupted hi => exact absurd hi (ha.not_interrupted _)
  | silent hs => exact absurd hs ha.ne_none

theorem eq_interrupted (h : a.Decides p wanted r) {i : Interruption} (hi : a.Learns (.error i)) :
    r = some (.error (.interrupted i)) := by
  cases h with
  | takes hw _ _ => exact absurd hi (hw.isAnswered.not_interrupted i)
  | taken _ hf => exact absurd hi (hf.isAnswered.not_interrupted i)
  | faulty _ ha _ _ _ => exact absurd hi (ha.not_interrupted i)
  | interrupted hi' =>
    cases hi.unique hi'
    rfl
  | silent hs => exact absurd hs hi.ne_none

theorem eq_none (h : a.Decides p wanted r) (hs : a.meeting.outcome = none) : r = none := by
  cases h with
  | takes hw _ _ => exact absurd hs hw.isAnswered.ne_none
  | taken _ hf => exact absurd hs hf.isAnswered.ne_none
  | faulty _ ha _ _ _ => exact absurd hs ha.ne_none
  | interrupted hi => exact absurd hs hi.ne_none
  | silent _ => rfl

/-- A prefix that decides a request for any address was not found to have none. -/
theorem not_notFound (h : a.Decides p none r) : ¬ a.FailsWith .notFound := by
  intro hf
  cases h with
  | takes hw _ _ => exact hw.not_failsWith _ hf
  | taken _ hf' => cases hf.unique hf'
  | faulty _ _ _ _ hnone => exact hnone hf rfl
  | interrupted hi => exact hf.isAnswered.not_interrupted _ hi
  | silent hs => exact hf.isAnswered.ne_none hs

/-- It takes all prefixes to say that no address is left. -/
theorem kind_ne (h : a.Decides p wanted r) {e : RequestError} (he : r = some (.error e)) :
    e.kind ≠ .resourceExhausted := by
  cases h with
  | takes _ _ _ => cases he
  | taken _ _ =>
    cases he
    nofun
  | faulty _ _ _ _ _ =>
    cases he
    nofun
  | @interrupted i _ =>
    cases he
    cases i <;> nofun
  | silent _ => cases he

end Decides

end Attempt

/-! ## One prefix -/

/-- The text that an answer gives is accepted just if it names an address of the prefix, and the
wanted one. -/
theorem readAcquired_eq_ok_iff {p : Prefix} {wanted : Option Addr} {raw : String} {w : Addr} :
    readAcquired p wanted raw = .ok w ↔
      Addr.parse? raw = some w ∧ p.contains w = true ∧ ∀ v, wanted = some v → v = w := by
  constructor
  · intro h
    refine ⟨?_, readAcquired_eq_ok h⟩
    unfold readAcquired at h
    split at h
    · cases h
    · next b hb =>
      rw [hb]
      split at h
      · cases h
      · cases wanted with
        | none =>
          cases h
          rfl
        | some v =>
          dsimp only at h
          split at h
          · cases h
            rfl
          · cases h
  · rintro ⟨hparse, hc, hwanted⟩
    unfold readAcquired
    cases wanted with
    | none => simp [hparse, hc]
    | some v => simp [hparse, hc, hwanted v rfl]

/-- What is read from what the request learns of its call for an address. -/
inductive Attempt.Reads (a : Attempt S) (p : Prefix) (wanted : Option Addr) :
    Except AcquireError Addr → Prop where
  /-- The allocator names an address that will do. -/
  | address {w : Addr} (hw : a.Names w) (hc : p.contains w = true)
      (hwanted : ∀ v, wanted = some v → v = w) : Reads a p wanted (.ok w)
  /-- The allocator has found none, or it does not know the prefix. -/
  | exhausted (hf : a.FailsWith .notFound) : Reads a p wanted (.error .exhausted)
  /-- The allocator has handed the address out. -/
  | taken (hf : a.FailsWith .alreadyExists) : Reads a p wanted (.error .taken)
  /-- The call is refused or abandoned. -/
  | interrupted {i : Interruption} (hi : a.Learns (.error i)) :
      Reads a p wanted (.error (.failed (.interrupted i)))
  /-- The allocator fails otherwise, or the text of its answer will not do. -/
  | faulty (fault : BackendFault) (ha : a.IsAnswered)
      (hnames : ∀ w, a.Names w → p.contains w = true → ∃ v, wanted = some v ∧ v ≠ w)
      (htaken : ¬ a.FailsWith .alreadyExists) (hnone : ¬ a.FailsWith .notFound) :
      Reads a p wanted (.error (.failed (.internal fault)))

theorem Attempt.Learns.reads {a : Attempt S}
    {out : Except Interruption (Except AllocatorError AcquireAnswer)} (h : a.Learns out) (p : Prefix)
    (wanted : Option Addr) : a.Reads p wanted (readAcquire p wanted out) := by
  rcases out with i | e | answer
  · exact .interrupted h
  · obtain ⟨code, detail⟩ := e
    have hcode : a.FailsWith code := ⟨_, h, rfl⟩
    have hfails : code ≠ .alreadyExists → code ≠ .notFound →
        a.Reads p wanted (acquireFault (.allocatorFailed ⟨code, detail⟩)) := by
      intro htaken hnone
      refine .faulty _ hcode.isAnswered (fun w hw => absurd hcode (hw.not_failsWith code)) ?_ ?_
      · exact fun hf => htaken (hcode.unique hf)
      · exact fun hf => hnone (hcode.unique hf)
    cases code with
    | notFound => exact .exhausted hcode
    | alreadyExists => exact .taken hcode
    | invalidArgument => exact hfails nofun nofun
    | unavailable => exact hfails nofun nofun
    | internal => exact hfails nofun nofun
  · show a.Reads p wanted (readAcquired p wanted answer.ip)
    rcases readAcquired_cases p wanted answer.ip with ⟨w, hw⟩ | ⟨fault, hfault⟩
    · obtain ⟨hparse, hc, hwanted⟩ := readAcquired_eq_ok_iff.1 hw
      rw [hw]
      exact .address ⟨answer, h, hparse⟩ hc hwanted
    · have hno : ∀ code, ¬ a.FailsWith code := by
        rintro code ⟨e, h', -⟩
        cases h.unique h'
      rw [hfault]
      refine .faulty fault ⟨_, h⟩ ?_ (hno _) (hno _)
      -- an address of the prefix will not do only because another one is wanted
      rintro w ⟨answer', h', hparse⟩ hc
      cases h.unique h'
      by_contra hnone
      push Not at hnone
      rw [readAcquired_eq_ok_iff.2 ⟨hparse, hc, hnone⟩] at hfault
      cases hfault

namespace Host

variable {h : Host S} {s : S} {p : Prefix} {wanted : Option Addr}

/-- A request asks for an address of a prefix. -/
def asking (h : Host S) (p : Prefix) (wanted : Option Addr) (s : S) : Attempt S :=
  ⟨s, true, acquireCall p wanted, h.meet s (acquireCall p wanted)⟩

theorem asks_asking (h : Host S) (p : Prefix) (wanted : Option Addr) (s : S) :
    (h.asking p wanted s).Asks p wanted := ⟨rfl, rfl⟩

theorem attend_asking_cases (h : Host S) (p : Prefix) (wanted : Option Addr)
    (next : Except AcquireError Addr → Request Lease) (s : S) :
    let a := h.asking p wanted s
    let x := h.attend (liftM (acquire p wanted) >>= next : Request Lease) s
    (∃ result, a.Reads p wanted result ∧ x = (h.attend (next result) a.meeting.after).after a) ∨
      a.meeting.outcome = none ∧ x = .stuck a := by
  intro a x
  rcases h.attend_guarded_cases (acquireCall p wanted) (fun out => next (readAcquire p wanted out)) s
    with ⟨out, hout, he⟩ | ⟨hout, he⟩
  · have hlearns : a.Learns out := ⟨_, exchange?_of_outcome (a := a) hout⟩
    exact .inl ⟨_, hlearns.reads p wanted, he⟩
  · exact .inr ⟨hout, he⟩

/-- A call for an address decides the request, unless any address is wanted and the allocator has
found none in the prefix. -/
theorem attend_acquire (h : Host S) (next : Except AcquireError Addr → Request Lease)
    (hsettles : Settles p next)
    (htaken : (∃ w, wanted = some w ∧ next (.error .taken) = throw (.conflict (.taken w))) ∨
      wanted = none ∧ ∃ fault, next (.error .taken) = throw (.internal fault))
    (hexhausted : wanted = none ∨
      wanted ≠ none ∧ ∃ fault, next (.error .exhausted) = throw (.internal fault)) (s : S) :
    let a := h.asking p wanted s
    let x := h.attend (liftM (acquire p wanted) >>= next : Request Lease) s
    (wanted = none ∧ a.FailsWith .notFound ∧
      x = (h.attend (next (.error .exhausted)) a.meeting.after).after a) ∨
    x.log = [a] ∧ a.Decides p wanted x.result := by
  intro a x
  rcases h.attend_asking_cases p wanted next s with ⟨result, hreads, he⟩ | ⟨hs, he⟩
  · replace he : x = (h.attend (next result) a.meeting.after).after a := he
    -- a request that ends here has made this call only
    have hends : ∀ {r}, next result = Program.done r → a.Decides p wanted (some r) →
        x.log = [a] ∧ a.Decides p wanted x.result := by
      intro r hnext hr
      rw [he, hnext]
      exact ⟨rfl, hr⟩
    cases hreads with
    | address hw hc hwanted => exact .inr (hends (hsettles.takes _) (.takes hw hc hwanted))
    | exhausted hf =>
      rcases hexhausted with hany | ⟨hwanted, fault, hnext⟩
      · exact .inl ⟨hany, hf, he⟩
      · refine .inr (hends hnext (.faulty fault hf.isAnswered ?_ ?_ fun _ => hwanted))
        · exact fun w hw => absurd hf (hw.not_failsWith _)
        · exact fun hf' => nomatch hf.unique hf'
    | taken hf =>
      rcases htaken with ⟨w, hw, hnext⟩ | ⟨hany, fault, hnext⟩
      · exact .inr (hends hnext (.taken hw hf))
      · refine .inr (hends hnext (.faulty fault hf.isAnswered ?_ (fun _ => hany) ?_))
        · exact fun w hw => absurd hf (hw.not_failsWith _)
        · exact fun hf' => nomatch hf.unique hf'
    | interrupted hi => exact .inr (hends (hsettles.fails _) (.interrupted hi))
    | faulty fault ha hnames htaken' hnone =>
      exact .inr (hends (hsettles.fails _) (.faulty fault ha hnames (fun hf => absurd hf htaken')
        fun hf => absurd hf hnone))
  · replace he : x = .stuck a := he
    rw [he]
    exact .inr ⟨rfl, .silent hs⟩

end Host

/-! ## Any address -/

/-- What comes of a request that tries the prefixes of a list in order. -/
inductive Tries (network : String) (f : Family) :
    List Prefix → List (Attempt S) → Option (Except RequestError Lease) → Prop where
  /-- No prefix is left. -/
  | exhausted : Tries network f [] [] (some (.error (.exhausted f network)))
  /-- The first prefix has no address. -/
  | goesOn {a : Attempt S} {p : Prefix} {ps : List Prefix} {log : List (Attempt S)}
      {r : Option (Except RequestError Lease)} (hasks : a.Asks p none) (hf : a.FailsWith .notFound)
      (h : Tries network f ps log r) : Tries network f (p :: ps) (a :: log) r
  /-- The first prefix decides. -/
  | decided {a : Attempt S} {p : Prefix} {r : Option (Except RequestError Lease)} (ps : List Prefix)
      (hasks : a.Asks p none) (hr : a.Decides p none r) : Tries network f (p :: ps) [a] r

/-- What a request for any address makes of the attempt to take one from a prefix, before others. -/
def afterAny (network : String) (f : Family) (p : Prefix) (ps : List Prefix) :
    Except AcquireError Addr → Request Lease
  | .ok a => return ⟨a, p⟩
  | .error .exhausted => anyAddressOf network f ps
  | .error .taken => throw (.internal (.takenAtRandom p))
  | .error (.failed e) => throw e

theorem Host.tries_attend (h : Host S) (network : String) (f : Family) (ps : List Prefix) (s : S) :
    Tries network f ps (h.attend (anyAddressOf network f ps) s).log
      (h.attend (anyAddressOf network f ps) s).result := by
  induction ps generalizing s with
  | nil => exact .exhausted
  | cons p ps ih =>
    have hasks := h.asks_asking p none s
    rcases h.attend_acquire (afterAny network f p ps) ⟨fun _ => rfl, fun _ => rfl⟩
      (.inr ⟨rfl, _, rfl⟩) (.inl rfl) s with ⟨-, hf, he⟩ | ⟨hlog, hr⟩
    · have hgoes := Tries.goesOn hasks hf (ih (h.asking p none s).meeting.after)
      exact he ▸ hgoes
    · exact hlog ▸ Tries.decided ps hasks hr

namespace Tries

variable {network : String} {f : Family} {ps : List Prefix} {log : List (Attempt S)}
  {r : Option (Except RequestError Lease)}

/-- The prefixes are tried from the first one on, each once. -/
theorem asks (h : Tries network f ps log r) :
    List.Forall₂ (fun a p => a.Asks p none) log (ps.take log.length) := by
  induction h with
  | exhausted => exact .nil
  | goesOn hasks _ _ ih => exact .cons hasks ih
  | decided ps hasks _ => exact .cons hasks .nil

/-- All prefixes but the last one that is tried have no address. -/
theorem earlier (h : Tries network f ps log r) : ∀ a ∈ log.dropLast, a.FailsWith .notFound := by
  induction h with
  | exhausted => exact List.forall_mem_nil _
  | @goesOn a p ps log r hasks hf h ih =>
    cases log with
    | nil => exact List.forall_mem_nil _
    | cons b log => exact List.forall_mem_cons.2 ⟨hf, ih⟩
  | decided ps hasks _ => exact List.forall_mem_nil _

/-- A prefix that is tried has no address, or it decides. -/
theorem cases_of_mem (h : Tries network f ps log r) : ∀ a ∈ log, ∃ p ∈ ps, a.Asks p none ∧
    (a.FailsWith .notFound ∨ a.Decides p none r) := by
  induction h with
  | exhausted => exact List.forall_mem_nil _
  | goesOn hasks hf h ih =>
    refine List.forall_mem_cons.2 ⟨⟨_, List.mem_cons_self, hasks, .inl hf⟩, fun a ha => ?_⟩
    obtain ⟨p, hp, htried⟩ := ih a ha
    exact ⟨p, List.mem_cons_of_mem _ hp, htried⟩
  | decided ps hasks hr =>
    exact List.forall_mem_singleton.2 ⟨_, List.mem_cons_self, hasks, .inr hr⟩

/-- If all prefixes that are tried have no address, all are tried. -/
theorem complete (h : Tries network f ps log r) (hf : ∀ a ∈ log, a.FailsWith .notFound) :
    log.length = ps.length := by
  induction h with
  | exhausted => rfl
  | goesOn hasks _ _ ih => exact congrArg (· + 1) (ih fun a ha => hf a (List.mem_cons_of_mem _ ha))
  | decided ps hasks hr => exact absurd (hf _ (List.mem_singleton_self _)) hr.not_notFound

/-- It is said that no address is left just if no prefix has one. -/
theorem exhausted_iff (h : Tries network f ps log r) :
    (∃ e, r = some (.error e) ∧ e.kind = .resourceExhausted) ↔
      List.Forall₂ (fun a p => a.Asks p none ∧ a.FailsWith .notFound) log ps := by
  induction h with
  | exhausted => exact ⟨fun _ => .nil, fun _ => ⟨_, rfl, rfl⟩⟩
  | goesOn hasks hf h ih =>
    rw [List.forall₂_cons, ih]
    exact ⟨fun hall => ⟨⟨hasks, hf⟩, hall⟩, And.right⟩
  | decided ps hasks hr =>
    constructor
    · rintro ⟨e, he, hkind⟩
      exact absurd hkind (hr.kind_ne he)
    · intro hall
      exact absurd (List.forall₂_cons.1 hall).1.2 hr.not_notFound

end Tries

/-- A request for any address has gone through the prefixes of a family of a network. -/
structure Passage.GoesThrough (x : Passage S (Except RequestError Lease)) (h : Host S) (n : Network)
    (f : Family) : Prop where
  /-- The prefixes are asked in the order of the network, each once, and for any address. -/
  asks : List.Forall₂ (fun a p => a.Asks p none) x.log ((n.prefixesOf f).take x.log.length)
  /-- No prefix of the other family is asked, and no prefix for a specific address. -/
  family : ∀ a ∈ x.log, ∀ p wanted, a.Asks p wanted → p.family = f ∧ wanted = none
  /-- The allocator is called unless the context has ended. -/
  started : ∀ a ∈ x.log, (a.meeting.started = true ↔ (h.context a.state).refusal? = none)
  /-- If it has, the request learns the reason. -/
  refused : ∀ a ∈ x.log, ∀ i, (h.context a.state).refusal? = some i → a.Learns (.error i)
  /-- All prefixes but the last one have no address. -/
  earlier : ∀ a ∈ x.log.dropLast, a.FailsWith .notFound
  /-- Only if a prefix has none the next one is tried, and then it is. -/
  complete : (∀ a ∈ x.log, a.FailsWith .notFound) → x.log.length = (n.prefixesOf f).length
  /-- The address that the allocator names is the result if it is one of the prefix. -/
  takes : ∀ a ∈ x.log, ∀ p w, a.Asks p none → a.Names w → p.contains w = true →
    x.result = some (.ok ⟨w, p⟩)
  /-- Any other answer, but that the prefix has none, is a fault of the allocator. -/
  faulty : ∀ a ∈ x.log, ∀ p, a.Asks p none → a.IsAnswered → ¬ a.FailsWith .notFound →
    (∀ w, a.Names w → p.contains w = false) → ∃ fault, x.result = some (.error (.internal fault))
  /-- An interruption is the result. -/
  interrupted : ∀ a ∈ x.log, ∀ i, a.Learns (.error i) → x.result = some (.error (.interrupted i))
  /-- A call that waits for ever has no result. -/
  silent : ∀ a ∈ x.log, a.meeting.outcome = none → x.result = none
  /-- There is no address left just if no prefix of the family has one. -/
  exhausted_iff : (∃ e, x.result = some (.error e) ∧ e.kind = .resourceExhausted) ↔
    List.Forall₂ (fun a p => a.Asks p none ∧ a.FailsWith .notFound) x.log (n.prefixesOf f)

/-- At any host, a request for any address goes through the prefixes of the family. -/
theorem Network.anyAddress_walks (n : Network) (f : Family) (h : Host S) (s : S) :
    (h.attend (anyAddress n f) s).GoesThrough h n f := by
  have htries : Tries n.id f (n.prefixesOf f) (h.attend (anyAddress n f) s).log
      (h.attend (anyAddress n f) s).result := h.tries_attend n.id f (n.prefixesOf f) s
  have hseen := fun a ha => Host.started_of_mem_log (h := h) (p := anyAddress n f) (s := s) (a := a) ha
  generalize h.attend (anyAddress n f) s = x at htries hseen ⊢
  have hdecides : ∀ a ∈ x.log, ∀ p, a.Asks p none → ¬ a.FailsWith .notFound →
      a.Decides p none x.result := by
    intro a ha p hp hno
    obtain ⟨q, -, hq, hf | hr⟩ := htries.cases_of_mem a ha
    · exact absurd hf hno
    · cases (hp.unique hq).1
      exact hr
  exact {
    asks := htries.asks
    family := by
      intro a ha p wanted hp
      obtain ⟨q, hq, haq, -⟩ := htries.cases_of_mem a ha
      obtain ⟨rfl, rfl⟩ := hp.unique haq
      exact ⟨(Network.mem_prefixesOf.1 hq).2, rfl⟩
    started := by
      intro a ha
      obtain ⟨q, -, haq, -⟩ := htries.cases_of_mem a ha
      exact (hseen a ha haq.1).1
    refused := by
      intro a ha i hi
      obtain ⟨q, -, haq, -⟩ := htries.cases_of_mem a ha
      exact haq.learns_error ((hseen a ha haq.1).2 i hi)
    earlier := htries.earlier
    complete := htries.complete
    takes := by
      intro a ha p w hp hw hc
      exact (hdecides a ha p hp (hw.not_failsWith _)).eq_ok hw hc nofun
    faulty := by
      intro a ha p hp hanswered hno hout
      refine (hdecides a ha p hp hno).eq_internal hanswered (fun w hw hc => ?_) fun _ => rfl
      rw [hout w hw] at hc
      cases hc
    interrupted := by
      intro a ha i hi
      obtain ⟨p, -, hp, -⟩ := htries.cases_of_mem a ha
      refine (hdecides a ha p hp fun hf => ?_).eq_interrupted hi
      exact hf.isAnswered.not_interrupted i hi
    silent := by
      intro a ha hs
      obtain ⟨p, -, hp, -⟩ := htries.cases_of_mem a ha
      exact (hdecides a ha p hp fun hf => hf.isAnswered.ne_none hs).eq_none hs
    exhausted_iff := htries.exhausted_iff }

/-! ## A specific address -/

/-- What a request for a specific address ends with is told by what it learns of a call for the
address in a prefix. -/
structure Attempt.Determines (a : Attempt S) (p : Prefix) (w : Addr)
    (r : Option (Except RequestError Lease)) : Prop where
  /-- It succeeds just if the allocator names the address, and with that one. -/
  ok_iff : ∀ lease, r = some (.ok lease) ↔ lease = ⟨w, p⟩ ∧ a.Names w
  /-- There is a conflict just if the allocator reports one. -/
  conflict_iff : (∃ cause, r = some (.error (.conflict cause))) ↔ a.FailsWith .alreadyExists
  /-- An interruption is passed on. -/
  interrupted_iff : ∀ i, r = some (.error (.interrupted i)) ↔ a.Learns (.error i)
  /-- A call that waits for ever has no result. -/
  none_iff : r = none ↔ a.meeting.outcome = none
  /-- Any other answer is a fault of the allocator. -/
  internal_iff : (∃ fault, r = some (.error (.internal fault))) ↔
    a.IsAnswered ∧ ¬ a.Names w ∧ ¬ a.FailsWith .alreadyExists

theorem Attempt.Decides.determines {a : Attempt S} {p : Prefix} {w : Addr}
    {r : Option (Except RequestError Lease)} (h : a.Decides p (some w) r)
    (hc : p.contains w = true) : a.Determines p w r where
  ok_iff := by
    intro lease
    constructor
    · rintro rfl
      cases h with
      | takes hw _ hwanted =>
        cases hwanted w rfl
        exact ⟨rfl, hw⟩
    · rintro ⟨rfl, hw⟩
      exact h.eq_ok hw hc fun v hv => (Option.some.inj hv).symm
  conflict_iff := by
    constructor
    · rintro ⟨cause, rfl⟩
      cases h with
      | taken _ hf => exact hf
    · exact fun hf => ⟨_, h.eq_conflict hf⟩
  interrupted_iff := by
    intro i
    constructor
    · rintro rfl
      cases h with
      | interrupted hi => exact hi
    · exact h.eq_interrupted
  none_iff := by
    constructor
    · rintro rfl
      cases h with
      | silent hs => exact hs
    · exact h.eq_none
  internal_iff := by
    constructor
    · rintro ⟨fault, rfl⟩
      cases h with
      | faulty _ ha hnames htaken _ =>
        refine ⟨ha, fun hw => ?_, fun hf => nomatch htaken hf⟩
        obtain ⟨v, hv, hne⟩ := hnames w hw hc
        exact hne (Option.some.inj hv).symm
    · rintro ⟨ha, hno, hf⟩
      refine h.eq_internal ha (fun v hv _ => ⟨w, rfl, ?_⟩) fun hf' => absurd hf' hf
      rintro rfl
      exact hno hv

theorem readLiteral_of_parse? {literal : String} {w : Addr} (hw : Addr.parse? literal = some w) :
    readLiteral literal = .ok w := by
  unfold readLiteral
  rw [hw]

/-- What a request for a specific address makes of the attempt to take it from a prefix. -/
def afterWanted (p : Prefix) (w : Addr) : Except AcquireError Addr → Request Lease
  | .ok a => return ⟨a, p⟩
  | .error .taken => throw (.conflict (.taken w))
  | .error .exhausted => throw (.internal (.unknownPrefix p w))
  | .error (.failed e) => throw e

/-- The address of a text that can be read is taken from the first prefix that contains it. -/
theorem specificAddress_eq (n : Network) {literal : String} {w : Addr}
    (hw : Addr.parse? literal = some w) : specificAddress n literal =
      match prefixFor? n w with
      | none => throw (.invalid (.literalOutside w n.id))
      | some p => liftM (acquire p (some w)) >>= afterWanted p w := by
  have hbind : ∀ f : Addr → Request Lease, (Request.ofExcept (.ok w) >>= f : Request Lease) = f w :=
    fun _ => rfl
  unfold specificAddress
  rw [readLiteral_of_parse? hw, hbind]
  rfl

namespace Host

/-- A text that names no address is refused as it stands. -/
theorem attend_specificAddress_unparsable (h : Host S) (n : Network) {literal : String}
    (hw : Addr.parse? literal = none) (s : S) : h.attend (specificAddress n literal) s =
      ⟨[], s, some (.error (.invalid (.literalUnparsable literal)))⟩ := by
  have hread : readLiteral literal = .error (.invalid (.literalUnparsable literal)) := by
    unfold readLiteral
    rw [hw]
  unfold specificAddress
  rw [hread]
  rfl

/-- So is an address that no prefix contains. -/
theorem attend_specificAddress_outside (h : Host S) (n : Network) {literal : String} {w : Addr}
    (hw : Addr.parse? literal = some w) (hp : prefixFor? n w = none) (s : S) :
    h.attend (specificAddress n literal) s =
      ⟨[], s, some (.error (.invalid (.literalOutside w n.id)))⟩ := by
  rw [specificAddress_eq n hw, hp]
  rfl

/-- Otherwise the one call to the first prefix decides. -/
theorem attend_specificAddress (h : Host S) (n : Network) {literal : String} {w : Addr} {p : Prefix}
    (hw : Addr.parse? literal = some w) (hp : prefixFor? n w = some p) (s : S) :
    let x := h.attend (specificAddress n literal) s
    x.log = [h.asking p (some w) s] ∧ (h.asking p (some w) s).Decides p (some w) x.result := by
  intro x
  have hx : x = h.attend (specificAddress n literal) s := rfl
  rw [specificAddress_eq n hw, hp] at hx
  rw [hx]
  rcases h.attend_acquire (afterWanted p w) ⟨fun _ => rfl, fun _ => rfl⟩
    (.inl ⟨w, rfl, rfl⟩) (.inr ⟨nofun, _, rfl⟩) s with ⟨hany, -⟩ | hone
  · cases hany
  · exact hone

end Host

theorem prefixFor?_eq_none_iff {n : Network} {w : Addr} :
    prefixFor? n w = none ↔ ∀ p ∈ n.prefixesOf w.family, p.contains w = false := by
  unfold prefixFor?
  simp

/-- What comes of a request for a specific address if all calls are served. -/
theorem serve_specificAddress_first {n : Network} {literal : String} {w : Addr} {p : Prefix}
    (hw : Addr.parse? literal = some w) (hp : n.IsFirstWith w p) (m : Memory) (picks : Picks) :
    let r := (specificAddress n literal).serve (m, picks)
    (r.2.1.catalog = m.catalog ∧ r.2.1.store = m.store) ∧
    ((p, w) ∉ m.pool.held → r.1 = .ok ⟨w, p⟩ ∧ r.2.1.pool.held = m.pool.held.insert (p, w)) ∧
    ((p, w) ∈ m.pool.held →
      r.1 = .error (.conflict (.taken w)) ∧ r.2.1.pool.held = m.pool.held) := by
  have hfirst : prefixFor? n w = some p := (prefixFor?_eq n w).trans (Network.isFirstWith_iff.1 hp)
  intro r
  obtain ⟨pool, picks', hcases⟩ :=
    serve_specificAddress (n := n) (readLiteral_of_parse? hw) m picks
  rcases hcases with ⟨hnone, -⟩ | ⟨q, hq, hheld, hkept, hserve⟩ | ⟨q, hq, hfree, hgrown, hserve⟩
  · rw [hfirst] at hnone
    cases hnone
  · obtain rfl := Option.some.inj (hfirst.symm.trans hq)
    have hr : r = (.error (.conflict (.taken w)), { m with pool := pool }, picks') := hserve
    rw [hr]
    exact ⟨⟨rfl, rfl⟩, fun hno => absurd hheld hno, fun _ => ⟨rfl, hkept⟩⟩
  · obtain rfl := Option.some.inj (hfirst.symm.trans hq)
    have hr : r = (.ok ⟨w, p⟩, { m with pool := pool }, picks') := hserve
    rw [hr]
    exact ⟨⟨rfl, rfl⟩, fun _ => ⟨rfl, hgrown⟩, fun hheld => absurd hheld hfree⟩

/-- At any host, a request for the address of a text is refused before any call is made if the text
names no address or no prefix of its family contains it. Otherwise the first prefix that contains it
is asked for that address, once and unless the context has ended, and nothing else is; and what the
request learns of that call determines its result. If the pool is asked and nothing goes wrong, the
address is taken just if it is not held of that prefix, there is a conflict otherwise, and nothing but
the pair of the prefix and the address is held besides what was held before. -/
theorem Network.specificAddress_decided (n : Network) (literal : String) :
    (∀ (S : Type) (h : Host S) (s : S),
      let x := h.attend (specificAddress n literal) s
      ((∀ w, Addr.parse? literal = some w → ∀ p ∈ n.prefixesOf w.family, p.contains w = false) →
        x.log = [] ∧ x.final = s ∧ ∃ cause, x.result = some (.error (.invalid cause))) ∧
      ∀ w, Addr.parse? literal = some w → ∀ q ∈ n.prefixesOf w.family, q.contains w = true →
        ∃ p a, n.IsFirstWith w p ∧ x.log = [a] ∧ a.state = s ∧ a.Asks p (some w) ∧
          (a.meeting.started = true ↔ (h.context s).refusal? = none) ∧
          (∀ i, (h.context s).refusal? = some i → a.Learns (.error i)) ∧
          a.Determines p w x.result) ∧
    ∀ w p, Addr.parse? literal = some w → n.IsFirstWith w p → ∀ (m : Memory) (picks : Picks),
      let r := (specificAddress n literal).serve (m, picks)
      (r.2.1.catalog = m.catalog ∧ r.2.1.store = m.store) ∧
      ((p, w) ∉ m.pool.held → r.1 = .ok ⟨w, p⟩ ∧ r.2.1.pool.held = m.pool.held.insert (p, w)) ∧
      ((p, w) ∈ m.pool.held →
        r.1 = .error (.conflict (.taken w)) ∧ r.2.1.pool.held = m.pool.held) := by
  refine ⟨fun S h s => ⟨fun hout => ?_, fun w hw q hq hc => ?_⟩,
    fun w p hw hp m picks => serve_specificAddress_first hw hp m picks⟩
  · cases hw : Addr.parse? literal with
    | none =>
      rw [h.attend_specificAddress_unparsable n hw]
      exact ⟨rfl, rfl, _, rfl⟩
    | some w =>
      rw [h.attend_specificAddress_outside n hw (prefixFor?_eq_none_iff.2 (hout w hw))]
      exact ⟨rfl, rfl, _, rfl⟩
  · obtain ⟨p, hp⟩ : ∃ p, prefixFor? n w = some p := by
      refine Option.ne_none_iff_exists'.1 fun hnone => ?_
      rw [prefixFor?_eq_none_iff.1 hnone q hq] at hc
      cases hc
    have hfirst : n.IsFirstWith w p := by
      rw [Network.isFirstWith_iff, ← prefixFor?_eq, hp]
    have hcontains : p.contains w = true := by simpa using List.find?_some hp
    obtain ⟨hlog, hdecides⟩ := h.attend_specificAddress n hw hp s
    have hasks := h.asks_asking p (some w) s
    have hmem : h.asking p (some w) s ∈ (h.attend (specificAddress n literal) s).log := by
      rw [hlog]
      exact List.mem_singleton_self _
    obtain ⟨hstarted, hrefused⟩ := Host.started_of_mem_log hmem rfl
    exact ⟨p, h.asking p (some w) s, hfirst, hlog, rfl, hasks, hstarted,
      fun i hi => hasks.learns_error (hrefused i hi), hdecides.determines hcontains⟩

namespace Small

/-- An address of version 6. -/
def address6 : Addr := ⟨.v6, 0x20010db8000000000000000000000009, by decide⟩

/-- A prefix of it that is not written by its first address. -/
def prefix6 : Prefix := ⟨⟨.v6, 0x20010db8000000000000000000000007, by decide⟩, 32, by decide⟩

/-- A longer prefix of it. -/
def longer6 : Prefix := ⟨⟨.v6, 0x20010db8000000000000000000000000, by decide⟩, 64, by decide⟩

/-- A network with both prefixes. -/
def overlapping : Network := .ofPrefixes "net" "prj" [slot.1, prefix6, longer6]

/-- A memory in which the address is held of the longer prefix. -/
def held6 : Memory := { memory with pool := (∅ : Pool).hold longer6 address6 }

end Small

theorem Network.specificAddress_decided_overlapping :
    (∃ a, (Small.refusing.attend (specificAddress Small.overlapping "2001:DB8:0::9")
      (Small.held6, ⟨true, none⟩)).log = [a] ∧ a.Asks Small.prefix6 (some Small.address6) ∧
      a.meeting.started = false) ∧
    ((specificAddress Small.overlapping "2001:DB8:0::9").serve (Small.held6, fun _ => 0)).1 =
      .ok ⟨Small.address6, Small.prefix6⟩ := by
  have hw : Addr.parse? "2001:DB8:0::9" = some Small.address6 := by decide +kernel
  have hfirst : Small.overlapping.IsFirstWith Small.address6 Small.prefix6 :=
    ⟨[Small.slot.1], [Small.longer6], rfl, by decide, by decide⟩
  obtain ⟨hhost, hserve⟩ := Small.overlapping.specificAddress_decided "2001:DB8:0::9"
  obtain ⟨p, a, hp, hlog, -, hasks, hstarted, -⟩ := (hhost _ Small.refusing
    (Small.held6, ⟨true, none⟩)).2 Small.address6 hw Small.longer6 (by decide) (by decide)
  obtain rfl := hp.unique hfirst
  obtain ⟨-, hfree, -⟩ := hserve _ _ hw hfirst Small.held6 fun _ => 0
  refine ⟨⟨a, hlog, hasks, ?_⟩, (hfree (by decide)).1⟩
  exact Bool.eq_false_iff.2 fun ht => nomatch hstarted.1 ht

end Ipam
