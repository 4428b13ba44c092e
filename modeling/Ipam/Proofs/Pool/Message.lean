import Ipam.Proofs.Pool.Exhaustion

/-!
# Messages to a pool

A pool is asked in texts, and what it holds is a set of pairs. A message that is granted adds or
removes just the pair that its texts name, or a pair of the prefix that they name and one of its first
free hosts; one that is refused changes no pair, and the code of the refusal says why
(`Pool.messages_faithful`). `Pool.Takes` and `Pool.GivesBack` list what can become of a message, in
terms of its texts and of the pairs alone; their cases exclude each other.
-/

namespace Ipam

/-! ## The hosts between which a choice is made -/

namespace Prefix

/-- The hosts of a prefix from a number on and below another one that are not taken. -/
def between (p : Prefix) (taken : Addr → Bool) (n m : Nat) : Set Addr :=
  {b | b.family = p.family ∧ n ≤ b.value ∧ b.value < m ∧ taken b = false}

variable {p : Prefix} {taken : Addr → Bool} {limit n : Nat}

theorem between_self (p : Prefix) (taken : Addr → Bool) (n : Nat) : p.between taken n n = ∅ := by
  refine Set.eq_empty_iff_forall_notMem.2 ?_
  rintro b ⟨-, hn, hm, -⟩
  omega

/-- A host that is taken does not count. -/
theorem between_of_taken {b : Addr} (hb : b.family = p.family) (hn : b.value = n)
    (ht : taken b = true) (m : Nat) : p.between taken n m = p.between taken (n + 1) m := by
  subst hn
  ext c
  constructor
  · rintro ⟨hf, hn, hm, hfree⟩
    have hne : c.value ≠ b.value := by
      intro he
      rw [Addr.ext (hf.trans hb.symm) he, ht] at hfree
      cases hfree
    exact ⟨hf, by omega, hm, hfree⟩
  · rintro ⟨hf, hn, hm, hfree⟩
    exact ⟨hf, by omega, hm, hfree⟩

/-- A host that is free counts once. -/
theorem ncard_between_of_free {b : Addr} (hb : b.family = p.family) (hn : b.value = n)
    (ht : taken b = false) {m : Nat} (hm : n < m) :
    (p.between taken n m).ncard = (p.between taken (n + 1) m).ncard + 1 := by
  subst hn
  have hinsert : p.between taken b.value m = insert b (p.between taken (b.value + 1) m) := by
    ext c
    constructor
    · rintro ⟨hf, hn, hc, hfree⟩
      by_cases he : c.value = b.value
      · exact .inl (Addr.ext (hf.trans hb.symm) he)
      · exact .inr ⟨hf, by omega, hc, hfree⟩
    · rintro (rfl | ⟨hf, hn, hc, hfree⟩)
      · exact ⟨hb, Nat.le_refl _, hm, ht⟩
      · exact ⟨hf, by omega, hc, hfree⟩
  have hnot : b ∉ p.between taken (b.value + 1) m := by
    rintro ⟨-, hn, -, -⟩
    omega
  rw [hinsert, Set.ncard_insert_of_notMem hnot]

/-- The free hosts that are found are just those with few enough free hosts before them. -/
theorem mem_freeFrom_iff {a : Addr} :
    a ∈ p.freeFrom taken limit n ↔ a.family = p.family ∧ n ≤ a.value ∧ a.value ≤ p.lastHost ∧
      taken a = false ∧ (p.between taken n a.value).ncard < limit := by
  -- a free host is one of those before all that come after it, and it takes one off the limit
  fun_induction Prefix.freeFrom p taken limit n with
  | case1 n hn => simp
  | case2 n hn limit b ht ih =>
    rw [ih, ← between_of_taken (b := b) rfl rfl ht]
    constructor
    · rintro ⟨hf, hl, hr, hfree, hcount⟩
      exact ⟨hf, by omega, hr, hfree, hcount⟩
    · rintro ⟨hf, hl, hr, hfree, hcount⟩
      have hne : a.value ≠ n := by
        intro he
        rw [show a = b from Addr.ext hf he, ht] at hfree
        cases hfree
      exact ⟨hf, by omega, hr, hfree, hcount⟩
  | case3 n hn limit b ht ih =>
    have hfree : taken b = false := by simpa using ht
    have hone : n < a.value →
        (p.between taken n a.value).ncard = (p.between taken (n + 1) a.value).ncard + 1 :=
      ncard_between_of_free (b := b) rfl rfl hfree
    rw [List.mem_cons, ih]
    constructor
    · rintro (rfl | ⟨hf, hl, hr, ha, hcount⟩)
      · refine ⟨rfl, Nat.le_refl n, hn, hfree, ?_⟩
        rw [between_self, Set.ncard_empty]
        omega
      · have hcounts := hone hl
        exact ⟨hf, by omega, hr, ha, by omega⟩
    · rintro ⟨hf, hl, hr, ha, hcount⟩
      by_cases he : a.value = n
      · exact .inl (Addr.ext hf he)
      · have hcounts := hone (by omega)
        exact .inr ⟨hf, by omega, hr, ha, by omega⟩
  | case4 limit n hn =>
    constructor
    · intro h
      cases h
    · rintro ⟨-, hl, hr, -⟩
      omega

theorem hosts_iff {a : Addr} :
    p.Hosts a ↔ a.family = p.family ∧ p.firstHost ≤ a.value ∧ a.value ≤ p.lastHost :=
  isHost_iff_hosts.symm.trans isHost_iff

end Prefix

/-- In one family the order is that of the numbers. -/
theorem Addr.rank_lt_rank_iff {a b : Addr} (hf : b.family = a.family) :
    b.rank < a.rank ↔ b.value < a.value := by
  unfold rank
  rw [hf]
  cases a.family with
  | v4 => exact Iff.rfl
  | v6 => exact Nat.add_lt_add_iff_left

namespace Pool

variable {pool : Pool} {p : Prefix} {a : Addr}

/-- The pairs that are handed out. -/
def pairs (pool : Pool) : Set Slot := {s | pool.isHeld s.1 s.2 = true}

theorem mem_pairs {s : Slot} : s ∈ pool.pairs ↔ s ∈ pool.held := isHeld_iff

/-- An address is one of the first free hosts of a prefix: it is one, and fewer of them are
smaller. -/
def IsAmongFirst (pool : Pool) (p : Prefix) (limit : Nat) (a : Addr) : Prop :=
  p.Hosts a ∧ (p, a) ∉ pool.pairs ∧
    {b | p.Hosts b ∧ (p, b) ∉ pool.pairs ∧ b.rank < a.rank}.ncard < limit

/-- The choice is made between the first free hosts. -/
theorem mem_candidates_iff : a ∈ pool.candidates p ↔ pool.IsAmongFirst p scanLimit a := by
  have hfree : ∀ b, pool.isHeld p b = false ↔ (p, b) ∉ pool.pairs := fun b => by
    rw [mem_pairs, ← isHeld_iff, Bool.not_eq_true]
  rw [candidates_eq, Prefix.freeHosts, Prefix.mem_freeFrom_iff, IsAmongFirst, Prefix.hosts_iff, hfree]
  have hbefore : a.family = p.family → a.value ≤ p.lastHost →
      {b | p.Hosts b ∧ (p, b) ∉ pool.pairs ∧ b.rank < a.rank} =
        p.between (pool.isHeld p) p.firstHost a.value := by
    intro hf hr
    ext b
    simp only [Prefix.between, Set.mem_ofPred_eq, Prefix.hosts_iff, hfree]
    constructor
    · rintro ⟨⟨hb, hl, -⟩, hn, hlt⟩
      exact ⟨hb, hl, (Addr.rank_lt_rank_iff (hb.trans hf.symm)).1 hlt, hn⟩
    · rintro ⟨hb, hl, hlt, hn⟩
      exact ⟨⟨hb, hl, by omega⟩, hn, (Addr.rank_lt_rank_iff (hb.trans hf.symm)).2 hlt⟩
  constructor
  · rintro ⟨hf, hl, hr, hn, hcount⟩
    rw [hbefore hf hr]
    exact ⟨⟨hf, hl, hr⟩, hn, hcount⟩
  · rintro ⟨⟨hf, hl, hr⟩, hn, hcount⟩
    rw [hbefore hf hr] at hcount
    exact ⟨hf, hl, hr, hn, hcount⟩

/-! ## What becomes of a message -/

end Pool

/-- A message names an address of a prefix. -/
def AcquireRequest.Names (req : AcquireRequest) (p : Prefix) (a : Addr) : Prop :=
  Prefix.parse? req.parent = some p ∧ ∃ raw, req.ip = some raw ∧ Addr.parse? raw = some a

/-- A message names a prefix and leaves the address open. -/
def AcquireRequest.NamesOnly (req : AcquireRequest) (p : Prefix) : Prop :=
  Prefix.parse? req.parent = some p ∧ req.ip = none

/-- A message names an address of a prefix. -/
def ReleaseRequest.Names (req : ReleaseRequest) (p : Prefix) (a : Addr) : Prop :=
  Prefix.parse? req.parent = some p ∧ Addr.parse? req.ip = some a

section

variable {p q : Prefix} {a b : Addr}

theorem AcquireRequest.Names.unique {req : AcquireRequest} (h : req.Names p a) (h' : req.Names q b) :
    p = q ∧ a = b := by
  obtain ⟨hp, raw, hip, ha⟩ := h
  obtain ⟨hq, raw', hip', hb⟩ := h'
  cases hip.symm.trans hip'
  exact ⟨Option.some.inj (hp.symm.trans hq), Option.some.inj (ha.symm.trans hb)⟩

theorem AcquireRequest.Names.not_namesOnly {req : AcquireRequest} (h : req.Names p a) (q : Prefix) :
    ¬ req.NamesOnly q := by
  obtain ⟨-, raw, hip, -⟩ := h
  rintro ⟨-, hnone⟩
  cases hip.symm.trans hnone

theorem AcquireRequest.NamesOnly.unique {req : AcquireRequest} (h : req.NamesOnly p)
    (h' : req.NamesOnly q) : p = q := Option.some.inj (h.1.symm.trans h'.1)

theorem ReleaseRequest.Names.unique {req : ReleaseRequest} (h : req.Names p a) (h' : req.Names q b) :
    p = q ∧ a = b :=
  ⟨Option.some.inj (h.1.symm.trans h'.1), Option.some.inj (h.2.symm.trans h'.2)⟩

end

namespace Pool

variable {pool : Pool} {p : Prefix} {a : Addr}

/-- What becomes of a message that asks for an address, and which pairs are held then. -/
inductive Takes (pool : Pool) (req : AcquireRequest) :
    Except AllocatorError AcquireAnswer → Set Slot → Prop where
  /-- The texts cannot be read, or the address that is named is not in the prefix. -/
  | invalid (honly : ∀ p, ¬ req.NamesOnly p) (hnames : ∀ p a, req.Names p a → p.contains a = false)
      (detail : String) : Takes pool req (.error ⟨.invalidArgument, detail⟩) pool.pairs
  /-- The pair that is named is held. -/
  | taken {p : Prefix} {a : Addr} (h : req.Names p a) (hc : p.contains a = true)
      (hheld : (p, a) ∈ pool.pairs) (detail : String) :
      Takes pool req (.error ⟨.alreadyExists, detail⟩) pool.pairs
  /-- The pair that is named is handed out. -/
  | named {p : Prefix} {a : Addr} (h : req.Names p a) (hc : p.contains a = true)
      (hfree : (p, a) ∉ pool.pairs) :
      Takes pool req (.ok ⟨a.text, p.text⟩) (insert (p, a) pool.pairs)
  /-- All hosts of the prefix are held. -/
  | exhausted {p : Prefix} (h : req.NamesOnly p) (hfull : ∀ a, p.Hosts a → (p, a) ∈ pool.pairs)
      (detail : String) : Takes pool req (.error ⟨.notFound, detail⟩) pool.pairs
  /-- One of the first free hosts of the prefix is handed out. -/
  | any {p : Prefix} {a : Addr} (h : req.NamesOnly p) (ha : pool.IsAmongFirst p scanLimit a) :
      Takes pool req (.ok ⟨a.text, p.text⟩) (insert (p, a) pool.pairs)

/-- What becomes of a message that gives an address back, and which pairs are held then. -/
inductive GivesBack (pool : Pool) (req : ReleaseRequest) :
    Except AllocatorError Unit → Set Slot → Prop where
  /-- One of the texts cannot be read. -/
  | invalid (h : ∀ p a, ¬ req.Names p a) (detail : String) :
      GivesBack pool req (.error ⟨.invalidArgument, detail⟩) pool.pairs
  /-- The pair is not held. -/
  | absent {p : Prefix} {a : Addr} (h : req.Names p a) (hfree : (p, a) ∉ pool.pairs)
      (detail : String) : GivesBack pool req (.error ⟨.notFound, detail⟩) pool.pairs
  /-- The pair is given back. -/
  | held {p : Prefix} {a : Addr} (h : req.Names p a) (hheld : (p, a) ∈ pool.pairs) :
      GivesBack pool req (.ok ()) (pool.pairs \ {(p, a)})

theorem pairs_hold (pool : Pool) (p : Prefix) (a : Addr) :
    (pool.hold p a).pairs = insert (p, a) pool.pairs := by
  ext s
  rw [mem_pairs, Set.mem_insert_iff, mem_pairs]
  exact OrderedSet.mem_insert

theorem pairs_drop (pool : Pool) (p : Prefix) (a : Addr) :
    (pool.drop p a).pairs = pool.pairs \ {(p, a)} := by
  ext s
  rw [mem_pairs, drop_held, OrderedSet.mem_erase, Set.mem_sdiff, mem_pairs, Set.mem_singleton_iff,
    and_comm]

theorem readPrefix_of_parse? {raw : String} (hp : Prefix.parse? raw = some p) :
    readPrefix raw = .ok p := by
  unfold readPrefix
  rw [hp]

theorem readAddr_of_parse? {raw : String} (ha : Addr.parse? raw = some a) :
    readAddr raw = .ok a := by
  unfold readAddr
  rw [ha]

theorem acquire_of_error {pick : Nat} {req : AcquireRequest} {e : AllocatorError}
    (hp : Prefix.parse? req.parent = some p) (he : pool.select pick p req.ip = .error e) :
    pool.acquire pick req = (.error e, pool.learn p) := by
  unfold acquire
  rw [readPrefix_of_parse? hp]
  dsimp only
  rw [he]

theorem acquire_of_ok {pick : Nat} {req : AcquireRequest}
    (hp : Prefix.parse? req.parent = some p) (ha : pool.select pick p req.ip = .ok a) :
    pool.acquire pick req = (.ok ⟨a.text, p.text⟩, pool.hold p a) := by
  unfold acquire
  rw [readPrefix_of_parse? hp]
  dsimp only
  rw [ha]

/-- What is selected where an address is named. -/
theorem select_named (pool : Pool) (pick : Nat) (p : Prefix) {raw : String}
    (ha : Addr.parse? raw = some a) :
    pool.select pick p (some raw) =
      if p.contains a = false then
        .error (invalid ("ip " ++ a.text ++ " is not part of prefix " ++ p.text))
      else if pool.isHeld p a then .error ⟨.alreadyExists, "ip " ++ a.text ++ " already allocated"⟩
      else .ok a := by
  unfold select
  dsimp only
  rw [readAddr_of_parse? ha]
  simp only [bind, Except.bind, throw, throwThe, MonadExceptOf.throw, pure, Except.pure]
  cases hc : p.contains a with
  | false => simp
  | true => simp

/-- A text that cannot be read is an invalid argument. -/
theorem select_unread (pool : Pool) (pick : Nat) (p : Prefix) {raw : String}
    (ha : Addr.parse? raw = none) :
    ∃ detail, pool.select pick p (some raw) = .error ⟨.invalidArgument, detail⟩ := by
  unfold select readAddr
  dsimp only
  rw [ha]
  simp only [bind, Except.bind]
  exact ⟨_, rfl⟩

theorem takes_acquire (pool : Pool) (pick : Nat) (req : AcquireRequest) :
    pool.Takes req (pool.acquire pick req).1 (pool.acquire pick req).2.pairs := by
  cases hp : Prefix.parse? req.parent with
  | none =>
    unfold acquire readPrefix
    rw [hp]
    refine .invalid (fun q h => ?_) (fun q b h => ?_) _
    · cases hp.symm.trans h.1
    · cases hp.symm.trans h.1
  | some p =>
    cases hip : req.ip with
    | none =>
      cases hchoice : choose pick (pool.candidates p) with
      | none =>
        have hfull := candidates_eq_nil_iff.1 (choose_eq_none_iff.1 hchoice)
        rw [acquire_of_error hp (by rw [hip, select, hchoice])]
        refine .exhausted ⟨hp, hip⟩ (fun a ha => ?_) _
        exact mem_pairs.2 (hfull a (Prefix.isHost_iff_hosts.2 ha))
      | some a =>
        rw [acquire_of_ok hp (by rw [hip, select, hchoice]), pairs_hold]
        exact .any ⟨hp, hip⟩ (mem_candidates_iff.1 (mem_of_choose hchoice))
    | some raw =>
      have honly : ∀ q, ¬ req.NamesOnly q := fun q h => by cases hip.symm.trans h.2
      cases ha : Addr.parse? raw with
      | none =>
        obtain ⟨detail, hselect⟩ := pool.select_unread pick p ha
        rw [← hip] at hselect
        rw [acquire_of_error hp hselect]
        refine .invalid honly ?_ detail
        rintro q b ⟨-, raw', hip', hb⟩
        cases hip.symm.trans hip'
        cases ha.symm.trans hb
      | some a =>
        have hnames : req.Names p a := ⟨hp, raw, hip, ha⟩
        have hselect := pool.select_named pick p ha
        rw [← hip] at hselect
        by_cases hc : p.contains a = false
        · rw [if_pos hc] at hselect
          rw [acquire_of_error hp hselect]
          refine .invalid honly (fun q b h => ?_) _
          obtain ⟨rfl, rfl⟩ := hnames.unique h
          exact hc
        rw [if_neg hc] at hselect
        rw [Bool.not_eq_false] at hc
        by_cases hheld : pool.isHeld p a = true
        · rw [if_pos hheld] at hselect
          rw [acquire_of_error hp hselect]
          exact .taken hnames hc hheld _
        · rw [if_neg hheld] at hselect
          rw [acquire_of_ok hp hselect, pairs_hold]
          exact .named hnames hc hheld

theorem givesBack_release (pool : Pool) (req : ReleaseRequest) :
    pool.GivesBack req (pool.release req).1 (pool.release req).2.pairs := by
  cases hp : Prefix.parse? req.parent with
  | none =>
    unfold release readPrefix
    rw [hp]
    exact .invalid (fun q b h => by cases hp.symm.trans h.1) _
  | some p =>
    cases ha : Addr.parse? req.ip with
    | none =>
      unfold release readAddr
      rw [readPrefix_of_parse? hp, ha]
      exact .invalid (fun q b h => by cases ha.symm.trans h.2) _
    | some a =>
      have hnames : req.Names p a := ⟨hp, ha⟩
      unfold release
      rw [readPrefix_of_parse? hp, readAddr_of_parse? ha]
      dsimp only
      by_cases hheld : pool.isHeld p a = true
      · rw [if_pos hheld, pairs_drop]
        exact .held hnames hheld
      · rw [if_neg hheld]
        exact .absent hnames hheld _

/-! ## Faithful messages -/

/-- What a message that asks for an address comes to, in terms of what it names and of the pairs that
are held before it and after it. -/
structure HandsOut (pool pool' : Pool) (req : AcquireRequest)
    (r : Except AllocatorError AcquireAnswer) : Prop where
  /-- An address that is named is handed out just if it is in the prefix and the pair is not held. -/
  named_iff : req.ip ≠ none → ((∃ answer, r = .ok answer) ↔
    ∃ p a, req.Names p a ∧ p.contains a = true ∧ (p, a) ∉ pool.pairs)
  /-- Any address is handed out just if some host of the prefix is not held. -/
  any_iff : req.ip = none → ((∃ answer, r = .ok answer) ↔
    ∃ p a, req.NamesOnly p ∧ p.Hosts a ∧ (p, a) ∉ pool.pairs)
  /-- The answer names a pair, the one that was named or one of the first free hosts, which was not
  held; it is held from then on, besides the others. -/
  granted : ∀ answer, r = .ok answer → ∃ p a, Prefix.parse? answer.parent = some p ∧
    Addr.parse? answer.ip = some a ∧ (req.Names p a ∨ req.NamesOnly p ∧ pool.IsAmongFirst p 256 a) ∧
    (p, a) ∉ pool.pairs ∧ pool'.pairs = insert (p, a) pool.pairs
  /-- A refusal changes no pair, and its code is that of a prefix that is exhausted, of a pair that is
  held, or of a wrong message. -/
  refused : ∀ e, r = .error e → pool'.pairs = pool.pairs ∧
    ((e.code = .notFound ∧ ∃ p, req.NamesOnly p ∧ ∀ a, p.Hosts a → (p, a) ∈ pool.pairs) ∨
      (e.code = .alreadyExists ∧
        ∃ p a, req.Names p a ∧ p.contains a = true ∧ (p, a) ∈ pool.pairs) ∨
      e.code = .invalidArgument ∧ (∀ p, ¬ req.NamesOnly p) ∧
        ∀ p a, req.Names p a → p.contains a = false)

/-- What a message that gives an address back comes to. -/
structure TakesBack (pool pool' : Pool) (req : ReleaseRequest) (r : Except AllocatorError Unit) :
    Prop where
  /-- A pair is given back just if it is held. -/
  ok_iff : r = .ok () ↔ ∃ p a, req.Names p a ∧ (p, a) ∈ pool.pairs
  /-- It is not held from then on; all others are. -/
  granted : r = .ok () → ∃ p a, req.Names p a ∧ pool'.pairs = pool.pairs \ {(p, a)}
  /-- A refusal changes no pair, and its code is that of a pair that is absent or of a wrong
  message. -/
  refused : ∀ e, r = .error e → pool'.pairs = pool.pairs ∧
    ((e.code = .notFound ∧ ∃ p a, req.Names p a ∧ (p, a) ∉ pool.pairs) ∨
      e.code = .invalidArgument ∧ ∀ p a, ¬ req.Names p a)

theorem Takes.handsOut {pool' : Pool} {req : AcquireRequest}
    {r : Except AllocatorError AcquireAnswer} (h : pool.Takes req r pool'.pairs) :
    pool.HandsOut pool' req r := by
  generalize hpairs : pool'.pairs = pairs at h
  constructor
  · intro hip
    constructor
    · rintro ⟨answer, rfl⟩
      cases h with
      | named hnames hc hfree => exact ⟨_, _, hnames, hc, hfree⟩
      | any honly ha => exact absurd honly.2 hip
    · rintro ⟨p, a, hnames, hc, hfree⟩
      cases h with
      | invalid honly' hnames' => cases hc.symm.trans (hnames' p a hnames)
      | taken hnames' hc' hheld =>
        obtain ⟨rfl, rfl⟩ := hnames.unique hnames'
        exact absurd hheld hfree
      | named => exact ⟨_, rfl⟩
      | exhausted honly => exact absurd honly (hnames.not_namesOnly _)
      | any honly => exact absurd honly (hnames.not_namesOnly _)
  · intro hip
    constructor
    · rintro ⟨answer, rfl⟩
      cases h with
      | named hnames =>
        obtain ⟨-, raw, hraw, -⟩ := hnames
        cases hip.symm.trans hraw
      | any honly ha => exact ⟨_, _, honly, ha.1, ha.2.1⟩
    · rintro ⟨p, a, honly, ha, hfree⟩
      cases h with
      | invalid honly' => exact absurd honly (honly' p)
      | taken hnames => exact absurd honly (hnames.not_namesOnly p)
      | named hnames => exact absurd honly (hnames.not_namesOnly p)
      | exhausted honly' hfull =>
        cases honly.unique honly'
        exact absurd (hfull a ha) hfree
      | any => exact ⟨_, rfl⟩
  · rintro answer rfl
    cases h with
    | @named p a hnames hc hfree =>
      exact ⟨p, a, p.parse?_text, a.parse?_text, .inl hnames, hfree, hpairs⟩
    | @any p a honly ha =>
      exact ⟨p, a, p.parse?_text, a.parse?_text, .inr ⟨honly, ha⟩, ha.2.1, hpairs⟩
  · rintro e rfl
    cases h with
    | invalid honly hnames => exact ⟨hpairs, .inr (.inr ⟨rfl, honly, hnames⟩)⟩
    | taken hnames hc hheld => exact ⟨hpairs, .inr (.inl ⟨rfl, _, _, hnames, hc, hheld⟩)⟩
    | exhausted honly hfull => exact ⟨hpairs, .inl ⟨rfl, _, honly, hfull⟩⟩

theorem GivesBack.takesBack {pool' : Pool} {req : ReleaseRequest} {r : Except AllocatorError Unit}
    (h : pool.GivesBack req r pool'.pairs) : pool.TakesBack pool' req r := by
  generalize hpairs : pool'.pairs = pairs at h
  constructor
  · constructor
    · rintro rfl
      cases h with
      | held hnames hheld => exact ⟨_, _, hnames, hheld⟩
    · rintro ⟨p, a, hnames, hheld⟩
      cases h with
      | invalid hnone => exact absurd hnames (hnone p a)
      | absent hnames' hfree =>
        obtain ⟨rfl, rfl⟩ := hnames.unique hnames'
        exact absurd hheld hfree
      | held => rfl
  · rintro rfl
    cases h with
    | held hnames hheld => exact ⟨_, _, hnames, hpairs⟩
  · rintro e rfl
    cases h with
    | invalid hnone => exact ⟨hpairs, .inr ⟨rfl, hnone⟩⟩
    | absent hnames hfree => exact ⟨hpairs, .inl ⟨rfl, _, _, hnames, hfree⟩⟩

/-- A pool is a set of pairs, whatever it is asked and whatever it picks: a message that it grants
adds or removes just the pair that its texts name, or adds a pair of the prefix and one of its first
256 free hosts, and a message that it refuses changes no pair. -/
theorem messages_faithful (pool : Pool) (pick : Nat) :
    (∀ req, pool.HandsOut (pool.acquire pick req).2 req (pool.acquire pick req).1) ∧
      ∀ req, pool.TakesBack (pool.release req).2 req (pool.release req).1 :=
  ⟨fun req => (pool.takes_acquire pick req).handsOut,
    fun req => (pool.givesBack_release req).takesBack⟩

end Pool

end Ipam
