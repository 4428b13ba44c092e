import Mathlib.Data.ENat.BigOperators
import Ipam.Proofs.Course.Interruption

/-!
# Requests that run out of time

Sleepers are collaborators that may answer and do anything, but each call sleeps before it takes
effect, some for ever, and only that takes time. Among them a deadline is one for the whole request:
it counts what all calls have slept, and a call that would sleep up to the deadline, or beyond it, is
abandoned before it takes effect. If the calls of a request sleep less in all, the request does not
notice its deadline; otherwise it breaks off at the first call with which they do not
(`Operation.deadline_bounds`).
-/

namespace Ipam

/-! ## Passages seen through a function of the state -/

section

variable {S S' α : Type} (f : S → S')

def Meeting.map {c : Call} (m : Meeting S c) : Meeting S' c := ⟨m.started, m.outcome, f m.after⟩

def Attempt.map (a : Attempt S) : Attempt S' := ⟨f a.state, a.guarded, a.call, a.meeting.map f⟩

/-- The passage with a part of each state. -/
def Passage.map (x : Passage S α) : Passage S' α := ⟨x.log.map (Attempt.map f), f x.final, x.result⟩

theorem Passage.map_after (a : Attempt S) (x : Passage S α) :
    (x.after a).map f = (x.map f).after (a.map f) := rfl

/-- The attempt, if the deadline passes before the call takes effect. -/
def Attempt.lapsed (a : Attempt S) (started : Bool) : Attempt S :=
  { a with meeting := ⟨started, some (.error .deadlineExceeded), a.state⟩ }

end

/-! ## Sleepers -/

/-- Collaborators that answer and do anything. -/
structure Sleepers (E : Type) where
  /-- The answer to a guarded call, and its effect. -/
  act : E → (c : Call) → c.Answer × E
  /-- The answer to a detached call, unless it waits for ever, and its effect. -/
  detached : E → (c : Call) → Option c.Answer × E

/-- Where a request is among sleepers. -/
structure Clocked (E : Type) where
  /-- The state of the collaborators. -/
  env : E
  /-- The number of guarded calls that are done. -/
  turn : ℕ
  /-- The context of the request. -/
  context : Context

/-- How long some guarded calls sleep in all: `k` of them, from the one with number `i` on. -/
def elapsed (delay : ℕ → ℕ∞) (i k : ℕ) : ℕ∞ := ∑ j ∈ Finset.range k, delay (i + j)

namespace Sleepers

variable {E α : Type}

/-- What a request meets with among sleepers, when its guarded calls sleep for some times, one after
the other. The caller looks when a sleep is over or the deadline passes. -/
def host (z : Sleepers E) (delay : ℕ → ℕ∞) : Host (Clocked E) where
  context := Clocked.context
  guarded s c :=
    match delay s.turn with
    | (d : ℕ) =>
      let t := { s with context := (s.context.wait d).2 }
      ⟨if d = 0 then [] else [t], some (z.act s.env c).1, ⟨(z.act s.env c).2, s.turn + 1, t.context⟩⟩
    | ⊤ =>
      ⟨s.context.remaining.toList.map fun _ => { s with context := s.context.waitForever.2 }, none, s⟩
  detached s c := ((z.detached s.env c).1, { s with env := (z.detached s.env c).2 })

/-- The guarded call has the answer and the effect that it has among the sleepers. -/
structure Completes (z : Sleepers E) (a : Attempt (Clocked E)) : Prop where
  guarded : a.guarded = true
  started : a.meeting.started = true
  outcome : a.meeting.outcome = some (.ok (z.act a.state.env a.call).1)
  after : a.meeting.after.env = (z.act a.state.env a.call).2

/-- A request runs out of time at a guarded call: that has no effect, and some others before it have
theirs. -/
structure BreaksOff (z : Sleepers E) (e : E) (before : List (Attempt (Clocked E)))
    (a : Attempt (Clocked E)) (started : Bool) (x : Passage (Clocked E) (Except RequestError α)) :
    Prop where
  completes : ∀ b ∈ before, z.Completes b
  guarded : a.guarded = true
  effects : a.state.env = before.foldl (fun env b => (z.act env b.call).2) e
  passage : x.map Clocked.env =
    ⟨before.map (Attempt.map Clocked.env) ++ [(a.map Clocked.env).lapsed started], a.state.env,
      some (.error (.interrupted .deadlineExceeded))⟩

variable {z : Sleepers E} {delay : ℕ → ℕ∞} {e : E} {i r d : ℕ} {c : Call}

/-! ### One call -/

theorem guarded_coe (hd : delay i = d) (ctx : Context) : (z.host delay).guarded ⟨e, i, ctx⟩ c =
    ⟨if d = 0 then [] else [⟨e, i, (ctx.wait d).2⟩], some (z.act e c).1,
      ⟨(z.act e c).2, i + 1, (ctx.wait d).2⟩⟩ := by
  simp only [host, hd]

theorem guarded_top (hd : delay i = ⊤) (ctx : Context) : (z.host delay).guarded ⟨e, i, ctx⟩ c =
    ⟨ctx.remaining.toList.map fun _ => ⟨e, i, ctx.waitForever.2⟩, none, ⟨e, i, ctx⟩⟩ := by
  simp only [host, hd]
  rfl

/-- A call is done if its context has not ended when it has slept. -/
theorem meet_of_wait {ctx : Context} (hd : delay i = d) (hlive : ctx.refusal? = none)
    (hwait : (ctx.wait d).2.refusal? = none) : (z.host delay).meet ⟨e, i, ctx⟩ c =
      ⟨true, some (.ok (z.act e c).1), (z.act e c).2, i + 1, (ctx.wait d).2⟩ := by
  have hcontext : ∀ s : Clocked E, (z.host delay).context s = s.context := fun _ => rfl
  unfold Host.meet
  rw [guarded_coe hd, hcontext, hlive]
  by_cases hzero : d = 0
  · simp [hzero, Host.ended?_nil]
  · have hnone : (z.host delay).ended? [⟨e, i, (ctx.wait d).2⟩] = none :=
      Host.ended?_cons_of_none hwait []
    simp [hzero, hnone]

theorem meet_awake (hd : delay i = d) : (z.host delay).meet ⟨e, i, ⟨false, none⟩⟩ c =
    ⟨true, some (.ok (z.act e c).1), (z.act e c).2, i + 1, ⟨false, none⟩⟩ := by
  have hwait : ((⟨false, none⟩ : Context).wait d).2 = ⟨false, none⟩ := by
    unfold Context.wait
    split <;> rfl
  rw [meet_of_wait hd rfl (by rw [hwait]; rfl), hwait]

theorem meet_asleep (hd : delay i = ⊤) : (z.host delay).meet ⟨e, i, ⟨false, none⟩⟩ c =
    ⟨true, none, e, i, ⟨false, none⟩⟩ := by
  unfold Host.meet
  rw [guarded_top hd]
  rfl

theorem meet_in_time (hd : delay i = d) (hr : d < r) :
    (z.host delay).meet ⟨e, i, ⟨false, some r⟩⟩ c =
      ⟨true, some (.ok (z.act e c).1), (z.act e c).2, i + 1, ⟨false, some (r - d)⟩⟩ := by
  have hwait : ((⟨false, some r⟩ : Context).wait d).2 = ⟨false, some (r - d)⟩ := by
    unfold Context.wait
    by_cases hzero : d = 0
    · simp [hzero]
    · simp [hzero, Nat.not_le.2 hr]
  have hlive : (⟨false, some r⟩ : Context).refusal? = none :=
    Context.refusal?_eq_none_iff.2 ⟨rfl, by simp; omega⟩
  have hleft : (⟨false, some (r - d)⟩ : Context).refusal? = none :=
    Context.refusal?_eq_none_iff.2 ⟨rfl, by simp; omega⟩
  rw [meet_of_wait hd hlive (by rw [hwait, hleft]), hwait]

/-- A call that would sleep up to the deadline is abandoned at the deadline. -/
theorem meet_late (hr : 0 < r) (hd : r ≤ delay i) :
    (z.host delay).meet ⟨e, i, ⟨false, some r⟩⟩ c =
      ⟨true, some (.error .deadlineExceeded), e, i, ⟨false, some 0⟩⟩ := by
  have hlive : (⟨false, some r⟩ : Context).refusal? = none :=
    Context.refusal?_eq_none_iff.2 ⟨rfl, by simp; omega⟩
  have hlooks : ((z.host delay).guarded ⟨e, i, ⟨false, some r⟩⟩ c).looks =
      [⟨e, i, ⟨false, some 0⟩⟩] := by
    cases hdelay : delay i with
    | top =>
      rw [guarded_top hdelay]
      rfl
    | coe d =>
      rw [hdelay] at hd
      have hle : r ≤ d := by exact_mod_cast hd
      have hzero : d ≠ 0 := by omega
      rw [guarded_coe hdelay]
      simp [Context.wait, hzero, hle]
  have hended : (z.host delay).ended? [⟨e, i, ⟨false, some 0⟩⟩] =
      some (.deadlineExceeded, ⟨e, i, ⟨false, some 0⟩⟩) := Host.ended?_cons_of_some rfl []
  have hcontext : (z.host delay).context ⟨e, i, ⟨false, some r⟩⟩ = ⟨false, some r⟩ := rfl
  unfold Host.meet
  rw [hcontext, hlive]
  simp only [hlooks, hended]

theorem meet_over : (z.host delay).meet ⟨e, i, ⟨false, some 0⟩⟩ c =
    ⟨false, some (.error .deadlineExceeded), e, i, ⟨false, some 0⟩⟩ := rfl

/-! ### All calls -/

section

variable {next : Except Interruption c.Answer → Program (Except RequestError α)}

theorem attend_awake (hd : delay i = d) :
    (z.host delay).attend (.guarded c next) ⟨e, i, ⟨false, none⟩⟩ =
      ((z.host delay).attend (next (.ok (z.act e c).1)) ⟨(z.act e c).2, i + 1, ⟨false, none⟩⟩).after
        ⟨⟨e, i, ⟨false, none⟩⟩, true, c,
          ⟨true, some (.ok (z.act e c).1), (z.act e c).2, i + 1, ⟨false, none⟩⟩⟩ := by
  simp only [Host.attend, meet_awake hd]

theorem attend_asleep (hd : delay i = ⊤) :
    (z.host delay).attend (.guarded c next) ⟨e, i, ⟨false, none⟩⟩ =
      .stuck ⟨⟨e, i, ⟨false, none⟩⟩, true, c, ⟨true, none, e, i, ⟨false, none⟩⟩⟩ := by
  simp only [Host.attend, meet_asleep hd]

theorem attend_in_time (hd : delay i = d) (hr : d < r) :
    (z.host delay).attend (.guarded c next) ⟨e, i, ⟨false, some r⟩⟩ =
      ((z.host delay).attend (next (.ok (z.act e c).1))
        ⟨(z.act e c).2, i + 1, ⟨false, some (r - d)⟩⟩).after
        ⟨⟨e, i, ⟨false, some r⟩⟩, true, c,
          ⟨true, some (.ok (z.act e c).1), (z.act e c).2, i + 1, ⟨false, some (r - d)⟩⟩⟩ := by
  simp only [Host.attend, meet_in_time hd hr]

theorem attend_late (hr : 0 < r) (hd : r ≤ delay i) (hnext : (Program.guarded c next).Passes) :
    (z.host delay).attend (.guarded c next) ⟨e, i, ⟨false, some r⟩⟩ =
      ⟨[⟨⟨e, i, ⟨false, some r⟩⟩, true, c,
          ⟨true, some (.error .deadlineExceeded), e, i, ⟨false, some 0⟩⟩⟩],
        ⟨e, i, ⟨false, some 0⟩⟩, some (.error (.interrupted .deadlineExceeded))⟩ := by
  simp only [Host.attend, meet_late hr hd, hnext .deadlineExceeded]
  rfl

theorem attend_over (hnext : (Program.guarded c next).Passes) :
    (z.host delay).attend (.guarded c next) ⟨e, i, ⟨false, some 0⟩⟩ =
      ⟨[⟨⟨e, i, ⟨false, some 0⟩⟩, true, c,
          ⟨false, some (.error .deadlineExceeded), e, i, ⟨false, some 0⟩⟩⟩],
        ⟨e, i, ⟨false, some 0⟩⟩, some (.error (.interrupted .deadlineExceeded))⟩ := by
  simp only [Host.attend, meet_over, hnext .deadlineExceeded]
  rfl

/-- Without a deadline, the first call is attempted at the start. -/
theorem exists_log_cons (z : Sleepers E) (delay : ℕ → ℕ∞) (s : Clocked E) : ∃ m after,
    ((z.host delay).attend (.guarded c next) s).log = ⟨s, true, c, m⟩ :: after := by
  rcases (z.host delay).attend_guarded_cases c next s with ⟨out, -, he⟩ | ⟨-, he⟩
  · exact ⟨_, _, by rw [he]; rfl⟩
  · exact ⟨_, [], by rw [he]; rfl⟩

end

theorem elapsed_succ (delay : ℕ → ℕ∞) (i k : ℕ) :
    elapsed delay i (k + 1) = delay i + elapsed delay (i + 1) k := by
  unfold elapsed
  rw [Finset.sum_range_succ', add_comm]
  simp only [Nat.add_zero, Nat.add_assoc, Nat.add_comm 1]

theorem coe_add_lt_iff (hr : d < r) (t : ℕ∞) : (d : ℕ∞) + t < r ↔ t < (r - d : ℕ) := by
  cases t with
  | top => simp
  | coe t =>
    norm_cast
    omega

theorem exists_coe_of_lt {t : ℕ∞} (h : t < r) : ∃ d : ℕ, t = d ∧ d < r := by
  obtain ⟨d, rfl⟩ := ENat.ne_top_iff_exists.1 (ne_top_of_lt h)
  exact ⟨d, rfl, by exact_mod_cast h⟩

/-- A detached call does not notice the deadline, and it is the last one. -/
theorem map_attend_detached {next : c.Answer → Program (Except RequestError α)}
    (hnext : (Program.detached c next).Concedes) (z : Sleepers E) (delay : ℕ → ℕ∞) (e : E) (i : ℕ)
    (ctx ctx' : Context) :
    ((z.host delay).attend (.detached c next) ⟨e, i, ctx⟩).map Clocked.env =
      ((z.host delay).attend (.detached c next) ⟨e, i, ctx'⟩).map Clocked.env ∧
    ((z.host delay).attend (.detached c next) ⟨e, i, ctx'⟩).log.countP Attempt.guarded = 0 := by
  have hdetached : ∀ ctx, (z.host delay).detached ⟨e, i, ctx⟩ c =
      ((z.detached e c).1, ⟨(z.detached e c).2, i, ctx⟩) := fun _ => rfl
  cases hout : (z.detached e c).1 with
  | none =>
    simp only [Host.attend, hdetached, hout]
    exact ⟨rfl, rfl⟩
  | some answer =>
    obtain ⟨err, herr⟩ := hnext answer
    simp only [Host.attend, hdetached, hout, herr]
    exact ⟨rfl, rfl⟩

/-- A request whose guarded calls sleep less than what is left to its deadline has the passage that it
has without a deadline, but for the time that is left. -/
theorem map_attend_of_lt {p : Program (Except RequestError α)} (hp : p.Throughout Program.Concedes)
    (hlt : elapsed delay i
      (((z.host delay).attend p ⟨e, i, ⟨false, none⟩⟩).log.countP Attempt.guarded) < r) :
    ((z.host delay).attend p ⟨e, i, ⟨false, some r⟩⟩).map Clocked.env =
      ((z.host delay).attend p ⟨e, i, ⟨false, none⟩⟩).map Clocked.env := by
  -- what the first call sleeps is taken off what is left, and the rest is measured from there
  induction p generalizing e i r with
  | done a => rfl
  | guarded c next ih =>
    cases hd : delay i with
    | top =>
      rw [attend_asleep hd] at hlt
      simp [Passage.stuck, elapsed, hd] at hlt
    | coe d =>
      rw [attend_awake hd] at hlt ⊢
      simp only [Passage.after, List.countP_cons, if_true, elapsed_succ, hd] at hlt
      have hr : d < r := by exact_mod_cast lt_of_le_of_lt le_self_add hlt
      rw [coe_add_lt_iff hr] at hlt
      rw [attend_in_time hd hr, Passage.map_after, Passage.map_after, ih _ (hp.2 _) hlt]
      rfl
  | detached c next ih => exact (map_attend_detached hp.1 z delay e i _ _).1

/-- Otherwise it breaks off at the first guarded call with which they sleep as long, and nothing comes
after that. -/
theorem breaksOff_attend {p : Program (Except RequestError α)} (hp : p.Throughout Program.Concedes)
    (hr : 0 < r) {k : ℕ}
    (hk : k < ((z.host delay).attend p ⟨e, i, ⟨false, none⟩⟩).log.countP Attempt.guarded)
    (hlt : elapsed delay i k < r) (hle : r ≤ elapsed delay i (k + 1)) :
    ∃ before a after,
      ((z.host delay).attend p ⟨e, i, ⟨false, none⟩⟩).log = before ++ a :: after ∧ before.length = k ∧
      z.BreaksOff e before a true ((z.host delay).attend p ⟨e, i, ⟨false, some r⟩⟩) := by
  induction p generalizing e i r k with
  | done a => simp [Host.attend] at hk
  | guarded c next ih =>
    cases k with
    | zero =>
      -- the first call sleeps too long
      have hd : r ≤ delay i := by simpa [elapsed] using hle
      obtain ⟨m, after, hlog⟩ := exists_log_cons z delay ⟨e, i, ⟨false, none⟩⟩
      refine ⟨[], _, after, hlog, rfl, by simp, rfl, rfl, ?_⟩
      rw [attend_late hr hd hp.1.passes]
      rfl
    | succ k =>
      -- the first call is done in time, and the rest breaks off at the call before
      rw [elapsed_succ] at hlt hle
      obtain ⟨d, hd, hdr⟩ := exists_coe_of_lt (lt_of_le_of_lt le_self_add hlt)
      rw [hd, coe_add_lt_iff hdr] at hlt
      rw [hd, ← not_lt, coe_add_lt_iff hdr, not_lt] at hle
      rw [attend_awake hd] at hk
      rw [attend_awake hd, attend_in_time hd hdr]
      have hk' : k < ((z.host delay).attend (next (.ok (z.act e c).1))
          ⟨(z.act e c).2, i + 1, ⟨false, none⟩⟩).log.countP Attempt.guarded := by
        simpa [Passage.after] using hk
      obtain ⟨before, a, after, hlog, hlength, hcompletes, hguarded, heffects, hpassage⟩ :=
        ih _ (hp.2 _) (by omega) hk' hlt hle
      refine ⟨_ :: before, a, after, congrArg (List.cons _) hlog, congrArg (· + 1) hlength,
        List.forall_mem_cons.2 ⟨⟨rfl, rfl, rfl, rfl⟩, hcompletes⟩, hguarded, heffects, ?_⟩
      rw [Passage.map_after, hpassage]
      rfl
  | detached c next ih =>
    rw [(map_attend_detached hp.1 z delay e i ⟨false, none⟩ ⟨false, none⟩).2] at hk
    cases hk

/-- If the deadline is over at the start, the first call is refused. -/
theorem breaksOff_start {next : Except Interruption c.Answer → Program (Except RequestError α)}
    (hnext : (Program.guarded c next).Passes) (z : Sleepers E) (delay : ℕ → ℕ∞) (e : E) (i : ℕ) :
    ∃ a after, ((z.host delay).attend (.guarded c next) ⟨e, i, ⟨false, none⟩⟩).log = a :: after ∧
      z.BreaksOff e [] a false ((z.host delay).attend (.guarded c next) ⟨e, i, ⟨false, some 0⟩⟩) := by
  obtain ⟨m, after, hlog⟩ := exists_log_cons z delay ⟨e, i, ⟨false, none⟩⟩
  refine ⟨_, after, hlog, List.forall_mem_nil _, rfl, rfl, ?_⟩
  rw [attend_over hnext]
  rfl

/-- The calls that are started are those before the one that has no effect, and that one if it is. -/
theorem BreaksOff.calls_started {before : List (Attempt (Clocked E))} {a : Attempt (Clocked E)}
    {started : Bool} {x : Passage (Clocked E) (Except RequestError α)}
    (h : z.BreaksOff e before a started x) :
    (x.log.filter fun y => y.meeting.started).map Attempt.call =
      before.map Attempt.call ++ if started then [a.call] else [] := by
  have hmap : ∀ log : List (Attempt (Clocked E)),
      ((log.map (Attempt.map Clocked.env)).filter fun y => y.meeting.started).map Attempt.call =
        (log.filter fun y => y.meeting.started).map Attempt.call := by
    intro log
    rw [List.filter_map, List.map_map]
    rfl
  have hlog : x.log.map (Attempt.map Clocked.env) =
      before.map (Attempt.map Clocked.env) ++ [(a.map Clocked.env).lapsed started] :=
    congrArg Passage.log h.passage
  have hbefore : (before.filter fun y => y.meeting.started) = before :=
    List.filter_eq_self.2 fun b hb => (h.completes b hb).started
  rw [← hmap, hlog, List.filter_append, List.map_append, hmap, hbefore]
  cases started <;> rfl

end Sleepers

/-- There is a first call with which the deadline is reached, if it is reached at all. -/
theorem exists_isLeast_elapsed {delay : ℕ → ℕ∞} {T n : ℕ} (hT : 0 < T)
    (hle : (T : ℕ∞) ≤ elapsed delay 0 n) :
    ∃ k, IsLeast {k | (T : ℕ∞) ≤ elapsed delay 0 k} (k + 1) ∧ elapsed delay 0 k < T := by
  have hexists : ∃ k, (T : ℕ∞) ≤ elapsed delay 0 k := ⟨n, hle⟩
  have hspec := Nat.find_spec hexists
  have hleast : ∀ k, (T : ℕ∞) ≤ elapsed delay 0 k → Nat.find hexists ≤ k :=
    fun k hk => Nat.find_min' hexists hk
  cases hfind : Nat.find hexists with
  | zero =>
    rw [hfind] at hspec
    have hzero : T = 0 := by simpa [elapsed] using hspec
    omega
  | succ k =>
    rw [hfind] at hspec hleast
    exact ⟨k, ⟨hspec, hleast⟩, not_le.1 (Nat.find_min hexists (by omega))⟩

/-! ## The deadline of a request -/

/-- Every operation makes a guarded call first. -/
theorem Operation.exists_guarded (repo : Repository) (op : Operation) :
    ∃ c next, (op.request repo : Program _) = .guarded c next := by
  cases op <;> exact ⟨_, _, rfl⟩

/-- A deadline is one for the whole request. If the guarded calls that a request makes without one
sleep less than that in all, it has the same passage with it: the same calls, answers and effects, and
the same result. Otherwise there is a first one of them with which they sleep as long. That one is
started, unless the deadline is over at the start, and it is abandoned; those before it have the
answers and effects that they have without a deadline, it has none, nothing is called after it, and
the request ends with the reason. -/
theorem Operation.deadline_bounds {E : Type} (repo : Repository) (op : Operation) (z : Sleepers E)
    (delay : ℕ → ℕ∞) (e : E) (T : ℕ) :
    let free := (z.host delay).attend (op.request repo) ⟨e, 0, ⟨false, none⟩⟩
    let x := (z.host delay).attend (op.request repo) ⟨e, 0, ⟨false, some T⟩⟩
    let n := free.log.countP Attempt.guarded
    (∑ j ∈ Finset.range n, delay j < T → x.map Clocked.env = free.map Clocked.env) ∧
    (T ≤ ∑ j ∈ Finset.range n, delay j → ∃ k ≤ n,
      IsLeast {k | (T : ℕ∞) ≤ ∑ j ∈ Finset.range k, delay j} k ∧
      ∃ before a after, free.log = before ++ a :: after ∧ before.length = k - 1 ∧
        z.BreaksOff e before a (decide (0 < k)) x ∧
        (x.log.filter fun y => y.meeting.started).map Attempt.call =
          (free.log.take k).map Attempt.call) := by
  intro free x n
  have helapsed : ∀ k, ∑ j ∈ Finset.range k, delay j = elapsed delay 0 k := by
    intro k
    unfold elapsed
    simp only [Nat.zero_add]
  simp only [helapsed]
  have hconcedes := op.concedes repo
  refine ⟨fun hlt => Sleepers.map_attend_of_lt hconcedes hlt, fun hle => ?_⟩
  rcases Nat.eq_zero_or_pos T with hT | hT
  · obtain ⟨c, next, hop⟩ := op.exists_guarded repo
    have hpasses := op.passes repo
    rw [hop] at hpasses
    obtain ⟨a, after, hlog, hbreaks⟩ := Sleepers.breaksOff_start hpasses.1 z delay e 0
    rw [← hop] at hlog hbreaks
    subst hT
    have hleast : IsLeast {k | ((0 : ℕ) : ℕ∞) ≤ elapsed delay 0 k} 0 :=
      ⟨by simp, fun k _ => Nat.zero_le k⟩
    exact ⟨0, Nat.zero_le n, hleast, [], a, after, hlog, rfl, hbreaks, hbreaks.calls_started⟩
  · obtain ⟨k, hleast, hlt⟩ := exists_isLeast_elapsed hT hle
    have hk : k + 1 ≤ n := hleast.2 hle
    obtain ⟨before, a, after, hlog, hlength, hbreaks⟩ :=
      Sleepers.breaksOff_attend hconcedes hT hk hlt hleast.1
    refine ⟨k + 1, hk, hleast, before, a, after, hlog, hlength, ?_, ?_⟩
    · rw [decide_eq_true (Nat.succ_pos k)]
      exact hbreaks
    · have hfree : free.log = before ++ a :: after := hlog
      rw [hbreaks.calls_started, hfree, ← hlength, List.take_length_add_append, List.map_append]
      rfl

namespace Small

/-- The collaborators in memory, as sleepers. -/
def sleepers : Sleepers Memory where
  act m c := m.perform 0 c
  detached m c := (some (m.perform 0 c).1, (m.perform 0 c).2)

/-- Each call sleeps longer than the one before. -/
def growing (j : ℕ) : ℕ∞ := (j + 1 : ℕ)

theorem sum_growing : ∑ j ∈ Finset.range 4, growing j = 10 := by
  simp only [Finset.sum_range_succ, Finset.sum_range_zero, growing]
  norm_num

end Small

/-- Four calls sleep ten in all, so eleven are enough, and six are not: the address is not taken. -/
theorem Operation.deadline_bounds_growing :
    let attend := fun deadline => (Small.sleepers.host Small.growing).attend
      ((Operation.create Small.stamp Small.otherRequest).request ⟨.unscoped, true⟩)
      ⟨Small.memory, 0, ⟨false, deadline⟩⟩
    (attend (some 11)).map Clocked.env = (attend none).map Clocked.env ∧
      (attend (some 6)).result = some (.error (.interrupted .deadlineExceeded)) := by
  intro attend
  have hn : (attend none).log.countP Attempt.guarded = 4 := by decide +kernel
  obtain ⟨hlt, -⟩ := deadline_bounds ⟨.unscoped, true⟩ (.create Small.stamp Small.otherRequest)
    Small.sleepers Small.growing Small.memory 11
  obtain ⟨-, hle⟩ := deadline_bounds ⟨.unscoped, true⟩ (.create Small.stamp Small.otherRequest)
    Small.sleepers Small.growing Small.memory 6
  change ∑ j ∈ Finset.range ((attend none).log.countP Attempt.guarded), Small.growing j < _ → _ at hlt
  change _ ≤ ∑ j ∈ Finset.range ((attend none).log.countP Attempt.guarded), Small.growing j → _ at hle
  rw [hn, Small.sum_growing] at hlt hle
  obtain ⟨k, -, -, before, a, after, -, -, hbreaks, -⟩ := hle (by norm_num)
  exact ⟨hlt (by norm_num), congrArg Passage.result hbreaks.passage⟩

end Ipam
