import Ipam.CommandLine.Session
import Ipam.Proofs.CommandLine.Serve
import Ipam.Proofs.Course.Fate

/-!
# Runs on one state file

A run of the program reads its command line, its configuration and its state file and may write the
state file. `Invocation.run` is what a run makes of one file at a path, given all else that it meets:
the other files, the clock, the choices of the allocator. `after` is what is left of the file when
runs are made one after the other and there was no file at first.

A run that fails leaves the file as it was. Whatever the runs are asked, every file that they leave
holds an exact state, and an id that is gone does not come back (`state_file_exact`).
-/

namespace Ipam.CommandLine

/-! ## Runs -/

/-- A computation on a world, with a file beside the world. -/
def besideFile {σ α : Type} (x : StateM σ α) : StateM (Contents × σ) α := fun w =>
  let r := x.run w.2
  (r.1, (w.1, r.2))

/-- The surroundings beside a file, which they leave alone. -/
def Surroundings.beside {σ : Type} (s : Surroundings (StateM σ)) :
    Surroundings (StateM (Contents × σ)) where
  startClock span := besideFile (s.startClock span)
  isLate := besideFile s.isLate
  pick := besideFile s.pick
  stamp := besideFile s.stamp

/-- A run of the program, and all that it meets except the file that is looked at. -/
structure Invocation (σ : Type) where
  /-- The command line. -/
  words : List String
  /-- What there is to be read of the other files. -/
  others : String → Contents
  /-- Whether a file can be written. -/
  writable : String → Bool
  /-- The clock, the choices of the allocator and the source of stamps. -/
  surroundings : Surroundings (StateM σ)
  /-- The state of the surroundings at the start. -/
  start : σ

namespace Invocation

variable {σ : Type} (i : Invocation σ) (path : String)

/-- What there is to be read of a file, given the contents of the one at `path`. -/
def contents (file : Contents) (other : String) : Contents :=
  if other = path then file else i.others other

/-- The files, of which only the one at `path` is kept track of. -/
def files : Files (StateM (Contents × σ)) where
  read other := fun w => (i.contents path w.1 other, w)
  write other s := fun w =>
    if i.writable other then (true, (if other = path then .text s else w.1, w.2)) else (false, w)

/-- How the run ends and what it leaves of the file at `path`. -/
def run (file : Contents) : Outcome × Contents :=
  let r := (CommandLine.run (i.files path) i.surroundings.beside i.words).run (file, i.start)
  (r.1, r.2.1)

/-- Whether the command line asks for a create. -/
def isCreate : Bool :=
  match Arguments.read i.words with
  | .ok args => args.command.isCreate
  | .error _ => false

end Invocation

/-- The state that a file keeps; a file that is not there keeps the empty one. -/
def Contents.state? : Contents → Option State
  | .missing => some ∅
  | .closed => none
  | .garbled => none
  | .text s => State.parse? s

/-- A file holds a state: it is read as the state, and it is just as a run writes it, if it is there
at all. -/
structure Contents.Holds (file : Contents) (s : State) : Prop where
  /-- A run that reads the file starts from the state. -/
  state : file.state? = some s
  /-- A file that is there is the one that is written for the state. -/
  text : file = .missing ∨ file = .text s.text

section

variable {σ : Type}

/-- What is left of a file when runs are made one after the other. -/
def afterRuns (path : String) (file : Contents) (is : List (Invocation σ)) : Contents :=
  is.foldl (fun file i => (i.run path file).2) file

/-- What is left of a file that was not there when runs are made one after the other. -/
def after (path : String) (is : List (Invocation σ)) : Contents := afterRuns path .missing is

/-- The number of creates among some runs. -/
def creates (is : List (Invocation σ)) : Nat := is.countP Invocation.isCreate

end

/-! ## One run -/

section

variable {σ α β : Type} {i : Invocation σ} {path : String} {file : Contents}

/-- A part of a run leaves the file as it is, and comes to no result but one that meets `Q`. -/
def Leaves (file : Contents) (x : ExceptT RunError (StateM (Contents × σ)) α) (Q : α → Prop) : Prop :=
  ∀ w, w.1 = file → (x.run.run w).2.1 = file ∧ ∀ a, (x.run.run w).1 = .ok a → Q a

namespace Leaves

theorem pure {a : α} {Q : α → Prop} (h : Q a) :
    Leaves (σ := σ) file (Pure.pure a) Q := by
  intro w hw
  refine ⟨hw, fun b hb => ?_⟩
  cases hb
  exact h

theorem throw {e : RunError} {Q : α → Prop} :
    Leaves (σ := σ) file (MonadExcept.throw e) Q := by
  intro w hw
  refine ⟨hw, fun b hb => ?_⟩
  cases hb

theorem bind {x : ExceptT RunError (StateM (Contents × σ)) α}
    {f : α → ExceptT RunError (StateM (Contents × σ)) β} {P : α → Prop} {Q : β → Prop}
    (hx : Leaves file x P) (hf : ∀ a, P a → Leaves file (f a) Q) : Leaves file (x >>= f) Q := by
  intro w hw
  obtain ⟨hfile, hP⟩ := hx w hw
  have hrun : ((x >>= f).run).run w =
      (ExceptT.bindCont f (x.run.run w).1).run (x.run.run w).2 := rfl
  rw [hrun]
  cases hr : (x.run.run w).1 with
  | error e =>
    refine ⟨hfile, fun b hb => ?_⟩
    cases hb
  | ok a => exact hf a (hP a hr) _ hfile

theorem read (other : String) :
    Leaves file (liftM ((i.files path).read other) : ExceptT RunError (StateM (Contents × σ)) _)
      fun c => c = i.contents path file other := by
  intro w hw
  refine ⟨hw, fun b hb => ?_⟩
  cases hb
  rw [hw]

theorem loadConfig (other : String) :
    Leaves file (CommandLine.loadConfig (i.files path) other) fun _ => True := by
  refine .bind (.read other) ?_
  rintro c -
  cases c with
  | missing => exact .throw
  | closed => exact .throw
  | garbled => exact .throw
  | text s =>
    dsimp only
    cases Config.parse? s with
    | none => exact .throw
    | some config =>
      dsimp only
      cases config.validate with
      | error e => exact .throw
      | ok u => exact .pure trivial

theorem loadState (other : String) :
    Leaves file (CommandLine.loadState (i.files path) other) fun state =>
      (i.contents path file other).state? = some state := by
  refine .bind (.read other) ?_
  rintro c hc
  rw [← hc]
  cases c with
  | missing => exact .pure rfl
  | closed => exact .throw
  | garbled => exact .throw
  | text s =>
    dsimp only
    cases hs : State.parse? s with
    | none => exact .throw
    | some state => exact .pure hs

/-- A command starts from a state that was loaded, and comes to one that may follow it. -/
theorem serve (config : Config) {state : State} (project : Option String) (command : Command) :
    Leaves file (ExceptT.mk (command.serve i.surroundings.beside config state project))
      fun r => state.Exact → state.Legible →
        state.store.nextId.toNat + command.isCreate.toNat < 2 ^ 64 →
        state.Continues command.isCreate.toNat r.2 := by
  intro w hw
  have hkeeps : i.surroundings.beside.Keeps fun w => w.1 = file := ⟨fun _ _ h => h, fun _ h => h,
    fun _ h => h, fun _ h => h⟩
  obtain ⟨hfile, hserve⟩ := command.serve_eq_ok hkeeps config state project hw
  refine ⟨hfile, ?_⟩
  rintro ⟨answer, t⟩ hr hexact hlegible hcount
  obtain ⟨stamp, request, picks, hrequest, rfl⟩ := hserve answer t hr
  exact Command.continues hexact hlegible hcount hrequest config picks

end Leaves

/-- A command line that is served has loaded a state from the file that it names, and has come to one
that may follow it. -/
theorem Arguments.leaves_serve (args : Arguments) :
    Leaves file (args.serve (i.files path) i.surroundings.beside) fun r =>
      ∃ state, (i.contents path file r.2.2).state? = some state ∧
        (state.Exact → state.Legible →
          state.store.nextId.toNat + args.command.isCreate.toNat < 2 ^ 64 →
          state.Continues args.command.isCreate.toNat r.2.1) := by
  refine .bind (.loadConfig args.config) ?_
  rintro config -
  cases hpath : args.state.or config.general.stateFile with
  | none => exact .bind (P := fun _ => False) .throw fun _ h => h.elim
  | some other =>
    refine .bind (.pure (Q := fun q => q = other) rfl) ?_
    rintro q rfl
    refine .bind (.loadState q) fun state hstate => ?_
    refine .bind (.serve config args.project args.command) ?_
    rintro ⟨answer, t⟩ ht
    exact .pure ⟨state, hstate, ht⟩

/-- A run leaves the file as it was, or it succeeds and writes a state that may follow the one it has
found. -/
theorem Invocation.run_cases (i : Invocation σ) (path : String) (file : Contents) :
    (i.run path file).2 = file ∨
    (i.run path file).1.status = 0 ∧ ∃ state t, file.state? = some state ∧
      (i.run path file).2 = .text t.text ∧
      (state.Exact → state.Legible → state.store.nextId.toNat + i.isCreate.toNat < 2 ^ 64 →
        state.Continues i.isCreate.toNat t) := by
  unfold Invocation.run CommandLine.run Invocation.isCreate
  cases Arguments.read i.words with
  | error e =>
    left
    cases e <;> rfl
  | ok args =>
    have hserve : Leaves file (args.serve (i.files path) i.surroundings.beside) _ :=
      args.leaves_serve
    obtain ⟨hfile, hserve⟩ := hserve (file, i.start) rfl
    simp only [run_bind]
    generalize (args.serve (i.files path) i.surroundings.beside).run.run (file, i.start) = ran
      at hfile hserve ⊢
    obtain ⟨e | ⟨out, t, other⟩, w⟩ := ran
    · exact .inl hfile
    obtain ⟨state, hstate, ht⟩ := hserve _ rfl
    have hwrite : ((i.files path).write other t.text).run w = if i.writable other then
        (true, (if other = path then .text t.text else w.1, w.2)) else (false, w) := rfl
    simp only [run_bind, hwrite]
    by_cases hwritable : i.writable other = true
    · rw [if_pos hwritable]
      -- the run may keep its state in another file than the one that is looked at
      by_cases hother : other = path
      · rw [if_pos hother]
        rw [Invocation.contents, if_pos hother] at hstate
        exact .inr ⟨rfl, state, t, hstate, rfl, ht⟩
      · rw [if_neg hother]
        exact .inl hfile
    · rw [if_neg hwritable]
      exact .inl hfile

/-! ## Runs one after the other -/

namespace State.Continues

variable {s t u : State} {m n : Nat}

theorem refl (h : s.Exact) (hl : s.Legible) : s.Continues 0 s :=
  ⟨h, hl, .refl _, Nat.le_refl _⟩

theorem trans (h : s.Continues m t) (h' : t.Continues n u) : s.Continues (m + n) u where
  exact := h'.exact
  legible := h'.legible
  precedes := h.precedes.trans h'.precedes
  nextId_le := by
    have hm := h.nextId_le
    have hn := h'.nextId_le
    omega

end State.Continues

/-- A file that holds an exact state holds one after a run, as long as a create does not make the
counter start again. -/
theorem Invocation.run_continues (i : Invocation σ) (path : String) {state : State}
    (hfile : file.Holds state) (h : state.Exact) (hl : state.Legible)
    (hcount : state.store.nextId.toNat + i.isCreate.toNat < 2 ^ 64) :
    ∃ t, (i.run path file).2.Holds t ∧ state.Continues i.isCreate.toNat t := by
  rcases i.run_cases path file with hsame | ⟨-, found, t, hfound, hwritten, ht⟩
  · have hrefl := State.Continues.refl h hl
    rw [hsame]
    exact ⟨state, hfile, { hrefl with nextId_le := Nat.le_add_right _ _ }⟩
  · cases hfile.state.symm.trans hfound
    have hcontinues := ht h hl hcount
    rw [hwritten]
    exact ⟨t, ⟨State.parse?_text hcontinues.legible, .inr rfl⟩, hcontinues⟩

theorem afterRuns_continues (path : String) (is : List (Invocation σ)) :
    ∀ (file : Contents) {state : State}, file.Holds state → state.Exact → state.Legible →
      state.store.nextId.toNat + creates is < 2 ^ 64 →
      ∃ t, (afterRuns path file is).Holds t ∧ state.Continues (creates is) t := by
  induction is with
  | nil => exact fun _ s hfile h hl _ => ⟨s, hfile, .refl h hl⟩
  | cons i is ih =>
    intro file state hfile h hl hcount
    have hcreates : creates (i :: is) = i.isCreate.toNat + creates is := by
      rw [creates, List.countP_cons, Nat.add_comm]
      cases i.isCreate <;> rfl
    rw [hcreates] at hcount ⊢
    -- the counter stays behind the creates so far, so the later ones still find numbers
    obtain ⟨t, ht, hcontinues⟩ := i.run_continues path hfile h hl (by omega)
    have hnext := hcontinues.nextId_le
    obtain ⟨u, hu, hrest⟩ := ih _ ht hcontinues.exact hcontinues.legible (by omega)
    exact ⟨u, hu, hcontinues.trans hrest⟩

theorem afterRuns_append (path : String) (file : Contents) (is js : List (Invocation σ)) :
    afterRuns path file (is ++ js) = afterRuns path (afterRuns path file is) js :=
  List.foldl_append

/-- Among runs that start without a file, the later file holds a state that may follow the one that
the earlier file holds. -/
theorem after_continues (path : String) {is js : List (Invocation σ)} (h : is <+: js)
    (hcreates : creates js < 2 ^ 64) :
    ∃ s t, (after path is).Holds s ∧ (after path js).Holds t ∧ s.Exact ∧
      s.store.Precedes t.store := by
  obtain ⟨rest, rfl⟩ := h
  rw [creates, List.countP_append] at hcreates
  obtain ⟨s, hs, hfirst⟩ := afterRuns_continues path is .missing ⟨rfl, .inl rfl⟩ State.exact_empty
    State.legible_empty (by
      show 0 + creates is < 2 ^ 64
      rw [creates]
      omega)
  have hnext : s.store.nextId.toNat ≤ 0 + creates is := hfirst.nextId_le
  obtain ⟨t, ht, hrest⟩ := afterRuns_continues path rest _ hs hfirst.exact hfirst.legible (by
    rw [creates] at hnext ⊢
    omega)
  rw [after, after, afterRuns_append]
  exact ⟨s, t, hs, ht, hfirst.exact, hrest.precedes⟩

/-- A run that fails leaves the file as it was. -/
theorem Invocation.run_of_status_ne_zero (i : Invocation σ) (path : String) (file : Contents)
    (h : (i.run path file).1.status ≠ 0) : (i.run path file).2 = file :=
  (i.run_cases path file).resolve_right fun hwritten => h hwritten.1

/-- Among runs on a file that was not there at first, one that fails leaves the file as it was, each
file that is left holds an exact state, and an id that is gone does not come back. The counter must
not start again, for which there would have to be as many creates as it has values. -/
theorem state_file_exact (path : String) (is : List (Invocation σ))
    (hcreates : creates is < 2 ^ 64) :
    (∀ a i, a ++ [i] <+: is → (i.run path (after path a)).1.status ≠ 0 →
      after path (a ++ [i]) = after path a) ∧
    (∀ a, a <+: is → ∃ s, (after path a).Holds s ∧ s.Exact) ∧
    ∀ a b c, a <+: b → b <+: c → c <+: is → ∀ s t u, (after path a).Holds s →
      (after path b).Holds t → (after path c).Holds u →
      ∀ id ∈ s.store.ids, id ∉ t.store.ids → id ∉ u.store.ids := by
  have hcount : ∀ {a}, a <+: is → creates a < 2 ^ 64 := fun h =>
    Nat.lt_of_le_of_lt h.sublist.countP_le hcreates
  refine ⟨fun a i _ hstatus => ?_, fun a ha => ?_, fun a b c hab hbc hc s t u hs ht hu => ?_⟩
  · rw [after, afterRuns_append]
    exact i.run_of_status_ne_zero path _ hstatus
  · obtain ⟨s, -, hs, -, hexact, -⟩ := after_continues path (List.prefix_refl a) (hcount ha)
    exact ⟨s, hs, hexact⟩
  · -- a file holds one state only, so these are the states that are named
    obtain ⟨s', t', hs', ht', hexact, hst⟩ := after_continues path hab (hcount (hbc.trans hc))
    obtain ⟨t'', u', ht'', hu', -, htu⟩ := after_continues path hbc (hcount hc)
    cases hs.state.symm.trans hs'.state
    cases ht.state.symm.trans ht'.state
    cases ht.state.symm.trans ht''.state
    cases hu.state.symm.trans hu'.state
    exact fun id hid hgone => hst.not_mem_ids htu hexact.wellFormed hid hgone

end

namespace Small

/-- A configuration with one address. -/
def config : String :=
  "projects: [\x7bid: p\x7d]\n" ++
  "networks: [\x7bid: n, project: p, prefixes: [10.0.0.1/32]\x7d]\n"

/-- A run that takes the address, with a clock that lets only some calls through. -/
def hurried (calls : Nat) : Invocation Nat where
  words := ["--config", "c", "--state", "s", "--project", "p", "create", "--network", "n",
    "--ip", "10.0.0.1"]
  others other := if other = "c" then .text config else .missing
  writable _ := true
  surroundings := {
    startClock := fun _ => pure ()
    isLate := fun left => (left == 0, left - 1)
    pick := pure 0
    stamp := pure Ipam.Small.stamp }
  start := calls

end Small

/-- The first run is late when it has taken the address in memory, and leaves no file; the second
takes it. -/
theorem state_file_exact_hurried :
    let late := Small.hurried 3
    let timely := Small.hurried 4
    creates [late, timely] = 2 ∧ (late.run "s" .missing).1.status = 1 ∧
    after "s" [late] = .missing ∧ (timely.run "s" (after "s" [late])).1.status = 0 ∧
    ∃ s, (after "s" [late, timely]).Holds s ∧ s.Exact := by
  have hcreates : creates [Small.hurried 3, Small.hurried 4] = 2 := by decide +kernel
  have hlate : ((Small.hurried 3).run "s" .missing).1.status = 1 := by decide +kernel
  have htimely : ((Small.hurried 4).run "s" .missing).1.status = 0 := by decide +kernel
  obtain ⟨hfails, hexact, -⟩ := state_file_exact "s" [Small.hurried 3, Small.hurried 4]
    (by rw [hcreates]; decide)
  have hmissing : after "s" [Small.hurried 3] = .missing :=
    hfails [] (Small.hurried 3) (by simp) (by
      show ((Small.hurried 3).run "s" .missing).1.status ≠ 0
      rw [hlate]
      decide)
  refine ⟨hcreates, hlate, hmissing, ?_, hexact _ (List.prefix_refl _)⟩
  rw [hmissing]
  exact htimely

end Ipam.CommandLine
