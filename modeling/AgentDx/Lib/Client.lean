import AgentDx.Lib.Run

/-!
# Clients of a shared store

A client program reads the published state of a store, reads a clock, and offers
transactions that the store applies in one step.  Any number of programs run
interleaved: between a read of a program and its commit the store may have moved
on.  What holds of every transaction a program may offer, whatever the states
and times it has read, is then an argument about single commits, and an
invariant of every commit is an invariant of every interleaving.
-/

namespace AgentDx.Client

open List hiding next after
open Transition

variable {S X O E A B : Type}

/-! ## Programs -/

/-- A program over states `S` that offers transactions `X`, receives outcomes
`O` and fails with errors `E`. -/
inductive Program (S X O E A : Type) where
  | done (result : Except E A)
  | look (next : S → Program S X O E A)
  | now (next : ℕ → Program S X O E A)
  | commit (txn : X) (next : O → Program S X O E A)

def Program.bind : Program S X O E A → (A → Program S X O E B) → Program S X O E B
  | .done (.ok value), rest => rest value
  | .done (.error error), _ => .done (.error error)
  | .look next, rest => .look fun state => (next state).bind rest
  | .now next, rest => .now fun time => (next time).bind rest
  | .commit txn next, rest => .commit txn fun outcome => (next outcome).bind rest

instance : Monad (Program S X O E) where
  pure value := .done (.ok value)
  bind := Program.bind

/-- A pure fallible computation is a program. -/
instance : MonadLift (Except E) (Program S X O E) where
  monadLift result := .done result

/-- Reads the published state. -/
def look : Program S X O E S := .look fun state => .done (.ok state)

/-- Reads the clock. -/
def now : Program S X O E ℕ := .now fun time => .done (.ok time)

/-- Offers a transaction. -/
def commit (txn : X) : Program S X O E O := .commit txn fun outcome => .done (.ok outcome)

/-- Stops with an error. -/
def fail (error : E) : Program S X O E A := .done (.error error)

/-- Runs a program for its effect. -/
def forget (program : Program S X O E A) : Program S X O E Unit := do
  let _ ← program
  return ()

/-! ## What a program may return and offer -/

section Offers

variable (Seen : S → Prop) (Read : ℕ → Prop)

/-- The program may return this value, given the states and times it may have
read; it may have received any outcome. -/
def Program.Returns : Program S X O E A → A → Prop
  | .done result, value => result = .ok value
  | .look next, value => ∃ state, Seen state ∧ (next state).Returns value
  | .now next, value => ∃ time, Read time ∧ (next time).Returns value
  | .commit _ next, value => ∃ outcome, (next outcome).Returns value

/-- The program may offer this transaction. -/
def Program.Offers : Program S X O E A → X → Prop
  | .done _, _ => False
  | .look next, txn => ∃ state, Seen state ∧ (next state).Offers txn
  | .now next, txn => ∃ time, Read time ∧ (next time).Offers txn
  | .commit offered next, txn => txn = offered ∨ ∃ outcome, (next outcome).Offers txn

variable {Seen Read}

lemma Program.returns_bind {rest : A → Program S X O E B} :
    (program >>= rest).Returns Seen Read value ↔
      ∃ middle, program.Returns Seen Read middle ∧ (rest middle).Returns Seen Read value := by
  show (program.bind rest).Returns Seen Read value ↔ _
  induction program with
  | done result =>
    cases result with
    | error error | ok middle => simp [Program.bind, Program.Returns]
  | look next ih | now next ih | commit txn next ih =>
    simp only [Program.bind, Program.Returns, ih]; grind

lemma Program.offers_bind {rest : A → Program S X O E B} :
    (program >>= rest).Offers Seen Read txn ↔ program.Offers Seen Read txn ∨
        ∃ middle, program.Returns Seen Read middle ∧ (rest middle).Offers Seen Read txn := by
  show (program.bind rest).Offers Seen Read txn ↔ _
  induction program with
  | done result =>
    cases result with
    | error error | ok middle => simp [Program.bind, Program.Returns, Program.Offers]
  | look next ih | now next ih | commit txn next ih =>
    simp only [Program.bind, Program.Returns, Program.Offers, ih]; grind

variable {value : A} {txn : X}

@[simp]
lemma returns_pure :
    (pure result : Program S X O E A).Returns Seen Read value ↔ result = value := by
  show (Except.ok result : Except E A) = .ok value ↔ _
  simp

@[simp]
lemma offers_pure : ¬ (pure result : Program S X O E A).Offers Seen Read txn := id

@[simp]
lemma returns_lift {result : Except E A} :
    (liftM result : Program S X O E A).Returns Seen Read value ↔ result = .ok value := Iff.rfl

@[simp]
lemma offers_lift {result : Except E A} :
    ¬ (liftM result : Program S X O E A).Offers Seen Read txn := id

@[simp]
lemma returns_look : (look : Program S X O E S).Returns Seen Read state ↔ Seen state := by
  refine ⟨?_, fun h => ⟨_, h, rfl⟩⟩
  rintro ⟨_, h, ⟨⟩⟩
  exact h

@[simp]
lemma offers_look : ¬ (look : Program S X O E S).Offers Seen Read txn := by
  rintro ⟨_, _, ⟨⟩⟩

@[simp]
lemma returns_now : (now : Program S X O E ℕ).Returns Seen Read time ↔ Read time := by
  refine ⟨?_, fun h => ⟨_, h, rfl⟩⟩
  rintro ⟨_, h, ⟨⟩⟩
  exact h

@[simp]
lemma offers_now : ¬ (now : Program S X O E ℕ).Offers Seen Read txn := by
  rintro ⟨_, _, ⟨⟩⟩

@[simp]
lemma returns_commit : (commit offered : Program S X O E O).Returns Seen Read outcome :=
  ⟨outcome, rfl⟩

@[simp]
lemma offers_commit :
    (commit offered : Program S X O E O).Offers Seen Read txn ↔ txn = offered :=
  or_iff_left (by rintro ⟨_, ⟨⟩⟩)

@[simp]
lemma returns_fail : ¬ (fail error : Program S X O E A).Returns Seen Read value := by
  rintro ⟨⟩

@[simp]
lemma offers_fail : ¬ (fail error : Program S X O E A).Offers Seen Read txn := id

lemma offers_forget {program : Program S X O E A} :
    (forget program).Offers Seen Read txn ↔ program.Offers Seen Read txn := by
  simp [forget, Program.offers_bind]

end Offers

/-! ## Interleavings -/

/-- A store with its clock and the programs running on it.  `seen` lists the
states published so far, latest first. -/
structure World (S X O E : Type) where
  clock : ℕ
  state : S
  seen : List S
  tasks : List (Program S X O E Unit)

section Interleaving

variable (Starts : Program S X O E Unit → Prop)
variable (Applies : ℕ → S → X → S → O → Prop) (Env : S → S → Prop)

/-- One step: the clock moves on, a program starts or performs its next action,
or the environment changes the state.  The label is the transaction the store
decided, with its outcome. -/
inductive Step : World S X O E → Option (X × O) → World S X O E → Prop where
  | tick {world : World S X O E} {time} (hlater : world.clock ≤ time) :
      Step world none { world with clock := time }
  | start {world program} (hstarts : Starts program) :
      Step world none { world with tasks := program :: world.tasks }
  | look {world : World S X O E} {before after next}
      (htasks : world.tasks = before ++ .look next :: after) : Step world none
        { world with tasks := before ++ next world.state :: after }
  | now {world : World S X O E} {before after next}
      (htasks : world.tasks = before ++ .now next :: after) : Step world none
        { world with tasks := before ++ next world.clock :: after }
  | commit {world : World S X O E} {before after txn next state outcome}
      (htasks : world.tasks = before ++ .commit txn next :: after)
      (happlies : Applies world.clock world.state txn state outcome) :
      Step world (some (txn, outcome)) { world with
        state := state
        seen := state :: world.seen
        tasks := before ++ next outcome :: after }
  | env {world : World S X O E} {state} (henv : Env world.state state) : Step world none
        { world with state := state, seen := state :: world.seen }

/-- The task is what is left of a started program: whatever it may still offer,
now or after further reads, that program may offer. -/
def Traces (clock : ℕ) (seen : List S) (task : Program S X O E Unit) : Prop :=
  ∃ program, Starts program ∧ ∀ (More : S → Prop) (Later : ℕ → Prop),
      (∀ state ∈ seen, More state) → (∀ time ≤ clock, Later time) →
      ∀ txn, task.Offers More Later txn → program.Offers More Later txn

structure Traced (world : World S X O E) : Prop where
  published : world.state ∈ world.seen
  tasks : ∀ task ∈ world.tasks, Traces Starts world.clock world.seen task

variable {Starts Applies Env}

lemma Traces.grow (htask : Traces Starts clock seen task) (hclock : clock ≤ later)
    (hseen : seen ⊆ more) : Traces Starts later more task := by
  obtain ⟨program, hst, hof⟩ := htask
  refine ⟨program, hst, fun More Later hmr hrd => ?_⟩
  apply hof More Later
  · exact fun state hsa => hmr state (hseen hsa)
  · exact fun time htm => hrd time (htm.trans hclock)

lemma Traces.advance (htask : Traces Starts clock seen task)
    (hadvance : ∀ (More : S → Prop) (Later : ℕ → Prop),
      (∀ state ∈ seen, More state) → (∀ time ≤ clock, Later time) →
      ∀ txn, rest.Offers More Later txn → task.Offers More Later txn) :
    Traces Starts clock seen rest := by
  obtain ⟨program, hst, hof⟩ := htask
  exact ⟨program, hst, fun More Later hmr hrd txn hr =>
    hof More Later hmr hrd txn (hadvance More Later hmr hrd txn hr)⟩

private lemma mem_replace {Good : Program S X O E Unit → Prop}
    (hall : ∀ task ∈ before ++ old :: after, Good task)
    (hnew : Good old → Good new) : ∀ task ∈ before ++ new :: after, Good task := by
  intro task ht
  simp only [mem_append, mem_cons] at ht hall
  rcases ht with hb | rfl | ha
  · exact hall task (.inl hb)
  · exact hnew (hall old (.inr (.inl rfl)))
  · exact hall task (.inr (.inr ha))

lemma Step.traced (htraced : Traced Starts world)
    (hstep : Step Starts Applies Env world label next) : Traced Starts next := by
  obtain ⟨hpb, htr⟩ := htraced
  cases hstep with
  | tick hlt =>
    exact ⟨hpb, fun task ht => (htr task ht).grow hlt (List.Subset.refl _)⟩
  | start hss =>
    refine ⟨hpb, forall_mem_cons.mpr ⟨?_, htr⟩⟩
    exact ⟨_, hss, fun _ _ _ _ _ hof => hof⟩
  | look hts =>
    rw [hts] at htr
    refine ⟨hpb, mem_replace htr fun ht => ht.advance ?_⟩
    intro More Later hmr _ txn hof
    exact ⟨world.state, hmr _ hpb, hof⟩
  | now hts =>
    rw [hts] at htr
    refine ⟨hpb, mem_replace htr fun ht => ht.advance ?_⟩
    intro More Later _ hrd txn hof
    exact ⟨world.clock, hrd _ le_rfl, hof⟩
  | commit hts _ =>
    rw [hts] at htr
    refine ⟨mem_cons_self, mem_replace
      (fun task ht => (htr task ht).grow le_rfl (subset_cons_self _ _)) fun ht => ht.advance ?_⟩
    intro More Later _ _ txn hof
    exact .inr ⟨_, hof⟩
  | env _ =>
    exact ⟨mem_cons_self, fun task ht => (htr task ht).grow le_rfl (subset_cons_self _ _)⟩

lemma Run.traced (hrun : Run (Step Starts Applies Env) first labels last)
    (htraced : Traced Starts first) : Traced Starts last := by
  induction hrun with
  | refl => exact htraced
  | snoc _ h ih => exact h.traced ih

/-- A decided transaction was offered by a started program, from states
published and times read before. -/
lemma Step.offered (htraced : Traced Starts world)
    (hstep : Step Starts Applies Env world (some (txn, outcome)) next) :
    ∃ program, Starts program ∧ program.Offers (· ∈ world.seen) (· ≤ world.clock) txn ∧
      Applies world.clock world.state txn next.state outcome ∧
      next.clock = world.clock ∧ next.seen = next.state :: world.seen := by
  cases hstep with
  | commit hts hap =>
    obtain ⟨program, hss, hof⟩ := htraced.tasks _ (hts ▸ mem_append_right _ mem_cons_self)
    refine ⟨program, hss, ?_, hap, rfl, rfl⟩
    exact hof _ _ (fun _ hsn => hsn) (fun _ htm => htm) _ (.inl rfl)

/-- The invariant rule for interleavings: what the passing of time, the
environment and every single commit keep, all runs keep.  A commit may be
assumed to be offered by some program from states published and times read
before. -/
lemma run_safe {Inv : ℕ → S → List S → List (X × O) → Prop}
    (htick : ∀ {clock later state seen log}, clock ≤ later →
      Inv clock state seen log → Inv later state seen log)
    (henv : ∀ {clock state next seen log}, state ∈ seen → Env state next →
      Inv clock state seen log → Inv clock next (next :: seen) log)
    (hdone : ∀ {clock state next seen log program txn outcome}, state ∈ seen → Starts program →
      program.Offers (· ∈ seen) (· ≤ clock) txn → Applies clock state txn next outcome →
      Inv clock state seen log →
      Inv clock next (next :: seen) (log ++ [(txn, outcome)])) {first last labels}
    (hrun : Run (Step Starts Applies Env) first labels last) (htraced : Traced Starts first)
    (hone : Inv first.clock first.state first.seen []) :
    Inv last.clock last.state last.seen labels.reduceOption := by
  induction hrun with
  | refl => exact hone
  | @snoc world next _ label hb hst ih =>
    have hmd := Run.traced hb htraced
    rw [reduceOption_append]
    cases label with
    | some decided =>
      obtain ⟨program, hss, hof, hap, hcl, hsn⟩ := hst.offered hmd
      rw [hcl, hsn]
      exact hdone hmd.published hss hof hap ih
    | none =>
      cases hst with
      | tick hlt => simpa using htick hlt ih
      | start _ | look _ | now _ => simpa using ih
      | env hes => simpa using henv hmd.published hes ih

/-! ## Undisturbed executions -/

/-- Executes a program while nothing else happens and the clock stands still:
its result, the state it leaves and the transactions it had decided. -/
def Program.exec (decide : S → X → S × O) (clock : ℕ) :
    Program S X O E A → S → Except E A × S × List (X × O)
  | .done result, state => (result, state, [])
  | .look next, state => (next state).exec decide clock state
  | .now next, state => (next clock).exec decide clock state
  | .commit txn next, state =>
    let rest := (next (decide state txn).2).exec decide clock (decide state txn).1
    (rest.1, rest.2.1, (txn, (decide state txn).2) :: rest.2.2)

/-- Every transaction of the execution is decided in a good state. -/
def Program.meets (good : S → X → Bool) (decide : S → X → S × O) (clock : ℕ) :
    Program S X O E A → S → Bool
  | .done _, _ => true
  | .look next, state => (next state).meets good decide clock state
  | .now next, state => (next clock).meets good decide clock state
  | .commit txn next, state => good state txn &&
      (next (decide state txn).2).meets good decide clock (decide state txn).1

/-- The program after its reads, if they are all of one state at one time. -/
def Program.settle (clock : ℕ) (state : S) : Program S X O E A → Program S X O E A
  | .done result => .done result
  | .look next => (next state).settle clock state
  | .now next => (next clock).settle clock state
  | .commit txn next => .commit txn next

/-- What a program offers first, if it only reads this state at this time. -/
def Program.firstOffer (clock : ℕ) (state : S) (program : Program S X O E A) : Option X :=
  match program.settle clock state with
  | .commit txn _ => some txn
  | _ => none

lemma Program.offers_of_settle {Read} {program : Program S X O E A} (hclock : Read clock)
    (hoffer : (program.settle clock state).Offers (· = state) Read txn) :
    program.Offers (· = state) Read txn := by
  induction program with
  | done result | commit offered next ih => exact hoffer
  | look next ih => exact ⟨state, rfl, ih state hoffer⟩
  | now next ih => exact ⟨clock, hclock, ih clock hoffer⟩

lemma Program.settle_of_firstOffer {program : Program S X O E A}
    (hone : program.firstOffer clock state = some txn) :
    ∃ next, program.settle clock state = .commit txn next := by
  unfold firstOffer at hone
  split at hone
  next next h =>
    exact ⟨next, by rw [h, Option.some.inj hone]⟩
  · cases hone

lemma Program.offers_of_firstOffer {Read} {program : Program S X O E A} (hclock : Read clock)
    (hone : program.firstOffer clock state = some txn) : program.Offers (· = state) Read txn := by
  obtain ⟨next, h⟩ := Program.settle_of_firstOffer hone
  apply Program.offers_of_settle hclock
  rw [h]
  exact .inl rfl

lemma Program.settle_run (program : Program S X O E Unit)
    (world : World S X O E) (tasks : List (Program S X O E Unit)) :
    ∃ labels, Run (Step Starts Applies Env)
      { world with tasks := program :: tasks } labels
      { world with tasks := program.settle world.clock world.state :: tasks } ∧
      labels.reduceOption = [] := by
  induction program with
  | done result | commit txn next ih => exact ⟨[], .refl _, rfl⟩
  | look next ih =>
    obtain ⟨labels, hrn, hls⟩ := ih world.state
    have hst := @Step.look _ _ _ _ Starts Applies Env
      { world with tasks := .look next :: tasks } [] tasks next rfl
    exact ⟨none :: labels, .cons hst hrn, (reduceOption_cons_of_none labels).trans hls⟩
  | now next ih =>
    obtain ⟨labels, hrn, hls⟩ := ih world.clock
    have hst := @Step.now _ _ _ _ Starts Applies Env
      { world with tasks := .now next :: tasks } [] tasks next rfl
    exact ⟨none :: labels, .cons hst hrn, (reduceOption_cons_of_none labels).trans hls⟩

lemma Program.offer_run {txn} (hstart : Starts program)
    (hone : program.firstOffer world.clock world.state = some txn) :
    ∃ labels next, Run (Step Starts Applies Env) world labels
      { world with tasks := .commit txn next :: world.tasks } ∧ labels.reduceOption = [] := by
  obtain ⟨next, hse⟩ := Program.settle_of_firstOffer hone
  obtain ⟨labels, hrn, hls⟩ := @Program.settle_run _ _ _ _ Starts Applies Env
    program world world.tasks
  rw [hse] at hrn
  exact ⟨none :: labels, next, .cons (.start hstart) hrn,
    (reduceOption_cons_of_none labels).trans hls⟩

lemma Program.exec_run {decide} (happs : ∀ state txn, good state txn = true →
      Applies clock state txn (decide state txn).1 (decide state txn).2)
    (program : Program S X O E Unit) (state seen tasks)
    (hmeets : program.meets good decide clock state = true) :
    ∃ labels more, Run (Step Starts Applies Env)
      ⟨clock, state, seen, program :: tasks⟩ labels
      ⟨clock, (program.exec decide clock state).2.1, more,
        .done (program.exec decide clock state).1 :: tasks⟩ ∧
      labels.reduceOption = (program.exec decide clock state).2.2 := by
  induction program generalizing state seen with
  | done result => exact ⟨[], seen, .refl _, rfl⟩
  | look next ih =>
    obtain ⟨labels, more, hrn, hls⟩ := ih state state seen hmeets
    have hst := @Step.look _ _ _ _ Starts Applies Env
      ⟨clock, state, seen, .look next :: tasks⟩ [] tasks next rfl
    exact ⟨none :: labels, more, .cons hst hrn, (reduceOption_cons_of_none labels).trans hls⟩
  | now next ih =>
    obtain ⟨labels, more, hrn, hls⟩ := ih clock state seen hmeets
    have hst := @Step.now _ _ _ _ Starts Applies Env
      ⟨clock, state, seen, .now next :: tasks⟩ [] tasks next rfl
    exact ⟨none :: labels, more, .cons hst hrn, (reduceOption_cons_of_none labels).trans hls⟩
  | commit txn next ih =>
    obtain ⟨hgd, hr⟩ := Bool.and_eq_true_iff.mp hmeets
    obtain ⟨labels, more, hrn, hls⟩ := ih (decide state txn).2
      (decide state txn).1 ((decide state txn).1 :: seen) hr
    have hst := @Step.commit _ _ _ _ Starts Applies Env
      ⟨clock, state, seen, .commit txn next :: tasks⟩ [] tasks txn next _ _ rfl
      (happs state txn hgd)
    exact ⟨some (txn, (decide state txn).2) :: labels, more, .cons hst hrn,
      (reduceOption_cons_of_some _ labels).trans (congrArg _ hls)⟩

/-- Programs started one after another, each left alone until it is done; every
entry gives the time of its start. -/
def schedule (decide : ℕ → S → X → S × O) : List (ℕ × Program S X O E Unit) → S → S × List (X × O)
  | [], state => (state, [])
  | (clock, program) :: rest, state =>
    let first := program.exec (decide clock) clock state
    let others := schedule decide rest first.2.1
    (others.1, first.2.2 ++ others.2)

def scheduleMeets (good : ℕ → S → X → Bool) (decide : ℕ → S → X → S × O) :
    List (ℕ × Program S X O E Unit) → S → Bool
  | [], _ => true
  | (clock, program) :: rest, state =>
    program.meets (good clock) (decide clock) clock state &&
      scheduleMeets good decide rest (program.exec (decide clock) clock state).2.1

lemma schedule_run {decide} (happs : ∀ clock state txn, good clock state txn = true →
      Applies clock state txn (decide clock state txn).1 (decide clock state txn).2) (items)
    (hstarts : ∀ item ∈ items, Starts item.2) {world : World S X O E}
    (hsort : (items.map Prod.fst).Pairwise (· ≤ ·)) (hnext : ∀ item ∈ items, world.clock ≤ item.1)
    (hmeets : scheduleMeets good decide items world.state = true) :
    ∃ labels last, Run (Step Starts Applies Env) world labels last ∧
      last.state = (schedule decide items world.state).1 ∧
      labels.reduceOption = (schedule decide items world.state).2 ∧
      last.clock = (items.map Prod.fst).getLastD world.clock := by
  induction items generalizing world with
  | nil => exact ⟨[], world, .refl _, rfl, rfl, rfl⟩
  | cons item items ih =>
    obtain ⟨clock, program⟩ := item
    rw [forall_mem_cons] at hstarts hnext
    rw [map_cons, pairwise_cons] at hsort
    obtain ⟨hfs, hr⟩ := Bool.and_eq_true_iff.mp hmeets
    have htc : Step Starts Applies Env world none
        { world with clock := clock } := .tick hnext.1
    have hin : Step Starts Applies Env { world with clock := clock } none
        { world with clock := clock, tasks := program :: world.tasks } :=
      .start hstarts.1
    obtain ⟨labels, more, hrn, hls⟩ := program.exec_run
      (happs clock) world.state world.seen world.tasks hfs
    obtain ⟨others, last, hos, hsa, hlg, hcl⟩ := @ih hstarts.2
      ⟨clock, _, more, _⟩ hsort.2
      (fun item him => hsort.1 _ (mem_map_of_mem him)) hr
    refine ⟨none :: none :: (labels ++ others), last,
      .cons htc (.cons hin (hrn.append hos)), hsa, ?_, ?_⟩
    · rw [reduceOption_cons_of_none, reduceOption_cons_of_none, reduceOption_append, hls, hlg]
      rfl
    · rw [hcl, map_cons, getLastD_cons]

end Interleaving

end AgentDx.Client
