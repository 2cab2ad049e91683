import AgentDx.Vfs.OwnerFiles

/-!
# Remote operations applied at most once

A result is looked up before an operation is applied and recorded after it.  As
long as no second copy of a request looks the operation up in between, a request
that has changed the file goes on to record its reply, and the table has room for
it, every operation is applied by one request at most and answered with one reply.
-/

namespace AgentDx.Vfs

open Std Transition Result List Function

abbrev Trace := List (Option Event)

/-- Between the lookup of an operation and the record of its reply. -/
def Stage.pending : Stage → Bool
  | .entered | .validated _ => false
  | _ => true

def Reply.applied : Reply → Bool
  | .write reply => decide (0 < reply.written)
  | _ => true

/-- The request has changed the file. -/
def Stage.applied : Stage → Bool
  | .writing _ _ _ accepted _ => decide (0 < accepted)
  | .written _ _ total => decide (0 < total)
  | .resized _ _ | .synced _ => true
  | .answering reply => reply.applied
  | _ => false

lemma Stage.pending_of_applied {stage : Stage} (happ : stage.applied = true) :
    stage.pending = true := by
  cases stage <;> first | rfl | cases happ

section Requests

variable {Digest : Type}

/-- The request is between lookup and record of this operation. -/
def Pending (inFlight : ℕ → Option InFlight) (id : ℕ) (key : OperationKey) : Prop :=
  ∃ current, inFlight id = some current ∧ current.key? = some key ∧ current.stage.pending = true

/-- The request has changed the file and is not answered yet. -/
def Applied (inFlight : ℕ → Option InFlight) (id : ℕ) (key : OperationKey) : Prop :=
  ∃ current, inFlight id = some current ∧ current.key? = some key ∧ current.stage.applied = true

lemma Applied.pending {id} (happ : Applied inFlight id key) : Pending inFlight id key := by
  obtain ⟨current, hcr, hky, hst⟩ := happ
  exact ⟨current, hcr, hky, Stage.pending_of_applied hst⟩

/-- What is asked of a step: an operation that is not in the table is looked up
while no other copy of it is in progress, a request that has changed the file does
not fail, and a reply is recorded while the table has room. -/
def Careful (system : System Digest) : Option Event → Prop
  | some (.missed _ key) => system.results[key]? = none ∧ ∀ id, ¬Pending system.inFlight id key
  | some (.failed id _) => ∀ key, ¬Applied system.inFlight id key
  | some (.refused id _) => ∀ current reply,
      system.inFlight id = some current → current.stage = .answering reply →
        system.results.size < maxRemoteOperationResults
  | _ => True

lemma rememberRemoteOperation_eq_ok
    (hrem : rememberRemoteOperation results key result = .ok changed) :
    changed = results.insert key result := by
  unfold rememberRemoteOperation at hrem
  split at hrem
  · cases hrem
  · exact (Except.ok.inj hrem).symm

lemma rememberRemoteOperation_eq_error {error}
    (hrem : rememberRemoteOperation results key result = .error error) :
    maxRemoteOperationResults ≤ results.size := by
  unfold rememberRemoteOperation at hrem
  split at hrem
  next h =>
    exact h.1
  · cases hrem

variable [DecidableEq Digest] {blake3 : List UInt8 → Digest} {owner : Owner}
variable {system next : System Digest} {label : Option Event} {trace : Trace}

def StepCareful (blake3 : List UInt8 → Digest) (owner : Owner)
    (system : System Digest) (label : Option Event) (next : System Digest) : Prop :=
  Step blake3 owner system label next ∧ Careful system label

/-! ## What a step does to the requests and the table -/

/-- What one step does to the requests in progress and the table. -/
inductive Moves (system : System Digest) :
    Option Event → (ℕ → Option InFlight) → OperationTable Digest → Prop where
  | rest : Moves system none system.inFlight system.results
  | arrive (peer request) : Moves system (some (.arrived system.nextRequest peer request))
        (update system.inFlight system.nextRequest (some ⟨peer, request, .entered⟩)) system.results
  | advance {id current} {stage : Stage} (hcurrent : system.inFlight id = some current)
      (hpending : stage.pending = current.stage.pending)
      (happlied : stage.applied = current.stage.applied) : Moves system none
        (update system.inFlight id (some (current.enter stage)))
        system.results
  | miss {id current key file} (hcurrent : system.inFlight id = some current)
      (hkey : current.key? = some key) (hfresh : current.stage.applied = false) :
      Moves system (some (.missed id key))
        (update system.inFlight id (some (current.enter (.missed file))))
        system.results
  | apply {id current key} {stage : Stage} (hcurrent : system.inFlight id = some current)
      (hkey : current.key? = some key) (hpending : current.stage.pending = true)
      (happlied : stage.applied = true) : Moves system (some (.applied id key))
        (update system.inFlight id (some (current.enter stage)))
        system.results
  | hit {id current key result} (hcurrent : system.inFlight id = some current)
      (hfresh : current.stage.applied = false) (hresult : system.results[key]? = some result) :
      Moves system (some (.replied id key result.reply))
        (update system.inFlight id none) system.results
  | record {id current key fingerprint reply} (hcurrent : system.inFlight id = some current)
      (hkey : current.key? = some key) (hpending : current.stage.pending = true) :
      Moves system (some (.replied id key reply))
        (update system.inFlight id none)
        (system.results.insert key ⟨fingerprint, reply⟩)
  | refuse {id current error} (hcurrent : system.inFlight id = some current)
      (hrefused : current.stage.applied = false ∨ ∃ reply,
        current.stage = .answering reply ∧ maxRemoteOperationResults ≤ system.results.size) :
      Moves system (some (.refused id error)) (update system.inFlight id none) system.results
  | fail {id current error} (hcurrent : system.inFlight id = some current) :
      Moves system (some (.failed id error)) (update system.inFlight id none) system.results

lemma remoteOperationCached_eq_ok {result : OperationResult Digest}
    (hcached : remoteOperationCached results key fingerprint =
      .ok (some result)) : results[key]? = some result := by
  unfold remoteOperationCached at hcached
  split at hcached
  · cases hcached
  next found h =>
    split at hcached
    · cases hcached
    · rw [h]
      exact Except.ok.inj hcached

lemma remoteOperationCached_recorded {result : OperationResult Digest}
    (hout : results[key]? = some result) :
    remoteOperationCached results key result.fingerprint = .ok (some result) := by
  simp [remoteOperationCached, hout]

lemma Step.moves (hstep : Step blake3 owner system label next) :
    Moves system label next.inFlight next.results := by
  cases hstep with
  | arrive peer request => exact .arrive peer request
  | validate session hcr hst hv
  | measure hcr hst hrq hsn hof hsz | progress hcr hst hop
  | stop hcr hst | answerWrite hcr hst hsn
  | answerResize hcr hst hop | answerSync hcr hst hsn =>
    exact .advance hcr (by rw [hst]; rfl) (by rw [hst]; rfl)
  | reject session hcr hst hv | fail error hcr hst => exact .fail hcr
  | hit hcr hst hhn hky hcc hex =>
    exact .hit hcr (by rw [hst]; rfl) (remoteOperationCached_eq_ok hcc)
  | refuse hcr hst hhn hky hcc =>
    exact .refuse hcr (.inl (by rw [hst]; rfl))
  | miss hcr hst hhn hky hcc ho =>
    exact .miss hcr hky (by rw [hst]; rfl)
  | accept hcr hst hrq hhn hky hsa hch hsm =>
    refine .apply hcr hky (by rw [hst]; rfl) ?_
    have hln := length_pos_iff.mpr hsm
    exact decide_eq_true (by omega)
  | resize hcr hst hrq hky hsn hsa | sync hcr hst hrq hky =>
    exact .apply hcr hky (by rw [hst]; rfl) rfl
  | record hcr hst hhn hky hrm =>
    rw [rememberRemoteOperation_eq_ok hrm]
    exact .record hcr hky (by rw [hst]; rfl)
  | full hcr hst hhn hky hrm =>
    exact .refuse hcr (.inr ⟨_, hst, rememberRemoteOperation_eq_error hrm⟩)
  | other files handles => exact .rest

section Moves

variable {inFlight : ℕ → Option InFlight} {results : OperationTable Digest}
variable {id : ℕ} {key : OperationKey}

omit [DecidableEq Digest]

lemma pending_update (hpend : Pending (update inFlight id entry) other key) :
    Pending inFlight other key ∨ other = id ∧ ∃ current, entry = some current ∧
      current.key? = some key ∧ current.stage.pending = true := by
  obtain ⟨current, hcr, hky, hst⟩ := hpend
  by_cases ho : other = id
  · subst ho
    rw [update_self] at hcr
    exact .inr ⟨rfl, current, hcr, hky, hst⟩
  · rw [update_of_ne ho] at hcr
    exact .inl ⟨current, hcr, hky, hst⟩

/-- A request between lookup and record was there before or has just missed. -/
lemma Moves.pending (hmoves : Moves system label inFlight results)
    (hpend : Pending inFlight id key) :
    Pending system.inFlight id key ∨ label = some (.missed id key) := by
  cases hmoves with
  | rest => exact .inl hpend
  | arrive peer request =>
    rcases pending_update hpend with hpend | ⟨_, _, he, _, hst⟩
    · exact .inl hpend
    · cases he
      cases hst
  | advance hcr heq hap =>
    rcases pending_update hpend with hpend | ⟨rfl, _, he, hky, hst⟩
    · exact .inl hpend
    · cases he
      exact .inl ⟨_, hcr, hky, heq.symm.trans hst⟩
  | miss hcr hky hf =>
    rcases pending_update hpend with hpend | ⟨rfl, _, he, heq, _⟩
    · exact .inl hpend
    · cases he
      obtain rfl := Option.some.inj (hky.symm.trans heq)
      exact .inr rfl
  | apply hcr hky hb hap =>
    rcases pending_update hpend with hpend | ⟨rfl, _, he, heq, _⟩
    · exact .inl hpend
    · cases he
      exact .inl ⟨_, hcr, heq, hb⟩
  | hit | record | refuse | fail =>
    rcases pending_update hpend with hpend | ⟨_, _, he, _⟩
    · exact .inl hpend
    · cases he

/-- Only the request in progress for an operation changes its result, and it is
answered then. -/
lemma Moves.result (hmoves : Moves system label inFlight results) :
    results[key]? = system.results[key]? ∨
      ∃ id, Pending system.inFlight id key ∧ inFlight id = none := by
  cases hmoves with
  | @record other current found fingerprint reply hcr hky hpn =>
    by_cases heq : found = key
    · subst heq
      exact .inr ⟨other, ⟨current, hcr, hky, hpn⟩, update_self _ _ _⟩
    · refine .inl ?_
      rw [ExtHashMap.getElem?_insert]
      simp [heq]
  | _ => exact .inl rfl

lemma Moves.replied {reply}
    (hmoves : Moves system (some (.replied id key reply)) inFlight results) :
    ∃ fingerprint, results[key]? = some ⟨fingerprint, reply⟩ := by
  cases hmoves with
  | hit hcr hf hrs => exact ⟨_, hrs⟩
  | record hcr hky hpn => exact ⟨_, ExtHashMap.getElem?_insert_self⟩

lemma Moves.apply_pending (hmoves : Moves system (some (.applied id key)) inFlight results) :
    Pending system.inFlight id key ∧ Applied inFlight id key := by
  cases hmoves with
  | apply hcr hky hpn hap =>
    exact ⟨⟨_, hcr, hky, hpn⟩, _, update_self _ _ _, hky, hap⟩

/-- The request has been answered with an error. -/
def Ends (id : ℕ) (label : Option Event) : Prop :=
  ∃ error, label = some (.failed id error) ∨ label = some (.refused id error)

variable (hmoves : Moves system label inFlight results)

include hmoves

lemma Moves.ends (hends : Ends id label) :
    inFlight id = none ∧ ∃ current, system.inFlight id = some current := by
  obtain ⟨error, rfl | rfl⟩ := hends
  · cases hmoves with
    | fail hcr => exact ⟨update_self _ _ _, _, hcr⟩
  · cases hmoves with
    | refuse hcr hrf => exact ⟨update_self _ _ _, _, hcr⟩

lemma Moves.unapplied (hcareful : Careful system label) (hends : Ends id label) :
    ¬Applied system.inFlight id key := by
  obtain ⟨error, rfl | rfl⟩ := hends
  · exact hcareful key
  · cases hmoves with
    | refuse hcu hrf =>
      rintro ⟨held, hh, _, hst⟩
      obtain rfl := Option.some.inj (hh.symm.trans hcu)
      rcases hrf with hf | ⟨reply, han, hfl⟩
      · rw [hf] at hst
        cases hst
      · have hrm := hcareful held reply hh han
        omega

/-- A request that has changed the file is still there, or its reply is in the
table. -/
lemma Moves.applied (hcareful : Careful system label)
    (hnew : system.inFlight system.nextRequest = none)
    (happ : Applied system.inFlight id key) :
    Applied inFlight id key ∨ inFlight id = none ∧ results[key]? ≠ none := by
  have hup : ∀ {other : ℕ} {entry : Option InFlight}, id ≠ other →
      Applied (update system.inFlight other entry) id key := by
    intro other entry ho
    obtain ⟨current, hcr, hr⟩ := happ
    exact ⟨current, by rw [update_of_ne ho, hcr], hr⟩
  have hen : Ends id label → ¬Applied system.inFlight id key := hmoves.unapplied hcareful
  obtain ⟨held, hh, hky, hst⟩ := happ
  -- Only the request that moves can leave the state in which it has changed the file.
  have hmo {other : ℕ} {current : InFlight} {entry : Option InFlight} {Recorded : Prop}
      (hcr : system.inFlight other = some current)
      (heq : id = other → held = current →
        Applied (update system.inFlight other entry) id key ∨ Recorded) :
      Applied (update system.inFlight other entry) id key ∨ Recorded := by
    by_cases ho : id = other
    · subst ho
      exact heq rfl (Option.some.inj (hh.symm.trans hcr))
    · exact .inl (hup ho)
  cases hmoves with
  | rest => exact .inl ⟨held, hh, hky, hst⟩
  | arrive peer request =>
    refine .inl (hup ?_)
    rintro rfl
    rw [hnew] at hh
    cases hh
  | @advance other current stage hcr heq had =>
    refine hmo hcr ?_
    rintro rfl rfl
    refine .inl ⟨_, update_self _ _ _, hky, ?_⟩
    exact had.trans hst
  | @miss other current _ file hcr _ hnew | @hit other current _ result hcr hnew _ =>
    refine hmo hcr ?_
    rintro rfl rfl
    rw [hnew] at hst
    cases hst
  | @apply other current _ stage hcr _ _ had =>
    refine hmo hcr ?_
    rintro rfl rfl
    exact .inl ⟨_, update_self _ _ _, hky, had⟩
  | @record other current _ fingerprint reply hcr heq _ =>
    refine hmo hcr ?_
    rintro rfl rfl
    obtain rfl := Option.some.inj (hky.symm.trans heq)
    exact .inr ⟨update_self _ _ _, by simp⟩
  | @refuse other current error hcr hrf =>
    refine hmo hcr ?_
    rintro rfl rfl
    exact absurd ⟨held, hh, hky, hst⟩ (hen ⟨error, .inr rfl⟩)
  | @fail other current error hcr =>
    refine hmo hcr ?_
    rintro rfl rfl
    exact absurd ⟨held, hh, hky, hst⟩ (hen ⟨error, .inl rfl⟩)

lemma Moves.started (hcur : inFlight id = some current) :
    (∃ former, system.inFlight id = some former) ∨
      ∃ peer request, label = some (.arrived id peer request) := by
  have hup : ∀ {other : ℕ} {former : InFlight} {entry : Option InFlight},
      system.inFlight other = some former → update system.inFlight other entry id = some current →
      ∃ former, system.inFlight id = some former := by
    intro other former entry hfm he
    by_cases ho : id = other
    · subst ho
      exact ⟨former, hfm⟩
    · rw [update_of_ne ho] at he
      exact ⟨current, he⟩
  cases hmoves with
  | rest => exact .inl ⟨current, hcur⟩
  | arrive peer request =>
    by_cases ho : id = system.nextRequest
    · subst ho
      exact .inr ⟨peer, request, rfl⟩
    · rw [update_of_ne ho] at hcur
      exact .inl ⟨current, hcur⟩
  | advance hfm | miss hfm | apply hfm | hit hfm | record hfm
  | refuse hfm | fail hfm => exact .inl (hup hfm hcur)

end Moves

lemma Step.nextRequest (hstep : Step blake3 owner system label next) :
    (∃ peer request, label = some (.arrived system.nextRequest peer request)) ∧
        next.nextRequest = system.nextRequest + 1 ∨
      (∀ id peer request, label ≠ some (.arrived id peer request)) ∧
        next.nextRequest = system.nextRequest := by
  cases hstep with
  | arrive peer request => exact .inl ⟨⟨peer, request, rfl⟩, rfl⟩
  | _ => exact .inr ⟨by simp, rfl⟩

/-! ## Every operation is applied by one request -/

/-- The account of the requests, their changes and their replies. -/
structure Exclusive (trace : Trace) (system : System Digest) : Prop where
  below : ∀ id current, system.inFlight id = some current → id < system.nextRequest
  unique : ∀ first second key, Pending system.inFlight first key →
    Pending system.inFlight second key → first = second
  settled : ∀ id key, system.results[key]? ≠ none → ¬Pending system.inFlight id key
  applies : ∀ id key, some (.applied id key) ∈ trace →
    id < system.nextRequest ∧ (Applied system.inFlight id key ∨
      system.inFlight id = none ∧ system.results[key]? ≠ none)
  once : ∀ first second key, some (.applied first key) ∈ trace →
    some (.applied second key) ∈ trace → first = second
  replies : ∀ id key reply, some (.replied id key reply) ∈ trace →
    ∃ fingerprint, system.results[key]? = some ⟨fingerprint, reply⟩
  ends : ∀ id label, label ∈ trace → Ends id label →
    id < system.nextRequest ∧ system.inFlight id = none ∧ ∀ key, some (.applied id key) ∉ trace

section Steps

variable {id : ℕ} {key : OperationKey}

omit [DecidableEq Digest] in
lemma Exclusive.fresh (hexcl : Exclusive trace system) :
    system.inFlight system.nextRequest = none := by
  by_contra hsm
  obtain ⟨current, hcr⟩ := Option.ne_none_iff_exists'.mp hsm
  exact (hexcl.below _ current hcr).false

section Step

variable (hexcl : Exclusive trace system)
variable (hstep : StepCareful blake3 owner system label next)

include hstep

lemma StepCareful.grows : system.nextRequest ≤ next.nextRequest := by
  rcases hstep.1.nextRequest with ⟨_, h⟩ | ⟨_, h⟩ <;> omega

lemma StepCareful.idle (hlt : id < system.nextRequest)
    (hnil : system.inFlight id = none) : next.inFlight id = none := by
  by_contra hsm
  obtain ⟨current, hcr⟩ := Option.ne_none_iff_exists'.mp hsm
  rcases hstep.1.moves.started hcr with ⟨former, hfm⟩ | ⟨peer, request, rfl⟩
  · rw [hnil] at hfm
    cases hfm
  · rcases hstep.1.nextRequest with ⟨⟨_, _, hl⟩, _⟩ | ⟨hnt, _⟩
    · cases hl
      exact hlt.false
    · exact hnt id peer request rfl

include hexcl

lemma Exclusive.result (hsome : system.results[key]? ≠ none) :
    next.results[key]? = system.results[key]? := by
  rcases hstep.1.moves.result with heq | ⟨id, h, _⟩
  · exact heq
  · exact absurd h (hexcl.settled id key hsome)

lemma Exclusive.below_step (hcur : next.inFlight id = some current) : id < next.nextRequest := by
  rcases hstep.1.moves.started hcur with ⟨former, hfm⟩ | ⟨peer, request, rfl⟩
  · exact (hexcl.below id former hfm).trans_le hstep.grows
  · rcases hstep.1.nextRequest with ⟨⟨_, _, hl⟩, hnx⟩ | ⟨hnt, _⟩
    · cases hl
      rw [hnx]
      exact Nat.lt_succ_self _
    · exact absurd rfl (hnt id peer request)

lemma Exclusive.unique_step (hone : Pending next.inFlight first key)
    (htwo : Pending next.inFlight second key) : first = second := by
  have hcr := hstep.2
  rcases hstep.1.moves.pending hone with hol | rfl
  · rcases hstep.1.moves.pending htwo with htwo | rfl
    · exact hexcl.unique first second key hol htwo
    · exact absurd hol (hcr.2 first)
  · rcases hstep.1.moves.pending htwo with htwo | hl
    · exact absurd htwo (hcr.2 second)
    · cases hl
      rfl

lemma Exclusive.settled_step (hsome : next.results[key]? ≠ none) :
    ¬Pending next.inFlight id key := by
  intro hpn
  have hcr := hstep.2
  rcases hstep.1.moves.result with heq | ⟨other, ho, hnn⟩
  · rw [heq] at hsome
    rcases hstep.1.moves.pending hpn with hol | rfl
    · exact hexcl.settled id key hsome hol
    · exact hsome hcr.1
  · obtain rfl : id = other := by
      rcases hstep.1.moves.pending hpn with hol | rfl
      · exact hexcl.unique id other key hol ho
      · exact absurd ho (hcr.2 other)
    obtain ⟨current, hcu, _⟩ := hpn
    rw [hnn] at hcu
    cases hcu

lemma Exclusive.applies_step (happ : some (.applied id key) ∈ trace ++ [label]) :
    id < next.nextRequest ∧ (Applied next.inFlight id key ∨
      next.inFlight id = none ∧ next.results[key]? ≠ none) := by
  rcases mem_append.mp happ with happ | hl
  · obtain ⟨hlt, happ⟩ := hexcl.applies id key happ
    refine ⟨hlt.trans_le hstep.grows, ?_⟩
    rcases happ with happ | ⟨hnn, hsm⟩
    · exact hstep.1.moves.applied hstep.2 hexcl.fresh happ
    · exact .inr ⟨hstep.idle hlt hnn, by rwa [hexcl.result hstep hsm]⟩
  · obtain rfl := mem_singleton.mp hl
    obtain ⟨_, current, hcr, happ⟩ := hstep.1.moves.apply_pending
    exact ⟨hexcl.below_step hstep hcr, .inl ⟨current, hcr, happ⟩⟩

/-- An operation is applied again only by the request that applied it before. -/
lemma Exclusive.once_step {first second} (hone : some (.applied first key) ∈ trace)
    (htwo : label = some (.applied second key)) : first = second := by
  subst htwo
  obtain ⟨hpn, _⟩ := hstep.1.moves.apply_pending
  rcases (hexcl.applies first key hone).2 with hap | ⟨_, hsm⟩
  · exact hexcl.unique first second key hap.pending hpn
  · exact absurd hpn (hexcl.settled second key hsm)

lemma Exclusive.unapplied_step (hends : Ends id label) :
    some (.applied id key) ∉ trace ++ [label] := by
  obtain ⟨_, current, hcr⟩ := hstep.1.moves.ends hends
  intro hap
  rcases mem_append.mp hap with hap | hl
  · rcases (hexcl.applies id key hap).2 with hap | ⟨hid, _⟩
    · exact hstep.1.moves.unapplied hstep.2 hends hap
    · rw [hid] at hcr
      cases hcr
  · obtain ⟨error, hed | hed⟩ := hends
    · exact absurd (mem_singleton.mp hl) (by simp [hed])
    · exact absurd (mem_singleton.mp hl) (by simp [hed])

lemma Exclusive.step : Exclusive (trace ++ [label]) next := by
  refine ⟨fun _ _ => hexcl.below_step hstep, fun _ _ _ => hexcl.unique_step hstep,
    fun _ _ => hexcl.settled_step hstep, fun _ _ => hexcl.applies_step hstep, ?_, ?_, ?_⟩
  · intro first second key hfs hsn
    rw [mem_append, mem_singleton] at hfs hsn
    rcases hfs with hfs | hfs
    · rcases hsn with hsn | hsn
      · exact hexcl.once first second key hfs hsn
      · exact hexcl.once_step hstep hfs hsn.symm
    · rcases hsn with hsn | hsn
      · exact (hexcl.once_step hstep hsn hfs.symm).symm
      · cases hfs.trans hsn.symm
        rfl
  · intro id key reply hrp
    rcases mem_append.mp hrp with hrp | hl
    · obtain ⟨fingerprint, hrs⟩ := hexcl.replies id key reply hrp
      refine ⟨fingerprint, ?_⟩
      rw [hexcl.result hstep (by simp [hrs]), hrs]
    · obtain rfl := mem_singleton.mp hl
      exact hstep.1.moves.replied
  · intro id ended hm hen
    rw [mem_append, mem_singleton] at hm
    rcases hm with hm | rfl
    · obtain ⟨hlt, hnn, hun⟩ := hexcl.ends id ended hm hen
      refine ⟨hlt.trans_le hstep.grows, hstep.idle hlt hnn, ?_⟩
      intro key hap
      rcases mem_append.mp hap with hap | hl
      · exact hun key hap
      · obtain rfl := mem_singleton.mp hl
        obtain ⟨⟨current, hcr, _⟩, _⟩ := hstep.1.moves.apply_pending
        rw [hnn] at hcr
        cases hcr
    · obtain ⟨hnn, current, hcr⟩ := hstep.1.moves.ends hen
      exact ⟨(hexcl.below id current hcr).trans_le hstep.grows, hnn,
        fun key => hexcl.unapplied_step hstep hen⟩

end Step

end Steps

omit [DecidableEq Digest] in
lemma exclusive_start (files handles) : Exclusive [] (System.start Digest files handles) := by
  have hid : ∀ id key, ¬Pending (System.start Digest files handles).inFlight id
      key := by
    rintro id key ⟨current, hcr, _⟩
    cases hcr
  refine ⟨?_, ?_, ?_, ?_, ?_, ?_, ?_⟩
  · intro id current hcr
    cases hcr
  · intro first second key hfs
    exact absurd hfs (hid first key)
  · intro id key _
    exact hid id key
  all_goals
    intros
    contradiction

/-- No operation is applied by two requests, all its replies are equal, and a
request that gets an error of the table has not changed the file. -/
structure AppliedOnce (trace : Trace) : Prop where
  once : ∀ first second key, some (.applied first key) ∈ trace →
    some (.applied second key) ∈ trace → first = second
  replies : ∀ first second key reply again, some (.replied first key reply) ∈ trace →
    some (.replied second key again) ∈ trace → reply = again
  refused : ∀ id error, some (.refused id error) ∈ trace → ∀ key, some (.applied id key) ∉ trace

/-- In every run of careful steps every operation is applied at most once. -/
theorem operations_applied_once {files : String → Option FileState}
    {handles : ℕ → Option OpenHandle}
    (hrun : Run (StepCareful blake3 owner) (System.start Digest files handles)
      trace system) : AppliedOnce trace := by
  have hexcl : Exclusive trace system := by
    induction hrun with
    | refl => exact exclusive_start files handles
    | snoc _ hlast ih => exact ih.step hlast
  refine ⟨hexcl.once, ?_, ?_⟩
  · intro first second key reply again hone htwo
    obtain ⟨_, hout⟩ := hexcl.replies first key reply hone
    obtain ⟨_, hagain⟩ := hexcl.replies second key again htwo
    cases hout.symm.trans hagain
    rfl
  · intro id error hdeny
    exact (hexcl.ends id _ hdeny ⟨error, .inr rfl⟩).2.2

end Requests

/-! ## Two copies of an append -/

def nodeA : Owner := ⟨"space", "a", "session-a"⟩

def handleB : OwnerHandle where
  namespaceId := "space"
  inodeId := "file"
  ownerNodeId := "a"
  ownerSessionId := "session-a"
  leaseEpoch := 1
  callerNodeId := "b"
  callerSessionId := "session-b"
  opaqueHandle := [0, 0, 0, 0, 0, 0, 0, 7]
  openSeq := 1

/-- Appends one byte. -/
def appendX : Request := .write ⟨some handleB, "op", 0, [120], true, false⟩

def appendKey : OperationKey := ⟨"b", "session-b", "op"⟩

def emptyFile : FileState := ⟨[], 0, 0, 0o644, none, ⟨1, "a", "session-a"⟩⟩

def openFiles : String → Option FileState := fun inode =>
  if inode = "file" then some emptyFile else none

def openHandles : ℕ → Option OpenHandle := fun file =>
  if file = 7 then
    some ⟨"file", false, some ⟨"b", "session-b", 1, 1⟩, some ⟨0, 0⟩⟩
  else none

def ownerStart : System (List UInt8) := .start _ openFiles openHandles

/-- The request is in progress at this stage. -/
def appending (stage : Stage) : InFlight := ⟨"b", appendX, stage⟩

lemma cached_empty {results : OperationTable (List UInt8)} (hnil : results = ∅) :
    remoteOperationCached results appendKey fingerprint = .ok none := by
  simp [remoteOperationCached, hnil]

lemma remember_append {results : OperationTable (List UInt8)} (hroom : results.size < 2) :
    rememberRemoteOperation results appendKey result = .ok (results.insert appendKey result) := by
  refine if_neg fun h => ?_
  unfold maxRemoteOperationResults at h
  omega

/-- A second copy that arrives after the first was answered gets the same reply
and appends nothing. -/
theorem later_copy_answered :
    ∃ trace system, Run (StepCareful (fun bytes => bytes) nodeA) ownerStart trace system ∧
      some (.applied 0 appendKey) ∈ trace ∧ some (.replied 0 appendKey (.write ⟨1, 1, 0⟩)) ∈ trace ∧
      some (.replied 1 appendKey (.write ⟨1, 1, 0⟩)) ∈ trace ∧ AppliedOnce trace := by
  have hstart : Run (StepCareful (fun bytes => bytes) nodeA) ownerStart [] ownerStart := .refl _
  have hvalidate := (hstart.snoc ⟨.arrive "b" appendX, trivial⟩).snoc
    ⟨@Step.validate _ _ _ _ _ 0 (appending .entered) 7 (.ok (some "session-b")) rfl rfl rfl,
      trivial⟩
  have hmiss := hvalidate.snoc ⟨@Step.miss _ _ _ _ _ 0 (appending (.validated 7)) 7 handleB
    appendKey none rfl rfl rfl rfl (cached_empty rfl) (by simp), ExtHashMap.getElem?_empty, by
      rintro other ⟨held, hheld, _, hpending⟩
      by_cases hother : other = 0
      · subst hother
        cases hheld
        cases hpending
      · simp [System.advance, hother, ownerStart, System.start] at hheld⟩
  have hmeasure := hmiss.snoc ⟨@Step.measure _ _ _ _ _ 0 (appending (.missed 7)) 7 0 _ _
    rfl rfl rfl rfl (fun _ => rfl) (by rintro - _ ⟨⟩; rfl), trivial⟩
  have htake := hmeasure.snoc ⟨@Step.accept _ _ _ _ _ 0 (appending (.writing 7 0 false 0 none))
    7 0 0 0 false none _ handleB appendKey _ [120] [] rfl rfl rfl rfl rfl rfl rfl (by simp) rfl
    (by decide), trivial⟩
  have hprogress := htake.snoc ⟨@Step.progress _ _ _ _ _ 0
    (appending (.writing 7 0 false 1 (some 1))) 7 0 1 1 false _ rfl rfl rfl, trivial⟩
  have hstop := hprogress.snoc ⟨@Step.stop _ _ _ _ _ 0
    (appending (.writing 7 0 false 1 none)) 7 0 1 false rfl rfl, trivial⟩
  have hanswer := hstop.snoc ⟨@Step.answerWrite _ _ _ _ _ 0 (appending (.written 7 0 1)) 7 0 1 _
    rfl rfl rfl, trivial⟩
  have hrec := hanswer.snoc ⟨@Step.record _ _ _ _ _ 0
    (appending (.answering (.write ⟨1, 1, 0⟩))) handleB appendKey _ _ rfl rfl rfl rfl
    (remember_append (by decide)), trivial⟩
  have hagain := (hrec.snoc ⟨.arrive "b" appendX, trivial⟩).snoc
    ⟨@Step.validate _ _ _ _ _ 1 (appending .entered) 7 (.ok (some "session-b")) rfl rfl rfl,
      trivial⟩
  have hhit := hagain.snoc ⟨@Step.hit _ _ _ _ _ 1 (appending (.validated 7)) 7 handleB appendKey
    ⟨appendX.fingerprint handleB, .write ⟨1, 1, 0⟩⟩ rfl rfl rfl rfl
    (remoteOperationCached_recorded ExtHashMap.getElem?_insert_self) rfl, trivial⟩
  exact ⟨_, _, hhit, by simp, by simp, mem_append_right _ mem_cons_self,
    operations_applied_once hhit⟩

/-- Two copies of one append are handled at the same time: both miss the table and
both append. -/
theorem copies_append_twice :
    ∃ trace system, Run (Step (fun bytes => bytes) nodeA) ownerStart trace system ∧
      some (.applied 0 appendKey) ∈ trace ∧ some (.applied 1 appendKey) ∈ trace ∧
      some (.replied 0 appendKey (.write ⟨1, 1, 0⟩)) ∈ trace ∧
      some (.replied 1 appendKey (.write ⟨1, 2, 1⟩)) ∈ trace ∧
      (system.files "file").map (·.content) = some [120, 120] := by
  have hstart : Run (Step (fun bytes => bytes) nodeA) ownerStart [] ownerStart := .refl _
  have harrive := (hstart.snoc (.arrive "b" appendX)).snoc (.arrive "b" appendX)
  have hvalidate := (harrive.snoc (@Step.validate _ _ _ _ _ 0
    (appending .entered) 7 (.ok (some "session-b")) rfl rfl rfl)).snoc
    (@Step.validate _ _ _ _ _ 1 (appending .entered) 7 (.ok (some "session-b")) rfl rfl rfl)
  have hmiss := (hvalidate.snoc (@Step.miss _ _ _ _ _ 0
    (appending (.validated 7)) 7 handleB appendKey none rfl rfl rfl rfl
    (cached_empty rfl) (by simp))).snoc
    (@Step.miss _ _ _ _ _ 1 (appending (.validated 7)) 7 handleB appendKey none
      rfl rfl rfl rfl (cached_empty rfl) (by simp))
  have hmeasure := hmiss.snoc (@Step.measure _ _ _ _ _ 0 (appending (.missed 7)) 7 0 _ _
    rfl rfl rfl rfl (fun _ => rfl) (by rintro - _ ⟨⟩; rfl))
  have htake := hmeasure.snoc (@Step.accept _ _ _ _ _ 0 (appending (.writing 7 0 false 0 none))
    7 0 0 0 false none _ handleB appendKey _ [120] [] rfl rfl rfl rfl rfl rfl rfl (by simp) rfl
    (by decide))
  have hprogress := htake.snoc (@Step.progress _ _ _ _ _ 0
    (appending (.writing 7 0 false 1 (some 1))) 7 0 1 1 false _ rfl rfl rfl)
  have hstop := hprogress.snoc (@Step.stop _ _ _ _ _ 0
    (appending (.writing 7 0 false 1 none)) 7 0 1 false rfl rfl)
  have hanswer := hstop.snoc (@Step.answerWrite _ _ _ _ _ 0 (appending (.written 7 0 1)) 7 0 1 _
    rfl rfl rfl)
  have hrec := hanswer.snoc (@Step.record _ _ _ _ _ 0
    (appending (.answering (.write ⟨1, 1, 0⟩))) handleB appendKey _ _ rfl rfl rfl rfl
    (remember_append (by decide)))
  have hmeasured := hrec.snoc (@Step.measure _ _ _ _ _ 1 (appending (.missed 7)) 7 1 _ _
    rfl rfl rfl rfl nofun (by rintro - _ ⟨⟩; rfl))
  have haccepted := hmeasured.snoc (@Step.accept _ _ _ _ _ 1
    (appending (.writing 7 1 false 0 none)) 7 1 0 1 false none _ handleB appendKey _ [120] []
    rfl rfl rfl rfl rfl rfl rfl (by simp) rfl (by decide))
  have hprogressed := haccepted.snoc (@Step.progress _ _ _ _ _ 1
    (appending (.writing 7 1 false 1 (some 2))) 7 1 1 2 false _ rfl rfl rfl)
  have hstopped := hprogressed.snoc (@Step.stop _ _ _ _ _ 1
    (appending (.writing 7 1 false 1 none)) 7 1 1 false rfl rfl)
  have hanswered := hstopped.snoc (@Step.answerWrite _ _ _ _ _ 1 (appending (.written 7 1 1)) 7 1 1
    _ rfl rfl rfl)
  have hrecorded := hanswered.snoc (@Step.record _ _ _ _ _ 1
    (appending (.answering (.write ⟨1, 2, 1⟩))) handleB appendKey _ _ rfl rfl rfl rfl
    (remember_append (ExtHashMap.size_insert_le.trans_lt (by decide))))
  exact ⟨_, _, hrecorded, by simp, by simp, by simp, by simp, rfl⟩

end AgentDx.Vfs
