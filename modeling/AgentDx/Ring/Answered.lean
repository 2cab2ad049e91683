import AgentDx.Lib.Run
import AgentDx.Ring.Queues

/-!
# Every submission is answered

The completions written so far answer the submissions in order, and the client
takes them in that order; both queues stay within their slots although their
counters wrap.  When the worker ends, it fails what is still queued.  That last
batch is written only if all of it fits into the completion queue, so a client
that leaves completions unread loses the answers to its last submissions.
-/

namespace AgentDx.Ring

open List hiding next count
open Word RingWindow Function Transition

/-! ## The parties -/

/-- The producer has room for its submission, and then holds its slot. -/
def Producing (pushed : List Submission) (released : ℕ) (ring : SharedRing) : Producer → Prop
  | .idle => True
  | .offering _ => pushed.length < released + ring.layout.entries
  | .publishing submission =>
    pushed.length < released + ring.layout.entries ∧
      ring.sq (pushed.length % ring.layout.entries) = submission

/-- The consumer is about to take the next answer. -/
def Consuming (taken : ℕ) (answers : List Completion) : Consumer → Prop
  | .idle => True
  | .reading => taken < answers.length
  | .holding completion => answers[taken]? = some completion

/-- The completions a batch will consist of answer the next submissions. -/
structure Prepared (pushed : List Submission) (released : ℕ)
    (batch : List Completion) : Prop where
  answers : Answers pushed released batch
  within : released + batch.length ≤ pushed.length

/-- What the worker knows in each part of its loop.  A batch other than the last
one fits into the completion queue. -/
def Phase (pushed : List Submission) (taken : ℕ) (answers : List Completion)
    (released : ℕ) (ring : SharedRing) : Worker → Prop
  | .polling | .counting | .draining | .finished => answers.length = released
  | .sized ready => answers.length = released ∧ released + ready ≤ pushed.length
  | .gathering usable answered group => answers.length = released ∧
      released + usable ≤ pushed.length ∧ released + usable ≤ taken + ring.layout.entries ∧
      answered.length + group.length ≤ usable ∧ Answers pushed released answered ∧
      ∀ (offset : ℕ) (submission : Submission), group[offset]? = some submission →
        pushed[released + answered.length + offset]? = some submission
  | .failing pending answered => answers.length = released ∧
      released + pending ≤ pushed.length ∧ answered.length ≤ pending ∧
      Answers pushed released answered
  | .sealing batch last | .spacing batch last => answers.length = released ∧
      Prepared pushed released batch ∧
      (last = false → released + batch.length ≤ taken + ring.layout.entries)
  | .filling written rest _ => answers.length = released ∧
      Prepared pushed released (written ++ rest) ∧
      released + (written ++ rest).length ≤ taken + ring.layout.entries ∧
      ∀ (offset : ℕ) (completion : Completion), written[offset]? = some completion →
        ring.cq ((released + offset) % ring.layout.entries) = completion
  | .releasing count _ => answers.length = released + count ∧ released + count ≤ pushed.length

/-- The worker is on its way out. -/
def Worker.leaves : Worker → Bool
  | .draining | .failing _ _ | .finished => true
  | .sealing _ last | .spacing _ last | .filling _ _ last
  | .releasing _ last => last
  | _ => false

/-- How many submissions the last batch answers at least. -/
def Covers (answers : List Completion) (released called : ℕ) : Worker → Prop
  | .failing pending _ => called ≤ released + pending
  | .sealing batch true | .spacing batch true =>
    called ≤ released + batch.length
  | .filling written rest true => called ≤ released + (written ++ rest).length
  | .releasing _ true | .finished => called ≤ answers.length
  | _ => True

/-- The invariant of a ring. -/
structure Sound (pushed : List Submission) (popped answers : List Completion)
    (released : ℕ) (called : Option ℕ) (system : System) : Prop where
  ring : RingSound pushed popped answers released system.ring
  producing : Producing pushed released system.ring system.producer
  consuming : Consuming popped.length answers system.consumer
  working : Phase pushed popped.length answers released system.ring system.worker
  leaving : system.worker.leaves = true → system.stop = true
  stopped : system.stop = true → called.isSome = true
  uncalled : system.caller = .absent → called = none
  joined : system.caller = .returned → system.worker = .finished
  called_le : ∀ count ∈ called, count ≤ pushed.length

section Parties

variable {pushed : List Submission} {popped answers : List Completion}
variable {released : ℕ} {called : Option ℕ} {system : System}

lemma Sound.initial (layout ioDepth sq cq) :
    Sound [] [] [] 0 none (System.initial layout ioDepth sq cq) where
  ring := ⟨.empty _ _, .empty _ _, rfl, rfl, rfl, rfl, .nil, rfl⟩
  producing := trivial
  consuming := trivial
  working := rfl
  leaving hle := by cases hle
  stopped hst := by cases hst
  uncalled _ := rfl
  joined hrt := by cases hrt
  called_le count hc := by cases hc

lemma Phase.client (hphase : Phase pushed taken answers released ring worker)
    (htaken : taken ≤ later) (hlayout : next.layout = ring.layout) (hkept : next.cq = ring.cq) :
    Phase (pushed ++ more) later answers released next worker := by
  have hpr : ∀ batch, Prepared pushed released batch →
      Prepared (pushed ++ more) released batch := by
    intro batch hbt
    refine ⟨hbt.answers.mono, ?_⟩
    have hwt := hbt.within
    rw [length_append]
    omega
  cases worker with
  | polling | counting | draining | finished => exact hphase
  | sized ready =>
    obtain ⟨hlv, hrd⟩ := hphase
    refine ⟨hlv, ?_⟩
    rw [length_append]
    omega
  | gathering usable answered group =>
    obtain ⟨hlv, hpn, hsp, hln, han, hgr⟩ := hphase
    refine ⟨hlv, ?_, ?_, hln, han.mono, fun offset submission hm =>
      getElem?_append_of_some (hgr offset submission hm)⟩
    · rw [length_append]
      omega
    · rw [hlayout]
      omega
  | failing pending answered =>
    obtain ⟨hlv, hpn, hln, han⟩ := hphase
    refine ⟨hlv, ?_, hln, han.mono⟩
    rw [length_append]
    omega
  | sealing batch last | spacing batch last =>
    obtain ⟨hlv, hbt, hsp⟩ := hphase
    refine ⟨hlv, hpr batch hbt, fun hls => ?_⟩
    have hft := hsp hls
    rw [hlayout]
    omega
  | filling written rest last =>
    obtain ⟨hlv, hbt, hsp, hsl⟩ := hphase
    refine ⟨hlv, hpr _ hbt, ?_, ?_⟩
    · rw [hlayout]
      omega
    · rw [hlayout, hkept]
      exact hsl
  | releasing count last =>
    obtain ⟨hlv, hpn⟩ := hphase
    refine ⟨hlv, ?_⟩
    rw [length_append]
    omega

variable (hinv : Sound pushed popped answers released called system)

include hinv

lemma Sound.phase (hwork : system.worker = worker) :
    Phase pushed popped.length answers released system.ring worker :=
  hwork ▸ hinv.working

lemma Sound.move (hbusy : system.worker ≠ .finished)
    (hphase : Phase pushed popped.length answers released system.ring worker)
    (hexit : worker.leaves = true → system.stop = true) :
    Sound pushed popped answers released called
      { system with worker := worker, deadline := deadline } where
  ring := hinv.ring
  producing := hinv.producing
  consuming := hinv.consuming
  working := hphase
  leaving := hexit
  stopped := hinv.stopped
  uncalled := hinv.uncalled
  joined h := absurd (hinv.joined h) hbusy
  called_le := hinv.called_le

lemma Sound.store (hoffering : system.producer = .offering submission) :
    Sound pushed popped answers released called { system with
      ring.sq := update system.ring.sq (system.ring.slot system.ring.sqHead) submission
      producer := .publishing submission } := by
  have h := hinv.producing
  rw [hoffering] at h
  refine ⟨hinv.ring.store h submission, ⟨h, ?_⟩, hinv.consuming, ?_,
    hinv.leaving, hinv.stopped, hinv.uncalled, hinv.joined, hinv.called_le⟩
  · rw [hinv.ring.sqHead_eq, system.ring.slot_mod]
    exact update_self _ _ _
  · rw [← append_nil pushed]
    exact hinv.working.client le_rfl rfl rfl

lemma Sound.publish (hshow : system.producer = .publishing submission) :
    Sound (pushed ++ [submission]) popped answers released called
      { system with
        ring.sqHead := wrappingAdd system.ring.sqHead 1
        producer := .idle } := by
  have hh := hinv.producing
  rw [hshow] at hh
  refine ⟨hinv.ring.publish hh.1 hh.2, trivial, hinv.consuming,
    hinv.working.client le_rfl rfl rfl, hinv.leaving, hinv.stopped,
    hinv.uncalled, hinv.joined, fun count hc => ?_⟩
  have hle := hinv.called_le count hc
  rw [length_append]
  omega

lemma Sound.take (hholding : system.consumer = .holding completion) :
    Sound pushed (popped ++ [completion]) answers released called
      { system with
        ring.cqHead := wrappingAdd system.ring.cqHead 1
        consumer := .idle } := by
  have h := hinv.consuming
  rw [hholding] at h
  refine ⟨hinv.ring.take h, hinv.producing, trivial, ?_, hinv.leaving,
    hinv.stopped, hinv.uncalled, hinv.joined, hinv.called_le⟩
  rw [← append_nil pushed, length_append]
  exact hinv.working.client (Nat.le_add_right popped.length 1) rfl rfl

lemma Sound.fill (hfill : system.worker = .filling written (completion :: rest) last) :
    Sound pushed popped answers released called { system with
      ring.cq := update system.ring.cq (system.ring.slot
        (wrappingAdd system.ring.cqTail written.length)) completion
      worker := .filling (written ++ [completion]) rest last } := by
  obtain ⟨hlv, hbt, hsp, hsl⟩ := hinv.phase hfill
  have hst : system.ring.slot (wrappingAdd system.ring.cqTail written.length) =
      (released + written.length) % system.ring.layout.entries := by
    rw [hinv.ring.cqTail_eq, wrappingAdd_mod, system.ring.slot_mod, hlv]
  have hrm : released + written.length < popped.length + system.ring.layout.entries := by
    simp only [length_append, length_cons] at hsp
    omega
  have hls : written ++ [completion] ++ rest = written ++ completion :: rest := by
    simp
  rw [hst]
  refine ⟨hinv.ring.fill (by omega) hrm completion, hinv.producing,
    hinv.consuming, ⟨hlv, hls ▸ hbt, hls ▸ hsp, ?_⟩, ?_,
    hinv.stopped, hinv.uncalled, fun hrt => ?_, hinv.called_le⟩
  · intro offset held hh
    rw [getElem?_append] at hh
    split at hh
    next her =>
      have hne : (released + offset) % system.ring.layout.entries ≠
          (released + written.length) % system.ring.layout.entries := by
        apply slot_ne
        · omega
        · have hlw := hinv.ring.completions.low_le
          omega
      rw [← hsl offset held hh]
      exact update_of_ne hne _ _
    next hlt =>
      have hof : offset = written.length ∧ held = completion := by
        cases hr : offset - written.length with
        | zero =>
          rw [hr] at hh
          cases hh
          exact ⟨by omega, rfl⟩
        | succ rest => simp [hr] at hh
      obtain ⟨rfl, rfl⟩ := hof
      exact update_self _ _ _
  · intro hle
    apply hinv.leaving
    rw [hfill]
    exact hle
  · have hfn := hinv.joined hrt
    rw [hfill] at hfn
    cases hfn

lemma Sound.expose (hfill : system.worker = .filling written [] last) :
    Sound pushed popped (answers ++ written) released called { system with
      ring.cqTail := wrappingAdd system.ring.cqTail written.length
      worker := .releasing written.length last } := by
  obtain ⟨hlv, hbt, hsp, hsl⟩ := hinv.phase hfill
  rw [append_nil] at hbt hsp
  refine ⟨hinv.ring.expose (hlv ▸ hsp) (hlv ▸ hsl)
      (hlv ▸ hbt.answers), hinv.producing, ?_, ⟨?_, hbt.within⟩, ?_,
    hinv.stopped, hinv.uncalled, fun hrt => ?_, hinv.called_le⟩
  · have hcn := hinv.consuming
    show Consuming popped.length (answers ++ written) system.consumer
    cases hco : system.consumer with
    | idle => trivial
    | reading =>
      rw [hco] at hcn
      show popped.length < (answers ++ written).length
      rw [length_append]
      exact Nat.lt_add_right _ hcn
    | holding completion =>
      rw [hco] at hcn
      exact getElem?_append_of_some hcn
  · rw [length_append, hlv]
  · intro hle
    apply hinv.leaving
    rw [hfill]
    exact hle
  · have hfn := hinv.joined hrt
    rw [hfill] at hfn
    cases hfn

lemma Sound.release (hreleasing : system.worker = .releasing count last) :
    Sound pushed popped answers (released + count) called { system with
      ring.sqTail := wrappingAdd system.ring.sqTail count
      worker := afterBatch last } := by
  obtain ⟨hlv, hpn⟩ := hinv.phase hreleasing
  refine ⟨hinv.ring.release hpn, ?_, hinv.consuming, ?_, ?_,
    hinv.stopped, hinv.uncalled, fun hrt => ?_, hinv.called_le⟩
  · have hpr := hinv.producing
    show Producing pushed (released + count) _ system.producer
    cases hpd : system.producer with
    | idle => trivial
    | offering submission =>
      rw [hpd] at hpr
      have hrm : pushed.length < released + system.ring.layout.entries := hpr
      show pushed.length < released + count + system.ring.layout.entries
      omega
    | publishing submission =>
      rw [hpd] at hpr
      obtain ⟨hrm, hsl⟩ := hpr
      refine ⟨?_, hsl⟩
      show pushed.length < released + count + system.ring.layout.entries
      omega
  · cases last <;> exact hlv
  · intro hle
    apply hinv.leaving
    rw [hreleasing]
    cases last with
    | true => rfl
    | false => cases hle
  · have hfn := hinv.joined hrt
    rw [hreleasing] at hfn
    cases hfn

end Parties

/-! ## Steps -/

/-- The submissions pushed when `destroy_ring` is called. -/
def calledAfter (pushed : List Submission) (called : Option ℕ) : Option Event → Option ℕ
  | some .destroyCalled => some pushed.length
  | _ => called

/-- The last batch is compared with the completion queue only when it fits. -/
def Roomy (system : System) (label : Option Event) : Prop :=
  label = some .compared → ∀ batch, system.worker = .spacing batch true →
    batch.length ≤ system.ring.completionSpace

lemma Prepared.admitted {popped answers batch} (hpre : Prepared pushed released batch)
    (hring : RingSound pushed popped answers released ring) : batch.length ≤ ring.available := by
  have h := hpre.within
  rw [hring.available_eq]
  omega

lemma covers_of_stays (hstays : worker.leaves = false) : Covers answers released before worker := by
  cases worker with
  | sealing batch last | spacing batch last | filling written rest last | releasing count last =>
    obtain rfl : last = false := hstays
    trivial
  | draining | polling | counting | sized ready | gathering usable answered group => trivial
  | failing pending answered | finished => cases hstays

section Steps

variable {codes : Codes} {system next : System} {label : Option Event}
variable {pushed : List Submission} {popped answers : List Completion}
variable {released : ℕ} {called : Option ℕ}

/-- What a step has to establish: the invariant, and, if the last batch finds
room, the promise to answer what was pushed before the call. -/
def Advances (system : System) (label : Option Event) (next : System)
    (pushed : List Submission) (popped answers : List Completion)
    (released : ℕ) (called : Option ℕ) : Prop :=
  ∃ more count, Sound (pushed ++ pushes [label]) (popped ++ pops [label]) more count
      (calledAfter pushed called label) next ∧
    (Roomy system label → (∀ before ∈ called, Covers answers released before system.worker) →
      ∀ before ∈ calledAfter pushed called label, Covers more count before next.worker)

lemma Sound.quiet (hnext : Sound pushed popped more count called next)
    (hpushes : pushes [label] = []) (hpops : pops [label] = [])
    (hcall : calledAfter pushed called label = called)
    (hspan : Roomy system label → ∀ before ∈ called, Covers answers released before system.worker →
      Covers more count before next.worker) :
    Advances system label next pushed popped answers released called := by
  refine ⟨more, count, ?_, ?_⟩
  · rw [hpushes, hpops, hcall, append_nil, append_nil]
    exact hnext
  · intro hro hb before hm
    rw [hcall] at hm
    exact hspan hro before hm (hb before hm)

lemma Sound.aside (hnext : Sound pushed popped answers released called next)
    (hwork : next.worker = system.worker) :
    Advances system none next pushed popped answers released called := by
  refine hnext.quiet rfl rfl rfl fun _ before _ h => ?_
  rw [hwork]
  exact h

variable (hinv : Sound pushed popped answers released called system)

include hinv

lemma Sound.onward (hbusy : system.worker ≠ .finished) (hstays : worker.leaves = false)
    (hphase : Phase pushed popped.length answers released system.ring worker) :
    Advances system none { system with worker := worker, deadline := deadline }
      pushed popped answers released called := by
  refine (hinv.move hbusy hphase fun h => ?_).quiet rfl rfl rfl
    fun _ before _ _ => covers_of_stays hstays
  rw [hstays] at h
  cases h

lemma Sound.depart (hbusy : system.worker ≠ .finished) (hstop : system.stop = true)
    (hphase : Phase pushed popped.length answers released system.ring worker)
    (hspan : ∀ before ∈ called, Covers answers released before system.worker →
      Covers answers released before worker) :
    Advances system none { system with worker := worker } pushed popped answers
      released called :=
  (hinv.move hbusy hphase fun _ => hstop).quiet rfl rfl rfl fun _ before h => hspan before h

lemma Sound.advances_client : (∀ submission, system.producer = .idle →
      wrappingSub system.ring.sqHead system.ring.sqTail < system.ring.layout.entries →
      Sound pushed popped answers released called
        { system with producer := .offering submission }) ∧
    (system.consumer = .idle → system.ring.cqHead ≠ system.ring.cqTail →
      Sound pushed popped answers released called
        { system with consumer := .reading }) ∧
    (system.consumer = .reading → Sound pushed popped answers released called { system with
        consumer := .holding (system.ring.cq (system.ring.slot system.ring.cqHead)) }) := by
  refine ⟨fun submission _ hrm => ?_, fun _ hsm => ?_, fun hre => ?_⟩
  · refine { hinv with producing := ?_ }
    rw [hinv.ring.pending_eq] at hrm
    show pushed.length < released + system.ring.layout.entries
    omega
  · refine { hinv with consuming := ?_ }
    show popped.length < answers.length
    refine lt_of_le_of_ne hinv.ring.completions.low_le fun heq => hsm ?_
    rw [hinv.ring.cqHead_eq, hinv.ring.cqTail_eq, heq]
  · refine { hinv with consuming := ?_ }
    have hmr : popped.length < answers.length := by
      have hcn := hinv.consuming
      rw [hre] at hcn
      exact hcn
    obtain ⟨completion, hcm⟩ : ∃ completion, answers[popped.length]? = some completion :=
      ⟨_, getElem?_eq_getElem hmr⟩
    have hsl : system.ring.cq (system.ring.slot system.ring.cqHead) = completion := by
      rw [hinv.ring.cqHead_eq, system.ring.slot_mod]
      exact hinv.ring.completions.holds _ _ le_rfl hcm
    show answers[popped.length]? = some _
    rw [hsl]
    exact hcm

lemma Sound.step (hstep : Step codes system label next) :
    Advances system label next pushed popped answers released called := by
  have hrn := hinv.ring
  obtain ⟨hof, hfn, hfe⟩ := hinv.advances_client
  cases hstep with
  | offer submission hid hrm =>
    exact (hof submission hid hrm).aside rfl
  | store hoe => exact (hinv.store hoe).aside rfl
  | publish hpb =>
    refine ⟨answers, released, ?_, fun _ hb => hb⟩
    show Sound _ (popped ++ []) answers released called _
    rw [append_nil]
    exact hinv.publish hpb
  | find hid hsm => exact (hfn hid hsm).aside rfl
  | fetch hre => exact (hfe hre).aside rfl
  | take hhl =>
    refine ⟨answers, released, ?_, fun _ hb => hb⟩
    show Sound (pushed ++ []) _ answers released called _
    rw [append_nil]
    exact hinv.take hhl
  | proceed hpl hst =>
    have hlv := hinv.phase hpl
    exact hinv.onward (by simp [hpl]) rfl hlv
  | leave hpl hst =>
    have hlv := hinv.phase hpl
    exact hinv.depart (by simp [hpl]) hst hlv fun _ _ _ => trivial
  | count hco =>
    have hlv := hinv.phase hco
    refine hinv.onward (by simp [hco]) rfl ⟨hlv, ?_⟩
    have hle := hrn.submissions.low_le
    rw [hrn.available_eq]
    omega
  | @gather ready expired hsz hex hss =>
    obtain ⟨hlv, hrd⟩ := hinv.phase hsz
    have hft := hrn.completions.fits
    have hlw := hrn.completions.low_le
    have hre' : usable ready system.ring.completionSpace ≤ ready :=
      (min_le_left _ _).trans (min_le_left _ _)
    have hsp : usable ready system.ring.completionSpace ≤
        system.ring.layout.entries - (answers.length - popped.length) :=
      ((min_le_left _ _).trans (min_le_right _ _)).trans_eq hrn.space_eq
    refine hinv.onward (by simp [hsz]) rfl ⟨hlv, by omega, by omega, Nat.zero_le _, .nil, ?_⟩
    intro offset submission hm
    simp at hm
  | wait hsz hss =>
    have hlv := hinv.phase hsz
    exact hinv.onward (by simp [hsz]) rfl hlv.1
  | @peek count answered submission hgt hmr hpk =>
    obtain ⟨hlv, hpn, hsp, _, han, _⟩ := hinv.phase hgt
    refine hinv.onward (by simp [hgt]) rfl ⟨hlv, hpn, hsp, hmr, han, fun offset held hh => ?_⟩
    rw [hrn.peekAt_eq] at hpk
    cases offset with
    | zero =>
      cases hh
      exact hpk
    | succ offset => simp at hh
  | @join count answered group candidate hgt hgr hmr hpk hrea
      hds =>
      obtain ⟨hlv, hpn, hsp, _, han, hmm⟩ := hinv.phase hgt
      refine hinv.onward (by simp [hgt]) rfl ⟨hlv, hpn, hsp, ?_, han, fun offset held hh => ?_⟩
      · rw [length_append, length_singleton]
        omega
      · rw [hrn.peekAt_eq, ← Nat.add_assoc] at hpk
        rw [getElem?_append] at hh
        split at hh
        · exact hmm offset held hh
        next hby =>
          cases hr : offset - group.length with
          | zero =>
            rw [hr] at hh
            cases hh
            obtain rfl : offset = group.length := by omega
            exact hpk
          | succ rest => simp [hr] at hh
  | @run count answered group outcomes hgt hot =>
    obtain ⟨hlv, hpn, hsp, hln, han, hmm⟩ := hinv.phase hgt
    refine hinv.onward (by simp [hgt]) rfl ⟨hlv, hpn, hsp,
      ?_, han.append (.group hmm), fun offset held hh => ?_⟩
    · rw [length_append, length_zipWith, hot, min_self]
      exact hln
    · simp at hh
  | @close count answered hgt hen =>
    obtain ⟨hlv, hpn, hsp, hln, han, _⟩ := hinv.phase hgt
    rw [length_nil, Nat.add_zero] at hln
    unfold afterGathering
    split
    · exact hinv.onward (by simp [hgt]) rfl hlv
    · exact hinv.onward (by simp [hgt]) rfl ⟨hlv, ⟨han, by omega⟩, fun _ => by omega⟩
  | drain hdr hpn =>
    have hlv := hinv.phase hdr
    have hle := hrn.submissions.low_le
    have hft := hrn.submissions.fits
    have hav : min system.ring.available system.ring.layout.entries = pushed.length - released := by
      rw [hrn.available_eq]
      omega
    rw [hav]
    refine hinv.depart (by simp [hdr])
      (hinv.leaving (by rw [hdr]; rfl))
      ⟨hlv, by omega, Nat.zero_le _, .nil⟩ fun before hb _ => ?_
    have hcl := hinv.called_le before hb
    show before ≤ released + (pushed.length - released)
    omega
  | drained hdr hpn =>
    have hlv : answers.length = released := hinv.phase hdr
    have hle := hrn.submissions.low_le
    have hes : 2 ≤ system.ring.layout.entries := system.ring.layout.atLeast
    rw [hrn.available_eq] at hpn
    refine hinv.depart (by simp [hdr])
      (hinv.leaving (by rw [hdr]; rfl)) hlv
      fun before hb _ => ?_
    have hcl := hinv.called_le before hb
    show before ≤ answers.length
    omega
  | @fail pending answered submission hfa hmr hpk =>
    obtain ⟨hlv, hpn, hln, han⟩ := hinv.phase hfa
    rw [hrn.peekAt_eq] at hpk
    refine hinv.depart (by simp [hfa])
      (hinv.leaving (by rw [hfa]; rfl)) ⟨hlv, hpn, ?_,
      han.append (.singleton hpk (completes_failed codes submission))⟩
      fun before _ hcv => ?_
    · rw [length_append, length_singleton]
      omega
    · rw [hfa] at hcv
      exact hcv
  | @failedAll pending answered hfa hen =>
    obtain ⟨hlv, hpn, hln, han⟩ := hinv.phase hfa
    have hla : system.stop = true := hinv.leaving (by rw [hfa]; rfl)
    have hal : ∀ before ∈ called, Covers answers released before system.worker →
        before ≤ released + answered.length := by
      intro before hb hcv
      rw [hfa] at hcv
      have hpr : before ≤ released + pending := hcv
      have hcl := hinv.called_le before hb
      rcases hen with hal | hnn
      · omega
      · rw [hrn.peekAt_eq, getElem?_eq_none_iff] at hnn
        omega
    unfold afterFailing
    split
    next hem =>
      rw [List.isEmpty_iff] at hem
      refine hinv.depart (by simp [hfa]) hla hlv fun before hb hcv => ?_
      have hle := hal before hb hcv
      rw [hem, length_nil] at hle
      show before ≤ answers.length
      omega
    · exact hinv.depart (by simp [hfa]) hla ⟨hlv, ⟨han, by omega⟩, fun hls => by cases hls⟩ hal
  | @accept batch last hse hpn =>
    have hph := hinv.phase hse
    have hnx : Sound pushed popped answers released called
        { system with worker := .spacing batch last } :=
      hinv.move (by simp [hse]) hph fun hla =>
        hinv.leaving (by rw [hse]; exact hla)
    refine hnx.quiet rfl rfl rfl fun _ before _ hcv => ?_
    rw [hse] at hcv
    cases last <;> exact hcv
  | @excess batch last hse hpn =>
    obtain ⟨_, hbt, _⟩ := hinv.phase hse
    exact absurd hpn (Nat.not_lt.mpr (hbt.admitted hrn))
  | @fits batch last hsc hsp =>
    obtain ⟨hlv, hbt, _⟩ := hinv.phase hsc
    have hlw := hrn.completions.low_le
    have hft := hrn.completions.fits
    rw [hrn.space_eq] at hsp
    have hph : Phase pushed popped.length answers released system.ring
        (.filling [] batch last) := by
      refine ⟨hlv, hbt, ?_, fun offset completion hcm => ?_⟩
      · rw [nil_append]
        omega
      · simp at hcm
    have hnx : Sound pushed popped answers released called
        { system with worker := .filling [] batch last } :=
      hinv.move (by simp [hsc]) hph fun hla =>
        hinv.leaving (by rw [hsc]; exact hla)
    refine hnx.quiet rfl rfl rfl fun _ before _ hcv => ?_
    rw [hsc] at hcv
    cases last <;> exact hcv
  | @full batch last hsc hsp =>
    obtain ⟨hlv, hbt, hrm⟩ := hinv.phase hsc
    have hlw := hrn.completions.low_le
    cases last with
    | false =>
      have hft := hrm rfl
      rw [hrn.space_eq] at hsp
      omega
    | true =>
      have hnx : Sound pushed popped answers released called
          { system with worker := .finished } :=
        hinv.move (by simp [hsc]) hlv fun _ =>
          hinv.leaving (by rw [hsc]; rfl)
      refine hnx.quiet rfl rfl rfl fun hro _ _ _ => ?_
      exact absurd hsp (Nat.not_lt.mpr (hro rfl batch hsc))
  | @fill written rest completion last hfl =>
    refine (hinv.fill hfl).quiet rfl rfl rfl fun _ before _ hcv => ?_
    rw [hfl] at hcv
    cases last with
    | false => trivial
    | true =>
      show before ≤ released + (written ++ [completion] ++ rest).length
      rw [append_assoc]
      exact hcv
  | @expose written last hfl =>
    have hlv : answers.length = released := (hinv.phase hfl).1
    refine (hinv.expose hfl).quiet rfl rfl rfl fun _ before _ hcv => ?_
    rw [hfl] at hcv
    cases last with
    | false => trivial
    | true =>
      show before ≤ (answers ++ written).length
      rw [length_append, hlv]
      simpa [Covers] using hcv
  | @release count last hrl =>
    refine (hinv.release hrl).quiet rfl rfl rfl fun _ before _ hcv => ?_
    rw [hrl] at hcv
    cases last <;> exact hcv
  | call hab =>
    have hnn := hinv.uncalled hab
    have hru : system.stop = false := by
      cases hst : system.stop with
      | false => rfl
      | true =>
        have hcl := hinv.stopped hst
        rw [hnn] at hcl
        cases hcl
    have hsa : system.worker.leaves = false := by
      cases hla : system.worker.leaves with
      | false => rfl
      | true =>
        have hst := hinv.leaving hla
        rw [hru] at hst
        cases hst
    refine ⟨answers, released, ?_, fun _ _ before _ => covers_of_stays hsa⟩
    show Sound (pushed ++ []) (popped ++ []) answers released (some pushed.length) _
    rw [append_nil, append_nil]
    refine ⟨hrn, hinv.producing, hinv.consuming, hinv.working,
      fun _ => rfl, fun _ => rfl, fun hca => (by cases hca),
      fun hca => (by cases hca), fun count hc => ?_⟩
    cases hc
    exact le_rfl
  | finish hwt hfi =>
    have hnx : Sound pushed popped answers released called
        { system with caller := .returned } := { hinv with
      uncalled := fun hca => by cases hca
      joined := fun _ => hfi }
    exact hnx.quiet rfl rfl rfl fun _ before _ hcv => hcv

end Steps

/-! ## Runs -/

section Runs

variable {codes : Codes} {layout : RingLayout} {ioDepth : ℤ}
variable {sq : ℕ → Submission} {cq : ℕ → Completion}
variable {labels : List (Option Event)} {last : System}

lemma pushes_append (labels more) : pushes (labels ++ more) = pushes labels ++ pushes more := by
  simp [pushes, reduceOption_append]

lemma pops_append (labels more) : pops (labels ++ more) = pops labels ++ pops more := by
  simp [pops, reduceOption_append]

/-- Steps under a condition on the state before them. -/
def StepWhen (codes : Codes) (Good : System → Option Event → Prop)
    (system : System) (label : Option Event) (next : System) : Prop :=
  Step codes system label next ∧ Good system label

/-- The invariant holds along every run, and the call is remembered with the
submissions pushed before it. -/
lemma Sound.of_run {Good}
    (hrun : Run (StepWhen codes Good) (System.initial layout ioDepth sq cq) labels last) :
    ∃ answers released called, Sound (pushes labels) (pops labels) answers released called last ∧
      (∀ earlier later, labels = earlier ++ some .destroyCalled :: later →
        called = some (pushes earlier).length) ∧
      ((∀ system label, Good system label → Roomy system label) →
        ∀ before ∈ called, Covers answers released before last.worker) := by
  induction hrun with
  | refl =>
    exact ⟨[], 0, none, .initial layout ioDepth sq cq, by simp, by simp⟩
  | @snoc system next labels label _ hla ih =>
    obtain ⟨hst, hgd⟩ := hla
    obtain ⟨answers, released, called, hinv, hcl, hcv⟩ := ih
    obtain ⟨more, count, hnx, hkp⟩ := hinv.step hst
    refine ⟨more, count, calledAfter (pushes labels) called label, ?_,
      fun earlier later hls => ?_, fun hro =>
        hkp (hro system label hgd) (hcv hro)⟩
    · rw [pushes_append, pops_append]
      exact hnx
    · rcases eq_nil_or_concat later with rfl | ⟨front, final, rfl⟩
      · obtain ⟨rfl, hl⟩ := append_inj' hls rfl
        obtain rfl : label = some .destroyCalled := by simpa using hl
        rfl
      · rw [concat_eq_append, ← cons_append, ← append_assoc] at hls
        obtain ⟨hfr, _⟩ := append_inj' hls rfl
        have hb := hcl earlier front hfr
        rw [← hb]
        cases hst with
        | call hab =>
          have hnn := hinv.uncalled hab
          rw [hnn] at hb
          cases hb
        | _ => rfl

/-- The completions popped and queued answer the submissions one by one and in
order, and a completion is never written over one that is still queued. -/
structure InOrder (codes : Codes) (labels : List (Option Event))
    (last : System) : Prop where
  answers : Answers (pushes labels) 0 (pops labels ++ last.ring.unread)
  at_most_once : (pops labels ++ last.ring.unread).length ≤ (pushes labels).length
  preserved : ∀ slot next, Step codes last (some (.wrote slot)) next →
    ∀ offset < wrappingSub last.ring.cqTail last.ring.cqHead,
      last.ring.slot (last.ring.cqHead + offset) ≠ slot

lemma Answers.length_le (hreply : Answers pushed 0 batch) : batch.length ≤ pushed.length := by
  cases hln : batch.length with
  | zero => exact Nat.zero_le _
  | succ length =>
    obtain ⟨completion, hcm⟩ : ∃ completion, batch[length]? = some completion :=
      ⟨_, getElem?_eq_getElem (by omega)⟩
    obtain ⟨submission, hsb, _⟩ := hreply length completion hcm
    have hps := (List.getElem?_eq_some_iff.mp hsb).1
    omega

lemma Sound.inOrder (hinv : Sound (pushes labels) (pops labels) answers released called last) :
    InOrder codes labels last := by
  have hrn := hinv.ring
  have hal := hrn.popped_append_unread
  refine ⟨hal.symm ▸ hrn.answered, hal.symm ▸ hrn.answered.length_le, ?_⟩
  intro slot next hst offset hof
  cases hst with
  | @fill written rest completion last hfl =>
    obtain ⟨hlv, _, hsp, _⟩ := hinv.phase hfl
    rw [hrn.unread_eq] at hof
    simp only [length_append, length_cons] at hsp
    rw [hrn.cqTail_eq, wrappingAdd_mod, SharedRing.slot_mod, hrn.cqHead_eq,
      SharedRing.slot, ← Nat.mod_add_mod,
      Nat.mod_mod_of_dvd _ (RingLayout.entries_dvd _), Nat.mod_add_mod]
    apply slot_ne
    · omega
    · omega

/-- In every run in which the worker, on its way out, finds room for the answers
to all that is queued: completions are popped in the order of the submissions
with their userdata, each submission gets at most one, none is overwritten
unread, and when `destroy_ring` has returned, every submission pushed before the
call has a completion that was popped or is still queued. -/
theorem submissions_completed
    (hrun : Run (StepWhen codes Roomy) (System.initial layout ioDepth sq cq) labels last) :
    InOrder codes labels last ∧
    ∀ earlier later, labels = earlier ++ some .destroyCalled :: later → last.caller = .returned →
      (pushes earlier).length ≤ (pops labels ++ last.ring.unread).length := by
  obtain ⟨answers, released, called, hinv, hcall, hspan⟩ := Sound.of_run hrun
  refine ⟨hinv.inOrder, fun earlier later htags hback => ?_⟩
  have hpre := hcall earlier later htags
  have hpromise := hspan (fun _ _ hroomy => hroomy) _ hpre
  rw [hinv.joined hback] at hpromise
  rw [hinv.ring.popped_append_unread]
  exact hpromise

end Runs

/-! ## A full completion queue -/

/-- The client pushes a submission without being disturbed. -/
def SharedRing.push (ring : SharedRing) (submission : Submission) : SharedRing :=
  { ring with
    sq := update ring.sq (ring.slot ring.sqHead) submission
    sqHead := wrappingAdd ring.sqHead 1 }

def pairLayout : RingLayout := ⟨2, le_rfl, by decide, 1, rfl⟩

def request (userdata : ℕ) : Submission := ⟨2, 0, 0, 0, 0, 0, userdata⟩

def emptyRing : SharedRing := ⟨pairLayout, 0, 0, 0, 0, fun _ => request 0, fun _ => ⟨0, 0, 0, 0, 0⟩⟩

/-- A ring without batching whose client takes nothing. -/
def stage (ring : SharedRing) (worker : Worker) (stop : Bool) (caller : Caller) : System :=
  ⟨ring, 0, .idle, .idle, worker, false, stop, caller⟩

/-- The answer of an empty write. -/
def reply (userdata : ℕ) : Completion := ⟨userdata, 0, 0, 0, 2⟩

def queuedPair : SharedRing := (emptyRing.push (request 1)).push (request 2)

/-- Both submissions are answered and their slots released. -/
def answeredPair : SharedRing :=
  { queuedPair with
    cq := update (update queuedPair.cq 0 (reply 1)) 1 (reply 2)
    cqTail := 2
    sqTail := 2 }

def queuedAgain : SharedRing := (answeredPair.push (request 3)).push (request 4)

lemma pair_answered : Run (Step ⟨1⟩) (stage queuedPair .polling false .absent)
      (replicate 9 none ++ [some .compared, some (.wrote 0), some (.wrote 1), none, none])
      (stage answeredPair .polling false .absent) := by
  have hpl : Run (Step ⟨1⟩) (stage queuedPair .polling false .absent) [] _ := .refl _
  have hco := hpl.snoc (.proceed rfl rfl)
  have hsz := hco.snoc (.count rfl)
  have hgt := hsz.snoc (@Step.gather ⟨1⟩ _ 2 false rfl (by simp) (by decide))
  have hpe := hgt.snoc (@Step.peek ⟨1⟩ _ 2 [] (request 1) rfl (by decide) (by decide))
  have hfs := hpe.snoc (@Step.run ⟨1⟩ _ 2 [] [request 1] [.ok 0] rfl rfl)
  have hpa := hfs.snoc (@Step.peek ⟨1⟩ _ 2 [reply 1] (request 2) rfl (by decide) (by decide))
  have hsn := hpa.snoc (@Step.run ⟨1⟩ _ 2 [reply 1] [request 2] [.ok 0] rfl rfl)
  have hse := hsn.snoc (@Step.close ⟨1⟩ _ 2 [reply 1, reply 2] rfl (.inl rfl))
  have hsp := hse.snoc (.accept rfl (by decide))
  have hfl := hsp.snoc (.fits rfl (by decide))
  have hwr := hfl.snoc (@Step.fill ⟨1⟩ _ [] [reply 2] (reply 1) false rfl)
  have hfi := hwr.snoc (@Step.fill ⟨1⟩ _ [reply 1] [] (reply 2) false rfl)
  have hex := hfi.snoc (@Step.expose ⟨1⟩ _ [reply 1, reply 2] false rfl)
  exact hex.snoc (@Step.release ⟨1⟩ _ 2 false rfl)

/-- The queue of completions is full, so the last batch is dropped. -/
lemma batch_dropped : Run (Step ⟨1⟩) (stage queuedAgain .polling true .waiting)
      [none, none, none, none, none, none, some .compared, some .destroyReturned]
      (stage queuedAgain .finished true .returned) := by
  let batch := [failed ⟨1⟩ (request 3), failed ⟨1⟩ (request 4)]
  have hpl : Run (Step ⟨1⟩) (stage queuedAgain .polling true .waiting) [] _ := .refl _
  have hdr := hpl.snoc (.leave rfl rfl)
  have hfa := hdr.snoc (.drain rfl (by decide))
  have hfs := hfa.snoc (@Step.fail ⟨1⟩ _ 2 [] (request 3) rfl (by decide) (by decide))
  have hsn := hfs.snoc
    (@Step.fail ⟨1⟩ _ 2 [failed ⟨1⟩ (request 3)] (request 4) rfl (by decide) (by decide))
  have hse := hsn.snoc (@Step.failedAll ⟨1⟩ _ 2 batch rfl (.inl rfl))
  have hsp := hse.snoc (.accept rfl (by decide))
  have hfn := hsp.snoc (@Step.full ⟨1⟩ _ batch true rfl (by decide))
  exact hfn.snoc (.finish rfl rfl)

/-- Two submissions are answered, two more are queued, and no completion is
taken: the worker ends without answering the last two. -/
theorem last_submissions_unanswered : ∃ earlier later last, Run (Step ⟨1⟩)
      (System.initial pairLayout 0 (fun _ => request 0) fun _ => ⟨0, 0, 0, 0, 0⟩)
      (earlier ++ some .destroyCalled :: later) last ∧
      last.caller = .returned ∧ (pushes earlier).length = 4 ∧
      (pops (earlier ++ some .destroyCalled :: later) ++ last.ring.unread).length = 2 := by
  have hstart : Run (Step ⟨1⟩) (stage emptyRing .polling false .absent) [] _ := .refl _
  have hone := ((hstart.snoc (.offer (request 1) rfl (by decide))).snoc (.store rfl)).snoc
    (.publish rfl)
  have htwo := ((hone.snoc (.offer (request 2) rfl (by decide))).snoc (.store rfl)).snoc
    (.publish rfl)
  have hanswered := htwo.append pair_answered
  have hthree := ((hanswered.snoc (.offer (request 3) rfl (by decide))).snoc (.store rfl)).snoc
    (.publish rfl)
  have hfour := ((hthree.snoc (.offer (request 4) rfl (by decide))).snoc (.store rfl)).snoc
    (.publish rfl)
  have hcall : Step ⟨1⟩ (stage queuedAgain .polling false .absent)
      (some .destroyCalled) (stage queuedAgain .polling true .waiting) :=
    .call rfl
  exact ⟨_, _, _, hfour.append (.cons hcall batch_dropped), rfl, by decide, by decide⟩

/-- Alone in the queue, a submission is failed in time. -/
theorem pending_submission_failed : ∃ labels last, Run (StepWhen ⟨1⟩ Roomy)
      (System.initial pairLayout 0 (fun _ => request 0) fun _ => ⟨0, 0, 0, 0, 0⟩) labels last ∧
      last.caller = .returned ∧ (pops labels ++ last.ring.unread).length = 1 ∧
      InOrder ⟨1⟩ labels last := by
  let answer := failed ⟨1⟩ (request 1)
  have silent : ∀ {system label next}, Step ⟨1⟩ system label next →
      label ≠ some .compared → StepWhen ⟨1⟩ Roomy system label next :=
    fun hstep htag => ⟨hstep, fun hcompared => absurd hcompared htag⟩
  have hstart : Run (StepWhen ⟨1⟩ Roomy) (stage emptyRing .polling false .absent) [] _ := .refl _
  have hput := (hstart.snoc (silent (.offer (request 1) rfl (by decide)) (by simp))).snoc
    (silent (.store rfl) (by simp))
  have hpushed := hput.snoc (silent (.publish rfl) (by simp))
  have hcall := hpushed.snoc (silent (.call rfl) (by simp))
  have hdrain := hcall.snoc (silent (.leave rfl rfl) (by simp))
  have hfail := hdrain.snoc (silent (.drain rfl (by decide)) (by simp))
  have hfailed := hfail.snoc
    (silent (@Step.fail ⟨1⟩ _ 1 [] (request 1) rfl (by decide) (by decide)) (by simp))
  have hsealing := hfailed.snoc (silent (@Step.failedAll ⟨1⟩ _ 1 [answer] rfl (.inl rfl)) (by simp))
  have hspace := hsealing.snoc (silent (.accept rfl (by decide)) (by simp))
  have hfill := hspace.snoc ⟨.fits rfl (by decide), fun _ batch hbatch => by
    cases hbatch
    decide⟩
  have hfilled := hfill.snoc (silent (@Step.fill ⟨1⟩ _ [] [] answer true rfl) (by simp))
  have hexposed := hfilled.snoc (silent (@Step.expose ⟨1⟩ _ [answer] true rfl) (by simp))
  have hreleased := hexposed.snoc (silent (@Step.release ⟨1⟩ _ 1 true rfl) (by simp))
  have hrun := hreleased.snoc (silent (.finish rfl rfl) (by simp))
  exact ⟨_, _, hrun, rfl, by decide, (submissions_completed hrun).1⟩

/-! ## What is queued -/

variable {codes : Codes} {Good : System → Option Event → Prop} {layout : RingLayout} {ioDepth : ℤ}
  {sq : ℕ → Submission} {cq : ℕ → Completion} {labels : List (Option Event)} {last : System}

/-- Whatever the parties do, the worker finds in the queue exactly the last submissions
that were pushed, in their order, also when the counters have wrapped. -/
theorem queue_holds_last_pushed
    (hrun : Run (StepWhen codes Good) (System.initial layout ioDepth sq cq) labels last) :
    last.ring.available ≤ min last.ring.layout.entries (pushes labels).length ∧
    ∀ offset, last.ring.peekAt offset =
      ((pushes labels).drop ((pushes labels).length - last.ring.available))[offset]? := by
  obtain ⟨answers, released, called, hs, -⟩ := Sound.of_run hrun
  have hle := hs.ring.submissions.low_le
  have hft := hs.ring.submissions.fits
  rw [hs.ring.available_eq]
  refine ⟨by omega, fun offset => ?_⟩
  rw [hs.ring.peekAt_eq, List.getElem?_drop, Nat.sub_sub_self hle]

/-- A full queue holds both submissions in their order. -/
theorem pushed_submissions_queued : ∃ labels last, Run (StepWhen ⟨1⟩ fun _ _ => True)
      (System.initial pairLayout 0 (fun _ => request 0) fun _ => ⟨0, 0, 0, 0, 0⟩) labels last ∧
      last.ring.available = 2 ∧ ∀ offset, last.ring.peekAt offset =
          [request 1, request 2][offset]? := by
  have hstart : Run (StepWhen ⟨1⟩ fun _ _ => True) (stage emptyRing .polling false .absent) [] _ :=
    .refl _
  have hone := ((hstart.snoc ⟨.offer (request 1) rfl (by decide), trivial⟩).snoc
    ⟨.store rfl, trivial⟩).snoc ⟨.publish rfl, trivial⟩
  have htwo := ((hone.snoc ⟨.offer (request 2) rfl (by decide), trivial⟩).snoc
    ⟨.store rfl, trivial⟩).snoc ⟨.publish rfl, trivial⟩
  exact ⟨_, _, htwo, by decide, (queue_holds_last_pushed htwo).2⟩

end AgentDx.Ring
