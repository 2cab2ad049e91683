import AgentDx.Ring.Shared

/-!
# The two queues of a ring

The submission queue holds what was pushed and not yet released, the completion
queue what was answered and not yet taken.  The histories of both queues are
lists; each access of the ring is one operation on them, although the counters
wrap and the slots are reused.
-/

namespace AgentDx.Ring

open List hiding count
open Word RingWindow Function

/-! ## Answers in order -/

/-- The completion belongs to the submission. -/
def Completes (submission : Submission) (completion : Completion) : Prop :=
  completion.userdata = submission.userdata ∧ completion.op = submission.op

lemma completes_execute (submission outcome) : Completes submission (execute submission outcome) :=
  ⟨rfl, rfl⟩

lemma completes_failed (codes submission) : Completes submission (failed codes submission) :=
  ⟨rfl, rfl⟩

/-- The completions answer the submissions from a position on, in order. -/
def Answers (pushed : List Submission) (start : ℕ) (batch : List Completion) : Prop :=
  ∀ (offset : ℕ) (completion : Completion), batch[offset]? = some completion →
    ∃ submission, pushed[start + offset]? = some submission ∧ Completes submission completion

section Answers

variable {pushed more : List Submission} {start : ℕ}
variable {batch others : List Completion}

lemma Answers.nil : Answers pushed start [] := by
  intro offset completion hcomp
  simp at hcomp

lemma getElem?_append_of_some {A : Type} {list extra : List A} {position : ℕ}
    {value : A} (hval : list[position]? = some value) :
    (list ++ extra)[position]? = some value := by
  have hpos := (List.getElem?_eq_some_iff.mp hval).1
  rw [getElem?_append_left hpos]
  exact hval

lemma Answers.mono (hreply : Answers pushed start batch) :
    Answers (pushed ++ more) start batch := by
  intro offset completion hcomp
  obtain ⟨submission, hsubm, hcompletes⟩ := hreply offset completion hcomp
  exact ⟨submission, getElem?_append_of_some hsubm, hcompletes⟩

lemma Answers.append (hreply : Answers pushed start batch)
    (hothers : Answers pushed (start + batch.length) others) :
    Answers pushed start (batch ++ others) := by
  intro offset completion hcomp
  rw [getElem?_append] at hcomp
  split at hcomp
  · exact hreply offset completion hcomp
  next hbeyond =>
    obtain ⟨submission, hsubm, hcompletes⟩ := hothers _ completion hcomp
    have hpos : start + batch.length + (offset - batch.length) = start + offset := by omega
    exact ⟨submission, hpos ▸ hsubm, hcompletes⟩

lemma Answers.singleton (hsubm : pushed[start]? = some submission)
    (hcompletes : Completes submission completion) : Answers pushed start [completion] := by
  intro offset held hheld
  cases offset with
  | zero =>
    cases hheld
    exact ⟨submission, hsubm, hcompletes⟩
  | succ offset => simp at hheld

lemma Answers.group {group}
    (hgroup : ∀ (offset : ℕ) (submission : Submission), group[offset]? = some submission →
      pushed[start + offset]? = some submission) :
    Answers pushed start (zipWith execute group outcomes) := by
  intro offset completion hcomp
  rw [getElem?_zipWith_eq_some] at hcomp
  obtain ⟨submission, outcome, hsubm, _, rfl⟩ := hcomp
  exact ⟨submission, hgroup offset submission hsubm, completes_execute submission outcome⟩

end Answers

/-! ## The two queues -/

/-- The queues hold what was pushed but not released, and what was answered but
not taken. -/
structure RingSound (pushed : List Submission) (popped answers : List Completion)
    (released : ℕ) (ring : SharedRing) : Prop where
  submissions : Window ring.layout.entries ring.sq released pushed
  completions : Window ring.layout.entries ring.cq popped.length answers
  sqHead_eq : ring.sqHead = pushed.length % size
  sqTail_eq : ring.sqTail = released % size
  cqHead_eq : ring.cqHead = popped.length % size
  cqTail_eq : ring.cqTail = answers.length % size
  answered : Answers pushed 0 answers
  popped_eq : popped = answers.take popped.length

lemma RingLayout.entries_dvd (layout : RingLayout) : layout.entries ∣ size := by
  obtain ⟨exponent, hpower⟩ := layout.powerOfTwo
  have hmost := layout.atMost
  rw [hpower] at hmost ⊢
  have hexponent : exponent ≤ 16 := by
    have hle : 2 ^ exponent ≤ 2 ^ 16 := hmost
    exact (Nat.pow_le_pow_iff_right (by norm_num)).mp hle
  exact pow_dvd_pow 2 (by omega)

lemma RingLayout.entries_le (layout : RingLayout) : layout.entries ≤ 65536 := layout.atMost

lemma SharedRing.slot_mod (ring : SharedRing) (position) :
    ring.slot (position % size) = position % ring.layout.entries :=
  Nat.mod_mod_of_dvd position ring.layout.entries_dvd

lemma distance_eq (hle : low ≤ high) (hfits : high ≤ low + entries) (hents : entries ≤ 65536) :
    wrappingSub (high % size) (low % size) = high - low := by
  apply wrappingSub_mod hle
  have hsize : (65536 : ℕ) < size := by norm_num [size]
  omega

lemma low32_of_le (hval : value ≤ 65536) : low32 value = value := Nat.mod_eq_of_lt (by omega)

section Ring

variable {pushed : List Submission} {popped answers : List Completion}
variable {released : ℕ} {ring : SharedRing}

variable (hring : RingSound pushed popped answers released ring)

include hring

lemma RingSound.pending_eq : wrappingSub ring.sqHead ring.sqTail = pushed.length - released := by
  rw [hring.sqHead_eq, hring.sqTail_eq]
  exact distance_eq hring.submissions.low_le hring.submissions.fits ring.layout.entries_le

lemma RingSound.unread_eq :
    wrappingSub ring.cqTail ring.cqHead = answers.length - popped.length := by
  rw [hring.cqTail_eq, hring.cqHead_eq]
  exact distance_eq hring.completions.low_le hring.completions.fits ring.layout.entries_le

lemma RingSound.available_eq : ring.available = pushed.length - released := by
  have hfits := hring.submissions.fits
  have hents := ring.layout.entries_le
  rw [SharedRing.available, hring.pending_eq]
  exact low32_of_le (by omega)

lemma RingSound.space_eq :
    ring.completionSpace = ring.layout.entries - (answers.length - popped.length) := by
  have hfits := hring.completions.fits
  have hents := ring.layout.entries_le
  rw [SharedRing.completionSpace, hring.unread_eq, low32_of_le (by omega)]

lemma RingSound.peekAt_eq (offset) : ring.peekAt offset = pushed[released + offset]? := by
  have hle := hring.submissions.low_le
  rw [SharedRing.peekAt, hring.pending_eq]
  split
  · rw [getElem?_eq_none (by omega)]
  · obtain ⟨submission, hsubm⟩ : ∃ submission, pushed[released + offset]? = some submission :=
      ⟨_, getElem?_eq_getElem (by omega)⟩
    rw [hring.sqTail_eq, wrappingAdd_mod, ring.slot_mod, hsubm,
      hring.submissions.holds _ _ (by omega) hsubm]

lemma RingSound.store (hroom : pushed.length < released + ring.layout.entries) (submission) :
    RingSound pushed popped answers released { ring with
      sq := update ring.sq (ring.slot ring.sqHead) submission } where
  submissions := by
    rw [hring.sqHead_eq, ring.slot_mod]
    exact hring.submissions.write le_rfl hroom submission
  completions := hring.completions
  sqHead_eq := hring.sqHead_eq
  sqTail_eq := hring.sqTail_eq
  cqHead_eq := hring.cqHead_eq
  cqTail_eq := hring.cqTail_eq
  answered := hring.answered
  popped_eq := hring.popped_eq

lemma RingSound.publish (hroom : pushed.length < released + ring.layout.entries)
    (hslot : ring.sq (pushed.length % ring.layout.entries) = submission) :
    RingSound (pushed ++ [submission]) popped answers released { ring with
      sqHead := wrappingAdd ring.sqHead 1 } where
  submissions := by
    apply hring.submissions.publish
    · exact hroom
    · intro offset value hval
      cases offset with
      | zero =>
        cases hval
        exact hslot
      | succ offset => simp at hval
  completions := hring.completions
  sqHead_eq := by
    rw [hring.sqHead_eq, wrappingAdd_mod, length_append]
    rfl
  sqTail_eq := hring.sqTail_eq
  cqHead_eq := hring.cqHead_eq
  cqTail_eq := hring.cqTail_eq
  answered := hring.answered.mono
  popped_eq := hring.popped_eq

lemma RingSound.fill (hahead : answers.length ≤ position)
    (hroom : position < popped.length + ring.layout.entries) (completion) :
    RingSound pushed popped answers released { ring with
      cq := update ring.cq (position % ring.layout.entries) completion } where
  submissions := hring.submissions
  completions := hring.completions.write hahead hroom completion
  sqHead_eq := hring.sqHead_eq
  sqTail_eq := hring.sqTail_eq
  cqHead_eq := hring.cqHead_eq
  cqTail_eq := hring.cqTail_eq
  answered := hring.answered
  popped_eq := hring.popped_eq

lemma RingSound.expose (hroom : answers.length + batch.length ≤ popped.length + ring.layout.entries)
    (hslots : ∀ (offset : ℕ) (completion : Completion), batch[offset]? = some completion →
      ring.cq ((answers.length + offset) % ring.layout.entries) = completion)
    (hreply : Answers pushed answers.length batch) :
    RingSound pushed popped (answers ++ batch) released { ring with
      cqTail := wrappingAdd ring.cqTail batch.length } where
  submissions := hring.submissions
  completions := hring.completions.publish hroom hslots
  sqHead_eq := hring.sqHead_eq
  sqTail_eq := hring.sqTail_eq
  cqHead_eq := hring.cqHead_eq
  cqTail_eq := by rw [hring.cqTail_eq, wrappingAdd_mod, length_append]
  answered := hring.answered.append (by simpa using hreply)
  popped_eq := by
    rw [take_append_of_le_length hring.completions.low_le]
    exact hring.popped_eq

lemma RingSound.release (hnum : released + count ≤ pushed.length) :
    RingSound pushed popped answers (released + count) { ring with
      sqTail := wrappingAdd ring.sqTail count } where
  submissions := hring.submissions.release hnum
  completions := hring.completions
  sqHead_eq := hring.sqHead_eq
  sqTail_eq := by rw [hring.sqTail_eq, wrappingAdd_mod]
  cqHead_eq := hring.cqHead_eq
  cqTail_eq := hring.cqTail_eq
  answered := hring.answered
  popped_eq := hring.popped_eq

lemma RingSound.take (hnext : answers[popped.length]? = some completion) :
    RingSound pushed (popped ++ [completion]) answers released { ring with
      cqHead := wrappingAdd ring.cqHead 1 } where
  submissions := hring.submissions
  completions := by
    have hlen := (List.getElem?_eq_some_iff.mp hnext).1
    rw [length_append]
    exact hring.completions.release hlen
  sqHead_eq := hring.sqHead_eq
  sqTail_eq := hring.sqTail_eq
  cqHead_eq := by
    rw [hring.cqHead_eq, wrappingAdd_mod, length_append]
    rfl
  cqTail_eq := hring.cqTail_eq
  answered := hring.answered
  popped_eq := by
    have hlen := (List.getElem?_eq_some_iff.mp hnext).1
    rw [length_append, length_singleton, take_add_one, hnext, ← hring.popped_eq]
    rfl

lemma RingSound.popped_append_unread : popped ++ ring.unread = answers := by
  have hunread : ring.unread = answers.drop popped.length := by
    rw [SharedRing.unread, hring.unread_eq, ← hring.completions.unread_eq]
    unfold RingWindow.unread
    apply map_congr_left
    intro offset _
    have hslot : (ring.cqHead + offset) % ring.layout.entries =
        (popped.length + offset) % ring.layout.entries := by
      rw [hring.cqHead_eq, ← Nat.mod_add_mod,
        Nat.mod_mod_of_dvd _ ring.layout.entries_dvd, Nat.mod_add_mod]
    rw [hslot]
  calc popped ++ ring.unread
      = answers.take popped.length ++ answers.drop popped.length := by
        rw [hunread, ← hring.popped_eq]
    _ = answers := take_append_drop _ _

end Ring

end AgentDx.Ring
