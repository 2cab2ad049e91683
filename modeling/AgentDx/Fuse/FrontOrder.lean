import AgentDx.Fuse.FrontBarrier

/-!
# Order and admission in the front write queue

The writes the queue holds, the running one first, are in the order of their
submission file by file, and of each file the admitted ones come before those
that wait for admission.  The worker takes the first admitted write of a file
without an error and puts it back in front when it fails, so it never overtakes
an earlier write of the same file.  The two byte counters are the sums over the
held writes.
-/

namespace AgentDx.Fuse

open List hiding after
open Std Word Transition

/-! ## Lists of held writes -/

/-- File by file, writes are in the order of their submission, and a write that
waits for admission is followed by waiting ones only. -/
def InOrder (entries : List Entry) : Prop :=
  entries.Pairwise fun earlier later =>
    earlier.write.inode = later.write.inode →
      earlier.write.id < later.write.id ∧ (earlier.admission = true → later.admission = true)

def heldBytes (entries : List Entry) : ℕ := (entries.map (·.write.bytes)).sum

/-- The bytes of the admitted writes. -/
def admittedSum (entries : List Entry) : ℕ := heldBytes (entries.filter (!·.admission))

/-- The writes that wait for admission. -/
def waitingWrites (entries : List Entry) : List Write :=
  (entries.filter (·.admission)).map (·.write)

/-- The write whose admission callback a notice calls. -/
def Notice.write? : Notice → Option Write
  | .admission write _ => some write
  | .ready _ _ _ => none

@[simp]
lemma heldBytes_cons (entry entries) :
    heldBytes (entry :: entries) = entry.write.bytes + heldBytes entries := rfl

@[simp]
lemma heldBytes_append (first second) :
    heldBytes (first ++ second) = heldBytes first + heldBytes second := by
  simp [heldBytes]

@[simp]
lemma admittedSum_append (first second) :
    admittedSum (first ++ second) = admittedSum first + admittedSum second := by
  simp [admittedSum]

lemma admittedSum_cons (entry entries) :
    admittedSum (entry :: entries) = (if entry.admission then 0 else entry.write.bytes) +
        admittedSum entries := by
  unfold admittedSum
  cases h : entry.admission <;> simp [h]

lemma waitingWrites_cons (entry entries) :
    waitingWrites (entry :: entries) = (if entry.admission then [entry.write] else []) ++
        waitingWrites entries := by
  unfold waitingWrites
  cases h : entry.admission <;> simp [h]

@[simp]
lemma waitingWrites_append (first second) :
    waitingWrites (first ++ second) = waitingWrites first ++ waitingWrites second := by
  simp [waitingWrites]

/-! ## The admission loop -/

variable {entry : Entry}

section Admissions

variable {limits : Limits} {refusal : ℕ → Option Errno} {entries : List Entry}
variable {blocked : List ℕ} {bytes admittedBytes base admittedBase : ℕ}

/-- The loop keeps the counters exact and the admitted bytes within their
limit. -/
lemma admissionsFrom_counters (hbytes : bytes = base + heldBytes entries)
    (hadm : admittedBytes = admittedBase + admittedSum entries)
    (hlimit : admittedBytes ≤ limits.admittedLimit) :
    let scan := admissionsFrom limits refusal entries blocked bytes admittedBytes
    scan.bytes = base + heldBytes scan.entries ∧
      scan.admittedBytes = admittedBase + admittedSum scan.entries ∧
      scan.bytes ≤ bytes ∧ scan.admittedBytes ≤ limits.admittedLimit := by
  induction entries generalizing blocked bytes admittedBytes base
    admittedBase with
  | nil =>
    simp only [admissionsFrom]
    exact ⟨hbytes, hadm, le_rfl, hlimit⟩
  | cons head rest ih =>
    rw [heldBytes_cons] at hbytes
    rw [admittedSum_cons] at hadm
    unfold admissionsFrom
    split
    next hh =>
      rw [if_neg (by simp [hh])] at hadm
      obtain ⟨h1, h2, h3, h4⟩ := @ih blocked bytes admittedBytes
        (base + head.write.bytes) (admittedBase + head.write.bytes)
        (by omega) (by omega) hlimit
      refine ⟨?_, ?_, h3, h4⟩
      · simp only [Scan.keep, heldBytes_cons]
        omega
      · simp only [Scan.keep, admittedSum_cons, hh, Bool.false_eq_true, if_false]
        omega
    next hwt =>
      have hads : head.admission = true := by simpa using hwt
      rw [if_pos hads] at hadm
      split
      · rw [wrappingSub_of_le (by omega)]
        obtain ⟨h1, h2, h3, h4⟩ := @ih blocked (bytes - head.write.bytes)
          admittedBytes base admittedBase (by omega) (by omega) hlimit
        exact ⟨h1, h2, h3.trans (Nat.sub_le _ _), h4⟩
      · split
        next hft =>
          obtain ⟨h1, h2, h3, h4⟩ := @ih blocked bytes
            (admittedBytes + head.write.bytes) (base + head.write.bytes)
            (admittedBase + head.write.bytes) (by omega) (by omega) (by omega)
          refine ⟨?_, ?_, h3, h4⟩
          · simp only [Scan.call, Scan.keep, heldBytes_cons]
            omega
          · simp only [Scan.call, Scan.keep, admittedSum_cons, Bool.false_eq_true, if_false]
            omega
        · obtain ⟨h1, h2, h3, h4⟩ := @ih (head.write.inode :: blocked) bytes
            admittedBytes (base + head.write.bytes) admittedBase (by omega)
            (by omega) hlimit
          refine ⟨?_, ?_, h3, h4⟩
          · simp only [Scan.keep, heldBytes_cons]
            omega
          · simp only [Scan.keep, admittedSum_cons, hads, if_true]
            omega

lemma admissionsFrom_inOrder (horder : InOrder entries)
    (hblocked : ∀ entry ∈ entries, entry.write.inode ∈ blocked → entry.admission = true) :
    let scan := admissionsFrom limits refusal entries blocked bytes admittedBytes
    InOrder scan.entries ∧ ∀ entry ∈ scan.entries,
      entry.write.inode ∈ blocked → entry.admission = true := by
  induction entries generalizing blocked bytes admittedBytes with
  | nil => simp [admissionsFrom, InOrder]
  | cons head rest ih =>
    obtain ⟨hhd, hr⟩ := pairwise_cons.mp horder
    rw [forall_mem_cons] at hblocked
    have hfo : ∀ {blocked bytes admittedBytes entry},
        entry ∈ (admissionsFrom limits refusal rest blocked bytes
          admittedBytes).entries → head.write.inode = entry.write.inode →
        head.write.id < entry.write.id := by
      intro blocked bytes admittedBytes entry hm hin
      obtain ⟨held, hh, hw, _⟩ := admissionsFrom_origin hm
      rw [← hw] at hin ⊢
      exact (hhd held hh hin).1
    unfold admissionsFrom
    split
    next hh =>
      obtain ⟨hsc, hfl⟩ := @ih blocked bytes admittedBytes hr hblocked.2
      refine ⟨pairwise_cons.mpr ⟨fun entry hm hin =>
        ⟨hfo hm hin, ?_⟩, hsc⟩, forall_mem_cons.mpr ⟨hblocked.1, hfl⟩⟩
      rw [hh]
      exact fun hfa => Bool.noConfusion hfa
    next hwt =>
      have had : head.admission = true := by simpa using hwt
      split
      · exact ih hr hblocked.2
      · split
        next hft =>
          obtain ⟨hsc, hfl⟩ := @ih blocked bytes (admittedBytes + head.write.bytes) hr hblocked.2
          refine ⟨pairwise_cons.mpr ⟨fun entry hm hin =>
            ⟨hfo hm hin, fun hfa => Bool.noConfusion hfa⟩, hsc⟩, forall_mem_cons.mpr ⟨fun hm =>
              absurd hm hft.1, hfl⟩⟩
        · have hmr : ∀ entry ∈ rest, entry.write.inode ∈ head.write.inode :: blocked →
                entry.admission = true := by
            intro entry hm hin
            rcases mem_cons.mp hin with hin | hin
            · exact (hhd entry hm hin.symm).2 had
            · exact hblocked.2 entry hm hin
          obtain ⟨hsc, hfl⟩ := @ih (head.write.inode :: blocked) bytes admittedBytes hr hmr
          refine ⟨pairwise_cons.mpr ⟨fun entry hm hin =>
            ⟨hfo hm hin, fun _ => ?_⟩, hsc⟩, forall_mem_cons.mpr ⟨hblocked.1, fun entry hm hin =>
              hfl entry hm (mem_cons_of_mem _ hin)⟩⟩
          exact hfl entry hm (by rw [hin]; exact mem_cons_self)

lemma admissionsFrom_perm :
    let scan := admissionsFrom limits refusal entries blocked bytes admittedBytes
    (waitingWrites entries).Perm (waitingWrites scan.entries ++
      scan.callbacks.filterMap Notice.write?) := by
  induction entries generalizing blocked bytes admittedBytes with
  | nil => simp [admissionsFrom, waitingWrites]
  | cons head rest ih =>
    unfold admissionsFrom
    split
    next hh =>
      simp only [Scan.keep, waitingWrites_cons, hh, Bool.false_eq_true, if_false, nil_append]
      exact ih
    next hwt =>
      have had : head.admission = true := by simpa using hwt
      rw [waitingWrites_cons, if_pos had]
      split
      · exact (ih.cons head.write).trans perm_middle.symm
      · split
        · simp only [Scan.call, Scan.keep, waitingWrites_cons,
            Bool.false_eq_true, if_false, nil_append]
          exact (ih.cons head.write).trans perm_middle.symm
        · simp only [Scan.keep, waitingWrites_cons, had, if_true]
          exact ih.cons head.write

lemma admissionsFrom_accounts (hmem : entry ∈ entries) :
    let scan := admissionsFrom limits refusal entries blocked bytes admittedBytes
    (∃ kept ∈ scan.entries, kept.write = entry.write) ∨
      ∃ error, .admission entry.write (.error error) ∈ scan.callbacks := by
  induction entries generalizing blocked bytes admittedBytes with
  | nil => cases hmem
  | cons head rest ih =>
    unfold admissionsFrom
    rcases mem_cons.mp hmem with rfl | hmem
    · split
      · exact .inl ⟨_, mem_cons_self, rfl⟩
      · split
        · exact .inr ⟨_, mem_cons_self⟩
        · split
          · exact .inl ⟨_, mem_cons_self, rfl⟩
          · exact .inl ⟨_, mem_cons_self, rfl⟩
    · have hkp : ∀ {scan : Scan} {kept : Entry}, (∃ left ∈ scan.entries, left.write = entry.write) →
          ∃ left ∈ (scan.keep kept).entries, left.write = entry.write := by
        intro scan kept hlf
        obtain ⟨left, hlf, hw⟩ := hlf
        exact ⟨left, mem_cons_of_mem _ hlf, hw⟩
      split
      · exact (ih hmem).imp_left hkp
      · split
        · refine (ih hmem).imp_right ?_
          exact fun ⟨error, hnt⟩ => ⟨error, mem_cons_of_mem _ hnt⟩
        · split
          · refine (ih hmem).imp hkp ?_
            exact fun ⟨error, hnt⟩ =>
              ⟨error, mem_cons_of_mem _ hnt⟩
          · exact (ih hmem).imp_left hkp

/-- A loop that calls nobody leaves a waiting write only for lack of room. -/
lemma admissionsFrom_silent (hmem : waiting ∈ entries) (hwait : waiting.admission = true)
    (hsilent : (admissionsFrom limits refusal entries [] bytes admittedBytes).callbacks = []) :
    ∃ entry ∈ entries, refusal entry.write.inode = none ∧
      limits.admittedLimit - admittedBytes < entry.write.bytes := by
  induction entries generalizing bytes admittedBytes with
  | nil => cases hmem
  | cons head rest ih =>
    unfold admissionsFrom at hsilent
    split at hsilent
    next hh =>
      rcases mem_cons.mp hmem with rfl | hmem
      · rw [hh] at hwait
        cases hwait
      · obtain ⟨entry, he, hrm⟩ := ih hmem hsilent
        exact ⟨entry, mem_cons_of_mem _ he, hrm⟩
    · split at hsilent
      · cases hsilent
      next hrf =>
        split at hsilent
        · cases hsilent
        next hft =>
          refine ⟨head, mem_cons_self, hrf, ?_⟩
          by_contra hrm
          exact hft ⟨by simp, Nat.not_lt.mp hrm⟩

end Admissions

/-! ## The release loop -/

section Release

variable {inode handle : ℕ} {last : Bool} {entries : List Entry}
variable {bytes admittedBytes base admittedBase : ℕ}

lemma releaseFrom_counters (hbytes : bytes = base + heldBytes entries)
    (hadm : admittedBytes = admittedBase + admittedSum entries) :
    let scan := releaseFrom inode handle last entries bytes admittedBytes
    scan.bytes = base + heldBytes scan.entries ∧
      scan.admittedBytes = admittedBase + admittedSum scan.entries ∧
      scan.bytes ≤ bytes ∧ scan.admittedBytes ≤ admittedBytes := by
  induction entries generalizing bytes admittedBytes base admittedBase with
  | nil => exact ⟨hbytes, hadm, le_rfl, le_rfl⟩
  | cons head rest ih =>
    rw [heldBytes_cons] at hbytes
    rw [admittedSum_cons] at hadm
    unfold releaseFrom
    split
    · split
      next h =>
        rw [if_pos h] at hadm
        rw [wrappingSub_of_le (by omega)]
        obtain ⟨h1, h2, h3, h4⟩ := @ih (bytes - head.write.bytes)
          admittedBytes base admittedBase (by omega) (by omega)
        exact ⟨h1, h2, h3.trans (Nat.sub_le _ _), h4⟩
      next h =>
        rw [if_neg h] at hadm
        rw [wrappingSub_of_le (by omega), wrappingSub_of_le (by omega)]
        obtain ⟨h1, h2, h3, h4⟩ := @ih (bytes - head.write.bytes)
          (admittedBytes - head.write.bytes) base admittedBase (by omega)
          (by omega)
        exact ⟨h1, h2, h3.trans (Nat.sub_le _ _), h4.trans (Nat.sub_le _ _)⟩
    · obtain ⟨h1, h2, h3, h4⟩ := @ih bytes admittedBytes
        (base + head.write.bytes) (admittedBase +
          if head.admission then 0 else head.write.bytes) (by omega) (by omega)
      refine ⟨?_, ?_, h3, h4⟩
      · simp only [Scan.keep, heldBytes_cons]
        omega
      · simp only [Scan.keep, admittedSum_cons]
        omega

lemma State.releaseHandle_perm (state : State) : (waitingWrites state.entries).Perm
      (waitingWrites (state.releaseHandle inode handle last).1.entries ++
        (state.releaseHandle inode handle last).2.filterMap Notice.write?) := by
  rw [State.releaseHandle_entries, State.releaseHandle_callbacks]
  generalize state.entries = entries
  induction entries with
  | nil => simp [waitingWrites]
  | cons head rest ih =>
    simp only [filter_cons]
    rw [waitingWrites_cons]
    cases hrl : releases inode handle last head.write with
    | false =>
      simp only [Bool.not_false, if_true, Bool.false_and,
        Bool.false_eq_true, if_false, waitingWrites_cons, append_assoc]
      exact ih.append_left _
    | true =>
      cases had : head.admission with
      | false => simpa [had] using ih
      | true =>
        simp only [Bool.not_true, Bool.false_eq_true, if_false, Bool.and_self, if_true, map_cons]
        exact (ih.cons head.write).trans perm_middle.symm

end Release

/-! ## What a trace says about order -/

/-- The write an event submits. -/
def Event.submission? : Event → Option Write
  | .submitted write => some write
  | _ => none

/-- The write whose admission callback an event calls. -/
def Event.callback? : Event → Option Write
  | .admission write _ => some write
  | _ => none

/-- The write an event completes. -/
def Event.completion? : Event → Option Write
  | .finished write (.ok ()) => some write
  | _ => none

def submissions (trace : Trace) : List Write := trace.filterMap (·.bind Event.submission?)

def callbacks (trace : Trace) : List Write := trace.filterMap (·.bind Event.callback?)

def completions (trace : Trace) : List Write := trace.filterMap (·.bind Event.completion?)

/-- The callback of the write is called with an error. -/
def Refused (trace : Trace) (outbox : List Notice) (write : Write) : Prop :=
  ∃ error, some (.admission write (.error error)) ∈ trace ∨ .admission write (.error error) ∈ outbox

lemma mem_submissions : write ∈ submissions trace ↔ some (.submitted write) ∈ trace := by
  simp only [submissions, mem_filterMap]
  constructor
  · rintro ⟨label, hm, hl⟩
    obtain ⟨event, rfl, hev⟩ := Option.bind_eq_some_iff.mp hl
    cases event <;> cases hev
    exact hm
  · intro hm
    exact ⟨_, hm, rfl⟩

lemma submissions_snoc (trace label) : submissions (trace ++ [label]) =
      submissions trace ++ (label.bind Event.submission?).toList := by
  rw [submissions, filterMap_append]
  cases h : label.bind Event.submission? <;> simp [submissions, h]

lemma callbacks_snoc (trace label) :
    callbacks (trace ++ [label]) = callbacks trace ++ (label.bind Event.callback?).toList := by
  rw [callbacks, filterMap_append]
  cases h : label.bind Event.callback? <;> simp [callbacks, h]

lemma completions_snoc (trace label) : completions (trace ++ [label]) =
      completions trace ++ (label.bind Event.completion?).toList := by
  rw [completions, filterMap_append]
  cases h : label.bind Event.completion? <;> simp [completions, h]

/-! ## The held writes and the trace -/

/-- What has become of every submitted write, and in which order. -/
structure Recorded (trace : Trace) (held : List Entry) (outbox : List Notice)
    (nextWrite : ℕ) : Prop where
  submitted : ∀ entry ∈ held, entry.write ∈ submissions trace
  numbers : (submissions trace).Pairwise fun first second => first.id < second.id
  below : ∀ write ∈ submissions trace, write.id < nextWrite
  called : (submissions trace).Perm (waitingWrites held ++
    outbox.filterMap Notice.write? ++ callbacks trace)
  executed : ∀ write ∈ completions trace, write ∈ submissions trace
  completes : (completions trace).Pairwise fun first second =>
    first.inode = second.inode → first.id < second.id
  passed : ∀ write ∈ completions trace, ∀ entry ∈ held,
    write.inode = entry.write.inode → write.id < entry.write.id
  accounted : ∀ write ∈ submissions trace,
    (∃ entry ∈ held, entry.write = write) ∨ write ∈ completions trace ∨
      Dropped trace write ∨ Refused trace outbox write

section Recorded

variable {trace : Trace} {held changed : List Entry}
variable {outbox called notices : List Notice} {nextWrite : ℕ}
variable {label : Option Event} {write : Write}

lemma Refused.snoc (hdeny : Refused trace outbox write) (label notices) :
    Refused (trace ++ [label]) (outbox ++ notices) write := by
  obtain ⟨error, htr | hot⟩ := hdeny
  · exact ⟨error, .inl (mem_append_left _ htr)⟩
  · exact ⟨error, .inr (mem_append_left _ hot)⟩

/-- A step that submits nothing: what it holds was held, a write it completes
precedes what it holds, and a write it lets go of is completed, dropped or
refused. -/
lemma Recorded.step (hrec : Recorded trace held outbox nextWrite)
    (htag : label.bind Event.submission? = none)
    (horigin : ∀ entry ∈ changed, ∃ former ∈ held, former.write = entry.write)
    (hcall : (waitingWrites held ++ outbox.filterMap Notice.write?).Perm
      (waitingWrites changed ++ called.filterMap Notice.write? ++
        (label.bind Event.callback?).toList))
    (hcompletes : ∀ write, label.bind Event.completion? = some write →
      (∃ former ∈ held, former.write = write) ∧
        ∀ entry ∈ changed, write.inode = entry.write.inode → write.id < entry.write.id)
    (hexit : ∀ former ∈ held, (∃ entry ∈ changed, entry.write = former.write) ∨
      former.write ∈ completions (trace ++ [label]) ∨ Dropped (trace ++ [label]) former.write ∨
      Refused (trace ++ [label]) called former.write)
    (hrefuses : ∀ write, Refused trace outbox write → Refused (trace ++ [label]) called write) :
    Recorded (trace ++ [label]) changed called nextWrite := by
  have hsb : submissions (trace ++ [label]) = submissions trace := by
    rw [submissions_snoc, htag]
    exact append_nil _
  refine ⟨?_, ?_, ?_, ?_, ?_, ?_, ?_, ?_⟩
  · intro entry he
    obtain ⟨former, hfm, hw⟩ := horigin entry he
    rw [hsb, ← hw]
    exact hrec.submitted former hfm
  · rw [hsb]
    exact hrec.numbers
  · rw [hsb]
    exact hrec.below
  · rw [hsb, callbacks_snoc]
    refine hrec.called.trans ((hcall.append_right _).trans ?_)
    rw [append_assoc _ _ (callbacks trace)]
    exact perm_append_comm.append_left _
  · intro write hw
    rw [completions_snoc] at hw
    rw [hsb]
    rcases mem_append.mp hw with hw | hw
    · exact hrec.executed write hw
    · obtain ⟨⟨former, hfm, rfl⟩, _⟩ := hcompletes write (by simpa using hw)
      exact hrec.submitted former hfm
  · rw [completions_snoc]
    refine pairwise_append.mpr ⟨hrec.completes, ?_, ?_⟩
    · cases label.bind Event.completion? <;> simp
    · intro first hfs second hsn hin
      obtain ⟨⟨former, hfm, rfl⟩, _⟩ := hcompletes second (by simpa using hsn)
      exact hrec.passed first hfs former hfm hin
  · intro write hw entry he hin
    rw [completions_snoc] at hw
    rcases mem_append.mp hw with hw | hw
    · obtain ⟨former, hfm, heq⟩ := horigin entry he
      rw [← heq] at hin ⊢
      exact hrec.passed write hw former hfm hin
    · exact (hcompletes write (by simpa using hw)).2 entry he hin
  · intro write hw
    rw [hsb] at hw
    rcases hrec.accounted write hw with ⟨former, hfm, rfl⟩ | hco | hdr | hre
    · exact hexit former hfm
    · rw [completions_snoc]
      exact .inr (.inl (mem_append_left _ hco))
    · exact .inr (.inr (.inl (hdr.snoc label)))
    · exact .inr (.inr (.inr (hrefuses write hre)))

lemma Recorded.rest (hrec : Recorded trace held outbox nextWrite)
    (hsubm : label.bind Event.submission? = none) (hcallback : label.bind Event.callback? = none)
    (hcomp : label.bind Event.completion? = none)
    (hnotices : notices.filterMap Notice.write? = []) (hperm : held.Perm changed) :
    Recorded (trace ++ [label]) changed (outbox ++ notices) nextWrite := by
  refine hrec.step hsubm ?_ ?_ ?_ ?_ ?_
  · intro entry he
    exact ⟨entry, hperm.mem_iff.mpr he, rfl⟩
  · rw [hcallback, filterMap_append, hnotices, append_nil]
    simp only [Option.toList_none, append_nil]
    exact ((hperm.filter _).map _).append_right _
  · intro write hw
    rw [hcomp] at hw
    cases hw
  · intro former hfm
    exact .inl ⟨former, hperm.mem_iff.mp hfm, rfl⟩
  · intro write hrf
    exact hrf.snoc label notices

lemma Recorded.deliver (hrec : Recorded trace held (before ++ notice :: after) nextWrite) :
    Recorded (trace ++ [some notice.event]) held (before ++ after)
      nextWrite := by
  refine hrec.step ?_ ?_ ?_ ?_ ?_ ?_
  · cases notice <;> rfl
  · intro entry he
    exact ⟨entry, he, rfl⟩
  · rw [append_assoc]
    refine List.Perm.append_left _ ?_
    rw [← singleton_append, filterMap_append, filterMap_append, filterMap_append, append_assoc]
    refine List.Perm.append_left _ (perm_append_comm.trans ?_)
    cases notice <;> exact List.Perm.refl _
  · intro write hw
    cases notice <;> cases hw
  · intro former hfm
    exact .inl ⟨former, hfm, rfl⟩
  · rintro write ⟨error, htr | hot⟩
    · exact ⟨error, .inl (mem_append_left _ htr)⟩
    · rcases mem_append.mp hot with hot | hot
      · exact ⟨error, .inr (mem_append_left _ hot)⟩
      · rcases mem_cons.mp hot with rfl | hot
        · exact ⟨error, .inl (mem_append_right _ mem_cons_self)⟩
        · exact ⟨error, .inr (mem_append_right _ hot)⟩

lemma Recorded.submit (hrec : Recorded trace held outbox nextWrite) (hset : write.id = nextWrite)
    (horigin : ∀ entry ∈ changed, entry ∈ held ∨ entry.write = write)
    (hkept : ∀ entry ∈ held, entry ∈ changed) (hcall : (write :: waitingWrites held).Perm
      (waitingWrites changed ++ notices.filterMap Notice.write?))
    (hcosts : (∃ entry ∈ changed, entry.write = write) ∨
      ∃ error, .admission write (.error error) ∈ notices) :
    Recorded (trace ++ [some (.submitted write)]) changed (outbox ++ notices) (nextWrite + 1) := by
  have hsu : submissions (trace ++ [some (.submitted write)]) =
      submissions trace ++ [write] := submissions_snoc _ _
  have hco : completions (trace ++ [some (.submitted write)]) =
      completions trace := (completions_snoc _ _).trans (append_nil _)
  have hca : callbacks (trace ++ [some (.submitted write)]) =
      callbacks trace := (callbacks_snoc _ _).trans (append_nil _)
  refine ⟨?_, ?_, ?_, ?_, ?_, ?_, ?_, ?_⟩
  · intro entry he
    rw [hsu]
    rcases horigin entry he with hh | rfl
    · exact mem_append_left _ (hrec.submitted entry hh)
    · exact mem_append_right _ mem_cons_self
  · rw [hsu]
    refine pairwise_append.mpr ⟨hrec.numbers, by simp, ?_⟩
    intro first hfs second hsn
    rw [mem_singleton.mp hsn, hset]
    exact hrec.below first hfs
  · rw [hsu]
    intro submitted hsb
    rcases mem_append.mp hsb with hsb | hsb
    · exact Nat.lt_succ_of_lt (hrec.below submitted hsb)
    · rw [mem_singleton.mp hsb, hset]
      exact Nat.lt_succ_self _
  · rw [hsu, hca, filterMap_append]
    calc submissions trace ++ [write]
      _ ~ write :: submissions trace := perm_append_comm
      _ ~ write :: (waitingWrites held ++ outbox.filterMap Notice.write? ++
            callbacks trace) := hrec.called.cons write
      _ = (write :: waitingWrites held) ++ (outbox.filterMap Notice.write? ++ callbacks trace) := by
        rw [append_assoc, cons_append]
      _ ~ (waitingWrites changed ++ notices.filterMap Notice.write?) ++
            (outbox.filterMap Notice.write? ++ callbacks trace) :=
        hcall.append_right _
      _ = waitingWrites changed ++ (notices.filterMap Notice.write? ++
            (outbox.filterMap Notice.write? ++ callbacks trace)) :=
        append_assoc _ _ _
      _ ~ waitingWrites changed ++ (outbox.filterMap Notice.write? ++
            (notices.filterMap Notice.write? ++ callbacks trace)) :=
        (perm_append_comm_assoc _ _ _).append_left _
      _ = _ := by simp only [append_assoc]
  · rw [hco, hsu]
    intro completed hcm
    exact mem_append_left _ (hrec.executed completed hcm)
  · rw [hco]
    exact hrec.completes
  · rw [hco]
    intro completed hcm entry he hin
    rcases horigin entry he with hh | rfl
    · exact hrec.passed completed hcm entry hh hin
    · rw [hset]
      exact hrec.below completed (hrec.executed completed hcm)
  · rw [hsu, hco]
    intro submitted hsb
    rcases mem_append.mp hsb with hsb | hsb
    · rcases hrec.accounted submitted hsb with ⟨entry, hh, rfl⟩ | hcm | hdr | hrf
      · exact .inl ⟨entry, hkept entry hh, rfl⟩
      · exact .inr (.inl hcm)
      · exact .inr (.inr (.inl (hdr.snoc _)))
      · exact .inr (.inr (.inr (hrf.snoc _ notices)))
    · rw [mem_singleton.mp hsb]
      rcases hcosts with hh | ⟨error, hnt⟩
      · exact .inl hh
      · exact .inr (.inr (.inr ⟨error, .inr (mem_append_right _ hnt)⟩))

end Recorded

/-! ## The counters -/

/-- The held writes are in order, and the counters are their sums. -/
structure Counted (limits : Limits) (held : List Entry) (state : State) : Prop where
  order : InOrder held
  small : ∀ entry ∈ held, entry.write.bytes ≤ limits.admittedLimit
  bytes : state.bytes = heldBytes held
  admitted : state.admittedBytes = admittedSum held
  limit : state.bytes ≤ limits.limit
  admittedLimit : state.admittedBytes ≤ limits.admittedLimit

section Counted

variable {limits : Limits} {system : System} {held : List Entry}
variable {state next : State} {notices : List Notice} {write : Write}

lemma Counted.append (hcnt : Counted limits held state) {sequence}
    (hsmall : write.bytes ≤ limits.admittedLimit) (hroom : write.bytes ≤ limits.limit - state.bytes)
    (hfits : admission = false → write.bytes ≤ limits.admittedLimit - state.admittedBytes)
    (hrecent : ∀ entry ∈ held, entry.write.id < write.id)
    (hone : ∀ entry ∈ held, entry.write.inode = write.inode →
      entry.admission = true → admission = true) (hbytes : next.bytes = state.bytes + write.bytes)
    (hadm : next.admittedBytes = if admission then state.admittedBytes
      else state.admittedBytes + write.bytes) :
    Counted limits (held ++ [⟨sequence, write, admission⟩]) next := by
  have hlm := hcnt.limit
  have hal := hcnt.admittedLimit
  refine ⟨?_, ?_, ?_, ?_, ?_, ?_⟩
  · refine pairwise_append.mpr ⟨hcnt.order, by simp, ?_⟩
    intro earlier her later hlt hin
    rw [mem_singleton] at hlt
    subst hlt
    exact ⟨hrecent earlier her, hone earlier her hin⟩
  · intro entry he
    rcases mem_append.mp he with he | he
    · exact hcnt.small entry he
    · rw [mem_singleton.mp he]
      exact hsmall
  · rw [hbytes, hcnt.bytes, heldBytes_append]
    rfl
  · rw [hadm, hcnt.admitted, admittedSum_append, admittedSum_cons]
    cases admission <;> rfl
  · omega
  · cases admission with
    | true => exact hadm.trans_le hal
    | false =>
      have := hfits rfl
      rw [if_neg Bool.false_ne_true] at hadm
      omega

lemma Counted.round (hcnt : Counted limits state.entries state)
    (hround : state.round limits = (next, notices)) : Counted limits next.entries next := by
  obtain ⟨rfl, rfl⟩ := Prod.mk.inj hround
  obtain ⟨hby, had, hle, hlm⟩ := @admissionsFrom_counters limits
    state.refusal state.entries [] state.bytes state.admittedBytes 0 0
    (by rw [hcnt.bytes, Nat.zero_add])
    (by rw [hcnt.admitted, Nat.zero_add]) hcnt.admittedLimit
  refine ⟨?_, ?_, hby.trans (Nat.zero_add _), had.trans (Nat.zero_add _), hle.trans hcnt.limit, hlm⟩
  · exact (admissionsFrom_inOrder hcnt.order (by simp)).1
  · intro entry he
    obtain ⟨former, hfm, hw, _⟩ := admissionsFrom_origin he
    rw [← hw]
    exact hcnt.small former hfm

/-- The worker takes a write past the earlier ones, which are of other files. -/
lemma Counted.start {before after} (hcnt : Counted limits (before ++ entry :: after) state)
    (hadm : entry.admission = false) (herror : state.errors.contains entry.write.inode = false)
    (hone : ∀ earlier ∈ before, earlier.admission = false →
      state.errors.contains earlier.write.inode = true) :
    Counted limits (entry :: (before ++ after)) state := by
  have hpr : (before ++ entry :: after).Perm (entry :: (before ++ after)) := perm_middle
  have hfr : ∀ earlier ∈ before, earlier.write.inode ≠ entry.write.inode := by
    intro earlier her hin
    have hlt := (pairwise_append.mp hcnt.order).2.2 earlier her entry mem_cons_self hin
    cases had : earlier.admission with
    | true => simp [hlt.2 had] at hadm
    | false =>
      have hco := hone earlier her had
      rw [hin, herror] at hco
      cases hco
  refine ⟨?_, ?_, ?_, ?_, hcnt.limit, hcnt.admittedLimit⟩
  · obtain ⟨hb, htl, hcr⟩ := pairwise_append.mp hcnt.order
    obtain ⟨hhd, ha⟩ := pairwise_cons.mp htl
    refine pairwise_cons.mpr ⟨?_, pairwise_append.mpr
      ⟨hb, ha, fun earlier her later hlt =>
        hcr earlier her later (mem_cons_of_mem _ hlt)⟩⟩
    intro later hlt hin
    rcases mem_append.mp hlt with hlt | hlt
    · exact absurd hin.symm (hfr later hlt)
    · exact hhd later hlt hin
  · intro held hh
    exact hcnt.small held (hpr.mem_iff.mpr hh)
  · rw [hcnt.bytes]
    exact (hpr.map _).sum_eq
  · rw [hcnt.admitted]
    exact ((hpr.filter _).map _).sum_eq

lemma Counted.finish (hcnt : Counted limits (entry :: state.entries) state)
    (hadm : entry.admission = false) (result) :
    Counted limits (state.finish entry result).entries (state.finish entry result) := by
  rcases result with error | ⟨⟩
  · exact ⟨hcnt.order, hcnt.small, hcnt.bytes, hcnt.admitted, hcnt.limit, hcnt.admittedLimit⟩
  · have hby := hcnt.bytes
    have hsm := hcnt.admitted
    rw [heldBytes_cons] at hby
    rw [admittedSum_cons, if_neg (by simp [hadm])] at hsm
    have hlm := hcnt.limit
    have hal := hcnt.admittedLimit
    refine ⟨(pairwise_cons.mp hcnt.order).2, fun held hh =>
      hcnt.small held (mem_cons_of_mem _ hh), ?_, ?_, ?_, ?_⟩
    · simp only [State.finish, wrappingSub_of_le (hby ▸ Nat.le_add_right _ _)]
      omega
    · simp only [State.finish, wrappingSub_of_le (hsm ▸ Nat.le_add_right _ _)]
      omega
    · simp only [State.finish, wrappingSub_of_le (hby ▸ Nat.le_add_right _ _)]
      omega
    · simp only [State.finish, wrappingSub_of_le (hsm ▸ Nat.le_add_right _ _)]
      omega

lemma Counted.release {running} (inode handle last)
    (hcnt : Counted limits (running ++ state.entries) state) :
    Counted limits (running ++ (state.releaseHandle inode handle last).1.entries)
      (state.releaseHandle inode handle last).1 := by
  have hsb : (running ++
      (state.releaseHandle inode handle last).1.entries).Sublist (running ++ state.entries) := by
    rw [State.releaseHandle_entries]
    exact (filter_sublist).append_left _
  obtain ⟨hby, had, hle, hal⟩ := @releaseFrom_counters inode
    handle last state.entries state.bytes state.admittedBytes
    (heldBytes running) (admittedSum running)
    (by rw [hcnt.bytes, heldBytes_append])
    (by rw [hcnt.admitted, admittedSum_append])
  refine ⟨hcnt.order.sublist hsb, fun held hh =>
    hcnt.small held (hsb.subset hh), ?_, ?_, hle.trans hcnt.limit, hal.trans hcnt.admittedLimit⟩
  · rw [heldBytes_append]
    exact hby
  · rw [admittedSum_append]
    exact had

end Counted

/-! ## Every step keeps the account -/

variable {outbox : List Notice} {nextWrite : ℕ} {rounded : State}

section Steps

variable {limits : Limits} {trace : Trace} {system next : System}
variable {label : Option Event} {state : State} {worker : Worker}
variable {notices : List Notice}

lemma RunsActive.admitted (hruns : RunsActive system)
    (hrow : entry ∈ system.worker.entry?.toList) : entry.admission = false := by
  cases h : system.worker with
  | running running =>
    rw [h] at hrow
    rw [mem_singleton.mp hrow]
    exact (hruns running h).1
  | idle | stopped =>
    rw [h] at hrow
    cases hrow

lemma Moves.counted (hmoves : Moves limits system label state worker notices)
    (hcloses : system.closes = []) (hruns : RunsActive system)
    (hrecent : ∀ entry ∈ system.held, entry.write.id < system.nextWrite)
    (hcnt : Counted limits system.held system.state) :
    Counted limits (worker.entry?.toList ++ state.entries) state := by
  have heq : ∀ {state : State}, state.entries = system.state.entries →
      state.bytes = system.state.bytes → state.admittedBytes = system.state.admittedBytes →
      Counted limits (system.worker.entry?.toList ++ state.entries) state := by
    intro state hen hby had
    rw [hen]
    exact ⟨hcnt.order, hcnt.small, hby.trans hcnt.bytes,
      had.trans hcnt.admitted, hby.trans_le hcnt.limit, had.trans_le hcnt.admittedLimit⟩
  cases hmoves with
  | submit hw hsb =>
    rw [← hw] at hrecent
    cases hsb with
    | refused error => exact hcnt
    | waiting hop hsm hrm heo =>
      rw [State.recordEntry, ← append_assoc]
      exact hcnt.append hsm hrm (fun hfl => Bool.noConfusion hfl) hrecent
        (fun _ _ _ _ => rfl) rfl rfl
    | admitted hop hsm hrm hft hfs her =>
      rw [State.recordEntry, ← append_assoc]
      refine hcnt.append hsm hrm (fun _ => hft) hrecent ?_ rfl rfl
      intro entry he hin hwt
      rcases mem_append.mp he with he | he
      · rw [hruns.admitted he] at hwt
        cases hwt
      · rw [hfs entry he hin] at hwt
        cases hwt
  | round hid hwk hrd =>
    rw [held_idle hid] at hcnt
    rw [hwk]
    exact hcnt.round hrd
  | start hid hrd hop hen had her hfs =>
    rw [held_idle hid] at hcnt
    have hro := hcnt.round hrd
    rw [hen] at hro
    have hst := hro.start had her hfs
    exact ⟨hst.order, hst.small, hst.bytes, hst.admitted, hst.limit, hst.admittedLimit⟩
  | @finish entry result hwk =>
    rw [held_running hwk] at hcnt
    exact hcnt.finish (hruns entry hwk).1 result
  | register hm hop =>
    rw [State.recoverStart, if_neg (by simp [hop])]
    exact heq rfl rfl rfl
  | release inode handle last => exact hcnt.release inode handle last
  | empty hcs => exact absurd hcloses hcs
  | _ => exact heq rfl rfl rfl

lemma readyWaiters_write (state : State) : state.readyWaiters.2.filterMap Notice.write? = [] := by
  rw [filterMap_eq_nil_iff]
  intro notice h
  obtain ⟨waiter, _, _, rfl⟩ := mem_readyWaiters.mp h
  rfl

lemma Recorded.round {changed} (hrec : Recorded trace state.entries outbox nextWrite)
    (hround : state.round limits = (rounded, notices)) (hsubm : label.bind Event.submission? = none)
    (hcallback : label.bind Event.callback? = none)
    (hcomp : label.bind Event.completion? = none) (hperm : rounded.entries.Perm changed) :
    Recorded (trace ++ [label]) changed (outbox ++ notices) nextWrite := by
  obtain ⟨rfl, rfl⟩ := Prod.mk.inj hround
  refine hrec.step hsubm ?_ ?_ ?_ ?_ ?_
  · intro entry he
    obtain ⟨former, hfm, hw, _⟩ := admissionsFrom_origin (hperm.mem_iff.mpr he)
    exact ⟨former, hfm, hw⟩
  · rw [hcallback, Option.toList_none, append_nil, filterMap_append,
      filterMap_append, readyWaiters_write, append_nil]
    calc waitingWrites state.entries ++ outbox.filterMap Notice.write?
      _ ~ (waitingWrites (state.admissions limits).1.entries ++
            (state.admissions limits).2.filterMap Notice.write?) ++
            outbox.filterMap Notice.write? := admissionsFrom_perm.append_right _
      _ = waitingWrites (state.admissions limits).1.entries ++
            ((state.admissions limits).2.filterMap Notice.write? ++
              outbox.filterMap Notice.write?) := append_assoc _ _ _
      _ ~ waitingWrites changed ++ (outbox.filterMap Notice.write? ++
            (state.admissions limits).2.filterMap Notice.write?) :=
        ((hperm.filter _).map _).append perm_append_comm
  · intro write hw
    rw [hcomp] at hw
    cases hw
  · intro former hfm
    rcases admissionsFrom_accounts hfm with ⟨entry, he, hw⟩ | ⟨error, hnt⟩
    · exact .inl ⟨entry, hperm.mem_iff.mp he, hw⟩
    · exact .inr (.inr (.inr ⟨error, .inr (mem_append_right _ (mem_append_left _ hnt))⟩))
  · intro write hrf
    exact hrf.snoc label _

lemma Recorded.finish {entries} (hrec : Recorded trace (entry :: entries) outbox nextWrite)
    (hadm : entry.admission = false) (horder : InOrder (entry :: entries)) :
    Recorded (trace ++ [some (.finished entry.write (.ok ()))]) entries outbox
      nextWrite := by
  refine hrec.step rfl ?_ ?_ ?_ ?_ ?_
  · intro later hlt
    exact ⟨later, mem_cons_of_mem _ hlt, rfl⟩
  · rw [waitingWrites_cons, if_neg (by simp [hadm]), nil_append]
    exact List.Perm.of_eq (append_nil _).symm
  · intro write hw
    obtain rfl : entry.write = write := Option.some.inj hw
    refine ⟨⟨entry, mem_cons_self, rfl⟩, ?_⟩
    intro later hlt hin
    exact ((pairwise_cons.mp horder).1 later hlt hin).1
  · intro former hfm
    rcases mem_cons.mp hfm with rfl | hfm
    · refine .inr (.inl ?_)
      rw [completions_snoc]
      exact mem_append_right _ mem_cons_self
    · exact .inl ⟨former, hfm, rfl⟩
  · intro write hrf
    simpa using hrf.snoc _ []

lemma Recorded.release {running} (inode handle last)
    (hrec : Recorded trace (running ++ state.entries) outbox nextWrite) :
    Recorded (trace ++ [some (.released inode handle last)])
      (running ++ (state.releaseHandle inode handle last).1.entries)
      (outbox ++ (state.releaseHandle inode handle last).2) nextWrite := by
  refine hrec.step rfl ?_ ?_ ?_ ?_ ?_
  · intro entry he
    rw [State.releaseHandle_entries] at he
    exact ⟨entry, ((filter_sublist).append_left running).subset he, rfl⟩
  · rw [waitingWrites_append, waitingWrites_append, filterMap_append]
    simp only [Option.bind_some, Event.callback?, Option.toList_none, append_nil, append_assoc]
    refine List.Perm.append_left _ ?_
    calc waitingWrites state.entries ++ outbox.filterMap Notice.write?
      _ ~ (waitingWrites (state.releaseHandle inode handle last).1.entries ++
            (state.releaseHandle inode handle last).2.filterMap Notice.write?) ++
            outbox.filterMap Notice.write? :=
        state.releaseHandle_perm.append_right _
      _ = waitingWrites (state.releaseHandle inode handle last).1.entries ++
            ((state.releaseHandle inode handle last).2.filterMap Notice.write? ++
              outbox.filterMap Notice.write?) := append_assoc _ _ _
      _ ~ _ := perm_append_comm.append_left _
  · intro write hw
    cases hw
  · intro former hfm
    cases hrl : releases inode handle last former.write with
    | true =>
      refine .inr (.inr (.inl ⟨trace, [], inode, handle, last, rfl, ?_, hrl⟩))
      exact mem_submissions.mp (hrec.submitted former hfm)
    | false =>
      refine .inl ⟨former, ?_, rfl⟩
      rw [State.releaseHandle_entries]
      rcases mem_append.mp hfm with hfm | hfm
      · exact mem_append_left _ hfm
      · exact mem_append_right _ (mem_filter.mpr ⟨hfm, by simp [hrl]⟩)
  · intro write hrf
    exact hrf.snoc _ _

lemma Moves.recorded (hmoves : Moves limits system label state worker notices)
    (hcloses : system.closes = []) (hruns : RunsActive system) (horder : InOrder system.held)
    (hrec : Recorded trace system.held system.outbox system.nextWrite) :
    Recorded (trace ++ [label]) (worker.entry?.toList ++ state.entries)
      (system.outbox ++ notices)
      (system.nextWrite + (label.bind Event.submission?).toList.length) := by
  cases hmoves with
  | @rest label hl =>
    cases label with
    | none => exact hrec.rest rfl rfl rfl rfl (.refl _)
    | some event =>
      cases event with
      | called | answered => exact hrec.rest rfl rfl rfl rfl (.refl _)
      | _ => cases hl
  | @submit write _ _ hw hsb =>
    have hap : ∀ admission, (∀ entry ∈ system.held ++
          [⟨saturatingAdd system.state.nextSequence 1, write, admission⟩],
        entry ∈ system.held ∨ entry.write = write) := by
      intro admission entry he
      rcases mem_append.mp he with he | he
      · exact .inl he
      · rw [mem_singleton.mp he]
        exact .inr rfl
    cases hsb with
    | refused error =>
      refine hrec.submit hw (fun _ => .inl) (fun _ => id) ?_ (.inr ⟨error, mem_cons_self⟩)
      exact (perm_append_singleton _ _).symm
    | waiting =>
      rw [State.recordEntry, ← append_assoc]
      refine hrec.submit hw (hap true)
        (fun _ => mem_append_left _) ?_
        (.inl ⟨_, mem_append_right _ mem_cons_self, rfl⟩)
      rw [waitingWrites_append, filterMap_nil, append_nil]
      exact (perm_append_singleton _ _).symm
    | admitted =>
      rw [State.recordEntry, ← append_assoc]
      refine hrec.submit hw (hap false)
        (fun _ => mem_append_left _) ?_
        (.inl ⟨_, mem_append_right _ mem_cons_self, rfl⟩)
      rw [waitingWrites_append, append_assoc]
      exact (perm_append_singleton _ _).symm
  | round hid hwk hrd =>
    rw [held_idle hid] at hrec
    rw [hwk]
    exact hrec.round hrd rfl rfl rfl (.refl _)
  | start hid hrd hop hen =>
    rw [held_idle hid] at hrec
    refine hrec.round hrd rfl rfl rfl ?_
    rw [hen]
    exact perm_middle
  | @finish entry result hwk =>
    rw [held_running hwk] at hrec horder
    rcases result with error | ⟨⟩
    · exact hrec.rest rfl rfl rfl rfl (.refl _)
    · rw [append_nil]
      exact hrec.finish (hruns entry hwk).1 horder
  | register hm hop =>
    rw [State.recoverStart, if_neg (by simp [hop])]
    exact hrec.rest rfl rfl rfl (readyWaiters_write _) (.refl _)
  | release inode handle last => exact hrec.release inode handle last
  | empty hcs => exact absurd hcloses hcs
  | _ => exact hrec.rest rfl rfl rfl rfl (.refl _)

lemma Step.clears (hstep : Step limits system label next)
    (hshut : system.closes = []) : Clears system label := by
  cases hstep with
  | closeFinish hdr =>
    rw [hshut] at hdr
    exact absurd hdr.symm (by simp)
  | @deliver before after notice hot => cases notice <;> trivial
  | _ => trivial

/-- The account of a queue that is not closing. -/
structure Accounts (limits : Limits) (trace : Trace) (system : System) : Prop where
  guarded : Guarded trace system
  counted : Counted limits system.held system.state
  recorded : Recorded trace system.held system.outbox system.nextWrite

lemma Accounts.closes (hacc : Accounts limits trace system)
    (hopen : system.state.closing = false) : system.closes = [] := by
  by_contra h
  rw [hacc.guarded.closing h] at hopen
  cases hopen

lemma Step.opened (hstep : Step limits system label next)
    (hopen : next.state.closing = false) : system.state.closing = false := by
  by_contra hcl
  rw [Bool.not_eq_false] at hcl
  rcases hstep.moves with ⟨_, _, _, _, _, _, hsa, _⟩ | ⟨_, hmv, _⟩
  · rw [hsa, hcl] at hopen
    cases hopen
  · rw [hmv.closing hcl] at hopen
    cases hopen

lemma Accounts.step (hacc : Accounts limits trace system)
    (hstep : Step limits system label next) (hopen : system.state.closing = false) :
    Accounts limits (trace ++ [label]) next := by
  have hcl := hacc.closes hopen
  refine ⟨hacc.guarded.step ⟨hstep, hstep.clears hcl⟩, ?_, ?_⟩
  · rcases hstep.moves with ⟨_, _, _, _, _, _, hsa, hwk, _⟩ | ⟨_, hmv, _⟩
    · rw [System.held, hsa, hwk]
      exact hacc.counted
    · refine hmv.counted hcl hacc.guarded.runs ?_ hacc.counted
      intro entry he
      exact hacc.recorded.below _ (hacc.recorded.submitted entry he)
  · rcases hstep.moves with ⟨before, notice, after, hb, ha, rfl, hsa,
      hwk, hnx⟩ | ⟨notices, hmv, hot, hnx⟩
    · have hrc := hacc.recorded
      rw [hb] at hrc
      rw [System.held, hsa, hwk, ha, hnx]
      exact hrc.deliver
    · have hc : next.nextWrite =
          system.nextWrite + (label.bind Event.submission?).toList.length := by
        rw [hnx]
        rcases label with _ | event
        · rfl
        · cases event <;> rfl
      rw [hc, hot]
      exact hmv.recorded hcl hacc.guarded.runs hacc.counted.order hacc.recorded

lemma accounts_default (limits) : Accounts limits [] System.default where
  guarded := guarded_default
  counted := ⟨List.Pairwise.nil, by simp [System.held, System.default,
    Worker.entry?, State.default], rfl, rfl, Nat.zero_le _, Nat.zero_le _⟩
  recorded := by
    refine ⟨?_, List.Pairwise.nil, ?_, List.Perm.nil, ?_, List.Pairwise.nil, ?_, ?_⟩
    all_goals intro _ h; cases h

lemma Accounts.run (hrun : Run (Step limits) System.default trace system)
    (hopen : system.state.closing = false) : Accounts limits trace system := by
  induction hrun with
  | refl => exact accounts_default limits
  | snoc _ hls ih =>
    have hb := hls.opened hopen
    exact (ih hb).step hls hb

/-- The worker finds nothing to run: every admitted write is of a file with an
error. -/
lemma State.take_eq_none (htake : state.take = none)
    (hrow : entry ∈ state.entries) (hadm : entry.admission = false) :
    state.errors.contains entry.write.inode = true := by
  cases hrn : state.runnable with
  | some index =>
    obtain ⟨hlt, _⟩ := findIdx?_eq_some_iff_getElem.mp hrn
    simp [State.take, hrn, getElem?_eq_getElem hlt] at htake
  | none =>
    have hnt := findIdx?_eq_none_iff.mp hrn entry hrow
    simpa [hadm] using hnt

lemma admittedSum_pos (hpos : 0 < admittedSum entries) :
    ∃ entry ∈ entries, entry.admission = false := by
  by_contra hnn
  have hem : entries.filter (!·.admission) = [] := by
    rw [filter_eq_nil_iff]
    intro entry he
    simpa using fun had => hnn ⟨entry, he, had⟩
  rw [admittedSum, hem] at hpos
  exact absurd hpos (Nat.lt_irrefl _)

lemma State.refusal_eq_none (hrefusal : state.refusal inode = none) :
    state.errors.isEmpty = true := by
  unfold State.refusal at hrefusal
  split at hrefusal
  · cases hrefusal
  · split at hrefusal
    · cases hrefusal
    · split at hrefusal
      · assumption
      · cases hrefusal

lemma Counted.awake (hcnt : Counted limits state.entries state)
    (hround : state.round limits = (rounded, []))
    (htake : rounded.take = none) : waitingWrites state.entries = [] := by
  rw [waitingWrites, map_eq_nil_iff, filter_eq_nil_iff]
  intro waiting hm hwt
  have hsl : (state.admissions limits).2 = [] := (append_eq_nil_iff.mp (Prod.mk.inj hround).2).1
  obtain ⟨entry, he, hrf, hrm⟩ := admissionsFrom_silent hm hwt hsl
  have hsm := hcnt.small entry he
  have hps : 0 < admittedSum state.entries := by
    rw [← hcnt.admitted]
    omega
  obtain ⟨admitted, hh, had⟩ := admittedSum_pos hps
  have hro := State.rounded hround
  have her := State.take_eq_none htake (hro.kept admitted hh had) had
  rw [hro.errors] at her
  have hem := State.refusal_eq_none hrf
  simp [ExtTreeMap.isEmpty_iff.mp hem] at her

end Steps

/-! ## Order and admission -/

/-- What holds of a queue that is not closing.  Jobs of one file complete in the
order of their submission, none starts before an earlier one that is held and none
starts again; every callback is kept, about to be called or called, once; a
success is announced for a write within the admitted limit; and the counters are
the sums over the held writes. -/
structure Orderly (limits : Limits) (trace : Trace) (system : System) : Prop where
  numbers : (submissions trace).Pairwise fun first second => first.id < second.id
  completes : (completions trace).Pairwise fun first second =>
    first.inode = second.inode → first.id < second.id
  earlier : ∀ completed ∈ completions trace, ∀ write ∈ submissions trace,
    write.inode = completed.inode → write.id < completed.id →
      write ∈ completions trace ∨ Dropped trace write ∨ Refused trace system.outbox write
  starts : ∀ write next, Step limits system (some (.started write)) next →
    system.worker = .idle ∧ write ∉ completions trace ∧
      (∀ entry ∈ system.held, entry.write.inode = write.inode → write.id ≤ entry.write.id) ∧
      ∀ earlier ∈ submissions trace, earlier.inode = write.inode →
        earlier.id < write.id → earlier ∈ completions trace ∨
          Dropped trace earlier ∨ Refused trace system.outbox earlier
  called : (submissions trace).Perm (waitingWrites system.held ++
    system.outbox.filterMap Notice.write? ++ callbacks trace)
  awake : ∀ rounded, system.worker = .idle →
    system.state.round limits = (rounded, []) → rounded.take = none → waitingWrites system.held = []
  grants : ∀ label next write, Step limits system label next →
    .admission write (.ok ()) ∈ next.outbox → .admission write (.ok ()) ∈ system.outbox ∨
        (∃ entry ∈ next.held, entry.admission = false ∧ entry.write = write) ∧
          admittedSum next.held ≤ limits.admittedLimit
  bytes : system.state.bytes = heldBytes system.held
  admitted : system.state.admittedBytes = admittedSum system.held
  limit : system.state.bytes ≤ limits.limit
  admittedLimit : system.state.admittedBytes ≤ limits.admittedLimit

section Orderly

variable {limits : Limits} {trace : Trace} {system next : System} {write : Write}

/-- Of a file whose held writes are not before this number, the earlier writes
have come to their end. -/
lemma Recorded.earlier (hrec : Recorded trace held outbox nextWrite)
    (hheld : ∀ entry ∈ held, entry.write.inode = inode → number ≤ entry.write.id) :
    ∀ write ∈ submissions trace, write.inode = inode → write.id < number →
      write ∈ completions trace ∨ Dropped trace write ∨ Refused trace outbox write := by
  intro write hw hin her
  rcases hrec.accounted write hw with ⟨entry, he, rfl⟩ | hen
  · have := hheld entry he hin
    omega
  · exact hen

lemma State.round_keeps {state : State} (hround : state.round limits = (rounded, []))
    (hrow : entry ∈ state.entries) : ∃ kept ∈ rounded.entries, kept.write = entry.write := by
  obtain ⟨rfl, hno⟩ := Prod.mk.inj hround
  have hsl : (admissionsFrom limits state.refusal state.entries []
      state.bytes state.admittedBytes).callbacks = [] :=
    (append_eq_nil_iff.mp hno).1
  rcases admissionsFrom_accounts hrow with hkp | ⟨error, hnt⟩
  · exact hkp
  · rw [hsl] at hnt
    cases hnt

lemma Accounts.starts (hacc : Accounts limits trace system) (hopen : system.state.closing = false)
    (hstep : Step limits system (some (.started write)) next) :
    system.worker = .idle ∧ (∃ entry ∈ system.held, entry.write = write) ∧
      ∀ entry ∈ system.held, entry.write.inode = write.inode → write.id ≤ entry.write.id := by
  have hor := (hacc.step hstep hopen).counted.order
  generalize hl : some (Event.started write) = label at hstep
  cases hstep with
  | @start entry rounded state hid hrd hcl htk =>
    cases hl
    obtain ⟨before, after, hen, rfl, _⟩ := State.take_eq_some htk
    have hmv : rounded.entries.Perm (entry :: (before ++ after)) := by
      rw [hen]
      exact perm_middle
    rw [held_idle hid]
    refine ⟨hid, ?_, ?_⟩
    · obtain ⟨former, hfm, hw, _⟩ := (State.rounded hrd).origin entry
        (hmv.mem_iff.mpr mem_cons_self)
      exact ⟨former, hfm, hw⟩
    · intro held hh hin
      obtain ⟨kept, hkp, hw⟩ := State.round_keeps hrd hh
      rw [← hw] at hin ⊢
      rcases mem_cons.mp (hmv.mem_iff.mp hkp) with rfl | hlt
      · exact le_rfl
      · exact ((pairwise_cons.mp hor).1 kept hlt hin.symm).1.le
  | @deliver before after notice hot => cases notice <;> cases hl
  | _ => cases hl

/-- In every run, as long as no close has been announced, the queue keeps the
order of the writes and accounts for them. -/
theorem queue_keeps_order (hrun : Run (Step limits) System.default trace system)
    (hopen : system.state.closing = false) : Orderly limits trace system := by
  have haccounts := Accounts.run hrun hopen
  have hrecorded := haccounts.recorded
  have hcounted := haccounts.counted
  refine ⟨hrecorded.numbers, hrecorded.completes, ?_, ?_, hrecorded.called, ?_, ?_,
    hcounted.bytes, hcounted.admitted, hcounted.limit, hcounted.admittedLimit⟩
  · intro completed hdone
    apply hrecorded.earlier
    intro entry hrow hino
    exact (hrecorded.passed completed hdone entry hrow hino.symm).le
  · intro write next hstep
    obtain ⟨hidle, ⟨entry, hrow, rfl⟩, hone⟩ := haccounts.starts hopen hstep
    refine ⟨hidle, fun hdone => ?_, hone, hrecorded.earlier hone⟩
    exact (hrecorded.passed _ hdone entry hrow rfl).false
  · intro rounded hidle hround htake
    rw [held_idle hidle] at hcounted ⊢
    exact hcounted.awake hround htake
  · intro label next write hstep hnote
    rcases hstep.outbox haccounts.guarded.runs haccounts.guarded.closing hnote with hnote |
      hannounced
    · exact .inl hnote
    · refine .inr ⟨?_, ?_⟩
      · cases hannounced with
        | admitted hheld hadmitted => exact ⟨_, hheld, hadmitted, rfl⟩
      · have hnext := (haccounts.step hstep hopen).counted
        rw [← hnext.admitted]
        exact hnext.admittedLimit

end Orderly

/-- While the first write is running a second one of its file waits for
admission. -/
theorem second_write_waits : ∃ system, Run (Step smallLimits) System.default
        (firstTrace ++ [some (.submitted ⟨1, 1, 1, 5⟩)]) system ∧
      waitingWrites system.held = [⟨1, 1, 1, 5⟩] ∧
      Orderly smallLimits (firstTrace ++ [some (.submitted ⟨1, 1, 1, 5⟩)])
        system := by
  have hsubmit : Step smallLimits runningSystem (some (.submitted ⟨1, 1, 1, 5⟩)) _ :=
    @Step.submit _ runningSystem ⟨1, 1, 1, 5⟩ (.ok ()) _ _ rfl rfl
  have hrun := (Run.unguarded first_write_runs).snoc hsubmit
  exact ⟨_, hrun, rfl, queue_keeps_order hrun rfl⟩

end AgentDx.Fuse
