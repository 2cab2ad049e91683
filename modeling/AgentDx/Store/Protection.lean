import AgentDx.Store.InFlight

/-!
# Protected requests are not retired

The registry is balanced against the guards that are out: its counts are those
of the keys admissions hold, its retiring keys are those retirements hold, no key
is both, and the byte total is the charge of every registered key plus what each
admission is charged for itself.  Each operation keeps this balance, so dropping
a guard always finds the bytes it takes off.
-/

namespace AgentDx.Store

open List hiding count contains_iff_mem next after
open Dfs Std Word OrderedMap RefCount Transition Result InFlightState ExtTreeSet

/-! ## Selections -/

lemma Delta.pairwise_of_validateRequests {revision}
    (hok : Delta.validateRequests revision previous items = .ok ()) :
    (items.map RemovedRequest.key).Pairwise (compare · · = .lt) ∧
      ∀ before ∈ previous, ∀ item ∈ items, compare before item.key = .lt := by
  induction items generalizing previous with
  | nil => simp
  | cons item items ih =>
    simp only [validateRequests, bind_eq_ok, ensure_eq_ok,
      Bool.and_eq_true, decide_eq_true_eq] at hok
    obtain ⟨_, ⟨_, hpr⟩, hr⟩ := hok
    obtain ⟨hpa, ha⟩ := ih hr
    have him : ∀ other ∈ items, compare item.key other.key = .lt := ha item.key rfl
    constructor
    · rw [map_cons, pairwise_cons]
      refine ⟨?_, hpa⟩
      intro key hky
      obtain ⟨other, ho, rfl⟩ := mem_map.mp hky
      exact him other ho
    · rintro before rfl other ho
      have hlt : compare before item.key = .lt := by simpa using hpr
      rcases mem_cons.mp ho with rfl | ho
      · exact hlt
      · exact TransCmp.lt_trans hlt (him other ho)

variable {delta : Delta}

lemma Delta.nodup_of_validate (hok : delta.validate = .ok ()) :
    (delta.requests.map RemovedRequest.key).Nodup := by
  simp only [Delta.validate, bind_eq_ok] at hok
  obtain ⟨_, _, h⟩ := hok
  apply List.Pairwise.imp _ (pairwise_of_validateRequests h).1
  rintro left right hlt rfl
  rw [Std.compare_self] at hlt
  cases hlt

variable {now bytes : ℕ} {limits : Limits} {isProtected : Finset RequestKey}

lemma Index.selectRequests_ok {index : Index}
    (hpick : index.selectRequests now ttl limits isProtected items count bytes
      picked = .ok chosen) (hroom : picked.length ≤ limits.cleanupItems)
    (hpicked : ∀ entry ∈ picked, entry.key ∉ isProtected) :
    chosen.length ≤ limits.cleanupItems ∧ ∀ entry ∈ chosen, entry.key ∉ isProtected := by
  induction items generalizing count bytes picked with
  | nil =>
    cases hpick
    exact ⟨hroom, hpicked⟩
  | cons item items ih =>
    rw [selectRequests] at hpick
    split at hpick
    · cases hpick
      exact ⟨hroom, hpicked⟩
    next hfr =>
      split at hpick
      · exact ih hpick hroom hpicked
      next hop =>
        split at hpick
        · cases hpick
          exact ⟨hroom, hpicked⟩
        · simp only [bind_eq_ok] at hpick
          obtain ⟨entry, _, _, _, _, _, hr⟩ := hpick
          apply ih hr
          · rw [length_append, length_singleton]
            omega
          · intro other ho
            rcases mem_append.mp ho with ho | ho
            · exact hpicked other ho
            · rw [mem_singleton.mp ho]
              exact hop

/-- A selection names distinct keys, none of them protected, and is within the
cleanup limit. -/
structure Selected (limits : Limits) (isProtected : Finset RequestKey)
    (delta : Delta) : Prop where
  nodup : (delta.requests.map RemovedRequest.key).Nodup
  room : delta.requests.length ≤ limits.cleanupItems
  unprotected : ∀ entry ∈ delta.requests, entry.key ∉ isProtected

lemma Index.select_ok {index : Index}
    (hpick : index.select revision compactedTo now limits isProtected =
      .ok (some delta)) : Selected limits isProtected delta := by
  simp only [select, Limits.validate, bind_eq_ok, pure_eq_ok] at hpick
  obtain ⟨_, ⟨_, _, rfl⟩, _, _, _, _, picked, hpc, _, _, through, _, hrs⟩ := hpick
  split at hrs
  · cases hrs
  · simp only [bind_eq_ok, pure_eq_ok, Option.some.injEq] at hrs
    obtain ⟨_, hv, rfl⟩ := hrs
    obtain ⟨hrm, hun⟩ := selectRequests_ok hpc (Nat.zero_le _) (by simp)
    refine ⟨Delta.nodup_of_validate hv, ?_, ?_⟩
    · rwa [length_insertionSort]
    · intro entry he
      exact hun entry ((mem_insertionSort _).mp he)

section Registry

variable [footprint : Footprint]

variable {current : State}

lemma State.prepareHistory_ok {next} (hprep : current.prepareHistory now limits isProtected =
      .ok (some (next, delta))) : Selected limits isProtected delta := by
  rw [prepareHistory] at hprep
  split at hprep
  · cases hprep
  · simp only [bind_eq_ok] at hprep
    obtain ⟨prepared, _, selected, hsl, hr⟩ := hprep
    cases selected with
    | none => cases hr
    | some chosen =>
      simp only [bind_eq_ok, pure_eq_ok, Option.some.injEq, Prod.mk.injEq] at hr
      obtain ⟨_, _, _, rfl⟩ := hr
      exact Index.select_ok hsl

/-! ## Charges -/

/-- What a registered key is charged. -/
def keyCharge (key : RequestKey) : ℕ := (footprint.sizeRequestKey + requestHeap key + 1024) * 4

lemma inFlightCharge_ok (hcost : inFlightCharge key = .ok bytes) : bytes = keyCharge key := by
  simp only [inFlightCharge, protectionCharge, Owned.exact, Nat.add_zero,
    bind_eq_ok, charge_eq_ok, okOr_eq_ok, checkedMul_eq_some] at hcost
  obtain ⟨_, ⟨_, rfl⟩, _, rfl⟩ := hcost
  rfl

/-- The charges of all registered keys. -/
def InFlightState.registeredBytes (state : InFlightState) : ℕ :=
  charged keyCharge state.active + setTotal keyCharge state.retiring

omit footprint in
lemma InFlightState.discharge_eq {state : InFlightState} (hbytes : state.bytes = rest + bytes) :
    state.discharge (some bytes) = { state with bytes := rest } := by
  have h : checkedSub state.bytes bytes = some rest := by
    rw [checkedSub_eq_some]
    omega
  rw [discharge, Option.bind_some, h]

/-! ## Balance -/

/-- The registry against the keys held by admissions, the keys held by
retirements and the bytes charged for the admissions themselves. -/
structure Balanced (state : InFlightState) (held retired : List RequestKey)
    (holders : ℕ) : Prop where
  counts : Counts state.active held
  retiring : ∀ key, key ∈ state.retiring ↔ key ∈ retired
  nodup : retired.Nodup
  disjoint : ∀ key ∈ held, key ∉ retired
  priced : ∀ key, key ∈ held ∨ key ∈ retired → inFlightCharge key = .ok (keyCharge key)
  bytes : state.bytes = state.registeredBytes + holders
  sound : state.failed = false

lemma balanced_default : Balanced .default [] [] 0 where
  counts := counts_empty
  retiring key := by simp [InFlightState.default]
  nodup := nodup_nil
  disjoint := by simp
  priced := by simp
  bytes := rfl
  sound := rfl

variable {state : InFlightState} {held retired : List RequestKey}
variable {holders : ℕ} {key : RequestKey}

lemma Balanced.perm (hbal : Balanced state held retired holders)
    (hheld : held.Perm otherHeld) (hret : retired.Perm otherRetired) :
    Balanced state otherHeld otherRetired holders where
  counts := hbal.counts.perm hheld
  retiring key := (hbal.retiring key).trans hret.mem_iff
  nodup := hret.nodup_iff.mp hbal.nodup
  disjoint key h := by
    rw [← hret.mem_iff]
    exact hbal.disjoint key (hheld.mem_iff.mpr h)
  priced key h := by
    apply hbal.priced key
    rwa [hheld.mem_iff, hret.mem_iff]
  bytes := hbal.bytes
  sound := hbal.sound

lemma Balanced.discharge (hbal : Balanced state held retired (holders + bytes)) :
    Balanced (state.discharge (some bytes)) held retired holders := by
  have h : state.bytes = state.registeredBytes + holders + bytes := by
    rw [hbal.bytes, Nat.add_assoc]
  rw [discharge_eq h]
  exact ⟨hbal.counts, hbal.retiring, hbal.nodup, hbal.disjoint, hbal.priced, rfl, hbal.sound⟩

lemma Balanced.release_held (hbal : Balanced state (key :: held) retired
    holders) : Balanced (state.releaseKey false key) held retired holders := by
  have hpr := hbal.priced key (.inl mem_cons_self)
  have hch : charged keyCharge (release state.active key).1 +
      (if (release state.active key).2 then keyCharge key else 0) =
        charged keyCharge state.active := charged_release keyCharge
  have hnx : Balanced { state with active := (release state.active key).1 }
      held retired (holders + if (release state.active key).2 then keyCharge key else 0) := by
    refine ⟨?_, hbal.retiring, hbal.nodup, ?_, ?_, ?_, hbal.sound⟩
    · have hcs := hbal.counts.release mem_cons_self
      rwa [erase_cons_head] at hcs
    · intro other ho
      exact hbal.disjoint other (mem_cons_of_mem _ ho)
    · intro other ho
      exact hbal.priced other (ho.imp_left (mem_cons_of_mem _))
    · have hby := hbal.bytes
      rw [InFlightState.registeredBytes] at hby ⊢
      dsimp only
      omega
  rw [InFlightState.releaseKey, if_neg Bool.false_ne_true]
  by_cases hls : (release state.active key).2 = true
  · rw [if_pos hls] at hnx
    rw [if_pos hls, hpr]
    exact hnx.discharge
  · rw [if_neg hls] at hnx
    rw [if_neg hls]
    exact hnx

lemma Balanced.release_retired (hbal : Balanced state held (key :: retired) holders) :
    Balanced (state.releaseKey true key) held retired holders := by
  have hm : key ∈ state.retiring := (hbal.retiring key).mpr mem_cons_self
  obtain ⟨hab, hnd⟩ := nodup_cons.mp hbal.nodup
  have hpr := hbal.priced key (.inr mem_cons_self)
  have hnx : Balanced { state with retiring := state.retiring.erase key } held
      retired (holders + keyCharge key) := by
    refine ⟨hbal.counts, ?_, hnd, ?_, ?_, ?_, hbal.sound⟩
    · intro other
      rw [mem_erase, hbal.retiring, Ne, Std.compare_eq_iff_eq, mem_cons]
      constructor
      · rintro ⟨hne, rfl | ho⟩
        · exact absurd rfl hne
        · exact ho
      · intro ho
        exact ⟨fun heq => hab (heq ▸ ho), .inr ho⟩
    · intro other ho hrt
      exact hbal.disjoint other ho (mem_cons_of_mem _ hrt)
    · intro other ho
      exact hbal.priced other (ho.imp_right (mem_cons_of_mem _))
    · have hby := hbal.bytes
      have htt := setTotal_erase keyCharge hm
      rw [InFlightState.registeredBytes] at hby ⊢
      dsimp only
      omega
  rw [InFlightState.releaseKey, if_pos rfl, if_pos (contains_iff_mem.mpr hm), hpr]
  exact hnx.discharge

variable {keys : List RequestKey}

lemma Balanced.release_all (hbal : Balanced state (keys ++ held) retired holders) :
    Balanced (keys.foldl (InFlightState.releaseKey false) state) held retired
      holders := by
  induction keys generalizing state with
  | nil => exact hbal
  | cons key keys ih => exact ih hbal.release_held

lemma Balanced.unretire_all (hbal : Balanced state held (keys ++ retired) holders) :
    Balanced (keys.foldl (InFlightState.releaseKey true) state) held retired
      holders := by
  induction keys generalizing state with
  | nil => exact hbal
  | cons key keys ih => exact ih hbal.release_retired

/-! ## Admissions -/

omit footprint in
/-- The keys an admission would register. -/
def InFlightState.newKeys (state : InFlightState) (keys : List RequestKey) : List RequestKey :=
  keys.filter fun key => decide (key ∉ state.active)

lemma InFlightState.extraCharge_ok {count extra total}
    (hcost : state.extraCharge keys count extra = .ok (total, bytes)) :
    (∀ key ∈ keys, key ∉ state.retiring) ∧
      (∀ key ∈ state.newKeys keys, inFlightCharge key = .ok (keyCharge key)) ∧
      total = count + (state.newKeys keys).length ∧
      bytes = extra + ((state.newKeys keys).map keyCharge).sum := by
  induction keys generalizing count extra with
  | nil =>
    cases hcost
    simp [newKeys]
  | cons key keys ih =>
    simp only [extraCharge, bind_eq_ok, ensure_eq_ok] at hcost
    obtain ⟨_, hfr, hr⟩ := hcost
    have hfr : key ∉ state.retiring := by
      simpa [← contains_iff_mem] using hfr
    split at hr
    next hac =>
      have hnw : state.newKeys (key :: keys) = state.newKeys keys := by
        apply filter_cons_of_neg
        simpa using hac
      obtain ⟨hrt, hpr, htt, hby⟩ := ih hr
      rw [hnw]
      exact ⟨forall_mem_cons.mpr ⟨hfr, hrt⟩, hpr, htt, hby⟩
    next hac =>
      have hnw : state.newKeys (key :: keys) = key :: state.newKeys keys := by
        apply filter_cons_of_pos
        simpa using hac
      simp only [bind_eq_ok] at hr
      obtain ⟨held, hh, hr⟩ := hr
      obtain ⟨hrt, hpr, htt, hby⟩ := ih hr
      have hpc := inFlightCharge_ok hh
      rw [hpc] at hh hby
      rw [hnw, length_cons, map_cons, sum_cons]
      refine ⟨forall_mem_cons.mpr ⟨hfr, hrt⟩, forall_mem_cons.mpr ⟨hh, hpr⟩, ?_, ?_⟩
      · omega
      · omega

lemma Balanced.retain_all {holder : ℕ} {total} (hbal : Balanced state held retired holders)
    (huniq : keys.Nodup) (hcost : state.extraCharge keys 0 holder = .ok (total, bytes)) :
    Balanced { state with
      bytes := state.bytes + bytes
      active := keys.foldl retain state.active } (keys ++ held) retired (holders + holder) := by
  obtain ⟨hrt, hpr, -, hby⟩ := extraCharge_ok hcost
  refine ⟨hbal.counts.retain_all keys, hbal.retiring, hbal.nodup, ?_, ?_, ?_, hbal.sound⟩
  · intro key hky
    rcases mem_append.mp hky with hky | hky
    · rw [← hbal.retiring]
      exact hrt key hky
    · exact hbal.disjoint key hky
  · intro key hky
    by_cases hac : key ∈ state.active
    · exact hbal.priced key (.inl (hbal.counts.mem_iff.mp hac))
    · rcases hky with hky | hky
      · rcases mem_append.mp hky with hky | hky
        · apply hpr key
          simpa [InFlightState.newKeys] using ⟨hky, hac⟩
        · exact hbal.priced key (.inl hky)
      · exact hbal.priced key (.inr hky)
  · have hol := hbal.bytes
    rw [InFlightState.registeredBytes] at hol ⊢
    dsimp only
    rw [charged_retain_all keyCharge huniq]
    rw [InFlightState.newKeys] at hby
    omega

/-! ## Retirements -/

lemma retirementCharge_ok (hcost : retirementCharge requests = .ok bytes) :
    (∀ entry ∈ requests, inFlightCharge entry.key = .ok (keyCharge entry.key)) ∧
      bytes = ((requests.map RemovedRequest.key).map keyCharge).sum := by
  rw [retirementCharge] at hcost
  rw [← Nat.zero_add (sum _)]
  generalize (0 : ℕ) = start at hcost ⊢
  induction requests generalizing start with
  | nil =>
    cases hcost
    simp
  | cons entry requests ih =>
    simp only [foldlM_cons, bind_eq_ok, okOr_eq_ok, checkedAdd_eq_some] at hcost
    obtain ⟨_, ⟨held, hh, _, rfl⟩, hr⟩ := hcost
    obtain ⟨hpr, hby⟩ := ih _ hr
    have hpc := inFlightCharge_ok hh
    rw [hpc] at hh hby
    refine ⟨forall_mem_cons.mpr ⟨hh, hpr⟩, ?_⟩
    rw [hby, map_cons, map_cons, sum_cons, Nat.add_assoc]

omit footprint in
lemma InFlightState.mem_protectedKeys :
    key ∈ state.protectedKeys ↔ key ∈ state.active ∨ key ∈ state.retiring := by
  rw [protectedKeys, mem_toFinset, mem_append, ExtTreeMap.mem_keys, mem_toList]

lemma Balanced.retire (hbal : Balanced state held retired holders)
    (hsel : Selected limits state.protectedKeys delta)
    (hcost : retirementCharge delta.requests = .ok bytes) :
    Balanced (state.retire delta.requests bytes).1 held
      (delta.requests.map RemovedRequest.key ++ retired) holders := by
  obtain ⟨hpr, hby⟩ := retirementCharge_ok hcost
  have hfr : ∀ key ∈ delta.requests.map RemovedRequest.key, key ∉ held ∧ key ∉ retired := by
    intro key hky
    obtain ⟨entry, he, rfl⟩ := mem_map.mp hky
    have hop := hsel.unprotected entry he
    rw [mem_protectedKeys, hbal.counts.mem_iff, hbal.retiring, not_or] at hop
    exact hop
  refine ⟨hbal.counts, ?_, ?_, ?_, ?_, ?_, hbal.sound⟩
  · intro key
    rw [InFlightState.retire, mem_insert_all, mem_append, hbal.retiring]
  · refine hsel.nodup.append hbal.nodup ?_
    intro key hky
    exact (hfr key hky).2
  · intro key hky
    rw [mem_append, not_or]
    exact ⟨fun hm => (hfr key hm).1 hky, hbal.disjoint key hky⟩
  · rintro key (hky | hky)
    · exact hbal.priced key (.inl hky)
    · rcases mem_append.mp hky with hky | hky
      · obtain ⟨entry, he, rfl⟩ := mem_map.mp hky
        exact hpr entry he
      · exact hbal.priced key (.inr hky)
  · have hol := hbal.bytes
    have hab : ∀ key ∈ delta.requests.map RemovedRequest.key, key ∉ state.retiring := by
      intro key hky
      rw [hbal.retiring]
      exact (hfr key hky).2
    rw [InFlightState.registeredBytes] at hol ⊢
    dsimp only [InFlightState.retire]
    rw [setTotal_insert_all keyCharge hsel.nodup hab]
    omega

/-- A prepared retirement is a selection within the limits whose keys fit the
byte budget. -/
lemma InFlightState.selectRetirement_ok
    (hpick : state.selectRetirement current now isProtected limits =
      .ok (some (after, next, delta, guarded))) :
    ∃ bytes, Selected limits isProtected delta ∧ retirementCharge delta.requests = .ok bytes ∧
      state.bytes + bytes ≤ protectedKeyBytes ∧
      (after, guarded) = state.retire delta.requests bytes := by
  induction hie : limits.cleanupItems using Nat.strong_induction_on
    generalizing limits with
  | _ items ih =>
    rw [selectRetirement] at hpick
    split at hpick
    · cases hpick
    · cases hpick
    next chosen picked hpp =>
      split at hpick
      · cases hpick
      next bytes hch =>
        split at hpick
        next hrm =>
          rw [Option.any_eq_true] at hrm
          obtain ⟨total, htt, hrm⟩ := hrm
          obtain ⟨_, rfl⟩ := checkedAdd_eq_some.mp htt
          cases hpick
          exact ⟨bytes, State.prepareHistory_ok hpp, hch, of_decide_eq_true hrm, rfl⟩
        · split at hpick
          · cases hpick
          next hitems_gt =>
            have hls : limits.cleanupItems / 2 < items := by omega
            obtain ⟨bytes, hse, hr⟩ := ih _ hls hpick rfl
            have hle := hse.room
            refine ⟨bytes, ⟨hse.nodup, ?_, hse.unprotected⟩, hr⟩
            dsimp only at hle
            omega

/-! ## Bounds -/

/-- The registry is within its key limit and its byte budget. -/
structure Bounded (limit : ℕ) (state : InFlightState) : Prop where
  keys : state.active.size + state.retiring.size ≤ limit
  bytes : state.bytes ≤ protectedKeyBytes

variable {limit : ℕ}

omit footprint in
lemma Bounded.discharge (hbound : Bounded limit state) (amount) :
    Bounded limit (state.discharge amount) := by
  rw [InFlightState.discharge]
  split
  next bytes hby =>
    refine ⟨hbound.keys, ?_⟩
    obtain ⟨taken, _, hsb⟩ := Option.bind_eq_some_iff.mp hby
    obtain ⟨_, rfl⟩ := checkedSub_eq_some.mp hsb
    exact (Nat.sub_le _ _).trans hbound.bytes
  · exact ⟨hbound.keys, hbound.bytes⟩

lemma Bounded.release_key (hbound : Bounded limit state) (retirement key) :
    Bounded limit (state.releaseKey retirement key) := by
  have hky := hbound.keys
  cases retirement with
  | false =>
    have hnx : Bounded limit
        { state with active := (release state.active key).1 } := by
      refine ⟨?_, hbound.bytes⟩
      have hle : (release state.active key).1.size ≤ state.active.size := size_release_le
      dsimp only
      omega
    rw [InFlightState.releaseKey, if_neg Bool.false_ne_true]
    dsimp only
    split
    · exact hnx.discharge _
    · exact hnx
  | true =>
    have hnx : Bounded limit
        { state with retiring := state.retiring.erase key } := by
      refine ⟨?_, hbound.bytes⟩
      have hle : (state.retiring.erase key).size ≤ state.retiring.size := size_erase_le
      dsimp only
      omega
    rw [InFlightState.releaseKey, if_pos rfl]
    dsimp only
    split
    · exact hnx.discharge _
    · exact hnx

lemma Bounded.drop (hbound : Bounded limit state) (guarded) :
    Bounded limit (state.drop guarded) := by
  rw [InFlightState.drop]
  generalize h : state.discharge (some guarded.holderBytes) = start
  have hbound : Bounded limit start := h ▸ hbound.discharge _
  clear h
  induction guarded.keys generalizing start with
  | nil => exact hbound
  | cons key keys ih => exact ih _ (hbound.release_key _ key)

/-! ## Runs -/

/-- The registry is balanced against the guards that are out, and a guard of a
mutation holds the keys of all outcomes the mutation may record. -/
structure Protects (limit : ℕ) (world : InFlight) : Prop where
  balanced : Balanced world.state world.heldKeys world.retiredKeys world.holderBytes
  bounded : Bounded limit world.state
  admissions : ∀ pending ∈ world.pending, pending.identity.retirement = false ∧
      ∀ request ∈ pending.operation.requests pending.spare, request.value ∈ pending.identity.keys
  retirements : ∀ guarded ∈ world.retirements, guarded.retirement = true ∧ guarded.holderBytes = 0

lemma protects_new : Protects limit .new where
  balanced := balanced_default
  bounded := ⟨Nat.zero_le _, Nat.zero_le _⟩
  admissions := by simp [InFlight.new]
  retirements := by simp [InFlight.new]

lemma protectKey_ok (hprotect : protectKey limit acc request = .ok next) :
    ∀ key, key = request.value ∨ key ∈ acc.1 → key ∈ next.1 := by
  rw [protectKey] at hprotect
  split at hprotect
  next hh =>
    cases hprotect
    rintro key (rfl | hky)
    · exact hh
    · exact hky
  · simp only [bind_eq_ok, pure_eq_ok] at hprotect
    obtain ⟨_, _, _, _, _, _, rfl⟩ := hprotect
    intro key hky
    rw [mem_insert, Std.compare_eq_iff_eq]
    exact hky.imp_left Eq.symm

lemma mem_of_protect {requests : List (Owned RequestKey)}
    (hprotect : requests.foldlM (protectKey limit) acc = .ok last) :
    ∀ key, key ∈ requests.map Owned.value ∨ key ∈ acc.1 → key ∈ last.1 := by
  induction requests generalizing acc with
  | nil =>
    cases hprotect
    simp
  | cons request requests ih =>
    simp only [foldlM_cons, bind_eq_ok] at hprotect
    obtain ⟨next, hnx, hr⟩ := hprotect
    have had := protectKey_ok hnx
    intro key hky
    apply ih hr
    rw [map_cons, mem_cons] at hky
    rcases hky with (hky | hky) | hky
    · exact .inr (had key (.inl hky))
    · exact .inl hky
    · exact .inr (had key (.inr hky))

variable {world : InFlight} {next : InFlightState} {guarded : InFlightGuard}

lemma Protects.admission {operation} (hprot : Protects limit world)
    (hadm : world.state.admission limit operation spare = .ok (next, guarded)) :
    Protects limit { world with
      state := next
      pending := ⟨guarded, operation, spare⟩ :: world.pending } := by
  simp only [InFlightState.admission, bind_eq_ok, pure_eq_ok, Prod.exists, ensure_eq_ok] at hadm
  obtain ⟨keys, bytes, hpo, _, _, count, extra, hch, _, hads, hrs⟩ := hadm
  cases hrs
  obtain ⟨-, -, hc, -⟩ := extraCharge_ok hch
  simp only [InFlightState.admits, Bool.and_eq_true, decide_eq_true_eq,
    Option.any_eq_true, checkedAdd_eq_some] at hads
  obtain ⟨hky, _, ⟨_, rfl⟩, hby⟩ := hads
  refine ⟨?_, ⟨?_, hby⟩, ?_, hprot.retirements⟩
  · have hbl := hprot.balanced.retain_all (nodup_setToList keys) hch
    rw [Nat.add_comm world.holderBytes] at hbl
    exact hbl
  · have hsz : (keys.toList.foldl retain world.state.active).size = _ :=
      size_retain_all (nodup_setToList keys)
    rw [InFlightState.newKeys] at hc
    dsimp only
    omega
  · intro pending hpn
    rcases mem_cons.mp hpn with rfl | hpn
    · refine ⟨rfl, fun request hrq => ?_⟩
      rw [mem_toList]
      exact mem_of_protect hpo _ (.inl (mem_map_of_mem hrq))
    · exact hprot.admissions pending hpn

lemma Protects.retirement (hprot : Protects limit world)
    (hprep : world.state.prepareHistory limit current now limits =
      .ok (some (next, chosen, delta, guarded))) : Protects limit { world with
      state := next
      retirements := guarded :: world.retirements } ∧
    ∀ entry ∈ delta.requests, entry.key ∉ world.heldKeys := by
  simp only [InFlightState.prepareHistory, bind_eq_ok] at hprep
  obtain ⟨_, _, hse⟩ := hprep
  split at hse
  · cases hse
  · obtain ⟨bytes, hsl, hch, hby, hrs⟩ := selectRetirement_ok hse
    cases hrs
    have hbl := hprot.balanced.retire hsl hch
    constructor
    · refine ⟨hbl, ⟨?_, hby⟩, hprot.admissions, ?_⟩
      · have hab : ∀ key ∈ delta.requests.map RemovedRequest.key, key ∉ world.state.retiring := by
          intro key hky hrt
          obtain ⟨entry, he, rfl⟩ := mem_map.mp hky
          exact hsl.unprotected entry he (mem_protectedKeys.mpr (.inr hrt))
        have hsz := size_insert_all hsl.nodup hab
        have hrm := hsl.room
        rw [length_map] at hsz
        dsimp only [InFlightState.retire] at hrm ⊢
        omega
      · exact forall_mem_cons.mpr ⟨⟨rfl, rfl⟩, hprot.retirements⟩
    · intro entry he hh
      refine hbl.disjoint entry.key hh (mem_append_left _ ?_)
      exact mem_map_of_mem he

lemma Protects.settle {retirements}
    (hprot : Protects limit ⟨state, before ++ pending :: later, retirements⟩) :
    Protects limit ⟨state.drop pending.identity, before ++ later, retirements⟩ := by
  have hfr := (hprot.admissions pending (by simp)).1
  have hpe : (before ++ pending :: later).Perm (pending :: (before ++ later)) := perm_middle
  have hh := hpe.flatMap_right fun pending => pending.identity.keys
  have hby := (hpe.map fun pending => pending.identity.holderBytes).sum_eq
  refine ⟨?_, hprot.bounded.drop _, ?_, hprot.retirements⟩
  · have hbl := hprot.balanced.perm hh (.refl _)
    rw [InFlight.holderBytes, hby, map_cons, sum_cons, Nat.add_comm] at hbl
    rw [InFlightState.drop, hfr]
    exact hbl.discharge.release_all
  · intro other ho
    apply hprot.admissions other
    exact hpe.mem_iff.mpr (mem_cons_of_mem _ ho)

lemma Protects.unprotect {retirement}
    (hprot : Protects limit ⟨state, pending, before ++ retirement :: later⟩) :
    Protects limit ⟨state.drop retirement, pending, before ++ later⟩ := by
  obtain ⟨hrt, hhl⟩ := hprot.retirements retirement (by simp)
  have hpe : (before ++ retirement :: later).Perm
      (retirement :: (before ++ later)) := perm_middle
  have hre := hpe.flatMap_right InFlightGuard.keys
  refine ⟨?_, hprot.bounded.drop _, hprot.admissions, ?_⟩
  · have hbl := hprot.balanced.perm (.refl _) hre
    rw [InFlightState.drop, hrt, hhl]
    exact hbl.discharge.unretire_all
  · intro other ho
    apply hprot.retirements other
    exact hpe.mem_iff.mpr (mem_cons_of_mem _ ho)

lemma Protects.step (hprot : Protects limit world) (hstep : InFlightStep limit world event after) :
    Protects limit after := by
  cases hstep with
  | admitted had => exact hprot.admission had
  | refusedAdmission | refusedRetirement => exact hprot
  | retired hpp => exact (hprot.retirement hpp).1
  | settled => exact hprot.settle
  | unprotected => exact hprot.unprotect

lemma run_protects (hrun : Run (InFlightStep limit) .new events world) : Protects limit world :=
  hrun.invariant Protects.step protects_new

/-- Whatever is admitted, retired and dropped, and in whatever order, the
registry stays exact and within its limits, and retention leaves alone what a
mutation in flight may record. -/
theorem inFlight_registry_protects {events : List InFlightEvent}
    (hrun : Run (InFlightStep limit) .new events world) :
    (∀ key, key ∈ world.state.active → key ∉ world.state.retiring) ∧
    world.state.active.size + world.state.retiring.size ≤ limit ∧
    (∀ key, key ∈ world.state.active ∨ key ∈ world.state.retiring →
      inFlightCharge key = .ok (keyCharge key)) ∧
    world.state.bytes = world.state.registeredBytes + world.holderBytes ∧
    world.state.bytes ≤ protectedKeyBytes ∧ world.state.failed = false ∧
    ∀ (current chosen : State) (now : ℕ) (limits : Limits)
        (next : InFlightState) (delta : Delta) (guarded : InFlightGuard),
      world.state.prepareHistory limit current now limits =
          .ok (some (next, chosen, delta, guarded)) →
        ∀ pending ∈ world.pending, ∀ request ∈ pending.operation.requests pending.spare,
            ∀ entry ∈ delta.requests, entry.key ≠ request.value := by
  have hprotects := run_protects hrun
  have hbalanced := hprotects.balanced
  refine ⟨?_, hprotects.bounded.keys, ?_, hbalanced.bytes, hprotects.bounded.bytes, hbalanced.sound,
    ?_⟩
  · intro key hactive
    rw [hbalanced.retiring]
    exact hbalanced.disjoint key (hbalanced.counts.mem_iff.mp hactive)
  · intro key hkey
    rw [hbalanced.counts.mem_iff, hbalanced.retiring] at hkey
    exact hbalanced.priced key hkey
  · intro current chosen now limits next delta guarded hprep pending hpending request hrequest entry
      hrow heq
    apply (hprotects.retirement hprep).2 entry hrow
    rw [heq]
    exact List.mem_flatMap.mpr ⟨pending, hpending,
      (hprotects.admissions pending hpending).2 request hrequest⟩

end Registry

/-! ## One admission -/

def registration (requestId : String) : Mutation :=
  .registerNode ⟨"caller", requestId⟩ ⟨"node", "session", "", "", "", true, [], 30⟩

def sampleRegistration : Mutation := registration "request"

lemma sampleRegistration_admitted : letI := plainFootprint
    ∃ world, Run (InFlightStep 4) .new [.admitted sampleRegistration] world ∧
      world.holderBytes = 160 := by
  let _ := plainFootprint
  have hby : (InFlightState.default.admission 4 sampleRegistration 0).map
      (fun result => result.2.holderBytes) = .ok 160 := by
    decide +kernel
  cases had : InFlightState.default.admission 4 sampleRegistration 0 with
  | error error =>
    rw [had] at hby
    cases hby
  | ok result =>
    rw [had] at hby
    have hhl : result.2.holderBytes = 160 := Except.ok.inj hby
    have hst : InFlightStep 4 .new (.admitted sampleRegistration) _ := .admitted had
    refine ⟨_, Run.snoc (.refl InFlight.new) hst, ?_⟩
    simpa [InFlight.holderBytes, InFlight.new] using hhl

/-- Two registrations are admitted, an outcome of a store is retired, and the
first registration is settled. -/
def sampleWorld : Result (InFlight × Delta) :=
  letI := plainFootprint
  letI := plainCodec
  do
    let (one, first) ← InFlightState.default.admission 4 (registration "first") 0
    let (two, second) ← one.admission 4 (registration "second") 0
    let (store, _, _) ← State.default.prepareTxnRecord (fun _ => 0) (deletingTxn 0) 1 65536
    match ← two.prepareHistory 4 store 1000 ⟨1, 1, 1, 1, 1, 1, 4, 4⟩ with
    | none => .error (invalidContract "nothing retired")
    | some (three, _, delta, retired) =>
      return (⟨three.drop first, [⟨second, registration "second", 0⟩], [retired]⟩, delta)

lemma sampleWorld_run {world delta} (hworld : sampleWorld = .ok (world, delta)) :
    letI := plainFootprint
    ∃ first, Run (InFlightStep 4) .new [.admitted (registration "first"),
      .admitted (registration "second"), .retired delta, .settled first] world := by
  let _ := plainFootprint
  simp only [sampleWorld, bind_eq_ok] at hworld
  obtain ⟨⟨one, first⟩, hone, ⟨two, second⟩, htwo, _, -, retirement, hdrop, hworld⟩ := hworld
  rcases retirement with _ | ⟨three, next, _, retired⟩
  · cases hworld
  · cases hworld
    have hadmitted := Run.snoc (.snoc (.refl .new) (.admitted hone)) (InFlightStep.admitted htwo)
    exact ⟨⟨first, registration "first", 0⟩, (hadmitted.snoc (.retired hdrop)).snoc
      (@InFlightStep.settled _ _ _ [⟨second, registration "second", 0⟩] [] _ [retired])⟩

/-- The byte total is exact, and what is retiring is apart from what is in flight. -/
theorem sampleWorld_protected : letI := plainFootprint
    ∃ world events, Run (InFlightStep 4) .new events world ∧ events.length = 4 ∧
      world.state.active.size = 1 ∧ world.state.retiring.size = 1 ∧
      world.state.bytes = world.state.registeredBytes + 160 ∧ world.state.failed = false := by
  let _ := plainFootprint
  have hsizes : sampleWorld.map (fun (world, _) => (world.state.active.size,
      world.state.retiring.size, world.holderBytes)) = .ok (1, 1, 160) := by
    unfold sampleWorld InFlightState.prepareHistory InFlightState.selectRetirement
      State.prepareHistory Index.select
    -- the kernel does not compute the least element of a tree
    simp only [ExtTreeMap.minKey?_eq_head?_keys, ExtTreeSet.min?_eq_head?_toList]
    decide +kernel
  cases hworld : sampleWorld with
  | error error =>
    rw [hworld] at hsizes
    cases hsizes
  | ok result =>
    rw [hworld] at hsizes
    have hsizes := Except.ok.inj hsizes
    simp only [Prod.mk.injEq] at hsizes
    obtain ⟨hactive, hretiring, hown⟩ := hsizes
    obtain ⟨first, hrun⟩ := sampleWorld_run hworld
    obtain ⟨-, -, -, hbytes, -, hinv, -⟩ := inFlight_registry_protects hrun
    rw [hown] at hbytes
    exact ⟨_, _, hrun, rfl, hactive, hretiring, hbytes, hinv⟩

/-- The admission itself is charged as well. -/
theorem admission_is_charged : letI := plainFootprint
    ∃ world, Run (InFlightStep 4) .new [.admitted sampleRegistration] world ∧
      world.state.bytes ≠ world.state.registeredBytes := by
  let _ := plainFootprint
  obtain ⟨world, hrun, hown⟩ := sampleRegistration_admitted
  have hbytes := (run_protects hrun).balanced.bytes
  refine ⟨world, hrun, ?_⟩
  omega

end AgentDx.Store
