import AgentDx.Dfs.Chunk

/-!
# Aliases of template versions

An alias spreads bindings over versions by their weights.  The hash of a binding
is scaled to the sum of the weights and falls into the interval of one version, so
the choice depends on the versions and the ratios of their weights only.
-/

namespace AgentDx.Agent

open List

/-! ## Checks -/

def require (condition : Bool) (message : String) : Except String Unit :=
  if condition then .ok () else .error message

@[simp]
lemma require_eq_ok {condition : Bool} {message : String} :
    require condition message = .ok () ↔ condition = true := by
  unfold require
  split <;> simp_all

/-- `char::is_whitespace`. -/
def isWhitespace (char : Char) : Bool :=
  char.toNat ∈ [0x20, 0x85, 0xa0, 0x1680, 0x2028, 0x2029, 0x202f, 0x205f, 0x3000] ||
    (9 ≤ char.toNat && char.toNat ≤ 13) || (0x2000 ≤ char.toNat && char.toNat ≤ 0x200a)

/-- `char::is_control`. -/
def isControl (char : Char) : Bool := char.toNat < 0x20 || (0x7f ≤ char.toNat && char.toNat ≤ 0x9f)

def identifier (value label : String) : Except String Unit :=
  require (!value.toList.all isWhitespace && value.utf8ByteSize ≤ 512 &&
    !value.toList.any isControl)
    (label ++ " must be nonempty, at most 512 bytes and contain no control characters")

def aliasName (value : String) : Except String Unit := do
  identifier value "alias"
  require (!value.toList.all Char.isDigit) "alias must not be purely numeric"

def versionNumber (value : String) : Except String Unit :=
  match Dfs.parseWord value with
  | none => .error "version must be a positive decimal u64"
  | some number => require (number ≠ 0 && toString number = value)
      "version must be a canonical positive decimal u64"

/-! ## Selection -/

structure VersionWeight where
  version : String
  weight : ℕ
  deriving DecidableEq

/-- The weight is multiplied. -/
def VersionWeight.scale (factor : ℕ) (entry : VersionWeight) : VersionWeight :=
  ⟨entry.version, factor * entry.weight⟩

structure AliasConfig where
  tenant : String
  template : String
  /-- `alias`. -/
  name : String
  seed : String
  versions : List VersionWeight

/-- The canonical order: shorter versions first. -/
def canonical (version : String) : ℕ ×ₗ String := toLex (version.utf8ByteSize, version)

/-- The sum of the weights of the versions that are kept. -/
def weights (versions : List VersionWeight) (kept : String → Bool) : ℕ :=
  ((versions.filter (kept ·.version)).map VersionWeight.weight).sum

def validateVersions (names : List String) (total : ℕ) : List VersionWeight → Except String ℕ
  | [] => .ok total
  | entry :: rest => do
    versionNumber entry.version
    require (!names.contains entry.version) "duplicate alias version"
    require (total + entry.weight < 2 ^ 64) "alias weight sum overflow"
    validateVersions (entry.version :: names) (total + entry.weight) rest

/-- The first version whose end the point is before. -/
def choose (point cumulative : ℕ) : List VersionWeight → Option String
  | [] => none
  | entry :: rest =>
    if point < (cumulative + entry.weight) * 2 ^ 64 then some entry.version
    else choose point (cumulative + entry.weight) rest

namespace AliasConfig

variable (config : AliasConfig)

def identifiers : Except String Unit := do
  identifier config.tenant "tenant"
  identifier config.template "template"
  identifier config.name "alias"
  identifier config.seed "seed"
  aliasName config.name

def validate : Except String Unit := do
  config.identifiers
  let total ← validateVersions [] 0 config.versions
  require (total ≠ 0) "alias total weight must be positive"

def total : ℕ := (config.versions.map VersionWeight.weight).sum

variable (hash : List String → UInt64) (bindingId : String)

/-- The first bytes of the hash of the encoded key. -/
def hashPoint : ℕ :=
  (hash [config.tenant, config.template, config.name, config.seed, bindingId]).toNat

def ordered : List VersionWeight :=
  config.versions.insertionSort fun left right => canonical left.version ≤ canonical right.version

def select : Except String String := do
  config.validate
  identifier bindingId "binding_id"
  match choose (config.hashPoint hash bindingId * config.total) 0 config.ordered with
  | some version => .ok version
  | none => .error "alias selection has no positive interval"

/-! ## Intervals -/

/-- The weights of the versions before an entry. -/
def start (entry : VersionWeight) : ℕ :=
  weights config.versions fun version => canonical version < canonical entry.version

/-- The hash points of an entry: an interval of `weight / total` of all of them. -/
def Owns (entry : VersionWeight) (point : ℕ) : Prop :=
  config.start entry * 2 ^ 64 ≤ point * config.total ∧
    point * config.total < (config.start entry + entry.weight) * 2 ^ 64

/-- What the checks of the versions come to. -/
structure Valid : Prop where
  identifiers : config.identifiers = .ok ()
  versions : ∀ entry ∈ config.versions, versionNumber entry.version = .ok ()
  distinct : (config.versions.map VersionWeight.version).Nodup
  positive : 0 < config.total
  fits : config.total < 2 ^ 64

end AliasConfig

lemma bind_eq_ok {A B : Type} {first : Except String A} {next : A → Except String B} {value : B} :
    (first >>= next) = .ok value ↔ ∃ middle, first = .ok middle ∧ next middle = .ok value := by
  cases first <;> simp [bind, Except.bind]

lemma unit_bind_eq_ok {B : Type} {first : Except String Unit} {next : Unit → Except String B}
    {value : B} : (first >>= next) = .ok value ↔ first = .ok () ∧ next () = .ok value := by
  cases first <;> simp [bind, Except.bind]

lemma validateVersions_eq_ok {names : List String} {total sum : ℕ} {entries : List VersionWeight}
    (hfits : total < 2 ^ 64) : validateVersions names total entries = .ok sum ↔
      (∀ entry ∈ entries, versionNumber entry.version = .ok ()) ∧
      (entries.map VersionWeight.version).Nodup ∧ (∀ entry ∈ entries, entry.version ∉ names) ∧
      total + (entries.map VersionWeight.weight).sum = sum ∧ sum < 2 ^ 64 := by
  induction entries generalizing names total with
  | nil =>
    simp only [validateVersions, Except.ok.injEq, map_nil, sum_nil, add_zero]
    grind
  | cons entry rest ih =>
    simp only [validateVersions, unit_bind_eq_ok, require_eq_ok, decide_eq_true_eq,
      Bool.not_eq_true', contains_eq_mem, decide_eq_false_iff_not, forall_mem_cons, map_cons,
        nodup_cons, sum_cons]
    constructor
    · rintro ⟨hvr, hfr, hft, hr⟩
      obtain ⟨hve, hds, hnm, hsm, hbo⟩ := (ih hft).mp hr
      have hot : entry.version ∉ rest.map VersionWeight.version := by
        rw [mem_map]
        rintro ⟨other, hot, heq⟩
        exact hnm other hot (mem_cons.mpr (.inl heq))
      refine ⟨⟨hvr, hve⟩, ⟨hot, hds⟩, ⟨hfr, fun other hm => ?_⟩, by omega, hbo⟩
      exact fun hna => hnm other hm (mem_cons_of_mem _ hna)
    · rintro ⟨⟨hvr, hve⟩, ⟨hot, hds⟩, ⟨hfr, hnm⟩, hsm, hbo⟩
      have hft : total + entry.weight < 2 ^ 64 := by omega
      refine ⟨hvr, hfr, hft, (ih hft).mpr ⟨hve, hds, fun other hm => ?_, by omega, hbo⟩⟩
      rw [mem_cons, not_or]
      exact ⟨fun heq => hot (mem_map.mpr ⟨other, hm, heq⟩), hnm other hm⟩

namespace AliasConfig

variable {config : AliasConfig}

lemma validate_eq_ok : config.validate = .ok () ↔ config.Valid := by
  rw [validate, unit_bind_eq_ok, bind_eq_ok]
  simp only [validateVersions_eq_ok (by decide : 0 < 2 ^ 64), require_eq_ok, decide_eq_true_eq,
    zero_add]
  constructor
  · rintro ⟨hid, total, ⟨hvr, hds, -, rfl, hft⟩, hps⟩
    exact ⟨hid, hvr, hds, Nat.pos_of_ne_zero hps, hft⟩
  · intro hvalid
    exact ⟨hvalid.identifiers, _, ⟨hvalid.versions, hvalid.distinct, by simp, rfl, hvalid.fits⟩,
      hvalid.positive.ne'⟩

end AliasConfig

/-! ## The choice -/

variable {point cumulative : ℕ} {entry : VersionWeight} {before after entries : List VersionWeight}

lemma choose_append (hlow : (cumulative + (before.map VersionWeight.weight).sum) * 2 ^ 64 ≤ point)
    (hen : point < (cumulative + (before.map VersionWeight.weight).sum + entry.weight) * 2 ^ 64) :
    choose point cumulative (before ++ entry :: after) = some entry.version := by
  induction before generalizing cumulative with
  | nil =>
    simp only [map_nil, sum_nil, add_zero] at hen
    rw [nil_append, choose, if_pos hen]
  | cons first rest ih =>
    rw [map_cons, sum_cons, ← add_assoc] at hlow hen
    have hlt : ¬point < (cumulative + first.weight) * 2 ^ 64 := by
      rw [not_lt]
      exact le_trans (Nat.mul_le_mul_right _ (Nat.le_add_right _ _)) hlow
    rw [cons_append, choose, if_neg hlt, ih hlow hen]

lemma exists_split (hlow : cumulative * 2 ^ 64 ≤ point)
    (hen : point < (cumulative + (entries.map VersionWeight.weight).sum) * 2 ^ 64) :
    ∃ before entry after, entries = before ++ entry :: after ∧
      (cumulative + (before.map VersionWeight.weight).sum) * 2 ^ 64 ≤ point ∧
      point < (cumulative + (before.map VersionWeight.weight).sum + entry.weight) * 2 ^ 64 := by
  induction entries generalizing cumulative with
  | nil => simp at hen; omega
  | cons first rest ih =>
    rw [map_cons, sum_cons, ← add_assoc] at hen
    by_cases hfr : point < (cumulative + first.weight) * 2 ^ 64
    · exact ⟨[], first, rest, rfl, by simpa using hlow, by simpa using hfr⟩
    · obtain ⟨before, entry, after, rfl, hfm, hto⟩ := ih (not_lt.mp hfr) hen
      exact ⟨first :: before, entry, after, rfl, by simpa [add_assoc] using hfm,
        by simpa [add_assoc] using hto⟩

namespace AliasConfig

variable {config : AliasConfig} {hash : List String → UInt64} {bindingId : String}

lemma total_eq : config.total = weights config.versions fun _ => true := by
  simp [total, weights]

lemma ordered_perm : config.ordered.Perm config.versions := perm_insertionSort _ _

lemma owns_second {first second : VersionWeight} {point : ℕ}
    (hpair : config.versions = [first, second])
    (horder : canonical first.version < canonical second.version) : config.Owns second point ↔
      first.weight * 2 ^ 64 ≤ point * (first.weight + second.weight) ∧
        point * (first.weight + second.weight) < (first.weight + second.weight) * 2 ^ 64 := by
  simp [Owns, start, weights, total, hpair, horder]

section

variable (hvalid : config.Valid)
include hvalid

lemma Valid.ordered_strict :
    config.ordered.Pairwise fun left right => canonical left.version < canonical right.version := by
  have hle : config.ordered.Pairwise fun left right =>
      canonical left.version ≤ canonical right.version := pairwise_insertionSort _ _
  have hne : config.ordered.Pairwise fun left right => left.version ≠ right.version :=
    pairwise_map.mp ((ordered_perm.map _).nodup_iff.mpr hvalid.distinct)
  refine (hle.and hne).imp fun ⟨hle, hne⟩ => hle.lt_of_ne fun hky => hne ?_
  exact congrArg (fun key => (ofLex key).2) hky

/-- In the canonical order, what is before an entry are the weights of `start`. -/
lemma Valid.start_eq (hcut : config.ordered = before ++ entry :: after) :
    config.start entry = (before.map VersionWeight.weight).sum := by
  have hst := hvalid.ordered_strict
  rw [hcut, pairwise_append, pairwise_cons] at hst
  obtain ⟨-, ⟨haf, -⟩, hbf⟩ := hst
  have hfl : config.ordered.filter (canonical ·.version < canonical entry.version) = before := by
    rw [hcut, filter_append, filter_eq_self.mpr, filter_eq_nil_iff.mpr, append_nil]
    · intro other hot
      rcases mem_cons.mp hot with rfl | hot
      · simp
      · simpa using (haf other hot).le
    · intro other hot
      simpa using hbf other hot entry mem_cons_self
  rw [start, ← hfl]
  exact ((ordered_perm.filter _).map _).sum_eq.symm

lemma Valid.hashPoint_lt (hash bindingId) :
    config.hashPoint hash bindingId * config.total < config.total * 2 ^ 64 := by
  rw [mul_comm]
  exact Nat.mul_lt_mul_of_pos_left (UInt64.toNat_lt _) hvalid.positive

lemma Valid.exists_owner (hash bindingId) :
    ∃ entry ∈ config.versions, 0 < entry.weight ∧
        config.Owns entry (config.hashPoint hash bindingId) := by
  have hsm : (config.ordered.map VersionWeight.weight).sum = config.total :=
    (ordered_perm.map _).sum_eq
  obtain ⟨before, entry, after, hsp, hfr, hto⟩ :=
    @exists_split _ 0 config.ordered (by simp)
      (by simpa [hsm] using hvalid.hashPoint_lt hash bindingId)
  rw [zero_add, ← hvalid.start_eq hsp] at hfr hto
  refine ⟨entry, ordered_perm.subset (by simp [hsp]), ?_, hfr, hto⟩
  by_contra hzr
  rw [Nat.eq_zero_of_not_pos hzr, add_zero] at hto
  exact hto.not_ge hfr

variable (hbind : identifier bindingId "binding_id" = .ok ())
include hbind

lemma Valid.select_of_owns (hen : entry ∈ config.versions)
    (how : config.Owns entry (config.hashPoint hash bindingId)) :
    config.select hash bindingId = .ok entry.version := by
  obtain ⟨before, after, hsp⟩ := append_of_mem (ordered_perm.mem_iff.mpr hen)
  rw [Owns, hvalid.start_eq hsp] at how
  have hch := @choose_append _ 0 _ _ after (by simpa using how.1) (by simpa using how.2)
  simp only [select, validate_eq_ok.mpr hvalid, hbind, hsp, hch]
  rfl

lemma Valid.select_iff (hen : entry ∈ config.versions) :
    config.select hash bindingId = .ok entry.version ↔
      config.Owns entry (config.hashPoint hash bindingId) := by
  refine ⟨fun hsl => ?_, hvalid.select_of_owns hbind hen⟩
  obtain ⟨owner, how, -, hos⟩ := hvalid.exists_owner hash bindingId
  rw [hvalid.select_of_owns hbind how hos, Except.ok.injEq] at hsl
  rwa [← inj_on_of_nodup_map hvalid.distinct how hen hsl]

/-- Versions whose weights have the same ratios share the points in the same way. -/
lemma Valid.select_ratio {versions : List VersionWeight} {factor : ℕ}
    (hnums : ∀ entry ∈ versions, versionNumber entry.version = .ok ())
    (huniq : (versions.map VersionWeight.version).Nodup)
    (hpos : 0 < factor) (hfits : factor * config.total < 2 ^ 64)
    (hsums : ∀ kept, weights versions kept = factor * weights config.versions kept)
    (him : ∀ entry ∈ config.versions, 0 < entry.weight → entry.scale factor ∈ versions) :
    { config with versions := versions }.select hash bindingId = config.select hash bindingId := by
  have htt : total { config with versions := versions } = factor * config.total := by
    rw [total_eq, hsums, total_eq]
  have hot : Valid { config with versions := versions } :=
    ⟨hvalid.identifiers, hnums, huniq, htt ▸ Nat.mul_pos hpos hvalid.positive, htt ▸ hfits⟩
  obtain ⟨owner, hon, hps, how⟩ := hvalid.exists_owner hash bindingId
  rw [hvalid.select_of_owns hbind hon how]
  refine @Valid.select_of_owns (owner.scale factor) _ _ _ hot hbind (him owner hon hps) ?_
  rw [Owns, htt, start, hsums, VersionWeight.scale, ← mul_add, mul_left_comm, mul_assoc, mul_assoc]
  exact ⟨Nat.mul_le_mul_left _ how.1, Nat.mul_lt_mul_of_pos_left how.2 hpos⟩

/-- Of two versions, the second one keeps its bindings when its weight grows. -/
lemma Valid.select_grown {first second : VersionWeight} {weight : ℕ}
    (hpair : config.versions = [first, second])
    (horder : canonical first.version < canonical second.version)
    (hmore : second.weight ≤ weight) (hfits : first.weight + weight < 2 ^ 64)
    (hpick : config.select hash bindingId = .ok second.version) :
    { config with versions := [first, ⟨second.version, weight⟩] }.select hash bindingId =
      .ok second.version := by
  have how := (hvalid.select_iff hbind (by simp [hpair])).mp hpick
  rw [owns_second hpair horder] at how
  have hot : Valid { config with versions := [first, ⟨second.version, weight⟩] } := by
    obtain ⟨hid, hnm, hds, hps, -⟩ := hvalid
    rw [hpair] at hnm hds
    rw [total, hpair] at hps
    refine ⟨hid, by simpa using hnm, by simpa using hds, ?_, by simpa [total] using hfits⟩
    refine hps.trans_le ?_
    simpa [total] using hmore
  refine @Valid.select_of_owns ⟨second.version, weight⟩ _ _ _ hot hbind (by simp) ?_
  refine (@owns_second _ first ⟨second.version, weight⟩ _ rfl horder).mpr ⟨?_, ?_⟩
  · exact how.1.trans (Nat.mul_le_mul_left _ (Nat.add_le_add_left hmore _))
  · simpa [total] using hot.hashPoint_lt hash bindingId

end

lemma weights_positive (versions : List VersionWeight) (kept : String → Bool) :
    weights versions kept = weights (versions.filter (0 < ·.weight)) kept := by
  induction versions with
  | nil => rfl
  | cons entry rest ih => grind [weights]

lemma weights_scaled (versions : List VersionWeight) (factor : ℕ) (kept : String → Bool) :
    weights (versions.map (.scale factor)) kept = factor * weights versions kept := by
  induction versions with
  | nil => rfl
  | cons entry rest ih => grind [weights, VersionWeight.scale]

/-- A valid alias has a version for every binding, by the ratios of the weights alone. -/
theorem alias_selection_stable (hok : config.validate = .ok ())
    (hbinding : identifier bindingId "binding_id" = .ok ()) :
    (∃ entry ∈ config.versions, 0 < entry.weight ∧
      config.select hash bindingId = .ok entry.version) ∧
    (∀ entry ∈ config.versions, config.select hash bindingId = .ok entry.version ↔
      config.Owns entry (config.hashPoint hash bindingId)) ∧
    (∀ versions, versions.Perm config.versions →
      { config with versions := versions }.select hash bindingId = config.select hash bindingId) ∧
    (∀ factor, 0 < factor → factor * config.total < 2 ^ 64 →
      { config with versions := config.versions.map (.scale factor) }.select hash bindingId =
        config.select hash bindingId) ∧
    (∀ versions, { config with versions := versions }.validate = .ok () ∨ versions <+
      config.versions →
      versions.filter (0 < ·.weight) = config.versions.filter (0 < ·.weight) →
      { config with versions := versions }.select hash bindingId = config.select hash bindingId) ∧
    ∀ first second weight, config.versions = [first, second] →
      canonical first.version < canonical second.version →
      second.weight ≤ weight → first.weight + weight < 2 ^ 64 →
      config.select hash bindingId = .ok second.version →
      { config with versions := [first, ⟨second.version, weight⟩] }.select hash bindingId =
        .ok second.version := by
  rw [validate_eq_ok] at hok
  refine ⟨?_, fun entry hen => hok.select_iff hbinding hen, fun versions hpr => ?_,
    fun factor hfc hft => ?_, fun versions hvr heq => ?_, fun _ _ _ => hok.select_grown hbinding⟩
  · obtain ⟨entry, hen, hps, how⟩ := hok.exists_owner hash bindingId
    exact ⟨entry, hen, hps, hok.select_of_owns hbinding hen how⟩
  · refine hok.select_ratio hbinding (fun entry hen => hok.versions entry (hpr.subset hen))
      ((hpr.map _).nodup_iff.mpr hok.distinct) one_pos (by simpa using hok.fits)
      (fun kept => ?_) fun entry hen _ => ?_
    · rw [one_mul]
      exact ((hpr.filter _).map _).sum_eq
    · rw [VersionWeight.scale, one_mul]
      exact hpr.mem_iff.mpr hen
  · refine hok.select_ratio hbinding ?_ ?_ hfc hft (weights_scaled _ _)
      fun entry hen _ => mem_map_of_mem hen
    · simpa [VersionWeight.scale] using hok.versions
    · simpa [VersionWeight.scale, Function.comp_def] using hok.distinct
  · have hnm : (∀ entry ∈ versions, versionNumber entry.version = .ok ()) ∧
        (versions.map VersionWeight.version).Nodup := by
      rcases hvr with hvr | hsb
      · rw [validate_eq_ok] at hvr
        exact ⟨hvr.versions, hvr.distinct⟩
      · exact ⟨fun entry hen => hok.versions entry (hsb.subset hen),
          hok.distinct.sublist (hsb.map _)⟩
    refine hok.select_ratio hbinding hnm.1 hnm.2 one_pos (by simpa using hok.fits)
      (fun kept => ?_) fun entry hen hps => ?_
    · rw [one_mul, weights_positive, heq, ← weights_positive]
    · have hm : entry ∈ versions.filter (0 < ·.weight) := by
        rw [heq]
        exact mem_filter.mpr ⟨hen, decide_eq_true hps⟩
      rw [VersionWeight.scale, one_mul]
      exact (mem_filter.mp hm).1

def sampleAlias : AliasConfig := ⟨"t", "p", "a", "s", [⟨"2", 1⟩, ⟨"1", 1⟩]⟩

theorem even_alias_stable :
    sampleAlias.validate = .ok () ∧ ∃ entry ∈ sampleAlias.versions, 0 < entry.weight ∧
      sampleAlias.select (fun _ => 0) "b" = .ok entry.version := by
  have hvalid : sampleAlias.validate = .ok () := by decide
  exact ⟨hvalid, (alias_selection_stable hvalid (by decide)).1⟩

/-! ## Growing the last version -/

lemma start_le {first second : VersionWeight}
    (horder : canonical first.version < canonical second.version) :
    config.start first ≤ config.start second := by
  refine Sublist.sum_le_sum (Sublist.map _ (monotone_filter_right _ fun entry hbf => ?_)) (by simp)
  simp only [decide_eq_true_eq] at hbf ⊢
  exact hbf.trans horder

lemma owner_of_select {version : String} (hpick : config.select hash bindingId = .ok version) :
    config.Valid ∧ identifier bindingId "binding_id" = .ok () ∧ ∃ entry ∈ config.versions,
      entry.version = version ∧ config.Owns entry (config.hashPoint hash bindingId) := by
  have hck := hpick
  rw [select, unit_bind_eq_ok, unit_bind_eq_ok, validate_eq_ok] at hck
  obtain ⟨hvalid, hbind, -⟩ := hck
  obtain ⟨entry, hen, -, how⟩ := hvalid.exists_owner hash bindingId
  rw [hvalid.select_of_owns hbind hen how] at hpick
  exact ⟨hvalid, hbind, entry, hen, Except.ok.inj hpick, how⟩

/-- When the weight of the last version grows, bindings move to later versions only. -/
theorem growing_last_moves_forward {before after : List VersionWeight} {last grown : VersionWeight}
    {version moved : String} (hversions : config.versions = before ++ last :: after)
    (hlast : ∀ entry ∈ config.versions, canonical entry.version ≤ canonical last.version)
    (hname : grown.version = last.version) (hgrown : last.weight ≤ grown.weight)
    (hpick : config.select hash bindingId = .ok version)
    (hmoved : { config with versions := before ++ grown :: after }.select hash bindingId =
      .ok moved) : canonical version ≤ canonical moved := by
  obtain ⟨hvalid, hbind, owner, hon, rfl, how⟩ := owner_of_select hpick
  obtain ⟨-, -, next, hnx, rfl, hnw⟩ := owner_of_select hmoved
  by_contra hlt
  rw [not_le] at hlt
  have hbf := hlt.trans_le (hlast owner hon)
  have hmm : next ∈ config.versions := by
    rw [hversions]
    rcases mem_append.mp hnx with hm | hm
    · exact mem_append_left _ hm
    · rcases mem_cons.mp hm with rfl | hm
      · exact absurd hbf (hname ▸ lt_irrefl _)
      · exact mem_append_right _ (mem_cons_of_mem _ hm)
  -- The intervals before the last version start where they did, on a longer line.
  have hst : start { config with versions := before ++ grown :: after } next =
      config.start next := by
    simp [start, weights, hversions, hname, hbf.not_gt]
  have htt : config.total ≤ total { config with versions := before ++ grown :: after } := by
    simp only [total, hversions, map_append, map_cons, sum_append, sum_cons]
    omega
  have hpt := Nat.mul_le_mul_left (config.hashPoint hash bindingId) htt
  have hen := hpt.trans_lt (hst ▸ hnw.2)
  have hbg := (Nat.mul_le_mul_right (2 ^ 64) (start_le hlt)).trans how.1
  have hsl := hvalid.select_of_owns hbind hmm ⟨hbg, hen⟩
  rw [hpick, Except.ok.injEq] at hsl
  exact hlt.ne (congrArg canonical hsl.symm)

theorem sample_moves_forward :
    sampleAlias.select (fun _ => 3 * 2 ^ 61) "b" = .ok "1" ∧ canonical "1" ≤ canonical "2" := by
  have hsl : sampleAlias.select (fun _ => 3 * 2 ^ 61) "b" = .ok "1" := by decide +kernel
  exact ⟨hsl, @growing_last_moves_forward sampleAlias _ _ [] _ ⟨"2", 1⟩ ⟨"2", 3⟩ _ _ rfl
    (by decide) rfl (by decide) hsl (by decide +kernel)⟩

end AliasConfig

end AgentDx.Agent
