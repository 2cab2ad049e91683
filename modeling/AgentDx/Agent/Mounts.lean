import AgentDx.Agent.Alias

/-!
# Mounts of a template

The host path of a mount may name parameters.  Their values are put between its
literal parts, below a root that is fixed, and the path that results is checked again.
-/

namespace AgentDx.Agent

open List

/-! ## Paths -/

abbrev Text := List Char

/-- `str::len`. -/
def byteLength (text : Text) : ℕ := (text.map Char.utf8Size).sum

def components (path : Text) : List Text := path.splitOn '/'

/-- The marks of a placeholder. -/
def marks : Text := ['$', '\x7b', '\x7d']

/-- A part of a path that stays in its folder. -/
def Proper (part : Text) : Prop := part ≠ [] ∧ part ≠ ['.'] ∧ part ≠ ['.', '.']

instance : DecidablePred Proper := fun _ => inferInstanceAs (Decidable (_ ∧ _))

def relativePath (path : Text) : Except String Unit :=
  require (path ≠ [] && byteLength path ≤ 4096 &&
    path.all (fun char => !isControl char && char ≠ '\x5c' && !marks.contains char) &&
    (components path).all fun part => decide (Proper part))
    "mount paths require nonempty components without traversal or expansion"

def absolutePath (path : Text) : Except String Unit := do
  require (byteLength path ≤ 4096) "mount path too long"
  match path with
  | '/' :: rest => relativePath rest
  | _ => .error "mount path must be absolute"

/-! ## Parameters -/

structure Parameters where
  entries : List (Text × Text)
  distinct : (entries.map Prod.fst).Nodup

def parameterName (name : Text) : Bool :=
  name ≠ [] && byteLength name ≤ 64 && name.all fun char => char.isAlphanum || char = '_'

def validateEntries : List (Text × Text) → Except String Unit
  | [] => .ok ()
  | (name, value) :: rest => do
    require (parameterName name) "invalid binding parameter name"
    require (byteLength value ≤ 8192 && !value.contains '\x00') "invalid parameter value"
    validateEntries rest

def validateParameters (parameters : Parameters) : Except String Unit := do
  require (parameters.entries.length ≤ 64) "at most 64 binding parameters are allowed"
  validateEntries parameters.entries

/-- A text by its literal parts and the names that follow them.  The last name may not be
closed. -/
inductive Template where
  | last (literal : Text) (closed : Bool)
  | piece (literal name : Text) (rest : Template)
  deriving DecidableEq

/-- The text is read from the left, within a name or not. -/
def parse (literal : Text) : Option Text → Text → Template
  | none, [] => .last literal true
  | none, '$' :: '\x7b' :: rest => parse literal (some []) rest
  | none, char :: rest => parse (literal ++ [char]) none rest
  | some _, [] => .last literal false
  | some name, '\x7d' :: rest => .piece literal name (parse [] none rest)
  | some name, char :: rest => parse literal (some (name ++ [char])) rest

def Template.names : Template → List Text
  | .last _ _ => []
  | .piece _ name rest => name :: rest.names

/-- The literal part before the first placeholder. -/
def Template.lead? : Template → Option Text
  | .last literal closed => if closed then none else some literal
  | .piece literal _ _ => some literal

/-- The loop of a rendering: literal parts are checked and kept, names are replaced. -/
def fill (check : Text → Except String Unit) (value : Text → Except String Text)
    (unterminated : String) : Template → Except String Text
  | .last literal closed => do
    check literal
    require closed unterminated
    return literal
  | .piece literal name rest => do
    check literal
    let inner ← value name
    let after ← fill check value unterminated rest
    return literal ++ inner ++ after

/-- What templates are checked with. -/
def standIn : Text := "parameter".toList

def parameterValue (parameters : Option Parameters) (invalid missing : String)
    (check : Text → Except String Unit) (name : Text) : Except String Text := do
  require (parameterName name) invalid
  match parameters with
  | none => return standIn
  | some parameters =>
    match parameters.entries.lookup name with
    | none => .error (missing ++ String.ofList name)
    | some value => do
      check value
      return value

/-- `parameters::render`. -/
def renderText (text : Text) (parameters : Option Parameters) : Except String Text :=
  fill (fun _ => .ok ()) (parameterValue parameters "invalid template parameter name"
    "missing template parameter: " fun _ => .ok ()) "unterminated template parameter"
    (parse [] none text)

/-! ## Mounts -/

def volumeId (value : Text) : Except String Unit :=
  require (value ≠ [] && byteLength value ≤ 256 && value ≠ ['.'] && value ≠ ['.', '.'] &&
    value.all fun char => char.isAlphanum || ['.', '_', '-'].contains char)
    "invalid Volume ID: expected 1–256 URL-safe ASCII characters"

/-- `volumes::identifier`. -/
def volumeIdentifier (value : Text) : Except String Unit :=
  require (!value.all isWhitespace && byteLength value ≤ 256 &&
    value.all fun char => !isControl char && !marks.contains char) "invalid Volume identifier"

structure CreateOptions where
  uid : ℕ
  gid : ℕ
  mode : Text

def CreateOptions.validate (options : CreateOptions) : Except String Unit := do
  require (options.uid ≠ 2 ^ 32 - 1 && options.gid ≠ 2 ^ 32 - 1)
    "create_options uid/gid must be below 4294967295"
  require (byteLength options.mode = 4 && options.mode.head? = some '0' &&
    options.mode.all fun char => '0' ≤ char && char ≤ '7')
    "create_options mode must be four octal digits from 0000 to 0777"

structure Mount where
  hostPath : Text
  volumeId : Option Text
  volumeUid : Option Text
  target : Text
  options : List String
  createIfMissing : Bool
  createOptions : Option CreateOptions

/-- What is before the last slash. -/
def folder : Text → Option Text
  | [] => none
  | char :: rest =>
    match folder rest with
    | some root => some (char :: root)
    | none => if char = '/' then some [] else none

def fixedRoot (hostPath : Text) : Except String Unit :=
  match (parse [] none hostPath).lead? with
  | none => .ok ()
  | some lead =>
    match folder lead with
    | none => .error "mount requires a fixed absolute root"
    | some root => absolutePath root

def checkLiteral (literal : Text) : Except String Unit :=
  require (literal.all fun char => !marks.contains char) "invalid mount placeholder"

/-- The loop of `render_path`. -/
def fillPath (hostPath : Text) (parameters : Option Parameters) : Except String Text :=
  fill checkLiteral (parameterValue parameters "invalid mount parameter name"
    "missing mount parameter: " relativePath) "unterminated mount placeholder"
      (parse [] none hostPath)

def renderPath (hostPath : Text) (parameters : Option Parameters) : Except String Text := do
  fixedRoot hostPath
  let output ← fillPath hostPath parameters
  absolutePath output
  return output

namespace Mount

variable (mount : Mount)

def validateOptions : Except String Unit := do
  match mount.createOptions with
  | none => .ok ()
  | some options => do
    require mount.createIfMissing "create_options requires create_if_missing"
    options.validate
  absolutePath mount.target
  require (mount.options.all (["ro", "rw", "nosuid", "nodev", "noexec"].contains ·) &&
    decide mount.options.Nodup) "unsupported or duplicate Agent mount option"
  require (!(mount.options.contains "ro" && mount.options.contains "rw"))
    "mount cannot be both read-only and read-write"

def validateTemplate : Except String Unit :=
  match mount.volumeId with
  | some id => do
    mount.validateOptions
    require (mount.hostPath = [] && !mount.createIfMissing && mount.createOptions.isNone)
      "Volume reference cannot include inline source or initialization"
    let rendered ← renderText id none
    Agent.volumeId rendered
    (mount.volumeUid.map volumeIdentifier).getD (.ok ())
  | none => do
    require mount.volumeUid.isNone "volume_uid requires volume_id"
    require (byteLength mount.hostPath ≤ 4096) "mount path too long"
    mount.validateOptions
    let _ ← renderPath mount.hostPath none
    return ()

def validate : Except String Unit := do
  mount.validateTemplate
  match mount.volumeId with
  | some id => Agent.volumeId id
  | none => absolutePath mount.hostPath

def renderValidated (parameters : Parameters) : Except String Mount :=
  match mount.volumeId with
  | some id => do
    let rendered ← renderText id parameters
    let result := { mount with volumeId := some rendered }
    result.validate
    return result
  | none => do
    let rendered ← renderPath mount.hostPath parameters
    let result := { mount with hostPath := rendered }
    result.validate
    return result

def render (parameters : Parameters) : Except String Mount := do
  mount.validateTemplate
  validateParameters parameters
  mount.renderValidated parameters

/-- The parameters the host path names. -/
def names : List Text := (parse [] none mount.hostPath).names

end Mount

/-! ## Templates -/

lemma parse_literal {literal text rest : Text} (hplain : '$' ∉ text) :
    parse literal none (text ++ rest) = parse (literal ++ text) none rest := by
  induction text generalizing literal with
  | nil => simp
  | cons char text ih =>
    rw [mem_cons, not_or] at hplain
    obtain ⟨hch, hplain⟩ := hplain
    rw [cons_append, parse, ih hplain, append_assoc, singleton_append]
    intro _ hmr
    exact absurd hmr.symm hch

lemma parse_plain {text : Text} (hplain : '$' ∉ text) : parse [] none text = .last text true := by
  have hpr := @parse_literal [] text [] hplain
  rwa [append_nil, nil_append] at hpr

lemma parse_name (literal name text : Text) :
    (parse literal (some name) text).lead? = some literal := by
  induction text generalizing name with
  | nil => rfl
  | cons char text ih =>
    by_cases hmr : char = '\x7d'
    · subst hmr
      rfl
    · rw [parse, ih]
      exact hmr

lemma folder_spec (path : Text) : match folder path with
    | some root => ∃ file, '/' ∉ file ∧ path = root ++ '/' :: file
    | none => '/' ∉ path := by
  induction path with
  | nil => simp [folder]
  | cons char rest ih =>
    cases hrs : folder rest with
    | some root =>
      rw [hrs] at ih
      obtain ⟨file, hfl, rfl⟩ := ih
      simp only [folder, hrs]
      exact ⟨file, hfl, rfl⟩
    | none =>
      rw [hrs] at ih
      by_cases hsl : char = '/'
      · simp only [folder, hrs, hsl, if_true]
        exact ⟨rest, ih, rfl⟩
      · simp only [folder, hrs, hsl, if_false]
        exact not_mem_cons_of_ne_of_not_mem (Ne.symm hsl) ih

section Fill

variable {check within : Text → Except String Unit} {value other : Text → Except String Text}
  {unterminated invalid missing : String} {output name inner : Text} {template : Template}
  {names : List Text}

lemma fill_lead {literal : Text} (hfill : fill check value unterminated template = .ok output)
    (hlead : template.lead? = some literal) : ∃ more, output = literal ++ more := by
  cases template with
  | last text closed =>
    simp only [fill, unit_bind_eq_ok, require_eq_ok] at hfill
    simp [Template.lead?, hfill.2.1] at hlead
  | piece text name rest =>
    cases hlead
    obtain ⟨-, hfill⟩ := unit_bind_eq_ok.mp hfill
    obtain ⟨inner, -, hfill⟩ := bind_eq_ok.mp hfill
    obtain ⟨after, -, hfill⟩ := bind_eq_ok.mp hfill
    cases hfill
    exact ⟨inner ++ after, append_assoc _ _ _⟩

lemma fill_values (hfill : fill check value unterminated template = .ok output) :
    ∀ name ∈ template.names, ∃ inner, value name = .ok inner := by
  induction template generalizing output with
  | last => simp [Template.names]
  | piece literal name rest ih =>
    obtain ⟨-, hfill⟩ := unit_bind_eq_ok.mp hfill
    obtain ⟨inner, hin, hfill⟩ := bind_eq_ok.mp hfill
    obtain ⟨after, haf, -⟩ := bind_eq_ok.mp hfill
    exact forall_mem_cons.mpr ⟨⟨inner, hin⟩, ih haf⟩

lemma fill_congr (hagree : ∀ name ∈ template.names, other name = value name) :
    fill check other unterminated template = fill check value unterminated template := by
  induction template with
  | last => rfl
  | piece literal name rest ih =>
    rw [Template.names, forall_mem_cons] at hagree
    rw [fill, fill, hagree.1, ih hagree.2]

lemma fill_length
    (hfill : fill check (parameterValue none invalid missing within) unterminated template =
      .ok output) :
    9 * template.names.length ≤ byteLength output := by
  induction template generalizing output with
  | last => simp [Template.names]
  | piece literal name rest ih =>
    obtain ⟨-, hfill⟩ := unit_bind_eq_ok.mp hfill
    obtain ⟨inner, hin, hfill⟩ := bind_eq_ok.mp hfill
    obtain ⟨after, haf, hfill⟩ := bind_eq_ok.mp hfill
    obtain ⟨-, hin⟩ := unit_bind_eq_ok.mp hin
    cases hin
    cases hfill
    have hrs := ih haf
    have hnn : byteLength standIn = 9 := by decide
    simp only [byteLength, map_append, sum_append, Template.names, length_cons] at hrs hnn ⊢
    omega

/-! ## A map for all names -/

def uniform (names : List Text) : Parameters :=
  ⟨names.dedup.map (·, standIn), by simpa [Function.comp_def] using nodup_dedup _⟩

lemma validateEntries_uniform (hname : ∀ name ∈ names, parameterName name = true) :
    validateEntries (names.map (·, standIn)) = .ok () := by
  induction names with
  | nil => rfl
  | cons name rest ih =>
    rw [forall_mem_cons] at hname
    simp only [map_cons, validateEntries, unit_bind_eq_ok, require_eq_ok]
    exact ⟨hname.1, by decide, ih hname.2⟩

lemma lookup_uniform (hname : name ∈ names) :
    (names.map (·, standIn)).lookup name = some standIn := by
  induction names with
  | nil => cases hname
  | cons first rest ih => grind

lemma fill_uniform (hholds : within standIn = .ok ())
    (hfill : fill check (parameterValue none invalid missing within) unterminated template =
      .ok output)
    (hfew : template.names.dedup.length ≤ 64) :
    validateParameters (uniform template.names) = .ok () ∧ fill check (parameterValue
      (uniform template.names) invalid missing within) unterminated template = .ok output := by
  constructor
  · refine unit_bind_eq_ok.mpr ⟨?_, validateEntries_uniform fun name hnm => ?_⟩
    · simpa [uniform] using hfew
    · obtain ⟨inner, hin⟩ := fill_values hfill name (mem_dedup.mp hnm)
      exact require_eq_ok.mp (unit_bind_eq_ok.mp hin).1
  · rw [← hfill]
    refine fill_congr fun name hnm => ?_
    simp only [parameterValue, uniform, lookup_uniform (mem_dedup.mpr hnm), hholds]
    rfl

end Fill

/-! ## Checks of a path -/

lemma relativePath_eq_ok {path : Text} (hpath : relativePath path = .ok ()) :
    (∀ char ∈ path, marks.contains char = false) ∧ ∀ part ∈ components path, Proper part := by
  simp only [relativePath, require_eq_ok, Bool.and_eq_true, all_eq_true, decide_eq_true_eq,
    Bool.not_eq_true'] at hpath
  exact ⟨fun char hch => (hpath.1.2 char hch).2, hpath.2⟩

lemma absolutePath_eq_ok {path : Text} (hpath : absolutePath path = .ok ()) :
    byteLength path ≤ 4096 ∧ (∀ char ∈ path, marks.contains char = false) ∧
      ∃ rest, path = '/' :: rest ∧ ∀ part ∈ components rest, Proper part := by
  unfold absolutePath at hpath
  rw [unit_bind_eq_ok, require_eq_ok, decide_eq_true_eq] at hpath
  obtain ⟨hln, hpath⟩ := hpath
  split at hpath
  next rest =>
    obtain ⟨hmr, hpr⟩ := relativePath_eq_ok hpath
    exact ⟨hln, forall_mem_cons.mpr ⟨rfl, hmr⟩, rest, rfl, hpr⟩
  next => cases hpath

lemma not_mem_of_marks {text : Text} (htext : ∀ char ∈ text, marks.contains char = false) :
    '$' ∉ text := by
  intro hmm
  cases htext _ hmm

lemma renderPath_eq_ok {hostPath output : Text} {parameters : Option Parameters} :
    renderPath hostPath parameters = .ok output ↔ fixedRoot hostPath = .ok () ∧
      absolutePath output = .ok () ∧ fillPath hostPath parameters = .ok output := by
  rw [renderPath, unit_bind_eq_ok, bind_eq_ok]
  refine and_congr_right fun _ => ⟨?_, fun ⟨hpt, hfl⟩ => ?_⟩
  · rintro ⟨_, hfl, hrn⟩
    obtain ⟨hpt, hrn⟩ := unit_bind_eq_ok.mp hrn
    cases hrn
    exact ⟨hpt, hfl⟩
  · exact ⟨output, hfl, unit_bind_eq_ok.mpr ⟨hpt, rfl⟩⟩

lemma renderPath_confined {hostPath output literal tail : Text} {parameters : Option Parameters}
    (hout : renderPath hostPath parameters = .ok output)
    (hhost : hostPath = literal ++ '$' :: '\x7b' :: tail) (hplain : '$' ∉ literal) :
    ∃ root file below, '/' ∉ file ∧ literal = root ++ '/' :: file ∧
      components output = components root ++ below ∧ below ≠ [] := by
  obtain ⟨hrt, -, hfi⟩ := renderPath_eq_ok.mp hout
  have hld : (parse [] none hostPath).lead? = some literal := by
    rw [hhost, parse_literal hplain, nil_append, parse, parse_name]
  simp only [fixedRoot, hld] at hrt
  obtain ⟨more, rfl⟩ := fill_lead hfi hld
  have hfl := folder_spec literal
  split at hrt
  next => cases hrt
  next root hsm =>
    rw [hsm] at hfl
    obtain ⟨file, hfe, rfl⟩ := hfl
    refine ⟨root, file, components (file ++ more), hfe, rfl, ?_, splitOn_ne_nil _ _⟩
    rw [append_assoc, cons_append]
    exact splitOn_append_cons_self _ _

lemma renderText_plain {text : Text} (hplain : '$' ∉ text) (parameters : Option Parameters) :
    renderText text parameters = .ok text := by
  rw [renderText, parse_plain hplain]
  rfl

lemma renderPath_plain {path : Text} {parameters : Option Parameters}
    (hpath : absolutePath path = .ok ()) : renderPath path parameters = .ok path := by
  obtain ⟨-, hmr, -⟩ := absolutePath_eq_ok hpath
  have hlt : checkLiteral path = .ok () := by
    simpa [checkLiteral] using hmr
  rw [renderPath_eq_ok, fixedRoot, fillPath, parse_plain (not_mem_of_marks hmr)]
  exact ⟨rfl, hpath, unit_bind_eq_ok.mpr ⟨hlt, rfl⟩⟩

lemma volumeId_plain {id : Text} (hid : volumeId id = .ok ()) : '$' ∉ id ∧ byteLength id ≤ 256 := by
  simp only [volumeId, require_eq_ok, Bool.and_eq_true, all_eq_true, decide_eq_true_eq] at hid
  exact ⟨fun hmm => absurd (hid.2 _ hmm) (by decide), hid.1.1.1.2⟩

namespace Mount

variable {mount : Mount}

lemma validateTemplate_path (hvol : mount.volumeId = none) : mount.validateTemplate = .ok () ↔
    mount.volumeUid.isNone = true ∧ byteLength mount.hostPath ≤ 4096 ∧ mount.validateOptions =
      .ok () ∧
      ∃ output, renderPath mount.hostPath none = .ok output := by
  rw [validateTemplate, hvol]
  dsimp only
  rw [unit_bind_eq_ok, unit_bind_eq_ok, unit_bind_eq_ok, bind_eq_ok, require_eq_ok, require_eq_ok,
    decide_eq_true_eq]
  simp only [pure, Except.pure, and_true]

lemma validateTemplate_volume {id : Text} (hvol : mount.volumeId = some id) :
    mount.validateTemplate = .ok () ↔ mount.validateOptions = .ok () ∧
      (mount.hostPath = [] && !mount.createIfMissing && mount.createOptions.isNone) = true ∧
      ∃ output, renderText id none = .ok output ∧ Agent.volumeId output = .ok () ∧
        (mount.volumeUid.map volumeIdentifier).getD (.ok ()) = .ok () := by
  rw [validateTemplate, hvol]
  dsimp only
  rw [unit_bind_eq_ok, unit_bind_eq_ok, bind_eq_ok, require_eq_ok]
  simp only [unit_bind_eq_ok]

lemma render_path_exists (hvol : mount.volumeId = none) (hok : mount.validateTemplate = .ok ())
    (hfew : mount.names.dedup.length ≤ 64) : ∃ parameters result, mount.render parameters =
        .ok result := by
  obtain ⟨hud, -, hop, output, hrn⟩ := (validateTemplate_path hvol).mp hok
  obtain ⟨hrt, hpt, hfl⟩ := renderPath_eq_ok.mp hrn
  obtain ⟨hpr, hfi⟩ := fill_uniform (by decide) hfl hfew
  obtain ⟨hln, -⟩ := absolutePath_eq_ok hpt
  have hvd : { mount with hostPath := output }.validate = .ok () := by
    refine unit_bind_eq_ok.mpr ⟨(@validateTemplate_path { mount with hostPath := output } hvol).mpr
      ⟨hud, hln, hop, output, renderPath_plain hpt⟩, ?_⟩
    simp only [hvol, hpt]
  refine ⟨uniform mount.names, { mount with hostPath := output }, ?_⟩
  refine unit_bind_eq_ok.mpr ⟨hok, unit_bind_eq_ok.mpr ⟨hpr, ?_⟩⟩
  unfold renderValidated
  split
  next id hid => simp [hvol] at hid
  next => exact bind_eq_ok.mpr ⟨output, renderPath_eq_ok.mpr ⟨hrt, hpt, hfi⟩,
      unit_bind_eq_ok.mpr ⟨hvd, rfl⟩⟩

lemma render_volume_exists {id : Text} (hvol : mount.volumeId = some id)
    (hok : mount.validateTemplate = .ok ()) :
    ∃ parameters result, mount.render parameters = .ok result := by
  obtain ⟨hop, hsr, output, hrn, hid, hud⟩ := (validateTemplate_volume hvol).mp hok
  obtain ⟨hpl, hby⟩ := volumeId_plain hid
  have hln := fill_length hrn
  obtain ⟨hpr, hfl⟩ := fill_uniform rfl hrn (by
    have hdd := (dedup_sublist (parse [] none id).names).length_le
    omega)
  have hvd : { mount with volumeId := some output }.validate = .ok () :=
    unit_bind_eq_ok.mpr ⟨(validateTemplate_volume rfl).mpr
      ⟨hop, hsr, output, renderText_plain hpl none, hid, hud⟩, hid⟩
  refine ⟨uniform (parse [] none id).names, { mount with volumeId := some output }, ?_⟩
  refine unit_bind_eq_ok.mpr ⟨hok, unit_bind_eq_ok.mpr ⟨hpr, ?_⟩⟩
  unfold renderValidated
  split
  next other hot =>
    rw [hvol] at hot
    cases hot
    exact bind_eq_ok.mpr ⟨output, hfl, unit_bind_eq_ok.mpr ⟨hvd, rfl⟩⟩
  next hnn => simp [hvol] at hnn

/-- A rendered host path stays below the folder that the template fixes, and a template
that is accepted can be rendered. -/
theorem rendered_mounts_confined (mount : Mount) :
    (∀ parameters result, mount.render parameters = .ok result → result.volumeId = none →
      (∃ rest, result.hostPath = '/' :: rest ∧ ∀ part ∈ components rest, Proper part) ∧
      '$' ∉ result.hostPath ∧
      ∀ literal tail, mount.hostPath = literal ++ '$' :: '\x7b' :: tail → '$' ∉ literal →
        ∃ root file below, '/' ∉ file ∧ literal = root ++ '/' :: file ∧
          components result.hostPath = components root ++ below ∧ below ≠ []) ∧
    (mount.validateTemplate = .ok () → mount.names.dedup.length ≤ 64 →
      ∃ parameters result, mount.render parameters = .ok result) := by
  refine ⟨fun parameters result hrn hhs => ?_, fun hva hfw => ?_⟩
  · obtain ⟨-, hrn⟩ := unit_bind_eq_ok.mp hrn
    obtain ⟨-, hrn⟩ := unit_bind_eq_ok.mp hrn
    unfold renderValidated at hrn
    split at hrn
    next id hvl =>
      obtain ⟨_, -, hrn⟩ := bind_eq_ok.mp hrn
      obtain ⟨-, hrn⟩ := unit_bind_eq_ok.mp hrn
      cases hrn
      cases hhs
    next hvl =>
      obtain ⟨output, hot, hrn⟩ := bind_eq_ok.mp hrn
      obtain ⟨hvd, hrn⟩ := unit_bind_eq_ok.mp hrn
      cases hrn
      obtain ⟨-, hpt, -⟩ := renderPath_eq_ok.mp hot
      obtain ⟨-, hmr, hpr⟩ := absolutePath_eq_ok hpt
      exact ⟨hpr, not_mem_of_marks hmr, fun literal tail => renderPath_confined hot⟩
  · cases hvl : mount.volumeId with
    | none => exact render_path_exists hvl hva hfw
    | some id => exact render_volume_exists hvl hva

/-- A mount that names sixty-five parameters. -/
def crowded : Mount :=
  ⟨"/r/".toList ++ (range 65).flatMap fun index => "$\x7b".toList ++ Nat.toDigits 10 index ++
    ['\x7d'],
    none, none, "/t".toList, [], false, none⟩

theorem crowded_never_rendered :
    crowded.validateTemplate = .ok () ∧ ∀ parameters result, crowded.render parameters ≠
        .ok result := by
  refine ⟨by decide +kernel, fun parameters result hrn => ?_⟩
  obtain ⟨-, hrn⟩ := unit_bind_eq_ok.mp hrn
  obtain ⟨hpr, hrn⟩ := unit_bind_eq_ok.mp hrn
  obtain ⟨output, hot, -⟩ := bind_eq_ok.mp hrn
  obtain ⟨-, -, hfl⟩ := renderPath_eq_ok.mp hot
  have hnm : crowded.names ⊆ parameters.entries.map Prod.fst := by
    intro name hna
    obtain ⟨inner, hin⟩ := fill_values hfl name hna
    obtain ⟨-, hin⟩ := unit_bind_eq_ok.mp hin
    by_contra hms
    have hlk : parameters.entries.lookup name = none := by
      rw [lookup_eq_none_iff]
      intro entry hen
      have hor : name ≠ entry.1 := fun hsm => hms (hsm ▸ mem_map_of_mem hen)
      simpa using hor
    simp [hlk] at hin
  have hds : crowded.names.Nodup := by decide +kernel
  have hmn : crowded.names.length = 65 := by decide +kernel
  have hfw := require_eq_ok.mp (unit_bind_eq_ok.mp hpr).1
  have hle := (hds.subperm hnm).length_le
  rw [length_map] at hle
  simp at hfw
  omega

/-! ## Rendering again -/

lemma renderValidated_eq_ok {parameters : Parameters} {result : Mount}
    (hout : mount.renderValidated parameters = .ok result) : result.validate = .ok () := by
  unfold renderValidated at hout
  split at hout <;>
  · obtain ⟨output, -, hout⟩ := bind_eq_ok.mp hout
    obtain ⟨hvl, hout⟩ := unit_bind_eq_ok.mp hout
    cases hout
    exact hvl

lemma renderValidated_of_validate (parameters : Parameters) (hok : mount.validate = .ok ()) :
    mount.renderValidated parameters = .ok mount := by
  have hal := hok
  rw [validate, unit_bind_eq_ok] at hal
  unfold renderValidated
  split
  next id hid =>
    have hsf : { mount with volumeId := some id } = mount := by rw [← hid]
    simp only [hid] at hal
    refine bind_eq_ok.mpr ⟨id, renderText_plain (volumeId_plain hal.2).1 _, ?_⟩
    exact unit_bind_eq_ok.mpr ⟨hsf ▸ hok, congrArg Except.ok hsf⟩
  next hnn =>
    simp only [hnn] at hal
    rw [renderPath_plain hal.2]
    exact unit_bind_eq_ok.mpr ⟨hok, rfl⟩

/-- A rendered mount is accepted and has nothing left to render: no parameter
value is expanded a second time. -/
theorem rendered_mount_fixed {parameters others : Parameters} {result : Mount}
    (hrender : mount.render parameters = .ok result)
    (hothers : validateParameters others = .ok ()) :
    result.validate = .ok () ∧ result.render others = .ok result := by
  obtain ⟨-, hrn⟩ := unit_bind_eq_ok.mp hrender
  obtain ⟨-, hrn⟩ := unit_bind_eq_ok.mp hrn
  have hvd := renderValidated_eq_ok hrn
  exact ⟨hvd, unit_bind_eq_ok.mpr ⟨(unit_bind_eq_ok.mp hvd).1,
    unit_bind_eq_ok.mpr ⟨hothers, renderValidated_of_validate others hvd⟩⟩⟩

/-- A folder for each user. -/
def homes : Mount := ⟨"/h/$\x7bu\x7d".toList, none, none, ['/', 't'], [], false, none⟩

theorem rendered_home_fixed : ∃ result, homes.render (uniform [['u']]) = .ok result ∧
    result.render (uniform []) = .ok result := by
  have hrn : homes.render (uniform [['u']]) =
      .ok { homes with hostPath := "/h/parameter".toList } := rfl
  exact ⟨_, hrn, (rendered_mount_fixed hrn rfl).2⟩

end Mount

end AgentDx.Agent
