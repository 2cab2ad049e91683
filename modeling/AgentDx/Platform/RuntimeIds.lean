import AgentDx.Lib.Split
import AgentDx.Platform.Types

/-!
# Runtime ids

A runtime is named by its environment and generation, and by a number when it is
not the first execution of that generation.  The name is a plain concatenation of
a free text and these numbers, so it is read from its right end.
-/

namespace AgentDx.Platform

open List

/-- `str::parse::<u64>`: an optional plus sign and decimal digits. -/
def parseU64 (text : List Char) : Option ℕ :=
  let digits := if text.head? = some '+' then text.tail else text
  if digits ≠ [] && digits.all Char.isDigit then parseDigits digits else none

/-- `text.split("-r").next()`. -/
def beforeExecution : List Char → List Char
  | [] => []
  | '-' :: 'r' :: _ => []
  | char :: rest => char :: beforeExecution rest

/-- `Snapshot::origin`, by the two ids it reads. -/
def origin (templateId sourceRuntimeId : String) : Result RuntimeIdentity := do
  let lead := (templateId ++ "-").toList
  ensure (lead.isPrefixOf sourceRuntimeId.toList) .conflict
  let suffix := sourceRuntimeId.toList.drop lead.length
  match (parseU64 (beforeExecution suffix)).filter (0 < ·) with
  | none => .error .conflict
  | some generation =>
    ensure (validRuntimeId templateId generation sourceRuntimeId) .conflict
    return ⟨templateId, generation, sourceRuntimeId⟩

variable {environment other id : String} {generation counter : ℕ}

/-- What follows the generation: nothing, or the number of the execution. -/
def Execution (text : List Char) : Prop :=
  text = [] ∨ ∃ digits, text = '-' :: 'r' :: digits ∧ digits.all Char.isDigit

lemma toList_runtimeBase : (runtimeBase environment generation).toList =
      environment.toList ++ '-' :: Nat.toDigits 10 generation := by
  simp [runtimeBase]

lemma validRuntimeId_text (hok : validRuntimeId environment generation id = true) :
    ∃ text, Execution text ∧
      id.toList = environment.toList ++ '-' :: (Nat.toDigits 10 generation ++ text) := by
  simp only [validRuntimeId, Bool.or_eq_true, decide_eq_true_eq, Bool.and_eq_true,
    isPrefixOf_iff_prefix] at hok
  rcases hok with rfl | ⟨⟨digits, hid⟩, ⟨-, hdg⟩, -⟩
  · exact ⟨[], .inl rfl, by simp [toList_runtimeBase]⟩
  · refine ⟨'-' :: 'r' :: digits, .inr ⟨digits, rfl, ?_⟩, ?_⟩
    · simpa [← hid] using hdg
    · simp [← hid, toList_runtimeBase]

lemma isDigit_toDigits : (Nat.toDigits 10 generation).all Char.isDigit := by
  rw [all_eq_true]
  intro char hch
  exact Nat.isDigit_of_mem_toDigits (by decide) (by decide) hch

lemma not_mem_of_isDigit {digits : List Char} (hdi : digits.all Char.isDigit) {char : Char}
    (hchar : char.isDigit = false) : char ∉ digits := by
  intro hm
  have hdg := all_eq_true.mp hdi _ hm
  rw [hchar] at hdg
  cases hdg

lemma digits_ne_execution {base lead digits numbers : List Char}
    (hdigit : digits.all Char.isDigit) (hnums : numbers.all Char.isDigit) :
    base ++ '-' :: digits ≠ lead ++ '-' :: 'r' :: numbers := by
  intro heq
  have hlf : '-' ∉ digits := not_mem_of_isDigit hdigit rfl
  have hrg : '-' ∉ 'r' :: numbers := by simpa using not_mem_of_isDigit hnums rfl
  rw [((Split.append_last_inj hlf hrg).mp heq).2] at hdigit
  cases hdigit

/-- The id is cut at its last mark, and once more when that one starts the number of
the execution. -/
lemma validRuntimeId_inj (hok : validRuntimeId environment generation id = true)
    (hot : validRuntimeId other counter id = true) :
    environment = other ∧ generation = counter := by
  obtain ⟨text, htx, hid⟩ := validRuntimeId_text hok
  obtain ⟨rest, hr, heq⟩ := validRuntimeId_text hot
  rw [hid] at heq
  have hfr : '-' ∉ Nat.toDigits 10 generation := not_mem_of_isDigit isDigit_toDigits rfl
  have hsc : '-' ∉ Nat.toDigits 10 counter := not_mem_of_isDigit isDigit_toDigits rfl
  have hbs : environment.toList ++ '-' :: Nat.toDigits 10 generation =
      other.toList ++ '-' :: Nat.toDigits 10 counter := by
    simp only [← cons_append, ← append_assoc] at heq
    rcases htx with rfl | ⟨digits, rfl, hdg⟩ <;>
      rcases hr with rfl | ⟨numbers, rfl, hnm⟩
    · simpa using heq
    · rw [append_nil] at heq
      exact absurd heq (digits_ne_execution isDigit_toDigits hnm)
    · rw [append_nil] at heq
      exact absurd heq.symm (digits_ne_execution isDigit_toDigits hdg)
    · have hlf : '-' ∉ 'r' :: digits := by simpa using not_mem_of_isDigit hdg rfl
      have hrg : '-' ∉ 'r' :: numbers := by simpa using not_mem_of_isDigit hnm rfl
      exact ((Split.append_last_inj hlf hrg).mp heq).1
  obtain ⟨hen, hdg⟩ := (Split.append_last_inj hfr hsc).mp hbs
  refine ⟨String.toList_inj.mp hen, Nat.repr_inj.mp ?_⟩
  rw [Nat.repr_eq_ofList_toDigits, Nat.repr_eq_ofList_toDigits, hdg]

lemma beforeExecution_digits {text digits : List Char} (htext : Execution text)
    (hdigit : digits.all Char.isDigit) : beforeExecution (digits ++ text) = digits := by
  induction digits with
  | nil => rcases htext with rfl | ⟨_, rfl, _⟩ <;> rfl
  | cons digit rest ih =>
    rw [all_cons, Bool.and_eq_true] at hdigit
    rw [cons_append, beforeExecution, ih hdigit.2]
    intro _ hdi
    rw [hdi] at hdigit
    cases hdigit.1

lemma parseU64_toDigits (hword : generation < 2 ^ 64) :
    parseU64 (Nat.toDigits 10 generation) = some generation := by
  have hpl : (Nat.toDigits 10 generation).head? ≠ some '+' := by
    intro hhd
    exact not_mem_of_isDigit isDigit_toDigits rfl (mem_of_mem_head? hhd)
  have hvl := Nat.ofDigitChars_ten_toDigits (n := generation)
  rw [Nat.ofDigitChars_eq_foldl] at hvl
  simp only [parseU64, hpl, if_false, isDigit_toDigits, parseDigits]
  simp_all

/-- A runtime id names one environment and one generation, and a snapshot of that
environment recovers the generation. -/
theorem runtime_id_identifies (hok : validRuntimeId environment generation id = true) :
    (∀ other counter, validRuntimeId other counter id = true →
      other = environment ∧ counter = generation) ∧ (0 < generation → generation < 2 ^ 64 →
        origin environment id = .ok ⟨environment, generation, id⟩) := by
  refine ⟨fun other counter hot => validRuntimeId_inj hot hok, ?_⟩
  intro hps hwr
  obtain ⟨text, htx, hid⟩ := validRuntimeId_text hok
  have hld : id.toList = (environment ++ "-").toList ++ (Nat.toDigits 10 generation ++ text) := by
    simp [hid]
  have hpr : (environment ++ "-").toList.isPrefixOf id.toList = true := by
    rw [ isPrefixOf_iff_prefix, hld]
    exact prefix_append _ _
  have hsf : id.toList.drop (environment ++ "-").toList.length =
      Nat.toDigits 10 generation ++ text := by
    rw [hld, drop_left]
  have hpa : (parseU64 (beforeExecution (Nat.toDigits 10 generation ++ text))).filter
      (0 < ·) = some generation := by
    simp [beforeExecution_digits htx isDigit_toDigits, parseU64_toDigits hwr, hps]
  simp only [origin, hpr, hsf, hpa, hok]
  rfl

theorem nested_id_identified : validRuntimeId "a-1" 2 "a-1-2-r3" = true ∧
      origin "a-1" "a-1-2-r3" = .ok ⟨"a-1", 2, "a-1-2-r3"⟩ :=
  ⟨by decide, (runtime_id_identifies (by decide)).2 (by decide) (by decide)⟩

/-- The first generation a snapshot accepts is one. -/
theorem generation_zero_refused :
    validRuntimeId "a" 0 "a-0" = true ∧ origin "a" "a-0" = .error .conflict := by
  decide

end AgentDx.Platform
