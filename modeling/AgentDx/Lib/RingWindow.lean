import AgentDx.Lib.Word

/-!
# Windows of a ring

One side of a ring appends to a history and the other consumes it.  Position `p`
of the history lives in slot `p % entries`, so the slots hold a window of the
history as long as the two sides are at most `entries` apart.  The sides know
their positions modulo the word size only; since the number of slots divides it,
the slot of a position is the slot of its counter.
-/

namespace AgentDx.RingWindow

open Word Function

variable {A : Type}

/-! ## Counters -/

def wrappingAdd (left right : ℕ) : ℕ := (left + right) % size

lemma wrappingSub_mod (hle : low ≤ high) (hfits : high - low < size) :
    wrappingSub (high % size) (low % size) = high - low := by
  have hsize : size = 18446744073709551616 := by norm_num [size]
  rw [hsize] at hfits ⊢
  by_cases hwrapped : low % 18446744073709551616 ≤ high % 18446744073709551616
  · rw [wrappingSub_of_le hwrapped]
    omega
  · rw [wrappingSub, if_neg hwrapped, hsize]
    omega

lemma wrappingAdd_mod (position step) :
    wrappingAdd (position % size) step = (position + step) % size := by
  rw [wrappingAdd, Nat.mod_add_mod]

lemma slot_ne {entries low} {high : ℕ} (hlt : low < high) (hround : high < low + entries) :
    low % entries ≠ high % entries := by
  intro heq
  have hdvd : entries ∣ high - low := (Nat.modEq_iff_dvd' hlt.le).mp heq
  have hle := Nat.le_of_dvd (by omega) hdvd
  omega

/-! ## Windows -/

/-- The slots hold the history from position `low` on. -/
structure Window (entries : ℕ) (slots : ℕ → A) (low : ℕ) (history : List A) : Prop where
  low_le : low ≤ history.length
  fits : history.length ≤ low + entries
  holds : ∀ position value, low ≤ position → history[position]? = some value →
    slots (position % entries) = value

variable {entries low : ℕ} {slots : ℕ → A} {history more : List A}

lemma Window.empty (entries : ℕ) (slots : ℕ → A) : Window entries slots 0 [] :=
  ⟨le_rfl, Nat.zero_le _, fun position value _ hval => by simp at hval⟩

variable (hwindow : Window entries slots low history)

include hwindow

lemma Window.write {position} (hahead : history.length ≤ position)
    (hroom : position < low + entries) (value) :
    Window entries (update slots (position % entries) value) low history where
  low_le := hwindow.low_le
  fits := hwindow.fits
  holds old held hlow hheld := by
    have hold : old < history.length := (List.getElem?_eq_some_iff.mp hheld).1
    have hne : old % entries ≠ position % entries := slot_ne (by omega) (by omega)
    rw [update_of_ne hne]
    exact hwindow.holds old held hlow hheld

lemma Window.publish (hroom : history.length + more.length ≤ low + entries)
    (hslots : ∀ offset value, more[offset]? = some value →
      slots ((history.length + offset) % entries) = value) :
    Window entries slots low (history ++ more) where
  low_le := by
    have hle := hwindow.low_le
    rw [List.length_append]
    omega
  fits := by
    rw [List.length_append]
    exact hroom
  holds position value hlow hval := by
    rw [List.getElem?_append] at hval
    split at hval
    · exact hwindow.holds position value hlow hval
    next hbeyond =>
      have hpos : history.length + (position - history.length) = position := by omega
      rw [← hpos]
      exact hslots _ value hval

lemma Window.release (hnum : low + count ≤ history.length) :
    Window entries slots (low + count) history where
  low_le := hnum
  fits := by
    have hfits := hwindow.fits
    omega
  holds position value hlow hval := hwindow.holds position value (by omega) hval

/-- The part of the history that is still in the slots. -/
def unread (entries : ℕ) (slots : ℕ → A) (low count : ℕ) : List A :=
  (List.range count).map fun offset => slots ((low + offset) % entries)

lemma Window.unread_eq : unread entries slots low (history.length - low) = history.drop low := by
  apply List.ext_getElem?
  intro offset
  rw [List.getElem?_drop, unread, List.getElem?_map]
  by_cases hoffset : offset < history.length - low
  · obtain ⟨value, hval⟩ : ∃ value, history[low + offset]? = some value :=
      ⟨_, List.getElem?_eq_getElem (by omega)⟩
    have hslot := hwindow.holds (low + offset) value (by omega) hval
    simp [hoffset, hslot, hval]
  · have hnil : history[low + offset]? = none := List.getElem?_eq_none (by omega)
    simp [hoffset, hnil]

end AgentDx.RingWindow
