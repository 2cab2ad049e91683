import Mathlib

/-!
# Fencing tokens

A resource is guarded by tokens with a holder, an epoch and an expiry.  The
guard remembers the last token only.  It extends that token for its holder, or
lets it expire and issues one with a larger epoch.  As long as the last token is
never forgotten, everything issued before is either an earlier version of it or
has a smaller epoch and has expired.
-/

namespace AgentDx.Fencing

variable {H : Type}

structure Token (H : Type) where
  holder : H
  epoch : ℕ
  expires : ℕ

/-- What may be issued at a time while a token is stored. -/
inductive Issues (clock : ℕ) : Option (Token H) → Token H → Prop where
  | first {token} : Issues clock none token
  | extended {held token : Token H} (hholder : token.holder = held.holder)
      (hepoch : token.epoch = held.epoch)
      (hexpires : held.expires ≤ token.expires) : Issues clock (some held) token
  | takenOver {held token : Token H} (hexpired : held.expires ≤ clock)
      (hepoch : held.epoch < token.epoch) : Issues clock (some held) token

/-- The issued token is a version of the stored one, or an expired predecessor
of it. -/
def Behind (clock : ℕ) (token held : Token H) : Prop :=
  (token.epoch < held.epoch ∧ token.expires ≤ clock) ∨
    (token.holder = held.holder ∧ token.epoch = held.epoch ∧ token.expires ≤ held.expires)

/-- The stored token accounts for all issued ones. -/
structure Fenced (clock : ℕ) (issued : List (Token H))
    (stored : Option (Token H)) : Prop where
  unissued : stored = none → issued = []
  behind : ∀ held ∈ stored, ∀ token ∈ issued, Behind clock token held

variable {clock later : ℕ} {issued : List (Token H)} {stored : Option (Token H)}
variable {token other held : Token H}

lemma Fenced.start (clock) (stored : Option (Token H)) : Fenced clock stored.toList stored := by
  refine ⟨fun hnn => by simp [hnn], fun held hh token htk => ?_⟩
  cases hh
  rw [List.mem_singleton.mp htk]
  exact .inr ⟨rfl, rfl, le_rfl⟩

variable (hsafe : Fenced clock issued stored)

include hsafe

lemma Fenced.tick (hnext : clock ≤ later) : Fenced later issued stored := by
  refine ⟨hsafe.unissued, fun held hh token htk => ?_⟩
  rcases hsafe.behind held hh token htk with ⟨hep, hex⟩ | heq
  · exact .inl ⟨hep, hex.trans hnext⟩
  · exact .inr heq

lemma Fenced.issue (hissues : Issues clock stored token) :
    Fenced clock (issued ++ [token]) (some token) := by
  refine ⟨by simp, fun held hh older holder => ?_⟩
  cases hh
  rcases List.mem_append.mp holder with hiss | hls
  · cases hissues with
    | first => simp [hsafe.unissued rfl] at hiss
    | extended hhl hep hei =>
      rcases hsafe.behind _ rfl older hiss with
        ⟨hsm, hex⟩ | ⟨heq, heu, hbd⟩
      · exact .inl ⟨hep ▸ hsm, hex⟩
      · exact .inr ⟨heq.trans hhl.symm, heu.trans hep.symm, hbd.trans hei⟩
    | takenOver hex hep =>
      rcases hsafe.behind _ rfl older hiss with
        ⟨hsm, hps⟩ | ⟨_, heu, hbd⟩
      · exact .inl ⟨hsm.trans hep, hps⟩
      · exact .inl ⟨heu ▸ hep, hbd.trans hex⟩
  · rw [List.mem_singleton.mp hls]
    exact .inr ⟨rfl, rfl, le_rfl⟩

/-- A token that is not an extension has a larger epoch than all before it. -/
lemma Fenced.fresh (hgreater : ∀ held ∈ stored, held.epoch < token.epoch) :
    ∀ older ∈ issued, older.epoch < token.epoch := by
  intro older hiss
  cases stored with
  | none => simp [hsafe.unissued rfl] at hiss
  | some held =>
    rcases hsafe.behind held rfl older hiss with
      ⟨hsm, _⟩ | ⟨_, heq, _⟩
    · exact hsm.trans (hgreater held rfl)
    · exact heq ▸ hgreater held rfl

lemma Fenced.unique (htoken : token ∈ issued) (hother : other ∈ issued)
    (hlive : clock < token.expires) (hotherLive : clock < other.expires) :
    token.holder = other.holder ∧ token.epoch = other.epoch := by
  cases stored with
  | none => simp [hsafe.unissued rfl] at htoken
  | some held =>
    have hvr : ∀ live ∈ issued, clock < live.expires →
        live.holder = held.holder ∧ live.epoch = held.epoch := by
      intro live hiss hun
      rcases hsafe.behind held rfl live hiss with
        ⟨_, hex⟩ | ⟨hhl, hep, _⟩
      · omega
      · exact ⟨hhl, hep⟩
    obtain ⟨hhl, hep⟩ := hvr token htoken hlive
    obtain ⟨hoh, hoe⟩ := hvr other hother hotherLive
    exact ⟨hhl.trans hoh.symm, hep.trans hoe.symm⟩

omit hsafe

lemma Fenced.superseded (hsafe : Fenced clock issued (some held))
    (hother : other ∈ issued) (hless : token.epoch < other.epoch) : token.epoch < held.epoch := by
  rcases hsafe.behind held rfl other hother with
    ⟨h, _⟩ | ⟨_, h, _⟩
  · exact hless.trans h
  · exact h ▸ hless

end AgentDx.Fencing
