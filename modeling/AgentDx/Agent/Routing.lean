import AgentDx.Agent.Alias

/-!
# Routing of bindings to activators

Every gateway ranks the activators of a binding by a hash of the binding and the
activator, so that gateways agree without talking to each other.
-/

namespace AgentDx.Agent

open List

inductive TemplateRef where
  | version (name : String)
  /-- `Alias`. -/
  | aliased (name : String)

def TemplateRef.name : TemplateRef → String
  | version value | aliased value => value

def TemplateRef.kind : TemplateRef → String
  | version _ => "version"
  | aliased _ => "alias"

structure Scope where
  tenant : String
  template : String
  templateRef : TemplateRef
  bindingId : String

structure ActivatorEndpoint where
  id : String
  url : String
  deriving DecidableEq

-- `digest` hashes the encoded key of a scope, a zero byte and the id of an activator.
variable (digest : List String → String → Dfs.Digest) (scope : Scope)

/-- Larger hashes come first, then smaller ids. -/
def rank (endpoint : ActivatorEndpoint) : ℕᵒᵈ ×ₗ String :=
  let key := [scope.tenant, scope.template, scope.templateRef.kind, scope.templateRef.name,
    scope.bindingId]
  toLex (.toDual (digest key endpoint.id).toNat, endpoint.id)

/-- The sort is not stable in the source, but only activators of one id have equal ranks. -/
def rankedEndpoints (endpoints : List ActivatorEndpoint) : List ActivatorEndpoint :=
  endpoints.insertionSort fun first second => rank digest scope first ≤ rank digest scope second

variable {digest scope} {endpoints listed : List ActivatorEndpoint}

lemma rank_id {first second : ActivatorEndpoint}
    (heq : rank digest scope first = rank digest scope second) : first.id = second.id :=
  congrArg (fun key => (ofLex key).2) heq

lemma ranked_perm : (rankedEndpoints digest scope endpoints).Perm endpoints :=
  perm_insertionSort _ _

lemma ranked_sorted : (rankedEndpoints digest scope endpoints).Pairwise fun first second =>
    rank digest scope first ≤ rank digest scope second := pairwise_insertionSort _ _

/-- Activators of different ids are ranked in one way. -/
lemma eq_rankedEndpoints (hid : (endpoints.map (·.id)).Nodup) (hperm : listed.Perm endpoints)
    (hsort : listed.Pairwise fun first second => rank digest scope first ≤ rank digest scope second) :
    listed = rankedEndpoints digest scope endpoints := by
  refine (hperm.trans ranked_perm.symm).eq_of_pairwise
    (fun first second hfr hsn hle hge => ?_) hsort ranked_sorted
  exact inj_on_of_nodup_map hid (hperm.subset hfr) (ranked_perm.subset hsn)
    (rank_id (hle.antisymm hge))

/-- The order of discovery does not matter, and an activator that leaves or joins
does not reorder the others: only bindings of its own are routed elsewhere. -/
theorem routing_stable (hids : (endpoints.map (·.id)).Nodup) : (∀ listed, listed.Perm endpoints →
      rankedEndpoints digest scope listed = rankedEndpoints digest scope endpoints) ∧
    ∀ kept, rankedEndpoints digest scope (endpoints.filter kept) =
      (rankedEndpoints digest scope endpoints).filter kept := by
  refine ⟨fun listed hpr => eq_rankedEndpoints hids (ranked_perm.trans hpr) ranked_sorted,
    fun kept => (eq_rankedEndpoints ?_ (ranked_perm.filter kept) (ranked_sorted.filter kept)).symm⟩
  exact hids.sublist (filter_sublist.map _)

theorem two_activators_stable :
    let rank := rankedEndpoints (fun _ _ => 0) ⟨"t", "p", .version "1", "b"⟩
    rank [⟨"a", "http://a"⟩, ⟨"b", "http://b"⟩] = rank [⟨"b", "http://b"⟩, ⟨"a", "http://a"⟩] :=
  (routing_stable (by decide)).1 _ (.swap _ _ _)

end AgentDx.Agent
