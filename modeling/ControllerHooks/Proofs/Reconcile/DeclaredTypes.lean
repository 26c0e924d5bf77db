import ControllerHooks.Controllers.ContainerSet
import ControllerHooks.Proofs.Reconcile.Checks
import ControllerHooks.Proofs.ResourceTypes

/-!
# Dependents are of a declared type

A transition is checked by keys. `State.accepted_dependents_have_declared_keys` says what that
means for the types of the dependents: each has the key that was declared, and with it the declared
type but for the case of letters, as long as dots stand between the parts of the types only.
`State.accepted_dependents_of_other_types` shows the two ways in which the types can differ.
-/

namespace ControllerHooks

/-- The declarations of these types. -/
def declarations (types : List (ResourceType × Arity)) : List DependentDecl :=
  types.map fun t => t.1.declare t.2

/-- The declaration that counts for a key is one of them, and has this key. -/
theorem declarationOf_declarations {types : List (ResourceType × Arity)} {key : ResourceKey}
    {decl : DependentDecl} (h : declarationOf (declarations types) key = some decl) :
    ∃ t ∈ types, decl = t.1.declare t.2 ∧ t.1.key = key := by
  obtain ⟨t, member, rfl⟩ := List.mem_map.1 (List.mem_of_find?_eq_some h)
  have same := List.find?_some h
  exact ⟨t, member, rfl, of_decide_eq_true same⟩

namespace State

open ContainerSet (deployments)

/-- **Declared types.** When a transition is accepted, every dependent has the key under which it
is kept, and that is the key of the type that was declared for it. Without dots in kinds and
versions the dependent is of this very type, but for the case of letters. -/
theorem accepted_dependents_have_declared_keys (types : List (ResourceType × Arity))
    {observed desired : State}
    (accepted : observed.checkTransition desired (declarations types) = .ok ()) :
    ∀ e ∈ desired.dependents.entries, ∃ t ∈ types,
      declarationOf (declarations types) e.1 = some (t.1.declare t.2) ∧
      ∀ o ∈ e.2, o.key = e.1 ∧ o.key = t.1.key ∧
        (o.resourceType.Undotted → t.1.Undotted → o.resourceType.SameButCase t.1) := by
  intro e he
  have allowed := checkTransition_eq_ok_iff.1 accepted
  obtain ⟨decl, declared, _⟩ := allowed.permitted e he
  obtain ⟨t, member, rfl, key⟩ := declarationOf_declarations declared
  refine ⟨t, member, declared, ?_⟩
  intro o ho
  have own : o.key = e.1 := (allowed.belong e he o ho).key
  have same : o.key = t.1.key := own.trans key.symm
  refine ⟨own, same, ?_⟩
  intro undotted declaredUndotted
  exact ResourceType.sameButCase_of_key undotted declaredUndotted same

/-- A dependent with this API version and kind, beside its parent. -/
def besideParent (apiVersion kind : String) : Object :=
  { Object.blank with
    apiVersion, kind
    metadata := some { Metadata.blank with name := some "web", inNamespace := some "default" } }

/-- A parent with these dependents, kept as Deployments. -/
def keptAsDeployments (objects : List Object) : State :=
  { State.blank with
    object := besideParent "v1" "Parent"
    dependents := SortedMap.empty.insert deployments.key objects }

theorem accepts_keptAsDeployments {arity : Arity} {objects : List Object}
    (few : arity = .one → objects.length ≤ 1)
    (beside : ∀ o ∈ objects, o.key = deployments.key ∧ ∃ a k, o = besideParent a k) :
    checkTransition (keptAsDeployments []) (keptAsDeployments objects)
      (declarations [(deployments, arity)]) = .ok () := by
  have declared : declarationOf (declarations [(deployments, arity)]) deployments.key =
      some (deployments.declare arity) := by
    simp [declarations, declarationOf, ResourceType.declare]
  have entries : (keptAsDeployments objects).dependents.entries =
      [(deployments.key, objects)] := rfl
  refine checkTransition_eq_ok_iff.2 ⟨.refl _, ?_, ?_⟩
  · intro e he
    rw [entries] at he
    obtain rfl := List.mem_singleton.1 he
    exact ⟨_, declared, few⟩
  · intro e he o ho
    rw [entries] at he
    obtain rfl := List.mem_singleton.1 he
    obtain ⟨key, a, k, rfl⟩ := beside o ho
    exact ⟨key, ⟨"web", rfl, by decide⟩, rfl⟩

theorem key_lowerCase : (besideParent "apps/v1" "deployment").key = deployments.key := by
  decide +kernel

theorem key_coreGroup : (besideParent "v1.apps" "Deployment").key = deployments.key := by
  decide +kernel

/-- A kind in lower case passes for the declared one. -/
theorem accepted_dependents_have_declared_keys_in_lower_case :
    let o := besideParent "apps/v1" "deployment"
    checkTransition (keptAsDeployments []) (keptAsDeployments [o])
      (declarations [(deployments, .one)]) = .ok () ∧
    o.key = deployments.key ∧ o.resourceType.SameButCase deployments := by
  intro o
  have accepted : checkTransition (keptAsDeployments []) (keptAsDeployments [o])
      (declarations [(deployments, .one)]) = .ok () :=
    accepts_keptAsDeployments (by simp) (by simpa using ⟨key_lowerCase, _, _, rfl⟩)
  have kept : (deployments.key, [o]) ∈ (keptAsDeployments [o]).dependents.entries :=
    List.mem_singleton.2 rfl
  obtain ⟨t, member, _, dependents⟩ :=
    accepted_dependents_have_declared_keys _ accepted (deployments.key, [o]) kept
  obtain rfl := List.mem_singleton.1 member
  obtain ⟨_, key, same⟩ := dependents o (List.mem_singleton.2 rfl)
  exact ⟨accepted, key, same ⟨by decide, by decide⟩ ⟨by decide, by decide⟩⟩

/-- Two dependents of other types are accepted as Deployments of the group `apps`: one whose kind
is in lower case, and one of the core group whose version takes the place of version and group. -/
theorem accepted_dependents_of_other_types :
    let lower := besideParent "apps/v1" "deployment"
    let core := besideParent "v1.apps" "Deployment"
    let decls := declarations [(deployments, .many)]
    checkTransition (keptAsDeployments []) (keptAsDeployments [lower, core]) decls = .ok () ∧
    ∃ decl, declarationOf decls deployments.key = some decl ∧ decl.apiVersion = "apps/v1" ∧
      decl.kind = "Deployment" ∧ lower.kind ≠ decl.kind ∧ core.apiVersion ≠ decl.apiVersion := by
  intro lower core decls
  have keys : ∀ o ∈ [lower, core], o.key = deployments.key ∧ ∃ a k, o = besideParent a k := by
    simpa using ⟨⟨key_lowerCase, _, _, rfl⟩, key_coreGroup, _, _, rfl⟩
  exact ⟨accepts_keptAsDeployments (by simp) keys, deployments.declare .many, rfl, rfl, rfl,
    by decide, by decide⟩

end State

end ControllerHooks
