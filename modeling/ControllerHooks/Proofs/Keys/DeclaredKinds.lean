import ControllerHooks.Proofs.Keys.Requests
import ControllerHooks.Proofs.Reconcile.DeclaredTypes

/-!
# Objects of a declared type

What a type writes as an API version is read back as its group and version, so an object that says
so is of this type and under its key.

* `ResourceType.ofApiVersion_apiVersion`: the type comes back, when the slashes can be told apart.
* `State.checkTransition_of_carries`: what is left to check of objects that carry a declared type.
* `ResourceType.declared_objects_cohere`: types, objects and keys together.
-/

namespace ControllerHooks

open ContainerSet (deployments)
open ResourceKey (Spells)

namespace ResourceType

variable {t : ResourceType}

/-- The first slash of the API version is the one between group and version. -/
structure Unslashed (t : ResourceType) : Prop where
  group : '/' ∉ t.group.toList
  version : t.group = "" → '/' ∉ t.version.toList

theorem ofApiVersion_apiVersion (h : t.Unslashed) : ofApiVersion t.apiVersion t.kind = t := by
  obtain ⟨group, version, kind⟩ := t
  by_cases core : group = ""
  · have plain : '/' ∉ version.toList := h.version core
    simp [ofApiVersion, apiVersion, core, plain]
  · have plain : ∀ c ∈ group.toList, decide (c ≠ '/') = true :=
      fun c hc => decide_eq_true fun same => h.group (same ▸ hc)
    have text : (apiVersion ⟨group, version, kind⟩).toList =
        group.toList ++ '/' :: version.toList := by
      have slash : "/".toList = ['/'] := rfl
      have same (s : String) : toString s = s := rfl
      simp [apiVersion, core, slash, same]
    simp only [ofApiVersion, text]
    rw [if_pos (by simp), List.takeWhile_append_of_pos plain, List.dropWhile_append_of_pos plain]
    simp

end ResourceType

/-- The object says that it is of the type. -/
structure Object.Carries (o : Object) (t : ResourceType) : Prop where
  apiVersion : o.apiVersion = t.apiVersion
  kind : o.kind = t.kind

theorem Object.Carries.resourceType {o : Object} {t : ResourceType} (h : o.Carries t)
    (unslashed : t.Unslashed) : o.resourceType = t := by
  rw [Object.resourceType, h.apiVersion, h.kind, ResourceType.ofApiVersion_apiVersion unslashed]

/-- Of objects that carry a declared type a transition wants names, the namespace of the parent,
and no more of them than were declared. -/
theorem State.checkTransition_of_carries {t : ResourceType} (unslashed : t.Unslashed)
    {decls : List DependentDecl} {arity : Arity} {observed desired : State}
    (declared : declarationOf decls t.key = some (t.declare arity))
    (carry : ∀ e ∈ desired.dependents.entries, e.1 = t.key ∧ ∀ o ∈ e.2, o.Carries t) :
    observed.checkTransition desired decls = .ok () ↔
      Object.SameIdentity observed.object desired.object ∧
      ∀ e ∈ desired.dependents.entries, (arity = .one → e.2.length ≤ 1) ∧
        ∀ o ∈ e.2, (∃ name, o.name = some name ∧ name ≠ "") ∧
          o.inNamespace = desired.object.inNamespace := by
  rw [checkTransition_eq_ok_iff]
  constructor
  · intro allowed
    refine ⟨allowed.identity, fun e he => ⟨?_, fun o ho => ?_⟩⟩
    · obtain ⟨decl, found, few⟩ := allowed.permitted e he
      rw [(carry e he).1, declared] at found
      obtain rfl := Option.some.inj found
      exact few
    · have belongs := allowed.belong e he o ho
      exact ⟨belongs.name, belongs.inNamespace⟩
  · rintro ⟨identity, each⟩
    refine ⟨identity, fun e he => ⟨t.declare arity, ?_, (each e he).1⟩, fun e he o ho => ?_⟩
    · rw [(carry e he).1, declared]
    · obtain ⟨key, carries⟩ := carry e he
      obtain ⟨name, place⟩ := (each e he).2 o ho
      exact ⟨by rw [Object.key, (carries o ho).resourceType unslashed, key], name, place⟩

namespace ResourceType

/-- **Declared objects.** An object with the API version and the kind of a type is of this type and
has its key, and among the dependents of a parent it passes for the declared type. -/
theorem declared_objects_cohere (t : ResourceType) :
    (t.Unslashed →
      (∀ o : Object, o.Carries t → o.resourceType = t ∧ o.key = t.key) ∧
      ∀ (decls : List DependentDecl) (arity : Arity) (observed desired : State),
        declarationOf decls t.key = some (t.declare arity) →
        (∀ e ∈ desired.dependents.entries, e.1 = t.key ∧ ∀ o ∈ e.2, o.Carries t) →
        (observed.checkTransition desired decls = .ok () ↔
          Object.SameIdentity observed.object desired.object ∧
          ∀ e ∈ desired.dependents.entries, (arity = .one → e.2.length ≤ 1) ∧
            ∀ o ∈ e.2, (∃ name, o.name = some name ∧ name ≠ "") ∧
              o.inNamespace = desired.object.inNamespace)) ∧
    (Spells Char.isAlphanum t.parts →
      ResourceKey.parse t.key.text = .ok t.key ∧
      ∀ u : ResourceType, Spells Char.isAlphanum u.parts →
        (t.key = u.key ↔ t.group.toLower = u.group.toLower ∧
          t.version.toLower = u.version.toLower ∧ t.kind.toLower = u.kind.toLower)) := by
  refine ⟨fun unslashed => ⟨fun o carries => ?_, fun _ _ _ _ => ?_⟩, fun spelled => ⟨?_, ?_⟩⟩
  · have same := carries.resourceType unslashed
    exact ⟨same, congrArg key same⟩
  · exact State.checkTransition_of_carries unslashed
  · exact ResourceKey.parse_eq_ok_iff.2 ⟨isKey_key spelled, rfl⟩
  · intro u spelled'
    rw [key_eq_key_iff spelled spelled']
    simp [lowered]

/-- A Deployment is kept under its own key, which it shares with its name in capital letters. -/
theorem declared_objects_cohere_of_deployments :
    let o := State.besideParent "apps/v1" "Deployment"
    o.Carries deployments ∧ o.key = deployments.key ∧
      State.checkTransition (State.keptAsDeployments []) (State.keptAsDeployments [o])
        [deployments.declare .one] = .ok () ∧
      ResourceKey.parse deployments.key.text = .ok deployments.key ∧
      deployments.key = key ⟨"APPS", "v1", "DEPLOYMENT"⟩ := by
  intro o
  have unslashed : deployments.Unslashed := ⟨by decide, by decide⟩
  have carries : o.Carries deployments := ⟨by decide, rfl⟩
  have version : ResourceKey.IsVersion ['v', '1'] :=
    ⟨['1'], [], rfl, ⟨by decide, List.all_eq_true.1 rfl⟩, .inl rfl⟩
  have letters {part : List Char} (all : part.all Char.isAlphanum = true) :
      ∀ c ∈ part, c.isAlphanum = true ∨ c = '-' := fun c hc => .inl (List.all_eq_true.1 all c hc)
  have spelled : Spells Char.isAlphanum deployments.parts :=
    ⟨⟨by decide, List.all_eq_true.1 rfl⟩, version,
      List.forall_mem_singleton.2 ⟨by decide, letters rfl, by decide, by decide⟩⟩
  have capitals : Spells Char.isAlphanum (parts ⟨"APPS", "v1", "DEPLOYMENT"⟩) :=
    ⟨⟨by decide, List.all_eq_true.1 rfl⟩, version,
      List.forall_mem_singleton.2 ⟨by decide, letters rfl, by decide, by decide⟩⟩
  obtain ⟨coherent, keys⟩ := declared_objects_cohere deployments
  obtain ⟨objects, transitions⟩ := coherent unslashed
  obtain ⟨parsed, same⟩ := keys spelled
  have entries : (State.keptAsDeployments [o]).dependents.entries = [(deployments.key, [o])] := rfl
  refine ⟨carries, (objects o carries).2, ?_, parsed, (same _ capitals).2 ?_⟩
  · refine (transitions _ .one _ _ (by simp [declarationOf, declare]) ?_).2 ⟨.refl _, ?_⟩
    · rw [entries]
      exact List.forall_mem_singleton.2 ⟨rfl, List.forall_mem_singleton.2 carries⟩
    · rw [entries]
      exact List.forall_mem_singleton.2
        ⟨fun _ => Nat.le_refl 1, List.forall_mem_singleton.2 ⟨⟨"web", rfl, by decide⟩, rfl⟩⟩
  · simp only [← String.toList_inj, toList_toLower]
    decide

end ResourceType

end ControllerHooks
