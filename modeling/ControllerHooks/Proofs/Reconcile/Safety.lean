import ControllerHooks.Proofs.Reconcile.Checks

/-!
# Safety of the engine

Whatever a body does, the checks around it hold. `Reconciler.Run` chains passes over the same
declarations, each with a body of its own; `Reconciler.passes_are_safe` says what one pass returns,
what is refused before any body runs, and that a run is never refused its own result.
-/

namespace ControllerHooks.Reconciler

open State (Allows)

/-- Passes one after another, each given what the one before returned. -/
inductive Run (decls : List DependentDecl) : State → State → Prop
  | first {body : State → Except Fault State} {s t : State} :
      reconcile ⟨decls, body⟩ s = .ok t → Run decls s t
  | next {body : State → Except Fault State} {s t u : State} :
      Run decls s t → reconcile ⟨decls, body⟩ t = .ok u → Run decls s u

theorem allows_trans {decls : List DependentDecl} {s t u : State} (st : Allows decls s t)
    (tu : Allows decls t u) : Allows decls s u :=
  ⟨st.identity.trans tu.identity, tu.permitted, tu.belong⟩

theorem Run.allows {decls : List DependentDecl} {s out : State} (run : Run decls s out) :
    Allows decls s out := by
  induction run with
  | first pass => exact reconcile_allows pass
  | next _ pass ih => exact allows_trans ih (reconcile_allows pass)

/-- Dependents that are not permitted end the pass before the body runs. -/
theorem reconcile_of_check_error {decls : List DependentDecl} {s : State} {fault : Fault}
    (refused : s.dependents.check decls = .error fault) (body : State → Except Fault State) :
    reconcile ⟨decls, body⟩ s = .error fault := by
  simp [reconcile, refused]

theorem check_error_of_not_permitted {decls : List DependentDecl} {deps : Dependents}
    (h : ¬ deps.Permitted decls) : ∃ fault, deps.check decls = .error fault := by
  cases checked : deps.check decls with
  | error fault => exact ⟨fault, rfl⟩
  | ok _ => exact absurd (Dependents.check_eq_ok_iff.1 checked) h

theorem not_permitted_of_entry {decls : List DependentDecl} {deps : Dependents}
    (h : ∃ e ∈ deps.entries, declarationOf decls e.1 = none ∨
      ∃ decl, declarationOf decls e.1 = some decl ∧ decl.arity = .one ∧ 1 < e.2.length) :
    ¬ deps.Permitted decls := by
  intro permitted
  obtain ⟨e, he, bad⟩ := h
  obtain ⟨decl, declared, bound⟩ := permitted e he
  rcases bad with undeclared | ⟨decl', declared', one, many⟩
  · simp [declared] at undeclared
  · obtain rfl : decl = decl' := by simpa [declared] using declared'
    have := bound one
    omega

/-- After permitted dependents only the body and the transition can be at fault. -/
theorem fault_after_check {decls : List DependentDecl} {body : State → Except Fault State}
    {s : State} {fault : Fault} (checked : s.dependents.check decls = .ok ())
    (failed : reconcile ⟨decls, body⟩ s = .error fault) :
    body { s with events := [] } = .error fault ∨
      ∃ desired, body { s with events := [] } = .ok desired ∧
        s.checkTransition desired decls = .error fault := by
  simp only [reconcile, checked, ok_bind] at failed
  cases ran : body { s with events := [] } with
  | error e => exact .inl (by simpa [ran] using failed)
  | ok desired =>
    refine .inr ⟨desired, rfl, ?_⟩
    cases allowed : s.checkTransition desired decls with
    | error e => simpa [ran, allowed] using failed
    | ok _ => simp [ran, allowed] at failed

/-- **Safety of passes and runs**, for every list of declarations and every body. A pass that
completes keeps the identity of its parent, returns declared dependents only, each under its own
key, named, placed with the parent and no more than its declaration allows, and exactly those
complete events that the body left when it started with none. Dependents that are undeclared or
too many are refused before the body is asked. So what a run has returned is never refused. -/
theorem passes_are_safe (decls : List DependentDecl) :
    (∀ (body : State → Except Fault State) (s out : State),
      reconcile ⟨decls, body⟩ s = .ok out →
        Object.SameIdentity s.object out.object ∧
        (∀ e ∈ out.dependents.entries,
          (∃ decl, declarationOf decls e.1 = some decl ∧
            (decl.arity = .one → e.2.length ≤ 1)) ∧
          ∀ o ∈ e.2, o.key = e.1 ∧ (∃ name, o.name = some name ∧ name ≠ "") ∧
            o.inNamespace = out.object.inNamespace) ∧
        ∃ left, body { s with events := [] } = .ok left ∧
          out.events = left.events.filter Event.isComplete) ∧
    (∀ s : State,
      (∃ e ∈ s.dependents.entries, declarationOf decls e.1 = none ∨
        ∃ decl, declarationOf decls e.1 = some decl ∧ decl.arity = .one ∧ 1 < e.2.length) →
        ∃ fault, ∀ body, reconcile ⟨decls, body⟩ s = .error fault) ∧
    (∀ s out : State, Run decls s out →
      out.dependents.check decls = .ok () ∧
      ∀ body fault, reconcile ⟨decls, body⟩ out = .error fault →
        body { out with events := [] } = .error fault ∨
          ∃ desired, body { out with events := [] } = .ok desired ∧
            out.checkTransition desired decls = .error fault) := by
  refine ⟨?_, ?_, ?_⟩
  · intro body s out pass
    have allowed := reconcile_allows pass
    obtain ⟨_, left, ran, _, rfl⟩ := reconcile_eq_ok_iff.1 pass
    refine ⟨allowed.identity, ?_, left, ran, rfl⟩
    intro e he
    refine ⟨allowed.permitted e he, ?_⟩
    intro o ho
    have belongs := allowed.belong e he o ho
    exact ⟨belongs.key, belongs.name, belongs.inNamespace⟩
  · intro s bad
    have refused := not_permitted_of_entry bad
    obtain ⟨fault, stopped⟩ := check_error_of_not_permitted refused
    exact ⟨fault, reconcile_of_check_error stopped⟩
  · intro s out run
    have checked := Dependents.check_eq_ok_iff.2 run.allows.permitted
    refine ⟨checked, ?_⟩
    intro body fault failed
    exact fault_after_check checked failed

/-! ## A parent with a Service of its own -/

def service : ResourceType := ⟨"", "v1", "Service"⟩

def serviceFor (parent : Object) : Object :=
  { Object.blank with
    apiVersion := service.apiVersion
    kind := service.kind
    metadata := some { Metadata.blank with name := some "web", inNamespace := parent.inNamespace } }

/-- A shop with so many Services, after a pass that told of these events. -/
def shop (services : Nat) (events : List Event) : State :=
  let parent : Object := { Object.blank with
    metadata := some { Metadata.blank with name := some "shop", inNamespace := some "default" } }
  { State.blank with
    object := parent
    dependents := SortedMap.empty.insert service.key (List.replicate services (serviceFor parent))
    events }

/-- Puts one more Service beside the parent. -/
def addService (s : State) : State :=
  { s with dependents := s.dependents.push service.key (serviceFor s.object) }

/-- Creates the Service when there is none, and then tells two things, one of them without a
reason. -/
def serves (s : State) : Except Fault State := do
  match ← s.dependents.slot service.key with
  | .absent =>
    let told := (addService s).emit (.normal "Created" "service created")
    return told.emit (.warning "" "lost")
  | .present _ => return s.emit (.normal "Kept" "service found")

/-- The Service is created in one pass and kept in the next. A body that adds another one where one
is declared faults with its transition, and a shop that already has two is refused, as is one whose
Service is not declared. -/
theorem passes_are_safe_beside_a_service :
    let decls := [service.declare .one]
    let created := shop 1 [.normal "Created" "service created"]
    let kept := shop 1 [.normal "Kept" "service found"]
    (reconcile ⟨decls, serves⟩ (shop 0 [.normal "Old" "earlier pass"]) = .ok created ∧
      ∃ left, serves (shop 0 []) = .ok left ∧
        created.events = left.events.filter Event.isComplete) ∧
    (reconcile ⟨decls, serves⟩ created = .ok kept ∧
      Object.SameIdentity created.object kept.object ∧
      ∀ e ∈ kept.dependents.entries, ∀ o ∈ e.2, o.key = e.1 ∧
        (∃ name, o.name = some name ∧ name ≠ "") ∧ o.inNamespace = kept.object.inNamespace) ∧
    (kept.dependents.check decls = .ok () ∧
      ∃ fault, reconcile ⟨decls, fun s => .ok (addService s)⟩ kept = .error fault ∧
        kept.checkTransition (shop 2 []) decls = .error fault) ∧
    (∃ fault, ∀ body, reconcile ⟨decls, body⟩ (shop 2 []) = .error fault) ∧
    ∃ fault, ∀ body, reconcile ⟨[], body⟩ created = .error fault := by
  intro decls created kept
  have first : reconcile ⟨decls, serves⟩ (shop 0 [.normal "Old" "earlier pass"]) = .ok created :=
    rfl
  have second : reconcile ⟨decls, serves⟩ created = .ok kept := rfl
  have entries (n : Nat) (events : List Event) : ∃ objects, objects.length = n ∧
      (service.key, objects) ∈ (shop n events).dependents.entries :=
    ⟨_, List.length_replicate, List.mem_singleton.2 rfl⟩
  obtain ⟨completes, refuses, runs⟩ := passes_are_safe decls
  obtain ⟨_, _, told⟩ := completes serves _ _ first
  obtain ⟨identity, dependents, _⟩ := completes serves _ _ second
  obtain ⟨checked, faults⟩ := runs _ _ (.next (.first first) second)
  refine ⟨⟨first, told⟩, ⟨second, identity, fun e he => (dependents e he).2⟩, ⟨checked, ?_⟩, ?_, ?_⟩
  · obtain ⟨fault, failed⟩ : ∃ fault,
        reconcile ⟨decls, fun s => .ok (addService s)⟩ kept = .error fault := ⟨_, rfl⟩
    refine ⟨fault, failed, ?_⟩
    rcases faults _ _ failed with stopped | ⟨desired, ran, refused⟩
    · cases stopped
    · cases ran
      exact refused
  · obtain ⟨objects, two, member⟩ := entries 2 []
    have many : 1 < objects.length := by omega
    exact refuses (shop 2 []) ⟨_, member, .inr ⟨_, rfl, rfl, many⟩⟩
  · obtain ⟨objects, _, member⟩ := entries 1 created.events
    exact (passes_are_safe []).2.1 created ⟨_, member, .inl rfl⟩

end ControllerHooks.Reconciler
