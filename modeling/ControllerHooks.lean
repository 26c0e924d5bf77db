import ControllerHooks.Main
import ControllerHooks.Proofs.Admission.ClientData
import ControllerHooks.Proofs.Admission.RuleLists
import ControllerHooks.Proofs.Admission.Verdicts
import ControllerHooks.Proofs.Codec.Faithful
import ControllerHooks.Proofs.Controllers.Responses
import ControllerHooks.Proofs.Keys.DeclaredKinds
import ControllerHooks.Proofs.Patch.Canonical
import ControllerHooks.Proofs.Patch.EditScript
import ControllerHooks.Proofs.Patch.Encoded
import ControllerHooks.Proofs.Patch.Members
import ControllerHooks.Proofs.Patch.Undoing
import ControllerHooks.Proofs.Reconcile.Phases
import ControllerHooks.Proofs.Reconcile.Safety
import ControllerHooks.Proofs.Reconcile.SpecChanges
import ControllerHooks.Proofs.Reconcile.Unchecked
import ControllerHooks.Proofs.Reconcile.Updates
