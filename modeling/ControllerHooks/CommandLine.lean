import ControllerHooks.Controllers.Registry
import ControllerHooks.Yaml

/-!
# The command line

One hook runs per invocation: the request is read whole, one response is written, and the exit code
tells whether there is one.

* `CommandLine.parse` reads the arguments; `Invocation.run` answers them.
-/

namespace ControllerHooks

inductive Task where
  | hook (hook : Hook)
  | manifest (command : String)
  deriving DecidableEq

structure Invocation where
  /-- The name of the controller, from an argument or from the environment. -/
  controller : Option String
  task : Task
  deriving DecidableEq

/-- What the arguments ask for. -/
inductive Request where
  | run (invocation : Invocation)
  | help
  | version
  | misuse
  deriving DecidableEq

namespace CommandLine

/-- The form of one argument. -/
inductive Argument where
  /-- An option with two dashes, and the value after an equals sign. -/
  | option (name : String) (value : Option String)
  /-- Letters after one dash. -/
  | letters (first : Char)
  | separator
  | word (text : String)
  deriving DecidableEq

def Argument.ofString (s : String) : Argument :=
  match s.toList with
  | ['-', '-'] => .separator
  | '-' :: '-' :: rest =>
    let name := String.ofList (rest.takeWhile (· ≠ '='))
    match rest.dropWhile (· ≠ '=') with
    | _ :: value => .option name (some (String.ofList value))
    | [] => .option name none
  | '-' :: first :: _ => .letters first
  | _ => .word s

def isWord (s : String) : Bool :=
  match Argument.ofString s with
  | .word _ => true
  | _ => false

/-- The options given at one level; each at most once. -/
structure Options where
  controller : Option String
  log : Option String
  command : Option String
  deriving DecidableEq

def Options.none : Options := ⟨.none, .none, .none⟩

/-- Set an option that the level knows and that is not set yet. -/
def Options.set? (known : List String) (options : Options) (name value : String) : Option Options :=
  if name ∉ known then .none
  else if name = "controller" ∧ options.controller.isNone then
    some { options with controller := some value }
  else if name = "log" ∧ options.log.isNone then some { options with log := some value }
  else if name = "command" ∧ options.command.isNone then
    some { options with command := some value }
  else .none

/-- The options after a subcommand. -/
def readTail (known : List String) (finish : Options → Request) : Options → List String → Request
  | options, [] => finish options
  | options, arg :: rest =>
    match Argument.ofString arg with
    | .option "help" none | .letters 'h' => .help
    | .option name (some value) =>
      match options.set? known name value with
      | some options => readTail known finish options rest
      | none => .misuse
    | .option name none =>
      match rest with
      | value :: rest =>
        match isWord value, options.set? known name value with
        | true, some options => readTail known finish options rest
        | _, _ => .misuse
      | [] => .misuse
    | .separator => if rest.isEmpty then finish options else .misuse
    | .letters _ | .word _ => .misuse

def hook? : String → Option Hook
  | "validate" => some .validate
  | "mutate" => some .mutate
  | "reconcile" => some .reconcile
  | "plan" => some .plan
  | _ => none

def globals : List String := ["controller", "log"]

/-- What follows `help`: nothing, or the name of a subcommand. -/
def readHelp : List String → Request
  | [] => .help
  | [name] =>
    if (hook? name).isSome ∨ name = "manifest" ∨ name = "help" then .help else .misuse
  | _ => .misuse

/-- The arguments up to the subcommand and after it. -/
def readArguments (environment : Option String) : Options → List String → Request
  | _, [] => .misuse
  | options, arg :: rest =>
    match Argument.ofString arg with
    | .option "help" none | .letters 'h' => .help
    | .option "version" none | .letters 'V' => .version
    | .option name (some value) =>
      match options.set? globals name value with
      | some options => readArguments environment options rest
      | none => .misuse
    | .option name none =>
      match rest with
      | value :: rest =>
        match isWord value, options.set? globals name value with
        | true, some options => readArguments environment options rest
        | _, _ => .misuse
      | [] => .misuse
    | .word "help" => readHelp rest
    | .word "manifest" =>
      readTail ("command" :: globals)
        (fun later => .run ⟨(later.controller.or options.controller).or environment,
          .manifest (later.command.getD "whitebox-hook")⟩) .none rest
    | .word name =>
      match hook? name with
      | some hook =>
        readTail globals
          (fun later => .run ⟨(later.controller.or options.controller).or environment,
            .hook hook⟩) .none rest
      | none => .misuse
    | .separator | .letters _ => .misuse

/-- What the arguments ask for, where the environment may name the controller. -/
def parse (environment : Option String) (args : List String) : Request :=
  readArguments environment .none args

end CommandLine

/-- How a process ends. -/
structure Exit where
  code : UInt8
  output : Bytes
  deriving DecidableEq

namespace Exit

def success (output : Bytes) : Exit := ⟨0, output⟩

def failure : Exit := ⟨1, []⟩

/-- A response is written with success; a fault writes nothing. -/
def ofResult : Except Fault Bytes → Exit
  | .ok response => success response
  | .error _ => failure

end Exit

namespace Invocation

/-- The manifest needs neither a controller nor a request; a hook needs both. -/
def run (i : Invocation) (request : Bytes) : Exit :=
  match i.task with
  | .manifest command => .success (Utf8.encode (Yaml.document (Manifest.ofCommand command).toJson))
  | .hook hook =>
    match i.controller.bind Controller.find? with
    | none => .failure
    | some controller => .ofResult (controller.invoke hook request)

end Invocation

namespace Request

def versionLine : String := "whitebox-hook 0.1.0\n"

def usage : String :=
  "Usage: whitebox-hook [--controller NAME] [--log FILTER] " ++
    "validate|mutate|reconcile|plan|manifest [--command COMMAND]\n"

def answer (r : Request) (input : Bytes) : Exit :=
  match r with
  | .run invocation => invocation.run input
  | .help => .success (Utf8.ofString usage)
  | .version => .success (Utf8.ofString versionLine)
  | .misuse => ⟨2, []⟩

/-- Whether the answer depends on the input. -/
def needsInput : Request → Bool
  | .run ⟨_, .hook _⟩ => true
  | _ => false

end Request

end ControllerHooks
