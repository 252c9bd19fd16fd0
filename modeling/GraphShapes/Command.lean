/-
GraphShapes.Command — the commands and what they answer.

`infer` reads a model file and prints the shape of every output; inputs may be
described on the command line and are taken from the graph's declarations
otherwise. `run` makes a report of an object of an object store.
-/
import GraphShapes.Command.Grammar
import GraphShapes.Command.Terminal
import GraphShapes.Transfer

namespace GraphShapes

/-- What `infer` is asked for. -/
structure InferRequest where
  model : String := ""
  /-- Descriptions of the inputs, in order. -/
  inputs : List String := []
  endOffset : Bool := true
  validate : Bool := false
  /-- Print the shape of every value. -/
  showMap : Bool := false
  /-- Print a report as a document. -/
  asJson : Bool := false
  deriving DecidableEq, Repr, Inhabited

/-- What `run` is asked for. -/
structure RunRequest where
  uri : String := ""
  directory : String := "./outputs"
  endOffset : Bool := true
  deriving DecidableEq, Repr, Inhabited

/-- A command. -/
inductive Command where
  | infer (r : InferRequest)
  | run (r : RunRequest)
  deriving DecidableEq, Repr, Inhabited

namespace Command

/-! ## Reading -/

/-- Adds an input. -/
def addInput : Switch InferRequest := .valued fun v r => { r with inputs := r.inputs ++ [v] }

/-- The options of `infer`. -/
def inferGrammar : Grammar InferRequest where
  long
    | "input" => some addInput
    | "end-offset" => some (.flag fun r => { r with endOffset := true })
    | "no-end-offset" => some (.flag fun r => { r with endOffset := false })
    | "validate" => some (.flag fun r => { r with validate := true })
    | "show-map" => some (.flag fun r => { r with showMap := true })
    | "json" => some (.flag fun r => { r with asJson := true })
    | _ => none
  short
    | 'i' => some addInput
    | _ => none

/-- The options of `run`. -/
def runGrammar : Grammar RunRequest where
  long
    | "output-dir" => some (.valued fun v r => { r with directory := v })
    | "end-offset" => some (.flag fun r => { r with endOffset := true })
    | "no-end-offset" => some (.flag fun r => { r with endOffset := false })
    | _ => none
  short _ := none

/-- The command that a name and further words make. -/
def readNamed (name : String) (words : List String) : Option Command :=
  match name with
  | "infer" =>
    match inferGrammar.read {} words with
    | some (r, [model]) => some (.infer { r with model })
    | _ => none
  | "run" =>
    match runGrammar.read {} words with
    | some (r, [uri]) => some (.run { r with uri })
    | _ => none
  | _ => none

/-- The command that words make. -/
def read : List String → Option Command
  | "--" :: name :: words => readNamed name words
  | name :: words => readNamed name words
  | [] => none

/-! ## Answering -/

/-- What a command answers. -/
inductive Reply where
  | printed (text : String)
  /-- A defect of the graph or the inputs, as a line of its own. -/
  | refused (line : String)
  /-- Any other fault, with what was printed before it. -/
  | failed (f : Fault) (text : String := "")
  /-- The words make no command, or name a file that is none. -/
  | usage
  deriving Repr, Inhabited

namespace Reply

/-- The exit code of a reply. -/
def exitCode : Reply → Nat
  | printed _ => 0
  | refused _ => 1
  | failed _ _ => 1
  | usage => 2

/-- What goes to the standard output. -/
def output : Reply → String
  | printed text => text
  | failed _ text => text
  | _ => ""

/-- What goes to the error output. -/
def errorOutput : Reply → String
  | refused line => line
  | _ => ""

/-- Lines to be printed one by one. -/
def ofLines (ls : List Points) : Reply :=
  match Terminal.lines ls with
  | (text, none) => printed text
  | (text, some m) => failed (.misuse m) text

/-- The reply to a defect with a code. -/
def ofDefect (code : String) (message : Points) : Reply :=
  refused (Terminal.errorLine ("error[" ++ code ++ "]: " ++ message))

/-- The reply to a fault: defects of graphs and inputs are told with their code. -/
def ofFault : Fault → Reply
  | .inference e => ofDefect e.code e.message
  | .validation e => ofDefect e.code e.message
  | f => failed f

end Reply

/-- The lines of the graph's outputs. -/
def outputLines (g : Graph) (shapes : List Shape) : List Points :=
  (g.outputs.zip shapes).map fun (name, s) => name.display ++ ": " ++ Decimal.renderList s

/-- The lines that a completed run prints. -/
def printout (r : InferRequest) (g : Graph) (e : Engine) (shapes : List Shape) :
    Except Fault (List Points) :=
  if r.asJson then do
    let text ← Fault.ofMisuse (← Report.ofEngine g e).text
    return [text]
  else
    let listing := if r.showMap then [Report.listing e.store] else []
    .ok (outputLines g shapes ++ listing)

/-- A described input. -/
def describedInput (s : String) : Except Fault Datum :=
  match Input.describe s with
  | .ok d => .ok d.toDatum
  | .error e => .error (.inference e)

/-- The inputs of a run. -/
def inputsOf (r : InferRequest) (g : Graph) : Except Fault (List Datum) :=
  if r.inputs.isEmpty then Input.declaredInputs g else r.inputs.mapM describedInput

variable [Json.Nesting]

/-- The lines that `infer` prints. -/
def inferLines (files : Files) (r : InferRequest) : Except Fault (List Points) := do
  let g ← loadGraph files r.validate (Path.ofString r.model).toString
  let inputs ← inputsOf r g
  let outcome := inferShapes g inputs { endOffset := r.endOffset }
  printout r g outcome.engine (← outcome.result)

/-- Answers `infer`. The model has to be a file. -/
def answerInfer (files : Files) (r : InferRequest) : Reply :=
  match files.readBytes r.model with
  | .error .badValue => .failed (.misuse .badValue)
  | .error _ => .usage
  | .ok _ =>
    match inferLines files r with
    | .ok ls => .ofLines ls
    | .error f => .ofFault f

/-- Answers `run`, with what is to be written if it goes through. -/
def answerRun (make : FileMaker) (objects : Objects) (r : RunRequest) : Reply × Option Export :=
  match Transfer.run make objects r.uri r.directory r.endOffset with
  | .ok e => (.ofLines ["Results written to: " ++ e.path], some e)
  | .error f => (.failed f, none)

/-- Answers words, with what is to be written. -/
def answer (make : FileMaker) (files : Files) (objects : Objects) (words : List String) :
    Reply × Option Export :=
  match read words with
  | none => (.usage, none)
  | some (.infer r) => (answerInfer files r, none)
  | some (.run r) => answerRun make objects r

end Command

end GraphShapes
