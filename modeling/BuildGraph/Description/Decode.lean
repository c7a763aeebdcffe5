import BuildGraph.Script.Convert
import BuildGraph.Description

/-!
# Descriptions from values

Reads rules and targets out of the table that a description returns.  Every error names the place
where it arose: the number of the rule or target, its kind, and the field.
-/

namespace BuildGraph

open Script (Error Fault Value)

namespace Description

/-! ## Templates -/

mutual

/-- The fragments of a text, a marker, or an arbitrarily nested sequence of both. -/
def fragmentsOf (place : String) : Value → Except Error (List Fragment)
  | .text bytes => (Value.characters bytes).map fun s => [.literal s]
  | .integer n => pure [.literal (toString n)]
  | .number d => pure [.literal d.plainText]
  | .table tag items fields => do
    match ← Value.fragment? (.table tag items fields) with
    | some f => pure [f]
    | none => fragmentsOfAll place items
  | .nil => .error (.fault (.notText place .nil))
  | .bool _ => .error (.fault (.notText place .boolean))
  | .function _ => .error (.fault (.notText place .function))

/-- The fragments of values, one after the other. -/
def fragmentsOfAll (place : String) : List Value → Except Error (List Fragment)
  | [] => pure []
  | v :: vs => do
    let first ← fragmentsOf place v
    let rest ← fragmentsOfAll place vs
    pure (first ++ rest)

end

/-- The template of a value. -/
def template (place : String) (v : Value) : Except Error Template :=
  match v with
  | .text bytes => (Value.characters bytes).map .literal
  | .integer n => pure (.literal (toString n))
  | .number d => pure (.literal d.plainText)
  | .table tag items fields =>
    (fragmentsOf place (.table tag items fields)).map .composed
  | v => .error (.fault (.notText place v.kind))

/-- The results of a reading for each value, in order. -/
def eachOf {α : Type} (read : Value → Except Error α) : List Value → Except Error (List α)
  | [] => pure []
  | v :: vs => do
    let a ← read v
    let rest ← eachOf read vs
    pure (a :: rest)

/-- The templates of a sequence. -/
def templates (place : String) (v : Value) : Except Error (List Template) :=
  match v with
  | .table _ items _ => eachOf (template place) items
  | v => .error (.fault (.notArray place v.kind))

/-! ## Fields -/

/-- The place of a field. -/
def fieldPlace (place field : String) : String := place ++ "." ++ field

/-- A reading of a field that may be absent. -/
def optional {α : Type} (read : String → Value → Except Error α) (t : Value)
    (field place : String) : Except Error (Option α) :=
  let v := t.get field
  if v.isNil then pure none else (read (fieldPlace place field) v).map some

/-- A reading of a field that must be there. -/
def required {α : Type} (read : String → Value → Except Error α) (t : Value)
    (field place : String) : Except Error α :=
  let v := t.get field
  if v.isNil then .error (.fault (.missingField place field))
  else read (fieldPlace place field) v

/-- The templates of a field; an absent one has none. -/
def templatesOrNone (t : Value) (field place : String) : Except Error (List Template) :=
  (optional templates t field place).map (·.getD [])

/-- A text in which markers are not allowed. -/
def plainText (place : String) (v : Value) : Except Error String :=
  match v with
  | .text bytes => Value.characters bytes
  | v => .error (.fault (.notPlainText place v.kind))

/-- The plain texts of a field; an absent one has none. -/
def plainTexts (t : Value) (field place : String) : Except Error (List String) :=
  match t.get field with
  | .nil => pure []
  | .table _ items _ => eachOf (plainText (fieldPlace place field)) items
  | v => .error (.fault (.notArray (fieldPlace place field) v.kind))

/-- The text or number of a field that must be there. -/
def name (t : Value) (field place : String) : Except Error String := do
  match ← (t.get field).asOptionalText with
  | some s => pure s
  | none => .error (.fault (.missingField place field))

/-! ## Rules -/

/-- The commands of a rule. -/
def commands (place : String) (v : Value) : Except Error (List (List Template)) :=
  match v with
  | .table _ items _ => eachOf (templates (fieldPlace place "commands")) items
  | _ => .error (.fault (.notCommands place))

/-- The rule that a table describes. -/
def rule (place : String) (t : Value) : Except Error RuleTemplate := do
  let name ← name t "name" place
  let place := place ++ " '" ++ name ++ "'"
  let commands ← commands place (t.get "commands")
  let description ← optional template t "description" place
  pure {
    name, commands, description
    generator := (t.get "generator").asFlag false
    restat := (t.get "restat").asFlag false }

/-! ## Targets -/

/-- The name and value of a variable. -/
def binding (key : Script.Key) (v : Value) : Except Error (String × String) := do
  let name ← match key with
    | .text bytes => Value.characters bytes
    | .integer n => pure (toString n)
    | .number d => pure d.generalText
    | .bool _ => .error (.conversion .boolean .text .notTextOrNumber)
    | .function _ => .error (.conversion .function .text .notTextOrNumber)
    | .table _ => .error (.conversion .table .text .notTextOrNumber)
  let value ← v.asText
  pure (name, value)

/-- The variables of a list of fields. -/
def bindings : List (Script.Key × Value) → Except Error (List (String × String))
  | [] => pure []
  | (key, v) :: rest => do
    let b ← binding key v
    let bs ← bindings rest
    pure (b :: bs)

/-- The variables that a value describes. -/
def vars (v : Value) : Except Error Bindings :=
  match v with
  | .nil => pure .empty
  | .table _ items fields => (bindings (Value.indexed 1 items ++ fields)).map .ofList
  | v => .error (.conversion v.kind .bindings .notTable)

/-- An edge that is taken as it is. -/
def edge (place : String) (t : Value) : Except Error Edge := do
  let rule ← name t "rule" place
  let inputs ← plainTexts t "inputs" place
  let outputs ← plainTexts t "outputs" place
  let implicits ← plainTexts t "implicits" place
  let orderOnly ← plainTexts t "order_only" place
  let regenImplicits ← plainTexts t "regen_implicits" place
  let vars ← vars (t.get "vars")
  pure {
    inputs, outputs, implicits, orderOnly, regenImplicits, rule, vars
    all := (t.get "all").asFlag true }

/-- A target of files. -/
def files (place : String) (t : Value) : Except Error FileBatch := do
  let inputs ← required templates t "inputs" place
  let inputDir ← optional template t "input_dir" place
  let outputDir ← optional template t "output_dir" place
  pure { inputs, inputDir, outputDir }

/-- A target that converts an image. -/
def convert (place : String) (t : Value) : Except Error Conversion := do
  let input ← required template t "input" place
  let output ← required template t "output" place
  let args ← templatesOrNone t "args" place
  pure { input, output, args }

/-- A template of the preprocessor. -/
def cpp (place : String) (t : Value) : Except Error Preprocessing := do
  let input ← required template t "input" place
  let output ← optional template t "output" place
  let implicits ← templatesOrNone t "implicits" place
  let defines ← templatesOrNone t "defines" place
  pure { input, output, implicits, defines }

/-- Many templates of the preprocessor. -/
def cpps (place : String) (t : Value) : Except Error PreprocessingBatch := do
  let inputs ← required templates t "inputs" place
  let inputDir ← optional template t "input_dir" place
  let outputDir ← optional template t "output_dir" place
  let implicits ← templatesOrNone t "implicits" place
  let defines ← templatesOrNone t "defines" place
  pure { inputs, inputDir, outputDir, implicits, defines }

/-- An archive. -/
def zip (place : String) (t : Value) : Except Error Archive := do
  let inputs ← required templates t "inputs" place
  let inputDir ← optional template t "input_dir" place
  let output ← required template t "output" place
  pure { inputs, inputDir, output }

/-- A regeneration. -/
def regen (place : String) (t : Value) : Except Error Regeneration := do
  let inputs ← optional templates t "inputs" place
  let outputs ← optional templates t "outputs" place
  let implicits ← optional templates t "implicits" place
  pure { inputs, outputs, implicits }

/-- Name of the config of deployments that name none. -/
def defaultConfig : String := "config"

/-- A deployment. -/
def rsync (place : String) (t : Value) : Except Error Deployment := do
  let name ← name t "name" place
  let inputs ← plainTexts t "inputs" place
  let srcDir ← required template t "src_dir" place
  let config ← optional template t "config" place
  let dstDir ← required template t "dst_dir" place
  pure { name, inputs, srcDir, config := config.getD (.literal defaultConfig), dstDir }

/-- The target of a kind that a table describes. -/
def targetOf (place : String) (t : Value) : Target.Kind → Except Error Target
  | .cpp => (cpp place t).map .cpp
  | .cpps => (cpps place t).map .cpps
  | .copy => (files place t).map .copy
  | .minify => (files place t).map .minify
  | .magick => (convert place t).map .magick
  | .rsvgConvert => (convert place t).map .rsvgConvert
  | .zip => (zip place t).map .zip
  | .regen => (regen place t).map .regen
  | .rsync => (rsync place t).map .rsync
  | .core => (edge place t).map .core

/-- The target that a table describes. -/
def target (place : String) (t : Value) : Except Error Target := do
  let type ← name t "type" place
  match Target.Kind.ofName? type with
  | none => .error (.fault (.unknownType place type))
  | some kind => targetOf (place ++ " (" ++ kind.name ++ ")") t kind

/-! ## Descriptions -/

/-- The table that an item of a sequence must be. -/
def asTable (v : Value) : Except Error Value :=
  match v with
  | .table _ _ _ => pure v
  | v => .error (.conversion v.kind .table .none)

/-- The tables of a sequence, each read at its number. -/
def eachTable {α : Type} (read : String → Value → Except Error α) (field : String) :
    (number : Nat) → List Value → Except Error (List α)
  | _, [] => pure []
  | number, v :: vs => do
    let t ← asTable v
    let a ← read (field ++ "[" ++ toString number ++ "]") t
    let rest ← eachTable read field (number + 1) vs
    pure (a :: rest)

/-- The rules of a description. -/
def rulesOf : Value → Except Error (List RuleTemplate)
  | .nil => pure []
  | .table _ items _ => eachTable rule "rules" 1 items
  | _ => .error (.fault .rulesNotArray)

/-- The targets of a description. -/
def targetsOf : Value → Except Error (List Target)
  | .table _ items _ => eachTable target "targets" 1 items
  | _ => .error (.fault .targetsNotArray)

/-- The description that a value is. -/
def ofValue (v : Value) : Except Error Description :=
  match v with
  | .table _ _ _ => do
    let rules ← rulesOf (v.get "rules")
    let targets ← targetsOf (v.get "targets")
    pure { rules, targets }
  | _ => .error (.fault .notTable)

end Description

end BuildGraph
