import SearchFilter.Filter.Document
import SearchFilter.Predicate.Attribute

/-!
# From filters to predicates

Siblings are joined by the connective of the nearest group around them, and every group and every
path stands in parentheses. The parameters are collected in the order in which their placeholders
are written. A condition is checked before anything of its comparison is collected.
-/

namespace SearchFilter

/-- The parameter that an operator makes of a condition: `like` looks for the literal anywhere,
`in` wants a list of strings, the orderings take the literal as it is. -/
def Operator.parameter (op : Operator) : Condition → Except FilterError Parameter
  | .list items =>
    match op with
    | .oneOf => (items.mapM text).map .list
    | _ => .error (.invalid (.arrayCompared op.token))
  | .map _ =>
    match op with
    | .oneOf => .error (.invalid .listExpected)
    | _ => .error (.invalid (.objectCompared op.token))
  | .scalar value =>
    match op with
    | .oneOf => .error (.invalid .listExpected)
    | .like => .ok (.text ("%" ++ value.display ++ "%"))
    | _ => .ok (.text value.display)
where
  text : Json → Except FilterError String
    | .string s => .ok s
    | _ => .error (.invalid .listItemNotString)

/-- Writes text and collects parameters; what was collected before a failure stays. -/
abbrev CollectM := ExceptT FilterError (StateM (Array Parameter))

/-- Collects the parameters of a comparison, keys before the value, and writes it. -/
def Attribute.compare (a : Attribute) (comparison : String) (value : Parameter) :
    CollectM String := do
  modify fun (collected : Array Parameter) => (collected ++ a.parameters).push value
  return a.expr ++ comparison

namespace FilterNode

def join (joint : Connective) (parts : List String) : String :=
  (" " ++ joint.symbol ++ " ").intercalate parts

mutual

/-- The text of a node below `base`, its siblings being joined by `joint`. -/
def compile (base : List String) (joint : Connective) : FilterNode → CollectM String
  | .equality field value => (Attribute.under base field).compare " = ?" (.text value.display)
  | .range field op condition => do
    let value ← op.parameter condition
    (Attribute.under base field).compare (" " ++ op.symbol ++ " (?)") value
  | .path field children => do
    let parts ← compileEach (base ++ [field]) joint children
    return "(" ++ join joint parts ++ ")"
  | .group c children => do
    let parts ← compileEach base c children
    return "(" ++ join c parts ++ ")"

def compileEach (base : List String) (joint : Connective) : List FilterNode → CollectM (List String)
  | [] => return []
  | node :: rest => do
    let part ← compile base joint node
    return part :: (← compileEach base joint rest)

end

/-- The text of siblings below `base`. -/
def compileAll (base : List String) (joint : Connective) (nodes : List FilterNode) :
    CollectM String := do
  return join joint (← compileEach base joint nodes)

end FilterNode

def Filter.compile (f : Filter) : Except FilterError Predicate :=
  match (FilterNode.compileAll [] .and f.nodes).run.run #[] with
  | (.ok text, parameters) => .ok ⟨text, parameters.toList⟩
  | (.error e, _) => .error e

def Filter.compileText (allowlist : Allowlist) (limit : Nat) (raw : String) :
    Except FilterError Predicate :=
  (Filter.parse allowlist limit raw).bind Filter.compile

end SearchFilter
