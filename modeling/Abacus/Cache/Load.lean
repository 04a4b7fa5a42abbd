import Abacus.Cache.Store
import Abacus.Inspect.Tree

/-!
# Loading trees

Loading reads a stored form and stops at the first thing that is wrong.

A record may be stored as an object or as a list.  From an object its fields
are read in alphabetical order of their keys, other keys are ignored, and only
when all present fields were read is the first absent one reported, in the
order of declaration.  From a list the fields are read in the order of
declaration, and none may be left out.

A variant is an object with its name as the only key.  An operator is its name,
or such an object around `null`.
-/

namespace Abacus

/-! ## Errors -/

/-- Why a value does not load. -/
inductive LoadError where
  /-- The value is of another type. -/
  | wrongType (found : Json) (expected : String)
  /-- A variant stands without its content. -/
  | bareVariant
  /-- An object that should name a variant does not have exactly one key. -/
  | notSingleKey
  /-- There is no variant of that name. -/
  | unknownVariant (name : String) (known : List String)
  /-- A field of a record is absent. -/
  | missingField (name : String)
  /-- A list has too few elements for a record. -/
  | tooFew (found : Nat) (record : String) (fields : Nat)
  /-- A list has too many elements for a record. -/
  | tooMany (found : Nat)

/-- What a value is, in error messages. -/
def Json.described : Json → String
  | .null => "null"
  | .bool b => "boolean `" ++ toString b ++ "`"
  | .number (.integer i) _ => "integer `" ++ toString i ++ "`"
  | .number (.float x) _ => "floating point `" ++ x.text Json.numberStyle ++ "`"
  | .string s => "string " ++ quoted s
  | .array _ => "sequence"
  | .object _ => "map"

/-- The wording of an error. -/
def LoadError.message : LoadError → String
  | .wrongType found expected => "invalid type: " ++ found.described ++ ", expected " ++ expected
  | .bareVariant => "invalid type: unit variant, expected newtype variant"
  | .notSingleKey => "invalid value: map, expected map with a single key"
  | .unknownVariant name known =>
    "unknown variant `" ++ name ++ "`, expected one of " ++
      ", ".intercalate (known.map fun k => "`" ++ k ++ "`")
  | .missingField name => "missing field `" ++ name ++ "`"
  | .tooFew found record fields =>
    "invalid length " ++ toString found ++ ", expected struct " ++ record ++ " with " ++
      toString fields ++ (if fields = 1 then " element" else " elements")
  | .tooMany found => "invalid length " ++ toString found ++ ", expected fewer elements in array"

/-! ## Parts of records -/

/-- Loads a field of an object if it is there. -/
def loadPresent {α : Type} (field : Option Json)
    (load : (v : Json) → field = some v → Except LoadError α) : Except LoadError (Option α) :=
  match field with
  | none => .ok none
  | some v => (load v rfl).map some

/-- A field that may not be absent. -/
def required {α : Type} (name : String) : Option α → Except LoadError α
  | some a => .ok a
  | none => .error (.missingField name)

/-- Loads an element of a list that stands for a record. -/
def loadElement {α : Type} (items : List Json) (record : String) (fields : Nat) (i : Nat)
    (load : (v : Json) → items[i]? = some v → Except LoadError α) : Except LoadError α :=
  match found : items[i]? with
  | some v => load v found
  | none => .error (.tooFew items.length record fields)

/-- Refuses a list with more elements than fields. -/
def noMore (items : List Json) (fields : Nat) : Except LoadError Unit :=
  if fields < items.length then .error (.tooMany items.length) else .ok ()

/-! ## Operators, constants and variables -/

/-- Loads one of the named values of a type. -/
def loadNamed {α : Type} (all : List α) (label : α → String) : Json → Except LoadError α
  | .string name => find name
  | .object [(name, content)] => do
    let a ← find name
    match content with
    | .null => .ok a
    | v => .error (.wrongType v "unit")
  | .object _ => .error .notSingleKey
  | v => .error (.wrongType v "string or map")
where
  /-- The value with a name. -/
  find (name : String) : Except LoadError α :=
    match all.find? fun a => label a == name with
    | some a => .ok a
    | none => .error (.unknownVariant name (all.map label))

/-- Loads an operation. -/
def loadOperator : Json → Except LoadError Operator := loadNamed Operator.all Operator.label

/-- Loads a comparison. -/
def loadComparison : Json → Except LoadError Comparison :=
  loadNamed Comparison.all Comparison.label

/-- Loads a constant. -/
def loadConstant : Json → Except LoadError Constant
  | .number n _ => .ok (.ofNumber n.value)
  | v => .error (.wrongType v "f64")

/-- Loads a text. -/
def loadText : Json → Except LoadError String
  | .string s => .ok s
  | v => .error (.wrongType v "a string")

/-- Loads a variable. -/
def loadVariable : Json → Except LoadError Variable
  | .object members => do
    let name ← loadPresent (Json.member? members "name") fun v _ => loadText v
    return ⟨← required "name" name⟩
  | .array items => do
    let name ← loadElement items "Variable" 1 0 fun v _ => loadText v
    noMore items 1
    return ⟨name⟩
  | v => .error (.wrongType v "struct Variable")

/-! ## Expressions -/

/-- The variants of expressions. -/
def exprVariants : List String := ["Constant", "Variable", "Binary"]

/-- The variants of statements. -/
def stmtVariants : List String := ["Assignment", "Block", "Conditional"]

/-- What is wrong with a variant that is only named. -/
def bareVariantError (known : List String) (name : String) : LoadError :=
  if known.contains name then .bareVariant else .unknownVariant name known

mutual

/-- Loads an expression. -/
def loadExpr : Json → Except LoadError Expr
  | .object [("Constant", content)] => Expr.const <$> loadConstant content
  | .object [("Variable", content)] => Expr.var <$> loadVariable content
  | .object [("Binary", content)] => loadBinary content
  | .object [(name, _)] => .error (.unknownVariant name exprVariants)
  | .object _ => .error .notSingleKey
  | .string name => .error (bareVariantError exprVariants name)
  | v => .error (.wrongType v "string or map")
termination_by v => sizeOf v

/-- Loads a binary operation. -/
def loadBinary : Json → Except LoadError Expr
  | .object members => do
    let lhs ← loadPresent (Json.member? members "lhs") fun v _ => loadExpr v
    let operator ← loadPresent (Json.member? members "operator") fun v _ => loadOperator v
    let rhs ← loadPresent (Json.member? members "rhs") fun v _ => loadExpr v
    return .binary (← required "operator" operator) (← required "lhs" lhs) (← required "rhs" rhs)
  | .array items => do
    let operator ← loadElement items "BinaryExpr" 3 0 fun v _ => loadOperator v
    let lhs ← loadElement items "BinaryExpr" 3 1 fun v _ => loadExpr v
    let rhs ← loadElement items "BinaryExpr" 3 2 fun v _ => loadExpr v
    noMore items 3
    return .binary operator lhs rhs
  | v => .error (.wrongType v "struct BinaryExpr")
termination_by v => sizeOf v
decreasing_by
  all_goals first
    | exact Json.sizeOf_lt_of_member? (by assumption)
    | exact Json.sizeOf_lt_of_getElem? (by assumption)

end

/-- Loads an assignment. -/
def loadAssignment : Json → Except LoadError Stmt
  | .object members => do
    let value ← loadPresent (Json.member? members "value") fun v _ => loadExpr v
    let target ← loadPresent (Json.member? members "variable") fun v _ => loadVariable v
    return .assign (← required "variable" target) (← required "value" value)
  | .array items => do
    let target ← loadElement items "Assignment" 2 0 fun v _ => loadVariable v
    let value ← loadElement items "Assignment" 2 1 fun v _ => loadExpr v
    noMore items 2
    return .assign target value
  | v => .error (.wrongType v "struct Assignment")

/-! ## Statements -/

mutual

/-- Loads a statement. -/
def loadStmt : Json → Except LoadError Stmt
  | .object [("Assignment", content)] => loadAssignment content
  | .object [("Block", content)] => loadBlock content
  | .object [("Conditional", content)] => loadConditional content
  | .object [(name, _)] => .error (.unknownVariant name stmtVariants)
  | .object _ => .error .notSingleKey
  | .string name => .error (bareVariantError stmtVariants name)
  | v => .error (.wrongType v "string or map")
termination_by v => sizeOf v

/-- Loads a block. -/
def loadBlock : Json → Except LoadError Stmt
  | .object members => do
    let statements ← loadPresent (Json.member? members "statements") fun v _ => loadStatements v
    return .block (← required "statements" statements)
  | .array items => do
    let statements ← loadElement items "Block" 1 0 fun v _ => loadStatements v
    noMore items 1
    return .block statements
  | v => .error (.wrongType v "struct Block")
termination_by v => sizeOf v
decreasing_by
  · exact Json.sizeOf_lt_of_member? (by assumption)
  · exact Json.sizeOf_lt_of_getElem? (by assumption)

/-- Loads a list of statements. -/
def loadStatements : Json → Except LoadError (List Stmt)
  | .array items => loadEach items
  | v => .error (.wrongType v "a sequence")
termination_by v => sizeOf v

/-- Loads statements one after the other. -/
def loadEach : List Json → Except LoadError (List Stmt)
  | [] => .ok []
  | v :: vs => do return (← loadStmt v) :: (← loadEach vs)
termination_by vs => sizeOf vs

/-- Loads a conditional. -/
def loadConditional : Json → Except LoadError Stmt
  | .object members => do
    let ifFalse ← loadPresent (Json.member? members "if_false") fun v _ =>
      if v.isNull then .ok none else some <$> loadStmt v
    let ifTrue ← loadPresent (Json.member? members "if_true") fun v _ => loadStmt v
    let lhs ← loadPresent (Json.member? members "lhs") fun v _ => loadExpr v
    let operator ← loadPresent (Json.member? members "operator") fun v _ => loadComparison v
    let rhs ← loadPresent (Json.member? members "rhs") fun v _ => loadExpr v
    return .conditional (← required "operator" operator) (← required "lhs" lhs)
      (← required "rhs" rhs) (← required "if_true" ifTrue) ifFalse.join
  | .array items => do
    let operator ← loadElement items "Conditional" 5 0 fun v _ => loadComparison v
    let lhs ← loadElement items "Conditional" 5 1 fun v _ => loadExpr v
    let rhs ← loadElement items "Conditional" 5 2 fun v _ => loadExpr v
    let ifTrue ← loadElement items "Conditional" 5 3 fun v _ => loadStmt v
    let ifFalse ← loadElement items "Conditional" 5 4 fun v _ =>
      if v.isNull then .ok none else some <$> loadStmt v
    noMore items 5
    return .conditional operator lhs rhs ifTrue ifFalse
  | v => .error (.wrongType v "struct Conditional")
termination_by v => sizeOf v
decreasing_by
  · exact Json.sizeOf_lt_of_member? (by assumption)
  · exact Json.sizeOf_lt_of_member? (by assumption)
  · exact Json.sizeOf_lt_of_getElem? (by assumption)
  · exact Json.sizeOf_lt_of_getElem? (by assumption)

end

end Abacus
