import Std.Data.ExtTreeMap
import Abacus.Eval.Context

/-!
# Environments

The plain context is a finite map from names to numbers.  A write replaces the
value of a name, and no operation takes a name away.

The map is ordered by name, so its listing `bindings` is canonical.  It is also
extensional: two environments are equal when every name has the same value in
both (`Environment.ext`).  The language's own comparison of environments,
`agrees`, is coarser at the zeros and finer at NaN, since it compares values by
the IEEE equality.
-/

namespace Abacus

/-- A finite map from names to numbers. -/
structure Environment where
  /-- The map, ordered by name. -/
  entries : Std.ExtTreeMap String Binary64

namespace Environment

/-- The environment without bindings. -/
def empty : Environment := ⟨{}⟩

instance : Inhabited Environment := ⟨empty⟩

/-- The value of a name. -/
def get? (env : Environment) (name : String) : Option Binary64 := env.entries[name]?

/-- The environment with a name bound to a value, in place of any earlier one. -/
def set (env : Environment) (name : String) (value : Binary64) : Environment :=
  ⟨env.entries.insert name value⟩

/-- Whether a name is bound. -/
def contains (env : Environment) (name : String) : Bool := env.entries.contains name

/-- The number of bound names. -/
def size (env : Environment) : Nat := env.entries.size

/-- Whether no name is bound. -/
def isEmpty (env : Environment) : Bool := env.entries.isEmpty

/-- All bindings, by increasing name in the order of code points. -/
def bindings (env : Environment) : List (String × Binary64) := env.entries.toList

/-- Binds names from left to right, so that the last value of a name counts. -/
def setAll (env : Environment) (bindings : List (String × Binary64)) : Environment :=
  bindings.foldl (fun env (name, value) => env.set name value) env

/-- Whether two environments bind the same names to values that are equal as IEEE numbers. -/
def agrees (e₁ e₂ : Environment) : Bool :=
  e₁.bindings.length == e₂.bindings.length &&
    (e₁.bindings.zip e₂.bindings).all fun ((m, x), (n, y)) => m == n && x.ieeeEq y

/-! ## Laws -/

@[simp] theorem get?_empty (name : String) : empty.get? name = none := by
  simp [empty, get?]

@[simp] theorem get?_set_self (env : Environment) (name : String) (value : Binary64) :
    (env.set name value).get? name = some value := by
  simp [set, get?]

theorem get?_set (env : Environment) (written name : String) (value : Binary64) :
    (env.set written value).get? name = if written = name then some value else env.get? name := by
  simp only [set, get?, Std.ExtTreeMap.getElem?_insert, Std.compare_eq_iff_eq]

/-- Environments are equal when they give every name the same value. -/
theorem ext {e₁ e₂ : Environment} (same : ∀ name, e₁.get? name = e₂.get? name) : e₁ = e₂ := by
  obtain ⟨t₁⟩ := e₁
  obtain ⟨t₂⟩ := e₂
  exact congrArg mk (Std.ExtTreeMap.ext_getElem? same)

theorem contains_eq_isSome_get? (env : Environment) (name : String) :
    env.contains name = (env.get? name).isSome := by
  simp [contains, get?]

theorem mem_bindings_iff (env : Environment) (name : String) (value : Binary64) :
    (name, value) ∈ env.bindings ↔ env.get? name = some value :=
  Std.ExtTreeMap.mem_toList_iff_getElem?_eq_some

theorem length_bindings (env : Environment) : env.bindings.length = env.size :=
  Std.ExtTreeMap.length_toList

end Environment

instance : Context Environment where
  read env name :=
    match env.get? name with
    | some value => (.ok value, env)
    | none => (.error (.undefinedVariable name), env)
  write env name value := env.set name value

theorem Environment.read_of_some {env : Environment} {name : String} {value : Binary64}
    (bound : env.get? name = some value) : Context.read env name = (.ok value, env) := by
  simp only [Context.read, bound]

theorem Environment.read_of_none {env : Environment} {name : String}
    (unbound : env.get? name = none) :
    Context.read env name = (.error (.undefinedVariable name), env) := by
  simp only [Context.read, unbound]

end Abacus
