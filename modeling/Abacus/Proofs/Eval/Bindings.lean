import Mathlib.Data.List.Induction
import Abacus.Eval.Environment

/-!
# The last value counts

An environment is changed in two ways: a run writes to it as to any context, and who
sets it up binds names directly.  Whatever is done in whatever order, what can be seen
of the environment afterwards is the last value of each name (`get?_updated`).  It is
seen in three ways that agree: by reading a name, by asking whether it is bound, and
by the listing of all bindings.

The listing is canonical.  It is strictly increasing in the order of code points
(`pairwise_bindings`), and no history shows in it: it is the same for two sequences of
updates exactly if they give each name the same last value.
-/

namespace Abacus

/-! ## Order of names -/

/-- The code points of a text. -/
def codePoints (text : String) : List Nat := text.toList.map Char.toNat

theorem codePoints_lt {s t : String} (less : s < t) : codePoints s < codePoints t :=
  List.map_lt (fun _ _ below => below) (String.lt_iff.mp less)

namespace Environment

/-- The listing increases strictly, so no name is listed twice. -/
theorem pairwise_bindings (env : Environment) :
    env.bindings.Pairwise fun first second => codePoints first.1 < codePoints second.1 := by
  apply Std.ExtTreeMap.ordered_keys_toList.imp
  intro first second less
  exact codePoints_lt (compareOfLessAndEq_eq_lt.mp less)

/-- The listing shows all that reading shows. -/
theorem bindings_eq_iff (e₁ e₂ : Environment) :
    e₁.bindings = e₂.bindings ↔ ∀ name, e₁.get? name = e₂.get? name := by
  constructor
  · intro same name
    apply Option.ext
    intro value
    rw [← mem_bindings_iff, ← mem_bindings_iff, same]
  · intro same
    rw [Environment.ext same]

theorem read_eq (env : Environment) (name : String) : Context.read env name =
    ((env.get? name).elim (.error (.undefinedVariable name)) .ok, env) := by
  cases bound : env.get? name with
  | some value => exact read_of_some bound
  | none => exact read_of_none bound

theorem contains_iff_read (env : Environment) (name : String) :
    env.contains name = true ↔ ∃ value, (Context.read env name).1 = .ok value := by
  rw [contains_eq_isSome_get?, read_eq]
  cases env.get? name with
  | some value => exact ⟨fun _ => ⟨value, rfl⟩, fun _ => rfl⟩
  | none => simp

/-! ## Updates -/

/-- A call that gives a name a value. -/
inductive Update where
  /-- A write to the environment as a context. -/
  | write (name : String) (value : Binary64)
  /-- A binding made on the environment itself. -/
  | set (name : String) (value : Binary64)

namespace Update

/-- The name that gets a value. -/
def name : Update → String
  | write name _ => name
  | set name _ => name

/-- The value it gets. -/
def value : Update → Binary64
  | write _ value => value
  | set _ value => value

/-- The environment after the call. -/
def apply (env : Environment) : Update → Environment
  | write name value => Context.write env name value
  | set name value => env.set name value

theorem get?_apply (env : Environment) (update : Update) (name : String) :
    (update.apply env).get? name =
      if update.name = name then some update.value else env.get? name := by
  cases update with
  | write written value => exact env.get?_set written name value
  | set written value => exact env.get?_set written name value

end Update

/-- The environment that a sequence of updates makes of the empty one. -/
def updated (updates : List Update) : Environment :=
  updates.foldl (fun env update => update.apply env) empty

/-- The value that the last update of a name gives it. -/
def lastValue (updates : List Update) (name : String) : Option Binary64 :=
  (updates.filter (·.name = name)).getLast?.map Update.value

theorem lastValue_concat (updates : List Update) (update : Update) (name : String) :
    lastValue (updates ++ [update]) name =
      if update.name = name then some update.value else lastValue updates name := by
  by_cases same : update.name = name
  · simp [lastValue, same]
  · simp [lastValue, same]

theorem lastValue_isSome_iff (updates : List Update) (name : String) :
    (∃ value, lastValue updates name = some value) ↔ ∃ update ∈ updates, update.name = name := by
  rw [← Option.ne_none_iff_exists', lastValue, ne_eq, Option.map_eq_none_iff,
    List.getLast?_eq_none_iff, List.filter_eq_nil_iff]
  simp

/-- A name has the value of its last update, and none if it has no update. -/
theorem get?_updated (updates : List Update) (name : String) :
    (updated updates).get? name = lastValue updates name := by
  -- the last update is applied last, so the induction is from the end
  induction updates using List.reverseRecOn with
  | nil => exact get?_empty name
  | append_singleton updates update ih =>
    rw [updated, List.foldl_append, lastValue_concat, ← ih]
    exact update.get?_apply (updated updates) name

/-! ## What is seen of an environment -/

/-- An environment is the map from names to their last values, and its listing is the
canonical view of that map.  For every sequence of updates of the empty environment:
reading a name gives its last value, or fails with the name if it has none.  A name is
bound exactly if reading it succeeds.  The bindings are strictly increasing by name,
they pair exactly the updated names with their last values, and there are as many as
the size says.  Another sequence has the same bindings exactly if it gives every name
the same last value. -/
theorem updated_keeps_last_values (updates : List Update) :
    (∀ name, Context.read (updated updates) name =
      ((lastValue updates name).elim (.error (.undefinedVariable name)) .ok, updated updates)) ∧
    (∀ name, (updated updates).contains name = true ↔
      ∃ value, (Context.read (updated updates) name).1 = .ok value) ∧
    ((updated updates).bindings.Pairwise
      fun first second => codePoints first.1 < codePoints second.1) ∧
    (∀ name, name ∈ (updated updates).bindings.map Prod.fst ↔
      ∃ update ∈ updates, update.name = name) ∧
    (∀ name value, (name, value) ∈ (updated updates).bindings ↔
      lastValue updates name = some value) ∧
    (updated updates).bindings.length = (updated updates).size ∧
    (∀ others : List Update, (updated others).bindings = (updated updates).bindings ↔
      ∀ name, lastValue others name = lastValue updates name) := by
  refine ⟨fun name => ?_, fun name => ?_, ?_, fun name => ?_, fun name value => ?_, ?_,
    fun others => ?_⟩
  · rw [read_eq, get?_updated]
  · exact (updated updates).contains_iff_read name
  · exact (updated updates).pairwise_bindings
  · rw [← lastValue_isSome_iff]
    simp only [List.mem_map, Prod.exists, exists_and_right, exists_eq_right, mem_bindings_iff,
      get?_updated]
  · rw [mem_bindings_iff, get?_updated]
  · exact (updated updates).length_bindings
  · simp only [bindings_eq_iff, get?_updated]

end Environment

end Abacus
