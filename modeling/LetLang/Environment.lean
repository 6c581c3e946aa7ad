import LetLang.Value.Basic

/-!
# Environments

A scope lists its bindings in the order in which their names were first
defined; defining a name again replaces its value in place.  An environment is
a chain of scopes: names are looked up from the innermost scope outward, and
are defined in the innermost one.
-/

namespace LetLang

/-- The bindings of one scope, in the order of first definition. -/
structure Scope where
  /-- The names with their values. -/
  bindings : List (String × Value)
  /-- No name is bound twice. -/
  nodup : (bindings.map Prod.fst).Nodup
deriving DecidableEq

namespace Scope

/-- The scope that binds nothing. -/
def empty : Scope :=
  ⟨[], .nil⟩

/-- The names that are bound, in the order of first definition. -/
def names (s : Scope) : List String :=
  s.bindings.map Prod.fst

/-- The value of a name. -/
def get? (s : Scope) (name : String) : Option Value :=
  s.bindings.lookup name

/-- The bindings after a definition: a name that is already there keeps its
place, and a new name comes last. -/
def assign (name : String) (value : Value) :
    List (String × Value) → List (String × Value)
  | [] => [(name, value)]
  | b :: rest => if b.1 = name then (name, value) :: rest else b :: assign name value rest

/-- The names after a definition. -/
theorem map_fst_assign (name : String) (value : Value) (bindings : List (String × Value)) :
    (assign name value bindings).map Prod.fst =
      if name ∈ bindings.map Prod.fst then bindings.map Prod.fst
      else bindings.map Prod.fst ++ [name] := by
  induction bindings with
  | nil => simp [assign]
  | cons b rest ih =>
    by_cases h : b.1 = name
    · simp [assign, h]
    · have h' : ¬ name = b.1 := fun hn => h hn.symm
      simp only [assign, h, if_false, List.map_cons, ih, List.mem_cons, h', false_or]
      split <;> simp

/-- A definition binds no name twice. -/
theorem nodup_assign {name : String} {value : Value} {bindings : List (String × Value)}
    (h : (bindings.map Prod.fst).Nodup) :
    ((assign name value bindings).map Prod.fst).Nodup := by
  rw [map_fst_assign]
  split
  · exact h
  · next hnew =>
    refine List.nodup_append.2 ⟨h, by simp, ?_⟩
    intro a ha b hb
    rw [List.mem_singleton] at hb
    rintro rfl
    exact hnew (hb ▸ ha)

/-- What is looked up after a definition. -/
theorem lookup_assign (name other : String) (value : Value)
    (bindings : List (String × Value)) :
    (assign name value bindings).lookup other =
      if other = name then some value else bindings.lookup other := by
  induction bindings with
  | nil =>
    by_cases h : other = name
    · simp [assign, h]
    · have hb : (other == name) = false := by simp [h]
      simp [assign, List.lookup_cons, h, hb]
  | cons b rest ih =>
    obtain ⟨key, old⟩ := b
    by_cases hkey : key = name
    · subst hkey
      by_cases h : other = key
      · simp [assign, h]
      · have hb : (other == key) = false := by simp [h]
        simp [assign, List.lookup_cons, h, hb]
    · by_cases h : other = key
      · subst h
        simp [assign, hkey]
      · have hb : (other == key) = false := by simp [h]
        simp [assign, List.lookup_cons, hkey, hb, ih]

/-- Defines a name. -/
def set (s : Scope) (name : String) (value : Value) : Scope :=
  ⟨assign name value s.bindings, nodup_assign s.nodup⟩

/-- The number of names that are bound. -/
def size (s : Scope) : Nat :=
  s.bindings.length

/-- The names after a definition: a new name comes last. -/
theorem names_set (s : Scope) (name : String) (value : Value) :
    (s.set name value).names = if name ∈ s.names then s.names else s.names ++ [name] :=
  map_fst_assign name value s.bindings

/-- The values after a definition. -/
theorem get?_set (s : Scope) (name other : String) (value : Value) :
    (s.set name value).get? other = if other = name then some value else s.get? other :=
  lookup_assign name other value s.bindings

end Scope

/-- A chain of scopes. -/
structure Environment where
  /-- The scope in which names are defined. -/
  innermost : Scope
  /-- The scopes around it, from the inside outward. -/
  enclosing : List Scope
deriving DecidableEq

namespace Environment

/-- A single scope that binds nothing. -/
def empty : Environment :=
  ⟨.empty, []⟩

/-- A new scope that binds nothing, inside the given environment. -/
def enclosed (env : Environment) : Environment :=
  ⟨.empty, env.innermost :: env.enclosing⟩

/-- The environment around the innermost scope, if there is one. -/
def outer? (env : Environment) : Option Environment :=
  match env.enclosing with
  | [] => none
  | scope :: scopes => some ⟨scope, scopes⟩

/-- All scopes, from the inside outward. -/
def scopes (env : Environment) : List Scope :=
  env.innermost :: env.enclosing

/-- The value of a name, from the innermost scope that binds it. -/
def get? (env : Environment) (name : String) : Option Value :=
  env.scopes.findSome? (·.get? name)

/-- Whether some scope binds a name. -/
def contains (env : Environment) (name : String) : Bool :=
  (env.get? name).isSome

/-- Whether the innermost scope binds a name. -/
def containsHere (env : Environment) (name : String) : Bool :=
  (env.innermost.get? name).isSome

/-- Defines a name in the innermost scope. -/
def set (env : Environment) (name : String) (value : Value) : Environment :=
  { env with innermost := env.innermost.set name value }

/-- The values after a definition. -/
theorem get?_set (env : Environment) (name other : String) (value : Value) :
    (env.set name value).get? other = if other = name then some value else env.get? other := by
  simp only [get?, set, scopes, List.findSome?_cons, Scope.get?_set]
  by_cases h : other = name <;> simp [h]

/-- The number of scopes. -/
def depth (env : Environment) : Nat :=
  env.scopes.length

/-- The number of names that the innermost scope binds. -/
def size (env : Environment) : Nat :=
  env.innermost.size

/-- Whether the innermost scope binds nothing. -/
def isEmpty (env : Environment) : Bool :=
  env.innermost.bindings.isEmpty

/-- The names seen so far, followed by those that are new. -/
def addNames (seen : List String) (names : List String) : List String :=
  names.foldl (fun seen name => if name ∈ seen then seen else seen ++ [name]) seen

/-- All names that can be seen, each once, with the names of outer scopes before
those of inner ones. -/
def names (env : Environment) : List String :=
  env.scopes.foldr (fun scope seen => addNames seen scope.names) []

end Environment

end LetLang
