import Mathlib.Tactic

/-!
# Showing the configuration tree

`cmd_config_tree` of `cmd.c` shows the parameters of a namespace and of the namespaces
below it. In the parameter library a namespace points to the first of its subspaces and
to the next namespace of its parent. What these pointers stand for is a tree, and
`show_config_tree` shows the tree of the namespace it is called with and, because it
also follows `next` there, the trees of the namespaces after it.

The library is not part of the repository: what it says about a parameter, and how it
finds a namespace, are parameters here.
-/

namespace ConfigTree

/-! ## Trees -/

/-- A namespace with its parameters and its subspaces. -/
inductive Tree (P : Type) where
  | node (id : String) (parameters : List P) (subspaces : List (Tree P))

section Parameters

variable {P : Type}

mutual

/-- The parameters of a tree, each with its depth. -/
def Tree.parameters (depth : ℕ) : Tree P → List (ℕ × P)
  | .node _ parameters subspaces =>
    parameters.map (fun p => (depth + 1, p)) ++ forestParameters (depth + 1) subspaces

/-- The parameters of several trees. -/
def forestParameters (depth : ℕ) : List (Tree P) → List (ℕ × P)
  | [] => []
  | t :: ts => t.parameters depth ++ forestParameters depth ts

end

theorem forestParameters_eq_nil_iff (depth : ℕ) (ts : List (Tree P)) :
    forestParameters depth ts = [] ↔ ∀ t ∈ ts, t.parameters depth = [] := by
  induction ts with
  | nil => exact ⟨fun _ _ ht => absurd ht List.not_mem_nil, fun _ => rfl⟩
  | cons t ts ih => rw [forestParameters, List.append_eq_nil_iff, ih, List.forall_mem_cons]

end Parameters

/-! ## The command -/

/-- `parameter_namespace_t *`. -/
inductive Namespace (P : Type) where
  | null
  | node (id : String) (parameterList : List P) (subspaces next : Namespace P)

/-- `p->type`. -/
inductive ParameterType
  | scalar
  | integer
  | boolean
  | string
  /-- A value that the `switch` has no case for. -/
  | unknown (type : ℤ)

/-- What the parameter library says about a parameter. -/
structure ParameterLibrary (P : Type) where
  id : P → String
  /-- `parameter_defined`. -/
  defined : P → Bool
  type : P → ParameterType
  /-- `parameter_scalar_get`, as `%f` prints it. -/
  scalarGet : P → String
  /-- `parameter_integer_get`. -/
  integerGet : P → ℤ
  /-- `parameter_boolean_get`. -/
  booleanGet : P → Bool
  /-- `parameter_string_get`, with a buffer of 64 bytes. -/
  stringGet : P → String

/-- A line of output. -/
inductive Line (P : Type) where
  | notFound
  | namespace (indent : ℕ) (id : String)
  | parameter (indent : ℕ) (p : P)

section Command

variable {P : Type}

/-- `show_config_tree`. -/
def showConfigTree : Namespace P → ℕ → List (Line P)
  | .null, _ => []
  | .node id parameterList subspaces next, indent =>
    .namespace indent id :: parameterList.map (.parameter (indent + 1))
      ++ showConfigTree subspaces (indent + 1)
      -- also for the namespace that was asked for
      ++ showConfigTree next indent

/-- The namespace that `cmd_config_tree` shows, where `find` is
`parameter_namespace_find`. -/
def selectNamespace (find : Namespace P → String → Namespace P) (root : Namespace P) :
    List String → Namespace P
  | [path] => find root path
  | _ => root

/-- `cmd_config_tree`. -/
def cmdConfigTree (find : Namespace P → String → Namespace P) (root : Namespace P)
    (argv : List String) : List (Line P) :=
  match selectNamespace find root argv with
  | .null => [.notFound]
  | ns => showConfigTree ns 0

/-- `tree_indent`. -/
def treeIndent (indent : ℕ) : String := String.join (List.replicate indent "  ")

/-- What is printed of a parameter behind its name. -/
def parameterText (lib : ParameterLibrary P) (p : P) : String :=
  if lib.defined p then
    match lib.type p with
    | .scalar => lib.scalarGet p
    | .integer => toString (lib.integerGet p)
    | .boolean => if lib.booleanGet p then "true" else "false"
    | .string => lib.stringGet p
    | .unknown type => "unknown type " ++ toString type
  else
    "[not set]"

/-- What is printed. -/
def Line.text (lib : ParameterLibrary P) : Line P → String
  | .notFound => "Cannot find subtree.\r\n"
  | .namespace indent id => treeIndent indent ++ id ++ ":\r\n"
  | .parameter indent p =>
    treeIndent indent ++ lib.id p ++ ": " ++ parameterText lib p ++ "\r\n"

/-- Everything that the command prints. -/
def configTreeOutput (lib : ParameterLibrary P) (find : Namespace P → String → Namespace P)
    (root : Namespace P) (argv : List String) : String :=
  String.join ((cmdConfigTree find root argv).map (Line.text lib))

/-! ## What the command is for -/

/-- The trees of a namespace and of the ones after it. -/
def Namespace.forest : Namespace P → List (Tree P)
  | .null => []
  | .node id parameterList subspaces next =>
    .node id parameterList subspaces.forest :: next.forest

/-- The parameters of the tree of a namespace. -/
def Namespace.subtreeParameters (ns : Namespace P) : List (ℕ × P) :=
  forestParameters 0 ns.forest.head?.toList

/-- The trees of the namespaces that come after a namespace. -/
def Namespace.following (ns : Namespace P) : List (Tree P) := ns.forest.tail

/-- The parameters among lines, each with its indentation. -/
def printedParameters (lines : List (Line P)) : List (ℕ × P) :=
  lines.filterMap fun
    | .parameter indent p => some (indent, p)
    | _ => none

/-- **The parameters of the subtree are printed**, each once and at its depth, and no
others. -/
def PrintsSubtree (find : Namespace P → String → Namespace P) (root : Namespace P)
    (argv : List String) : Prop :=
  (printedParameters (cmdConfigTree find root argv)).Perm
    (selectNamespace find root argv).subtreeParameters

/-! ## What it prints -/

@[simp] theorem printedParameters_append (lines lines' : List (Line P)) :
    printedParameters (lines ++ lines') = printedParameters lines ++ printedParameters lines' :=
  List.filterMap_append

@[simp] theorem printedParameters_namespace_cons (indent : ℕ) (id : String)
    (lines : List (Line P)) :
    printedParameters (.namespace indent id :: lines) = printedParameters lines := rfl

@[simp] theorem printedParameters_parameters (indent : ℕ) (ps : List P) :
    printedParameters (ps.map (Line.parameter indent)) = ps.map (fun p => (indent, p)) := by
  induction ps with
  | nil => rfl
  | cons p ps ih => exact congrArg ((indent, p) :: ·) ih

/-- **`show_config_tree` prints the parameters of all trees** that its namespace is the
first of. -/
theorem printedParameters_showConfigTree (ns : Namespace P) (indent : ℕ) :
    printedParameters (showConfigTree ns indent) = forestParameters indent ns.forest := by
  induction ns generalizing indent with
  | null => rfl
  | node id parameterList subspaces next ihSub ihNext =>
    rw [showConfigTree, printedParameters_append, printedParameters_append,
      printedParameters_namespace_cons, printedParameters_parameters, ihSub, ihNext,
      Namespace.forest, forestParameters, Tree.parameters]

theorem printedParameters_cmdConfigTree (find : Namespace P → String → Namespace P)
    (root : Namespace P) (argv : List String) :
    printedParameters (cmdConfigTree find root argv)
      = forestParameters 0 (selectNamespace find root argv).forest := by
  unfold cmdConfigTree
  cases selectNamespace find root argv with
  | null => rfl
  | node id parameterList subspaces next => exact printedParameters_showConfigTree _ 0

/-- The parameters of the trees of a namespace are those of its own tree and those of
the trees after it. -/
theorem forestParameters_forest (ns : Namespace P) :
    forestParameters 0 ns.forest
      = ns.subtreeParameters ++ forestParameters 0 ns.following := by
  cases ns with
  | null => rfl
  | node id parameterList subspaces next =>
    rw [Namespace.subtreeParameters, Namespace.following, Namespace.forest, List.head?_cons,
      Option.toList_some, List.tail_cons, forestParameters, forestParameters, forestParameters,
      List.append_nil]

/-- **The command prints the subtree** exactly if the namespaces that come after the
selected one have no parameters. -/
theorem printsSubtree_iff (find : Namespace P → String → Namespace P) (root : Namespace P)
    (argv : List String) :
    PrintsSubtree find root argv
      ↔ ∀ t ∈ (selectNamespace find root argv).following, t.parameters 0 = [] := by
  rw [PrintsSubtree, printedParameters_cmdConfigTree, forestParameters_forest,
    ← forestParameters_eq_nil_iff]
  constructor
  · intro h
    have hlength := h.length_eq
    rw [List.length_append] at hlength
    exact List.eq_nil_of_length_eq_zero (by omega)
  · intro h
    rw [h, List.append_nil]

/-- The first namespace of a list that has the given name. -/
def Namespace.findNext (id : String) : Namespace P → Namespace P
  | .null => .null
  | .node id' parameterList subspaces next =>
    if id' = id then .node id' parameterList subspaces next else next.findNext id

/-- The subspace of the given name. -/
def Namespace.findSubspace (ns : Namespace P) (id : String) : Namespace P :=
  match ns with
  | .null => .null
  | .node _ _ subspaces _ => subspaces.findNext id

/-- `config_tree a`, where `b` comes after `a`, also prints the parameter of `b`. -/
theorem not_printsSubtree_first :
    ¬ PrintsSubtree Namespace.findSubspace
      (.node "" [] (.node "a" ["p"] .null (.node "b" ["q"] .null .null)) .null) ["a"] := by
  intro h
  exact absurd h.length_eq (by decide)

/-- Without a path the root is shown, which no namespace comes after. -/
theorem cmdConfigTree_root (find : Namespace P → String → Namespace P) (id : String)
    (parameterList : List P) (subspaces : Namespace P) {argv : List String}
    (hargc : argv.length ≠ 1) :
    printedParameters (cmdConfigTree find (.node id parameterList subspaces .null) argv)
      = (Tree.node id parameterList subspaces.forest).parameters 0 := by
  have hroot : selectNamespace find (.node id parameterList subspaces .null) argv
      = .node id parameterList subspaces .null := by
    match argv with
    | [] => rfl
    | [path] => exact absurd rfl hargc
    | _ :: _ :: _ => rfl
  rw [printedParameters_cmdConfigTree, hroot]
  exact List.append_nil _

end Command

end ConfigTree
