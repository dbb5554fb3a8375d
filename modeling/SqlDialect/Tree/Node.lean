import SqlDialect.Tree.Basic

/-!
The tree of layers. `Node.fold` computes a value for each node from the values of its parts; it is the
one recursion over trees, and `fold_mk` is the equation that describes it.
-/
set_option autoImplicit false

namespace SqlDialect

inductive Node where
  | mk (layer : Layer Node)

namespace Node

def layer : Node → Layer Node
  | .mk l => l

variable {α : Type}

mutual
/-- The value of a node, where `step` gives the value of a layer whose parts are values already. -/
def fold (step : Layer α → α) : Node → α
  | .mk l => step (foldLayer step l)

def foldLayer (step : Layer α → α) : Layer Node → Layer α
  | .select ⟨distinct, selections, sources, joins, filter, groupBy, having, setOperations, orderBy,
      limit, offset⟩ =>
    .select
      { distinct
        selections := foldSelections step selections
        sources := foldAll step sources
        joins := foldJoins step joins
        filter := foldOption step filter
        groupBy := foldAll step groupBy
        having := foldOption step having
        setOperations := foldSetOperations step setOperations
        orderBy := foldSortKeys step orderBy
        limit := foldOption step limit
        offset := foldOption step offset }
  | .insert ⟨target, columns, rows, query⟩ =>
    .insert ⟨target, columns, foldRowsOption step rows, foldOption step query⟩
  | .update ⟨target, assignments, sources, filter⟩ =>
    .update ⟨target, foldAssignments step assignments, foldAll step sources, foldOption step filter⟩
  | .delete ⟨target, filter⟩ => .delete ⟨target, foldOption step filter⟩
  | .createTable ⟨target, ifNotExists, columns, constraints⟩ =>
    .createTable ⟨target, ifNotExists, foldColumns step columns, foldAll step constraints⟩
  | .table t => .table t
  | .identifier name => .identifier name
  | .reference r => .reference r
  | .aliased e name => .aliased (fold step e) name
  | .value v => .value v
  | .valueList es => .valueList (foldAll step es)
  | .call name arguments => .call name (foldAll step arguments)
  | .binary l op r => .binary (fold step l) op (fold step r)
  | .unary op e => .unary op (fold step e)
  | .parens e => .parens (fold step e)
  | .raw ⟨fragments, parameters⟩ => .raw ⟨fragments, foldAll step parameters⟩
  | .primaryKey k => .primaryKey k
  | .uniqueKey k => .uniqueKey k
  | .foreignKey k => .foreignKey k
  | .column ⟨name, dataType, notNull, primaryKey, unique, references, defaultTo⟩ =>
    .column ⟨name, dataType, notNull, primaryKey, unique, references, foldOption step defaultTo⟩

def foldAll (step : Layer α → α) : List Node → List α
  | [] => []
  | n :: ns => fold step n :: foldAll step ns

def foldOption (step : Layer α → α) : Option Node → Option α
  | none => none
  | some n => some (fold step n)

def foldRows (step : Layer α → α) : List (List Node) → List (List α)
  | [] => []
  | row :: rows => foldAll step row :: foldRows step rows

def foldRowsOption (step : Layer α → α) : Option (List (List Node)) → Option (List (List α))
  | none => none
  | some rows => some (foldRows step rows)

def foldSelections (step : Layer α → α) : List (Selection Node) → List (Selection α)
  | [] => []
  | .all :: ss => .all :: foldSelections step ss
  | .allFrom t :: ss => .allFrom t :: foldSelections step ss
  | .expression e :: ss => .expression (fold step e) :: foldSelections step ss

def foldJoins (step : Layer α → α) : List (Join Node) → List (Join α)
  | [] => []
  | ⟨kind, source, condition⟩ :: js =>
    ⟨kind, fold step source, foldOption step condition⟩ :: foldJoins step js

def foldSetOperations (step : Layer α → α) : List (SetOperation Node) → List (SetOperation α)
  | [] => []
  | ⟨operator, operand, all⟩ :: os =>
    ⟨operator, fold step operand, all⟩ :: foldSetOperations step os

def foldSortKeys (step : Layer α → α) : List (SortKey Node) → List (SortKey α)
  | [] => []
  | ⟨expression, direction⟩ :: ks => ⟨fold step expression, direction⟩ :: foldSortKeys step ks

def foldAssignments (step : Layer α → α) : List (Assignment Node) → List (Assignment α)
  | [] => []
  | ⟨column, value⟩ :: as => ⟨column, fold step value⟩ :: foldAssignments step as

def foldColumns (step : Layer α → α) : List (Column Node) → List (Column α)
  | [] => []
  | ⟨name, dataType, notNull, primaryKey, unique, references, defaultTo⟩ :: cs =>
    ⟨name, dataType, notNull, primaryKey, unique, references, foldOption step defaultTo⟩ ::
      foldColumns step cs
end

section

variable (step : Layer α → α)

theorem foldAll_eq (ns : List Node) : foldAll step ns = ns.map (fold step) := by
  induction ns with
  | nil => rfl
  | cons n ns ih => simp [foldAll, ih]

theorem foldOption_eq (n : Option Node) : foldOption step n = n.map (fold step) := by
  cases n <;> rfl

theorem foldRows_eq (rows : List (List Node)) :
    foldRows step rows = rows.map fun row => row.map (fold step) := by
  induction rows with
  | nil => rfl
  | cons row rows ih => simp [foldRows, foldAll_eq, ih]

theorem foldRowsOption_eq (rows : Option (List (List Node))) :
    foldRowsOption step rows = rows.map fun rows => rows.map fun row => row.map (fold step) := by
  cases rows <;> simp [foldRowsOption, foldRows_eq]

theorem foldSelections_eq (ss : List (Selection Node)) :
    foldSelections step ss = ss.map (·.map (fold step)) := by
  induction ss with
  | nil => rfl
  | cons s ss ih => cases s <;> simp [foldSelections, Selection.map, ih]

theorem foldJoins_eq (js : List (Join Node)) : foldJoins step js = js.map (·.map (fold step)) := by
  induction js with
  | nil => rfl
  | cons j js ih => simp [foldJoins, Join.map, foldOption_eq, ih]

theorem foldSetOperations_eq (os : List (SetOperation Node)) :
    foldSetOperations step os = os.map (·.map (fold step)) := by
  induction os with
  | nil => rfl
  | cons o os ih => simp [foldSetOperations, SetOperation.map, ih]

theorem foldSortKeys_eq (ks : List (SortKey Node)) :
    foldSortKeys step ks = ks.map (·.map (fold step)) := by
  induction ks with
  | nil => rfl
  | cons k ks ih => simp [foldSortKeys, SortKey.map, ih]

theorem foldAssignments_eq (as : List (Assignment Node)) :
    foldAssignments step as = as.map (·.map (fold step)) := by
  induction as with
  | nil => rfl
  | cons a as ih => simp [foldAssignments, Assignment.map, ih]

theorem foldColumns_eq (cs : List (Column Node)) :
    foldColumns step cs = cs.map (·.map (fold step)) := by
  induction cs with
  | nil => rfl
  | cons c cs ih => simp [foldColumns, Column.map, foldOption_eq, ih]

theorem foldLayer_eq (l : Layer Node) : foldLayer step l = l.map (fold step) := by
  cases l <;>
    simp [foldLayer, Layer.map, Select.map, Insert.map, Update.map, Delete.map, CreateTable.map,
      Raw.map, Column.map, foldAll_eq, foldOption_eq, foldRowsOption_eq, foldSelections_eq,
      foldJoins_eq, foldSetOperations_eq, foldSortKeys_eq, foldAssignments_eq, foldColumns_eq]

/-- A node's value is made of the values of its parts. -/
theorem fold_mk (l : Layer Node) : fold step (.mk l) = step (l.map (fold step)) := by
  rw [fold, foldLayer_eq]

end

end Node

end SqlDialect
