import Mathlib.Data.List.Chain
import SqlDialect.Proofs.Scheduling

/-!
Grouping of columns. The rows that name a table fall into runs of neighbours that name the same one, and each
run becomes a table; rows that name none are passed over, also inside a run. So no column is lost or moved.
Where the rows of every dataset come in order, all tables come in order, and none of them twice.
-/
set_option autoImplicit false

namespace SqlDialect.Warehouse

def tableName? (row : Row) : Option String :=
  textField? row "table_name"

/-- Rows one after the other that name the same table, the first of them apart. -/
structure Run where
  name : String
  first : Row
  rest : List Row

namespace Run

def rows (run : Run) : List Row :=
  run.first :: run.rest

def table (dataset : String) (run : Run) : TableInfo where
  schema := dataset
  name := run.name
  isView := textField? run.first "table_type" == some "VIEW"
  columns := run.rows.map ColumnInfo.ofRow

def addRow (run : Run) (row : Row) : Run :=
  { run with rest := run.rest ++ [row] }

theorem table_addRow (dataset : String) (run : Run) (row : Row) :
    (run.addRow row).table dataset = (run.table dataset).addColumn (.ofRow row) := by
  simp [table, addRow, rows, TableInfo.addColumn]

end Run

/-- The runs into which rows fall. -/
structure FallsInto (rows : List Row) (runs : List Run) : Prop where
  rows_eq : runs.flatMap Run.rows = rows.filter fun row => (tableName? row).isSome
  named : ∀ run ∈ runs, ∀ row ∈ run.rows, tableName? row = some run.name
  apart : runs.IsChain fun a b => a.name ≠ b.name

theorem fallsInto_nil : FallsInto [] [] :=
  ⟨rfl, nofun, .nil⟩

section

variable {rows : List Row} {runs : List Run} {last : Run} {row : Row}

theorem FallsInto.skip (h : FallsInto rows runs) (nameless : tableName? row = none) :
    FallsInto (rows ++ [row]) runs :=
  ⟨by simp [h.rows_eq, nameless], h.named, h.apart⟩

theorem FallsInto.extend (h : FallsInto rows (runs ++ [last])) (same : tableName? row = some last.name) :
    FallsInto (rows ++ [row]) (runs ++ [last.addRow row]) := by
  refine ⟨?_, ?_, ?_⟩
  · have whole := h.rows_eq
    simp only [List.flatMap_append, List.flatMap_singleton, Run.rows] at whole
    simp [← whole, same, Run.addRow, Run.rows]
  · intro run member r hr
    rcases List.mem_append.mp member with before | here
    · exact h.named run (List.mem_append_left _ before) r hr
    · rw [List.mem_singleton.mp here] at hr ⊢
      rcases List.mem_append.mp (show r ∈ last.rows ++ [row] from hr) with old | new
      · exact h.named last (by simp) r old
      · rw [List.mem_singleton.mp new]
        exact same
  · have apart := h.apart
    rw [List.isChain_append] at apart ⊢
    simpa [Run.addRow] using apart

theorem FallsInto.start {name : String} (h : FallsInto rows runs) (named : tableName? row = some name)
    (other : ∀ last ∈ runs.getLast?, last.name ≠ name) :
    FallsInto (rows ++ [row]) (runs ++ [⟨name, row, []⟩]) := by
  refine ⟨?_, ?_, ?_⟩
  · simp [h.rows_eq, named, Run.rows]
  · intro run member r hr
    rcases List.mem_append.mp member with before | here
    · exact h.named run before r hr
    · rw [List.mem_singleton.mp here] at hr ⊢
      rw [List.mem_singleton.mp hr]
      exact named
  · rw [List.isChain_append]
    exact ⟨h.apart, .singleton _, by simpa using other⟩

end

/-- One more row extends the last run, starts another one, or is passed over. -/
theorem FallsInto.addRow {rows : List Row} {runs : List Run} (h : FallsInto rows runs) (dataset : String)
    (row : Row) : ∃ next, FallsInto (rows ++ [row]) next ∧
      addRow dataset (runs.map (Run.table dataset)) row = next.map (Run.table dataset) := by
  unfold Warehouse.addRow
  cases named : textField? row "table_name" with
  | none => exact ⟨runs, h.skip named, rfl⟩
  | some name =>
    rcases List.eq_nil_or_concat' runs with rfl | ⟨before, last, rfl⟩
    · exact ⟨[⟨name, row, []⟩], h.start named nofun, rfl⟩
    · simp only [List.map_append, List.map_cons, List.map_nil, List.getLast?_append, List.getLast?_singleton,
        Option.some_or, List.dropLast_concat]
      by_cases same : last.name = name
      · refine ⟨_, h.extend (same ▸ named), ?_⟩
        have found : (last.table dataset).name = name := same
        simp [found, Run.table_addRow]
      · refine ⟨_, h.start named (by simpa using same), ?_⟩
        simp [Run.table, same, TableInfo.ofRow, Run.rows]

theorem groupColumns_eq (dataset : String) (rows : List Row) :
    ∃ runs, FallsInto rows runs ∧ groupColumns dataset rows = runs.map (Run.table dataset) := by
  induction rows using List.reverseRecOn with
  | nil => exact ⟨[], fallsInto_nil, rfl⟩
  | append_singleton rows row ih =>
    obtain ⟨runs, falls, tables⟩ := ih
    obtain ⟨next, falls, step⟩ := falls.addRow dataset row
    refine ⟨next, falls, ?_⟩
    rw [groupColumns, List.foldl_append, ← groupColumns, tables]
    exact step

/-- What is to be told of the rows of a dataset. The tables have their name, the columns of each come from rows
that name it, none of these is missing, and the first of them says whether the table is a view. -/
structure Grouped (dataset : String) (rows : List Row) (tables : List TableInfo) : Prop where
  schema : ∀ t ∈ tables, t.schema = dataset
  columns : ∀ t ∈ tables, t.columns ≠ []
  apart : tables.IsChain fun t u => t.name ≠ u.name
  pairs : tables.flatMap (fun t => t.columns.map (t.name, ·)) =
    rows.filterMap fun row => (tableName? row).map (·, ColumnInfo.ofRow row)
  view : ∀ before t after, tables = before ++ t :: after →
    ∃ row, (rows.filter fun row => (tableName? row).isSome)[(before.flatMap TableInfo.columns).length]? =
        some row ∧ t.isView = (textField? row "table_type" == some "VIEW")

section

variable {rows : List Row} {runs : List Run}

theorem FallsInto.filterMap_eq {α : Type} (h : FallsInto rows runs) (f : String → Row → α) :
    rows.filterMap (fun row => (tableName? row).map (f · row)) =
      runs.flatMap fun run => run.rows.map (f run.name) := by
  have kept : rows.filterMap (fun row => (tableName? row).map (f · row)) =
      (rows.filter fun row => (tableName? row).isSome).filterMap
        fun row => (tableName? row).map (f · row) := by
    rw [List.filterMap_filter]
    refine List.filterMap_congr fun row _ => ?_
    cases tableName? row <;> rfl
  rw [kept, ← h.rows_eq, List.filterMap_flatMap]
  refine List.flatMap_congr fun run member => ?_
  rw [← List.filterMap_eq_map]
  exact List.filterMap_congr fun row here => by simp [h.named run member row here]

theorem FallsInto.grouped (h : FallsInto rows runs) (dataset : String) :
    Grouped dataset rows (runs.map (Run.table dataset)) where
  schema t member := by
    obtain ⟨run, -, rfl⟩ := List.mem_map.mp member
    rfl
  columns t member := by
    obtain ⟨run, -, rfl⟩ := List.mem_map.mp member
    exact List.cons_ne_nil _ _
  apart := (List.isChain_map _).mpr h.apart
  pairs := by
    rw [h.filterMap_eq fun name row => (name, ColumnInfo.ofRow row), List.flatMap_map]
    simp [Run.table, Function.comp_def]
  view before t after split := by
    obtain ⟨earlier, others, rfl, rfl, here⟩ := List.map_eq_append_iff.mp split
    obtain ⟨run, later, rfl, rfl, rfl⟩ := List.map_eq_cons_iff.mp here
    refine ⟨run.first, ?_, rfl⟩
    have count : ((earlier.map (Run.table dataset)).flatMap TableInfo.columns).length =
        (earlier.flatMap Run.rows).length := by
      simp [List.length_flatMap, Run.table, Function.comp_def]
    rw [count, ← h.rows_eq, List.flatMap_append, List.getElem?_append_right (Nat.le_refl _), Nat.sub_self]
    rfl

end

theorem grouped_groupColumns (dataset : String) (rows : List Row) :
    Grouped dataset rows (groupColumns dataset rows) := by
  obtain ⟨runs, falls, tables⟩ := groupColumns_eq dataset rows
  rw [tables]
  exact falls.grouped dataset

/-- The tables that rows name come in order. -/
def SortedByTable (rows : List Row) : Prop :=
  (rows.filterMap tableName?).Pairwise (· ≤ ·)

/-- Tables are ordered by dataset, and in a dataset by name. -/
def TableInfo.Before (t u : TableInfo) : Prop :=
  t.schema < u.schema ∨ t.schema = u.schema ∧ t.name < u.name

theorem pairwise_lt {names : List String} (sorted : names.Pairwise (· ≤ ·)) (apart : names.IsChain (· ≠ ·)) :
    names.Pairwise (· < ·) := by
  refine List.IsChain.pairwise ?_
  induction names with
  | nil => exact .nil
  | cons s names ih =>
    obtain ⟨first, rest⟩ := List.pairwise_cons.mp sorted
    rw [List.isChain_cons] at apart ⊢
    refine ⟨fun t next => ?_, ih rest apart.2⟩
    exact Std.lt_of_le_of_ne (first t (List.mem_of_mem_head? next)) (apart.1 t next)

theorem FallsInto.pairwise_name {rows : List Row} {runs : List Run} (h : FallsInto rows runs)
    (sorted : SortedByTable rows) : (runs.map Run.name).Pairwise (· < ·) := by
  have names := h.filterMap_eq fun name _ => name
  simp only [Option.map_id'] at names
  rw [SortedByTable, names, List.pairwise_flatMap] at sorted
  refine pairwise_lt ?_ ((List.isChain_map _).mpr h.apart)
  rw [List.pairwise_map]
  exact sorted.2.imp fun le => le _ (List.mem_cons_self ..) _ (List.mem_cons_self ..)

theorem pairwise_groupColumns {rows : List Row} (sorted : SortedByTable rows) (dataset : String) :
    (groupColumns dataset rows).Pairwise TableInfo.Before := by
  obtain ⟨runs, falls, tables⟩ := groupColumns_eq dataset rows
  rw [tables, List.pairwise_map]
  exact (List.pairwise_map.mp (falls.pairwise_name sorted)).imp fun lt => .inr ⟨rfl, lt⟩

theorem pairwise_flatMap_groupColumns {names : List String} {rows : String → List Row}
    (apart : names.Pairwise (· < ·)) (sorted : ∀ name ∈ names, SortedByTable (rows name)) :
    (names.flatMap fun name => groupColumns name (rows name)).Pairwise TableInfo.Before := by
  refine List.pairwise_flatMap.mpr ⟨fun name member => pairwise_groupColumns (sorted name member) name, ?_⟩
  refine apart.imp fun {a b} lt t first u second => .inl ?_
  rw [(grouped_groupColumns a (rows a)).schema t first, (grouped_groupColumns b (rows b)).schema u second]
  exact lt

theorem TableInfo.nodup_of_pairwise {tables : List TableInfo} (h : tables.Pairwise TableInfo.Before) :
    (tables.map fun t => (t.schema, t.name)).Nodup := by
  refine List.pairwise_map.mpr (h.imp fun {t u} before same => ?_)
  obtain ⟨schema, name⟩ := Prod.mk.inj same
  rcases before with lt | ⟨-, lt⟩
  · exact String.lt_irrefl _ (schema ▸ lt)
  · exact String.lt_irrefl _ (name ▸ lt)

namespace Catalog

theorem pairwise_sort {names : List String} (distinct : names.Nodup) :
    (Text.sort names).Pairwise (· < ·) := by
  have apart : (Text.sort names).Pairwise (· ≠ ·) := (Text.perm_sort names).nodup_iff.mpr distinct
  exact ((Text.sorted_sort names).and apart).imp fun h => Std.lt_of_le_of_ne h.1 h.2

theorem answered_or_failed (c : Catalog) (names : List String) :
    (∃ rows : String → List Row, ∀ name ∈ names, c.metadata name = .ok (rows name)) ∨
    ∃ before name after e, names = before ++ name :: after ∧
      (∀ b ∈ before, ∃ rows, c.metadata b = .ok rows) ∧ c.metadata name = .error e := by
  by_cases all : ∀ name ∈ names, ∃ rows, c.metadata name = .ok rows
  · left
    choose! rows answered using all
    exact ⟨rows, answered⟩
  · right
    induction names with
    | nil => exact absurd nofun all
    | cons name names ih =>
      cases first : c.metadata name with
      | error e => exact ⟨[], name, names, e, rfl, nofun, first⟩
      | ok rows =>
        obtain ⟨before, failing, after, e, rfl, answered, failed⟩ :=
          ih fun rest => all (List.forall_mem_cons.mpr ⟨⟨rows, first⟩, rest⟩)
        exact ⟨name :: before, failing, after, e, rfl, List.forall_mem_cons.mpr ⟨⟨rows, first⟩, answered⟩,
          failed⟩

theorem tables_report {c : Catalog} {names : List String} {concurrency : Nat} {choose starts : Nat → Nat}
    {tables : List TableInfo} (listed : c.datasets = .ok names)
    (h : (c.report concurrency choose starts).tables = .ok tables) :
    ∃ rows : String → List Row, (∀ name ∈ names, c.metadata name = .ok (rows name)) ∧
      tables = (Text.sort names).flatMap fun name => groupColumns name (rows name) := by
  have told := (told_report listed concurrency choose starts).1
  rcases c.answered_or_failed (Text.sort names) with ⟨rows, answered⟩ | ⟨before, name, after, e, split, ok, failed⟩
  · have same := (told.ok rows answered).1
    rw [h] at same
    refine ⟨rows, fun name member => ?_, Except.ok.inj same⟩
    exact answered name ((Text.perm_sort names).mem_iff.mpr member)
  · have failure := told.error before name after e split ok failed
    rw [h] at failure
    contradiction

/-- Grouping loses no column and keeps their order, for rows of any kind. Introspection gives the tables of all
datasets if all are answered for, and they are the groups of the datasets one after the other. Where the datasets
are distinct and the rows of each come in order of their tables, the tables it gives are strictly in order, so none
of them comes twice. -/
theorem report_ordered (c : Catalog) (concurrency : Nat) (choose starts : Nat → Nat) :
    (∀ dataset rows, Grouped dataset rows (groupColumns dataset rows)) ∧
    ∀ names, c.datasets = .ok names →
      ((∀ name ∈ names, ∃ rows, c.metadata name = .ok rows) →
        ∃ tables, (c.report concurrency choose starts).tables = .ok tables) ∧
      (∀ tables, (c.report concurrency choose starts).tables = .ok tables →
        ∃ rows : String → List Row, (∀ name ∈ names, c.metadata name = .ok (rows name)) ∧
          tables = (Text.sort names).flatMap fun name => groupColumns name (rows name)) ∧
      (names.Nodup → (∀ name ∈ names, ∀ rows, c.metadata name = .ok rows → SortedByTable rows) →
        ∀ tables, (c.report concurrency choose starts).tables = .ok tables →
          tables.Pairwise TableInfo.Before ∧ (tables.map fun t => (t.schema, t.name)).Nodup) := by
  refine ⟨grouped_groupColumns, fun names listed =>
    ⟨fun answered => ?_, fun _ => tables_report listed, fun distinct sorted tables h => ?_⟩⟩
  · choose! rows answered using answered
    have told := (told_report listed concurrency choose starts).1.ok rows fun name member =>
      answered name ((Text.perm_sort names).mem_iff.mp member)
    exact ⟨_, told.1⟩
  · obtain ⟨rows, answered, rfl⟩ := tables_report listed h
    have ordered : ((Text.sort names).flatMap fun name => groupColumns name (rows name)).Pairwise
        TableInfo.Before := by
      refine pairwise_flatMap_groupColumns (pairwise_sort distinct) fun name member => ?_
      have here := (Text.perm_sort names).mem_iff.mp member
      exact sorted name here (rows name) (answered name here)
    exact ⟨ordered, TableInfo.nodup_of_pairwise ordered⟩

def shopRows : List Row :=
  [[("table_name", .string "daily"), ("column_name", .string "day"), ("table_type", .string "VIEW")],
    [("table_name", .null), ("column_name", .string "lost")],
    [("table_name", .string "daily"), ("column_name", .string "total")],
    [("table_name", .string "items"), ("column_name", .string "id")]]

def shopCatalog : Catalog where
  datasets := .ok ["web", "shop"]
  metadata _ := .ok shopRows

theorem report_ordered_shop :
    Grouped "web" shopRows (groupColumns "web" shopRows) ∧
    ∃ tables, (shopCatalog.report 2 id).tables = .ok tables ∧ tables.Pairwise TableInfo.Before := by
  obtain ⟨grouped, listed⟩ := report_ordered shopCatalog 2 id fun _ => 2
  obtain ⟨returns, -, ordered⟩ := listed _ rfl
  obtain ⟨tables, told⟩ := returns fun _ _ => ⟨_, rfl⟩
  refine ⟨grouped _ _, tables, told, (ordered (by decide) (fun _ _ rows same => ?_) tables told).1⟩
  obtain rfl : shopRows = rows := Except.ok.inj same
  unfold SortedByTable
  decide

end Catalog

end SqlDialect.Warehouse
