import SqlDialect.Proofs.Placeholders

set_option autoImplicit false

namespace SqlDialect

namespace Fragment

variable {P : Type}

def Settled (f : String) : Prop :=
  Text.occurs nowCall none f.toList = false ∧ hasDateFormat f.toList = false

instance (f : String) : Decidable (Settled f) :=
  inferInstanceAs (Decidable (_ ∧ _))

theorem respell_of_settled {fs : List String} (h : ∀ f ∈ fs, Settled f) (ps : List P) :
    respell fs ps = interleave fs ps := by
  have now : fs.map (fun f => respellNow f.toList) = fs.map String.toList :=
    List.map_congr_left fun f hf => Text.replaceFrom_eq_self (Text.quiet_of_occurs (h f hf).1)
  have format : (fs.map String.toList).any hasDateFormat = false := by
    rw [List.any_eq_false, List.forall_mem_map]
    intro f hf
    rw [(h f hf).2]
    exact Bool.false_ne_true
  simp [respell, now, format, Function.comp_def]

end Fragment

theorem Text.not_mem_cutFirst {sep : Char} {cs : List Char} {p : List Char × List Char}
    (h : Text.cutFirst sep cs = some p) : sep ∉ p.1 := by
  fun_induction Text.cutFirst sep cs generalizing p with
  | case1 => contradiction
  | case2 cs =>
    cases h
    exact List.not_mem_nil
  | case3 c cs hc ih =>
    obtain ⟨q, hq, rfl⟩ := Option.map_eq_some_iff.mp h
    simpa [Ne.symm hc] using ih hq

theorem Text.cutFirst_append {sep : Char} {before : List Char} (h : sep ∉ before) (after : List Char) :
    Text.cutFirst sep (before ++ sep :: after) = some (before, after) := by
  induction before with
  | nil => simp [Text.cutFirst]
  | cons c before ih =>
    have hc : c ≠ sep := fun e => h (e ▸ List.mem_cons_self)
    simp [Text.cutFirst, hc, ih fun m => h (List.mem_cons_of_mem c m)]

namespace Qualifier

structure Splits (schema project dataset : String) : Prop where
  joined : schema = project ++ "." ++ dataset
  project_ne : project ≠ ""
  dataset_ne : dataset ≠ ""
  project_dot : '.' ∉ project.toList
  dataset_dot : '.' ∉ dataset.toList

theorem ofSchema_eq_projectDataset_iff {schema project dataset : String} :
    ofSchema schema = .projectDataset project dataset ↔ Splits schema project dataset := by
  constructor
  · intro h
    unfold ofSchema at h
    split at h
    · contradiction
    · rename_i p d hcut
      split at h
      · contradiction
      · rename_i hparts
        cases h
        simp only [Bool.or_eq_true, List.isEmpty_iff, List.contains_eq_mem, decide_eq_true_eq,
          not_or] at hparts
        have joined := Text.cutFirst_eq hcut
        have hdot := Text.not_mem_cutFirst hcut
        refine ⟨?_, ?_, ?_, ?_, ?_⟩
        · apply String.toList_injective
          simpa using joined
        all_goals simp_all
  · rintro ⟨rfl, hp, hd, hpdot, hddot⟩
    have hcut := Text.cutFirst_append hpdot dataset.toList
    simp_all [ofSchema]

end Qualifier

variable {α β : Type}

/-- No qualifier that is taken apart. -/
def Table.Unsplit (t : Table) : Prop :=
  ∀ schema ∈ t.schema.toList, ∀ project dataset, ¬ Qualifier.Splits schema project dataset

theorem Table.unsplit_iff (t : Table) :
    t.Unsplit ↔ Qualifier.ofSchema <$> t.schema ∈ [none, some .plain, some .ambiguous] := by
  obtain ⟨schema, name⟩ := t
  cases schema with
  | none => simp [Table.Unsplit]
  | some schema =>
    simp only [Table.Unsplit, ← Qualifier.ofSchema_eq_projectDataset_iff]
    cases h : Qualifier.ofSchema schema <;> simp [h]

instance (t : Table) : Decidable t.Unsplit :=
  decidable_of_iff _ t.unsplit_iff.symm

def Selection.tables : Selection α → List Table
  | .allFrom t => [t]
  | _ => []

def respelledCalls : List String :=
  ["length", "now", "date_format"]

/-- Whether a layer, its parts aside, has nothing that BigQuery spells otherwise. -/
def Layer.Common : Layer α → Prop
  | .select q =>
    (∀ s ∈ q.selections, ∀ t ∈ s.tables, t.Unsplit) ∧
      ∀ o ∈ q.setOperations, o.operator = .union → o.all = true
  | .insert q => q.target.Unsplit
  | .update q => q.target.Unsplit ∧ q.filter.isSome = true
  | .delete q => q.target.Unsplit ∧ q.filter.isSome = true
  | .createTable q => q.target.Unsplit ∧ ∀ c ∈ q.columns, c.isKey = false
  | .table t => t.Unsplit
  | .reference r => ∀ t ∈ r.table.toList, t.Unsplit
  | .call name _ => Text.lower name ∉ respelledCalls
  | .raw r => ∀ f ∈ r.fragments, Fragment.Settled f
  | .primaryKey _ => False
  | .uniqueKey _ => False
  | .foreignKey _ => False
  | .column c => c.isKey = false
  | _ => True

instance : (l : Layer α) → Decidable l.Common
  | .select _ => inferInstanceAs (Decidable ((∀ s ∈ _, ∀ t ∈ _, _) ∧ ∀ o ∈ _, _ → _))
  | .insert q => inferInstanceAs (Decidable q.target.Unsplit)
  | .update _ => inferInstanceAs (Decidable (_ ∧ _))
  | .delete _ => inferInstanceAs (Decidable (_ ∧ _))
  | .createTable _ => inferInstanceAs (Decidable (_ ∧ ∀ c ∈ _, _))
  | .table t => inferInstanceAs (Decidable t.Unsplit)
  | .reference _ => inferInstanceAs (Decidable (∀ t ∈ _, _))
  | .call _ _ => inferInstanceAs (Decidable (_ ∉ _))
  | .raw r => List.decidableBAll Fragment.Settled r.fragments
  | .primaryKey _ => .isFalse id
  | .uniqueKey _ => .isFalse id
  | .foreignKey _ => .isFalse id
  | .column c => inferInstanceAs (Decidable (c.isKey = false))
  | .identifier _ => .isTrue trivial
  | .aliased _ _ => .isTrue trivial
  | .value _ => .isTrue trivial
  | .valueList _ => .isTrue trivial
  | .binary _ _ _ => .isTrue trivial
  | .unary _ _ => .isTrue trivial
  | .parens _ => .isTrue trivial

theorem Layer.common_map (g : α → β) (l : Layer α) : (l.map g).Common ↔ l.Common := by
  cases l with
  | select q =>
    have tables (s : Selection α) : (s.map g).tables = s.tables := by cases s <;> rfl
    simp [Layer.Common, Layer.map, Select.map, SetOperation.map, tables]
  | createTable q => simp [Layer.Common, Layer.map, CreateTable.map, Column.map, Column.isKey]
  | _ => simp [Layer.Common, Layer.map, Insert.map, Update.map, Delete.map, Raw.map, Column.map, Column.isKey]

def Node.layers (n : Node) : List (Layer Unit) :=
  n.fold fun l => l.map (fun _ => ()) :: l.parts.flatten

theorem Node.layers_mk (l : Layer Node) :
    (Node.mk l).layers = l.map (fun _ => ()) :: l.parts.flatMap Node.layers := by
  rw [Node.layers, Node.fold_mk, Layer.map_map, Layer.parts_map]
  rfl

namespace Dialect

open Piece

/-- The walks of the generic dialect with backticks around names and question marks for parameters. -/
def base : Dialect :=
  { generic with quote := bigQuery.quote, placeholder := bigQuery.placeholder }

/-- BigQuery without a warning for a qualifier that it leaves whole. -/
def quietQualifier (schema : String) : Qualifier :=
  match bigQuery.qualifier schema with
  | .ambiguous => .plain
  | shape => shape

def hush : Change where
  piece
    | .warn _ => []
    | p => [p]
  piece_text _ := rfl

def quiet : Dialect :=
  bigQuery.withQualifier quietQualifier

theorem hush_table (t : Table) : hush.apply (bigQuery.table t) = quiet.table t := by
  obtain ⟨schema, name⟩ := t
  cases schema with
  | none => rfl
  | some schema =>
    have shape : quiet.qualifier schema = quietQualifier schema := rfl
    cases h : bigQuery.qualifier schema <;>
      simp only [table, Option.map_some, shape, quietQualifier, h] <;> rfl

theorem write_hush (d : Dialect) (ctx : Context) (ps : List Piece) :
    d.write ctx (hush.apply ps) = d.write ctx ps := by
  induction ps generalizing ctx with
  | nil => rfl
  | cons p ps ih => cases p <;> exact ih _

theorem pieces_quiet (n : Node) : quiet.pieces n = hush.apply (bigQuery.pieces n) := by
  induction n using Node.induct with
  | layer l ih =>
    have parts : l.map quiet.pieces = (l.map bigQuery.pieces).map hush.apply := by
      rw [Layer.map_map]
      exact Layer.map_congr ih
    rw [pieces_mk, pieces_mk, parts, apply_render hush_table fun _ _ => rfl]
    rfl

theorem table_base {t : Table} (h : t.Unsplit) : quiet.table t = base.table t := by
  obtain ⟨schema, name⟩ := t
  cases schema with
  | none => rfl
  | some schema =>
    have shape : quiet.qualifier schema = quietQualifier schema := rfl
    have plain : quietQualifier schema = .plain := by
      unfold quietQualifier
      cases hs : bigQuery.qualifier schema with
      | projectDataset project dataset =>
        exact absurd (Qualifier.ofSchema_eq_projectDataset_iff.mp hs) (h schema (by simp) project dataset)
      | plain => rfl
      | ambiguous => rfl
    simp only [table, Option.map_some, shape, plain]
    rfl

theorem column_base {c : Column (List Piece)} (h : c.isKey = false) : quiet.column c = base.column c := by
  obtain ⟨name, dataType, notNull, primaryKey, unique, references, defaultTo⟩ := c
  cases references with
  | some r => simp [Column.isKey] at h
  | none =>
    simp only [column, h, word, Bool.false_eq_true, if_false]
    rfl

theorem select_base {q : Select (List Piece)} (h : (Layer.select q).Common) :
    quiet.select q = base.select q := by
  have selection : ∀ s ∈ q.selections, quiet.selection s = base.selection s := by
    intro s hs
    cases s with
    | allFrom t => simp only [Dialect.selection, table_base (h.1 _ hs t List.mem_cons_self)]
    | _ => rfl
  have selections : quiet.selections q.selections = base.selections q.selections := by
    unfold Dialect.selections
    split
    · rfl
    · rw [List.map_congr_left selection]
  have operation : ∀ o ∈ q.setOperations, quiet.setOperation o = base.setOperation o := by
    intro o ho
    obtain ⟨operator, operand, all⟩ := o
    cases operator with
    | union =>
      obtain rfl : all = true := h.2 _ ho rfl
      rfl
    | _ => rfl
  have operations : q.setOperations.flatMap quiet.setOperation =
      q.setOperations.flatMap base.setOperation := by
    rw [List.flatMap, List.map_congr_left operation]
    rfl
  simp only [select, selections, operations]

theorem callRule_base {name : String} (h : Text.lower name ∉ respelledCalls) :
    bigQuery.callRule name = .keep := by
  change CallRule.ofName name = .keep
  unfold CallRule.ofName
  split <;> simp_all [respelledCalls]

theorem render_base {l : Layer (List Piece)} (h : l.Common) : quiet.render l = base.render l := by
  cases l with
  | select q => exact select_base h
  | insert q =>
    simp only [render, insert, table_base h]
    rfl
  | update q =>
    obtain ⟨filter, hfilter⟩ := Option.isSome_iff_exists.mp h.2
    simp only [render, update, table_base h.1, mutationFilter, hfilter]
    rfl
  | delete q =>
    obtain ⟨filter, hfilter⟩ := Option.isSome_iff_exists.mp h.2
    simp only [render, delete, table_base h.1, mutationFilter, hfilter]
    rfl
  | createTable q =>
    have columns := List.map_congr_left fun c hc => column_base (h.2 c hc)
    simp only [render, createTable, table_base h.1, columns]
  | table t => exact table_base h
  | reference r =>
    obtain ⟨table, column⟩ := r
    cases table with
    | none => rfl
    | some t =>
      simp only [render, reference, table_base (h t (by simp))]
      rfl
  | call name arguments =>
    have rule : quiet.callRule name = .keep := callRule_base h
    simp only [render, call, rule]
    rfl
  | raw r =>
    have respelled : quiet.respell r.fragments r.parameters = base.respell r.fragments r.parameters :=
      Fragment.respell_of_settled h r.parameters
    simp only [render, raw, respelled]
  | primaryKey k => exact h.elim
  | uniqueKey k => exact h.elim
  | foreignKey k => exact h.elim
  | column c => exact column_base h
  | _ => rfl

theorem pieces_base {n : Node} (h : ∀ l ∈ n.layers, l.Common) : quiet.pieces n = base.pieces n := by
  induction n using Node.induct with
  | layer l ih =>
    rw [Node.layers_mk, List.forall_mem_cons, List.forall_mem_flatMap] at h
    have parts : l.map quiet.pieces = l.map base.pieces :=
      Layer.map_congr fun p hp => ih p hp (h.2 p hp)
    rw [pieces_mk, pieces_mk, parts]
    exact render_base ((Layer.common_map _ l).mpr ((Layer.common_map _ l).mp h.1))

/-- A tree that has nothing, at any depth, that BigQuery spells otherwise is compiled as by the generic
walks, whatever the shape of the qualifiers that are left whole. -/
theorem compile_eq_base (n : Node) (h : ∀ l ∈ n.layers, l.Common) :
    bigQuery.compile n = base.compile n := by
  have pieces : base.pieces n = hush.apply (bigQuery.pieces n) := by
    rw [← pieces_base h, pieces_quiet]
  have written : base.write {} (base.pieces n) = bigQuery.write {} (bigQuery.pieces n) := by
    rw [pieces, write_hush]
    rfl
  rw [bigQuery.compile_eq_write, base.compile_eq_write, written]

def eventQuery : Node :=
  .mk (.select (((Select.ofTable "a.b.c.events").addFilter
    (.binary (.call "lengths" [.col "note"]) "<" (.raw ["", " + snow()"] [.val (.int 1)]))).unionAll
      (Select.ofTable "archive.events")))

theorem compile_eq_base_eventQuery :
    (∀ l ∈ eventQuery.layers, l.Common) ∧ bigQuery.compile eventQuery = base.compile eventQuery :=
  have common : ∀ l ∈ eventQuery.layers, l.Common := by decide
  ⟨common, compile_eq_base eventQuery common⟩

end Dialect

end SqlDialect
