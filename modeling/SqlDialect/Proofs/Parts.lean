import SqlDialect.Tree.Node

set_option autoImplicit false

namespace SqlDialect

variable {α β γ : Type}

def Selection.parts : Selection α → List α
  | .expression e => [e]
  | _ => []

def Join.parts (j : Join α) : List α :=
  j.source :: j.condition.toList

def Select.parts (q : Select α) : List α :=
  q.selections.flatMap Selection.parts ++ q.sources ++ q.joins.flatMap Join.parts ++ q.filter.toList ++
    q.groupBy ++ q.having.toList ++ q.setOperations.map (·.operand) ++ q.orderBy.map (·.expression) ++
    q.limit.toList ++ q.offset.toList

def Insert.parts (q : Insert α) : List α :=
  (q.rows.getD []).flatten ++ q.query.toList

def Update.parts (q : Update α) : List α :=
  q.assignments.map (·.value) ++ q.sources ++ q.filter.toList

def CreateTable.parts (q : CreateTable α) : List α :=
  q.columns.flatMap (·.defaultTo.toList) ++ q.constraints

def Layer.parts : Layer α → List α
  | .select q => q.parts
  | .insert q => q.parts
  | .update q => q.parts
  | .delete q => q.filter.toList
  | .createTable q => q.parts
  | .aliased e _ => [e]
  | .valueList es => es
  | .call _ arguments => arguments
  | .binary l _ r => [l, r]
  | .unary _ e => [e]
  | .parens e => [e]
  | .raw r => r.parameters
  | .column c => c.defaultTo.toList
  | _ => []

theorem Selection.parts_map (f : α → β) (s : Selection α) : (s.map f).parts = s.parts.map f := by
  cases s <;> rfl

theorem Join.parts_map (f : α → β) (j : Join α) : (j.map f).parts = j.parts.map f := by
  obtain ⟨kind, source, condition⟩ := j
  cases condition <;> rfl

theorem Select.parts_map (f : α → β) (q : Select α) : (q.map f).parts = q.parts.map f := by
  simp [Select.parts, Select.map, List.flatMap_map, List.map_flatMap, Selection.parts_map, Join.parts_map,
    Option.toList_map, SetOperation.map, SortKey.map, Function.comp_def]

theorem Insert.parts_map (f : α → β) (q : Insert α) : (q.map f).parts = q.parts.map f := by
  obtain ⟨target, columns, rows, query⟩ := q
  cases rows with
  | none => simp [Insert.parts, Insert.map, Option.toList_map]
  | some rows => simp [Insert.parts, Insert.map, Option.toList_map, List.map_flatten]

theorem Layer.parts_map (f : α → β) (l : Layer α) : (l.map f).parts = l.parts.map f := by
  cases l <;>
    simp [Layer.parts, Layer.map, Select.parts_map, Insert.parts_map, Update.parts, Update.map,
      CreateTable.parts, CreateTable.map, Delete.map, Raw.map, Column.map, Assignment.map, Option.toList_map,
      List.flatMap_map, List.map_flatMap]

theorem Selection.map_map (f : α → β) (g : β → γ) (s : Selection α) :
    (s.map f).map g = s.map (g ∘ f) := by
  cases s <;> rfl

theorem Layer.map_map (f : α → β) (g : β → γ) (l : Layer α) : (l.map f).map g = l.map (g ∘ f) := by
  cases l <;>
    simp [Layer.map, Select.map, Insert.map, Update.map, Delete.map, CreateTable.map, Raw.map, Column.map,
      Selection.map_map, Join.map, SetOperation.map, SortKey.map, Assignment.map, Function.comp_def]

theorem option_map_congr {f g : α → β} {o : Option α} (h : ∀ p ∈ o.toList, f p = g p) :
    o.map f = o.map g :=
  Option.map_congr fun p hp => h p (Option.mem_toList.mpr hp)

theorem Selection.map_congr {f g : α → β} {s : Selection α} (h : ∀ p ∈ s.parts, f p = g p) :
    s.map f = s.map g := by
  cases s <;> simp_all [Selection.map, Selection.parts]

theorem Join.map_congr {f g : α → β} {j : Join α} (h : ∀ p ∈ j.parts, f p = g p) :
    j.map f = j.map g := by
  simp only [Join.parts, List.forall_mem_cons] at h
  simp only [Join.map, h.1, option_map_congr h.2]

theorem Select.map_congr {f g : α → β} {q : Select α} (h : ∀ p ∈ q.parts, f p = g p) :
    q.map f = q.map g := by
  simp only [Select.parts, List.forall_mem_append, List.forall_mem_flatMap, List.forall_mem_map] at h
  obtain ⟨⟨⟨⟨⟨⟨⟨⟨⟨hs, hf⟩, hj⟩, hw⟩, hg⟩, hh⟩, ho⟩, hk⟩, hl⟩, he⟩ := h
  have selections := List.map_congr_left fun s m => Selection.map_congr (hs s m)
  have joins := List.map_congr_left fun j m => Join.map_congr (hj j m)
  simp only [Select.map, SetOperation.map, SortKey.map, selections, joins, List.map_congr_left hf,
    List.map_congr_left hg, option_map_congr hw, option_map_congr hh, option_map_congr hl,
    option_map_congr he]
  simp +contextual [ho, hk]

theorem Insert.map_congr {f g : α → β} {q : Insert α} (h : ∀ p ∈ q.parts, f p = g p) :
    q.map f = q.map g := by
  simp only [Insert.parts, List.forall_mem_append] at h
  obtain ⟨hr, hq⟩ := h
  have row : ∀ rows, q.rows = some rows → ∀ row ∈ rows, row.map f = row.map g := by
    intro rows hrows row hrow
    refine List.map_congr_left fun p hp => hr p ?_
    rw [hrows]
    exact List.mem_flatten.mpr ⟨row, hrow, hp⟩
  simp only [Insert.map, option_map_congr hq, Insert.mk.injEq, true_and, and_true]
  exact Option.map_congr fun rows hrows => List.map_congr_left (row rows hrows)

theorem Update.map_congr {f g : α → β} {q : Update α} (h : ∀ p ∈ q.parts, f p = g p) :
    q.map f = q.map g := by
  simp only [Update.parts, List.forall_mem_append, List.forall_mem_map] at h
  simp only [Update.map, Assignment.map, List.map_congr_left h.1.2, option_map_congr h.2]
  simp +contextual [h.1.1]

theorem Column.map_congr {f g : α → β} {c : Column α} (h : ∀ p ∈ c.defaultTo.toList, f p = g p) :
    c.map f = c.map g := by
  simp only [Column.map, option_map_congr h]

theorem CreateTable.map_congr {f g : α → β} {q : CreateTable α} (h : ∀ p ∈ q.parts, f p = g p) :
    q.map f = q.map g := by
  simp only [CreateTable.parts, List.forall_mem_append, List.forall_mem_flatMap] at h
  have columns := List.map_congr_left fun c m => Column.map_congr (h.1 c m)
  simp only [CreateTable.map, columns, List.map_congr_left h.2]

/-- Two functions that agree on the parts of a layer change it alike. -/
theorem Layer.map_congr {f g : α → β} {l : Layer α} (h : ∀ p ∈ l.parts, f p = g p) :
    l.map f = l.map g := by
  cases l with
  | select q => exact congrArg Layer.select (Select.map_congr h)
  | insert q => exact congrArg Layer.insert (Insert.map_congr h)
  | update q => exact congrArg Layer.update (Update.map_congr h)
  | createTable q => exact congrArg Layer.createTable (CreateTable.map_congr h)
  | column c => exact congrArg Layer.column (Column.map_congr h)
  | delete q => simp only [Layer.map, Delete.map, option_map_congr h]
  | valueList es => exact congrArg Layer.valueList (List.map_congr_left h)
  | call name arguments => exact congrArg (Layer.call name) (List.map_congr_left h)
  | raw r => exact congrArg (fun ps => Layer.raw ⟨r.fragments, ps⟩) (List.map_congr_left h)
  | _ => simp_all [Layer.map, Layer.parts]

section

variable [SizeOf α]

theorem sizeOf_lt_of_mem_toList {o : Option α} {p : α} (h : p ∈ o.toList) : sizeOf p < sizeOf o := by
  cases o <;> simp_all

theorem sizeOf_lt_of_mem_flatMap [SizeOf β] {parts : β → List α} {xs : List β} {p : α}
    (hparts : ∀ x, p ∈ parts x → sizeOf p < sizeOf x) (h : p ∈ xs.flatMap parts) :
    sizeOf p < sizeOf xs := by
  obtain ⟨x, hx, hp⟩ := List.mem_flatMap.mp h
  exact Nat.lt_trans (hparts x hp) (List.sizeOf_lt_of_mem hx)

theorem sizeOf_lt_of_mem_map [SizeOf β] {part : β → α} {xs : List β} {p : α}
    (hpart : ∀ x, sizeOf (part x) < sizeOf x) (h : p ∈ xs.map part) : sizeOf p < sizeOf xs := by
  obtain ⟨x, hx, rfl⟩ := List.mem_map.mp h
  exact Nat.lt_trans (hpart x) (List.sizeOf_lt_of_mem hx)

theorem Selection.sizeOf_part {s : Selection α} {p : α} (h : p ∈ s.parts) : sizeOf p < sizeOf s := by
  cases s <;> simp_all [Selection.parts]

theorem Join.sizeOf_part {j : Join α} {p : α} (h : p ∈ j.parts) : sizeOf p < sizeOf j := by
  obtain ⟨kind, source, condition⟩ := j
  rcases List.mem_cons.mp h with rfl | hc
  · simp
    omega
  · have := sizeOf_lt_of_mem_toList hc
    simp at *
    omega

theorem Column.sizeOf_part {c : Column α} {p : α} (h : p ∈ c.defaultTo.toList) :
    sizeOf p < sizeOf c := by
  obtain ⟨name, dataType, notNull, primaryKey, unique, references, defaultTo⟩ := c
  have := sizeOf_lt_of_mem_toList h
  simp at *
  omega

theorem Select.sizeOf_part {q : Select α} {p : α} (h : p ∈ q.parts) : sizeOf p < sizeOf q := by
  obtain ⟨distinct, selections, sources, joins, filter, groupBy, having, setOperations, orderBy, limit,
    offset⟩ := q
  simp only [Select.parts, List.mem_append] at h
  have operand (o : SetOperation α) : sizeOf o.operand < sizeOf o := by
    cases o
    simp only [SetOperation.mk.sizeOf_spec]
    omega
  have expression (k : SortKey α) : sizeOf k.expression < sizeOf k := by
    cases k
    simp only [SortKey.mk.sizeOf_spec]
    omega
  simp only [Select.mk.sizeOf_spec]
  rcases h with ((((((((hs | hf) | hj) | hw) | hg) | hh) | ho) | hk) | hl) | he
  · have := sizeOf_lt_of_mem_flatMap (fun _ => Selection.sizeOf_part) hs
    omega
  · have := List.sizeOf_lt_of_mem hf
    omega
  · have := sizeOf_lt_of_mem_flatMap (fun _ => Join.sizeOf_part) hj
    omega
  · have := sizeOf_lt_of_mem_toList hw
    omega
  · have := List.sizeOf_lt_of_mem hg
    omega
  · have := sizeOf_lt_of_mem_toList hh
    omega
  · have := sizeOf_lt_of_mem_map operand ho
    omega
  · have := sizeOf_lt_of_mem_map expression hk
    omega
  · have := sizeOf_lt_of_mem_toList hl
    omega
  · have := sizeOf_lt_of_mem_toList he
    omega

theorem Insert.sizeOf_part {q : Insert α} {p : α} (h : p ∈ q.parts) : sizeOf p < sizeOf q := by
  obtain ⟨target, columns, rows, query⟩ := q
  simp only [Insert.parts, List.mem_append] at h
  simp only [Insert.mk.sizeOf_spec]
  rcases h with hr | hq
  · cases rows with
    | none => simp at hr
    | some rows =>
      obtain ⟨row, hrow, hp⟩ := List.mem_flatten.mp hr
      have := List.sizeOf_lt_of_mem hrow
      have := List.sizeOf_lt_of_mem hp
      simp only [Option.getD_some, Option.some.sizeOf_spec] at *
      omega
  · have := sizeOf_lt_of_mem_toList hq
    omega

theorem Update.sizeOf_part {q : Update α} {p : α} (h : p ∈ q.parts) : sizeOf p < sizeOf q := by
  obtain ⟨target, assignments, sources, filter⟩ := q
  simp only [Update.parts, List.mem_append] at h
  have value (a : Assignment α) : sizeOf a.value < sizeOf a := by
    cases a
    simp only [Assignment.mk.sizeOf_spec]
    omega
  simp only [Update.mk.sizeOf_spec]
  rcases h with (ha | hs) | hf
  · have := sizeOf_lt_of_mem_map value ha
    omega
  · have := List.sizeOf_lt_of_mem hs
    omega
  · have := sizeOf_lt_of_mem_toList hf
    omega

theorem CreateTable.sizeOf_part {q : CreateTable α} {p : α} (h : p ∈ q.parts) :
    sizeOf p < sizeOf q := by
  obtain ⟨target, ifNotExists, columns, constraints⟩ := q
  simp only [CreateTable.parts, List.mem_append] at h
  simp only [CreateTable.mk.sizeOf_spec]
  rcases h with hc | hk
  · have := sizeOf_lt_of_mem_flatMap (fun _ => Column.sizeOf_part) hc
    omega
  · have := List.sizeOf_lt_of_mem hk
    omega

theorem Layer.sizeOf_part {l : Layer α} {p : α} (h : p ∈ l.parts) : sizeOf p < sizeOf l := by
  cases l with
  | select q =>
    have := Select.sizeOf_part h
    simp only [Layer.select.sizeOf_spec]
    omega
  | insert q =>
    have := Insert.sizeOf_part h
    simp only [Layer.insert.sizeOf_spec]
    omega
  | update q =>
    have := Update.sizeOf_part h
    simp only [Layer.update.sizeOf_spec]
    omega
  | delete q =>
    obtain ⟨target, filter⟩ := q
    have : sizeOf p < sizeOf filter := sizeOf_lt_of_mem_toList h
    simp only [Layer.delete.sizeOf_spec, Delete.mk.sizeOf_spec]
    omega
  | createTable q =>
    have := CreateTable.sizeOf_part h
    simp only [Layer.createTable.sizeOf_spec]
    omega
  | valueList es =>
    have : sizeOf p < sizeOf es := List.sizeOf_lt_of_mem h
    simp only [Layer.valueList.sizeOf_spec]
    omega
  | call name arguments =>
    have : sizeOf p < sizeOf arguments := List.sizeOf_lt_of_mem h
    simp only [Layer.call.sizeOf_spec]
    omega
  | raw r =>
    obtain ⟨fragments, parameters⟩ := r
    have : sizeOf p < sizeOf parameters := List.sizeOf_lt_of_mem h
    simp only [Layer.raw.sizeOf_spec, Raw.mk.sizeOf_spec]
    omega
  | column c =>
    have := Column.sizeOf_part h
    simp only [Layer.column.sizeOf_spec]
    omega
  | aliased e name =>
    rw [List.mem_singleton.mp h, Layer.aliased.sizeOf_spec]
    omega
  | binary l op r =>
    simp only [Layer.parts, List.mem_cons, List.not_mem_nil, or_false] at h
    rw [Layer.binary.sizeOf_spec]
    rcases h with rfl | rfl <;> omega
  | unary op e =>
    rw [List.mem_singleton.mp h, Layer.unary.sizeOf_spec]
    omega
  | parens e =>
    rw [List.mem_singleton.mp h, Layer.parens.sizeOf_spec]
    omega
  | _ => exact absurd h List.not_mem_nil

end

/-- Induction over trees: one case for all kinds of nodes, with the statement for every part. -/
@[elab_as_elim]
theorem Node.induct {P : Node → Prop} (layer : ∀ l : Layer Node, (∀ p ∈ l.parts, P p) → P (.mk l)) :
    ∀ n, P n
  | .mk l => layer l fun p hp =>
    have := Layer.sizeOf_part hp
    Node.induct layer p
termination_by n => sizeOf n
decreasing_by
  simp only [Node.mk.sizeOf_spec]
  omega

end SqlDialect
