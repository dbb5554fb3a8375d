import SqlDialect.Proofs.Encoding
import SqlDialect.Proofs.JsonText
import SqlDialect.Warehouse.Row

/-!
Documents in registered columns. Decoding visits each registered column once and changes no other field, so
it is one pass over the fields of a row; a document that was sent as its text is what the field decodes to.
-/
set_option autoImplicit false

namespace SqlDialect

namespace Text

theorem mem_insertSorted {s t : String} {ts : List String} :
    t ∈ insertSorted s ts ↔ t = s ∨ t ∈ ts := by
  induction ts with
  | nil => simp [insertSorted]
  | cons u ts ih =>
    unfold insertSorted
    split
    · rename_i same
      simp [same]
    · split
      · simp
      · simp only [List.mem_cons, ih]
        exact or_left_comm

theorem mem_sortedSet {s : String} {ss : List String} : s ∈ sortedSet ss ↔ s ∈ ss := by
  induction ss with
  | nil => simp [sortedSet]
  | cons t ss ih =>
    rw [sortedSet] at ih
    rw [sortedSet, List.foldr_cons, mem_insertSorted, ih, List.mem_cons]

theorem sorted_insertSorted {s : String} {ts : List String} (h : ts.Pairwise (· < ·)) :
    (insertSorted s ts).Pairwise (· < ·) := by
  induction ts with
  | nil => simp [insertSorted]
  | cons t ts ih =>
    obtain ⟨first, rest⟩ := List.pairwise_cons.mp h
    unfold insertSorted
    split
    · exact h
    · rename_i different
      split
      · rename_i smaller
        refine List.pairwise_cons.mpr ⟨?_, h⟩
        intro u hu
        rcases List.mem_cons.mp hu with rfl | hu
        · exact smaller
        · exact String.lt_trans smaller (first u hu)
      · rename_i larger
        refine List.pairwise_cons.mpr ⟨?_, ih rest⟩
        intro u hu
        rcases mem_insertSorted.mp hu with rfl | hu
        · exact Std.lt_of_le_of_ne (String.not_lt.mp larger) (Ne.symm different)
        · exact first u hu

theorem sorted_sortedSet (ss : List String) : (sortedSet ss).Pairwise (· < ·) := by
  induction ss with
  | nil => exact List.Pairwise.nil
  | cons s ss ih => exact sorted_insertSorted ih

theorem nodup_sortedSet (ss : List String) : (sortedSet ss).Nodup := by
  refine (sorted_sortedSet ss).imp ?_
  rintro s _ less rfl
  exact String.lt_irrefl s less

theorem cutLast_of_not_mem {sep : Char} {cs : List Char} (h : sep ∉ cs) : cutLast sep cs = none := by
  induction cs with
  | nil => rfl
  | cons c cs ih =>
    obtain ⟨head, tail⟩ := not_or.mp (mt List.mem_cons.mpr h)
    simp [cutLast, ih tail, Ne.symm head]

end Text

namespace Registry

theorem mem_columnNames {r : Registry} {table column : String} (bare : '.' ∉ column.toList)
    (h : r.isJsonColumn table column = true) : column ∈ r.columnNames := by
  have name : bareName column = column := by rw [bareName, Text.cutLast_of_not_mem bare]
  unfold isJsonColumn at h
  split at h
  · rename_i columns found
    obtain ⟨before, after, tables, -⟩ := List.lookup_eq_some_iff.mp found
    rw [name, List.contains_iff_mem] at h
    rw [columnNames_eq, Text.mem_sortedSet, List.mem_flatMap]
    exact ⟨(table, columns), by simp [tables], h⟩
  · contradiction

theorem isEmpty_of_mem {r : Registry} {column : String} (h : column ∈ r.columnNames) :
    r.isEmpty = false := by
  rw [isEmpty, List.isEmpty_eq_false_iff]
  exact List.ne_nil_of_mem h

end Registry

namespace Json.Members

theorem get?_cons (k : String) (v : Json) (ms : Members) (name : String) :
    get? ((k, v) :: ms) name = if name = k then some v else get? ms name := by
  by_cases h : name = k
  · simp [get?, h]
  · have other : (name == k) = false := by simpa using h
    simp [get?, List.lookup_cons, other, h]

theorem get?_put (ms : Members) (k : String) (v : Json) (name : String) :
    (ms.put k v).get? name = if name = k then some v else ms.get? name := by
  induction ms with
  | nil => exact get?_cons k v [] name
  | cons m ms ih =>
    obtain ⟨k', v'⟩ := m
    by_cases here : k' = k
    · by_cases h : name = k <;> simp [put, get?_cons, here, h]
    · by_cases h : name = k'
      · simp [put, get?_cons, here, h]
      · simp [put, get?_cons, here, h, ih]

theorem names_put {ms : Members} {k : String} {j : Json} (h : ms.get? k = some j) (v : Json) :
    (ms.put k v).map Prod.fst = ms.map Prod.fst := by
  induction ms with
  | nil => contradiction
  | cons m ms ih =>
    by_cases here : m.1 = k
    · simp [put, here]
    · rw [get?_cons, if_neg (Ne.symm here)] at h
      simp [put, here, ih h]

theorem get?_of_not_mem {ms : Members} {name : String} (h : name ∉ ms.map Prod.fst) : ms.get? name = none := by
  induction ms with
  | nil => rfl
  | cons m ms ih =>
    obtain ⟨head, tail⟩ := not_or.mp (mt List.mem_cons.mpr h)
    rw [get?_cons, if_neg head, ih tail]

theorem get?_map (f : String → Json → Json) (ms : Members) (name : String) :
    get? (ms.map fun m => (m.1, f m.1 m.2)) name = (ms.get? name).map (f name) := by
  induction ms with
  | nil => rfl
  | cons m ms ih =>
    rw [List.map_cons, get?_cons, get?_cons, ih]
    split
    · rename_i same
      rw [same]
      rfl
    · rfl

theorem eq_of_get? {ms ns : Members} (distinct : (ms.map Prod.fst).Nodup)
    (names : ms.map Prod.fst = ns.map Prod.fst) (values : ∀ name, ms.get? name = ns.get? name) : ms = ns := by
  induction ms generalizing ns with
  | nil => exact (List.map_eq_nil_iff.mp names.symm).symm
  | cons m ms ih =>
    obtain ⟨n, ns, rfl, first, rest⟩ := List.map_eq_cons_iff.mp names.symm
    obtain ⟨fresh, distinct⟩ := List.nodup_cons.mp distinct
    have same : m = n := by
      have value := values m.1
      rw [get?_cons, get?_cons, if_pos rfl, if_pos first.symm] at value
      exact Prod.ext first.symm (Option.some.inj value)
    subst same
    refine congrArg (m :: ·) (ih distinct rest.symm fun name => ?_)
    by_cases here : name = m.1
    · subst here
      rw [get?_of_not_mem fresh, get?_of_not_mem (rest ▸ fresh)]
    · have value := values name
      rwa [get?_cons, get?_cons, if_neg here, if_neg here] at value

end Json.Members

namespace Row

open Json.Members

/-- What a field of a registered column becomes. -/
def decoded (j : Json) : Json :=
  (document? j).getD j

theorem get?_decodeColumn (row : Row) (column name : String) :
    get? (row.decodeColumn column) name =
      (get? row name).map fun j => if name = column then decoded j else j := by
  unfold decodeColumn
  split
  · rename_i j document
    obtain ⟨field, held, read⟩ := Option.bind_eq_some_iff.mp document
    rw [get?_put]
    by_cases here : name = column <;> simp [here, held, decoded, read]
  · rename_i none
    by_cases here : name = column
    · cases held : get? row column with
      | none => simp [here, held]
      | some field =>
        have unread : document? field = Option.none := by simpa [held] using none
        simp [here, held, decoded, unread]
    · simp [here]

theorem names_decodeColumn (row : Row) (column : String) :
    (row.decodeColumn column).map Prod.fst = row.map Prod.fst := by
  unfold decodeColumn
  split
  · rename_i document
    obtain ⟨field, held, -⟩ := Option.bind_eq_some_iff.mp document
    exact names_put held _
  · rfl

theorem get?_foldl_decodeColumn {columns : List String} (h : columns.Nodup) (row : Row) (name : String) :
    get? (columns.foldl decodeColumn row) name =
      (get? row name).map fun j => if name ∈ columns then decoded j else j := by
  induction columns generalizing row with
  | nil => simp
  | cons column columns ih =>
    obtain ⟨fresh, rest⟩ := List.nodup_cons.mp h
    rw [List.foldl_cons, ih rest, get?_decodeColumn, Option.map_map]
    congr 1
    funext j
    by_cases here : name = column
    · simp [here, fresh]
    · simp [here]

theorem get?_decode (r : Registry) (row : Row) (name : String) :
    get? (row.decode r) name =
      (get? row name).map fun j => if name ∈ r.columnNames then decoded j else j := by
  have once : r.columnNames.Nodup := r.columnNames_eq ▸ Text.nodup_sortedSet _
  exact get?_foldl_decodeColumn once row name

theorem names_decode (r : Registry) (row : Row) : (row.decode r).map Prod.fst = row.map Prod.fst := by
  unfold decode
  induction r.columnNames generalizing row with
  | nil => rfl
  | cons column columns ih => rw [List.foldl_cons, ih, names_decodeColumn]

/-- What becomes of a field: a text in a registered column becomes the document that it is the text of, and
everything else stays. -/
inductive Reads (r : Registry) (name : String) : Json → Json → Prop where
  | document {s : String} {j : Json} :
      name ∈ r.columnNames → s ≠ "" → Json.parse s = .ok j → Reads r name (.string s) j
  | kept {old : Json} :
      (name ∈ r.columnNames → ∀ s j, old = .string s → s ≠ "" → Json.parse s ≠ .ok j) → Reads r name old old

theorem Reads.unique {r : Registry} {name : String} {old new other : Json} (h : Reads r name old new)
    (h' : Reads r name old other) : new = other := by
  cases h with
  | document registered nonempty parsed =>
    cases h' with
    | document _ _ parsed' => exact Except.ok.inj (parsed.symm.trans parsed')
    | kept unread => exact absurd parsed (unread registered _ _ rfl nonempty)
  | kept unread =>
    cases h' with
    | document registered nonempty parsed => exact absurd parsed (unread registered _ _ rfl nonempty)
    | kept _ => rfl

theorem document?_eq_some_iff {old j : Json} :
    document? old = some j ↔ ∃ s, old = .string s ∧ s ≠ "" ∧ Json.parse s = .ok j := by
  cases old with
  | string s =>
    have parsed : (Json.parse s).toOption = some j ↔ Json.parse s = .ok j := by
      cases Json.parse s <;> simp [Except.toOption]
    simp [document?, parsed]
  | _ => simp [document?]

theorem reads_decoded (r : Registry) (name : String) (old : Json) :
    Reads r name old (if name ∈ r.columnNames then decoded old else old) := by
  by_cases registered : name ∈ r.columnNames
  · rw [if_pos registered, decoded]
    cases read : document? old with
    | none =>
      refine .kept fun _ s j text nonempty parsed => ?_
      rw [document?_eq_some_iff.mpr ⟨s, text, nonempty, parsed⟩] at read
      exact nomatch read
    | some j =>
      obtain ⟨s, rfl, nonempty, parsed⟩ := document?_eq_some_iff.mp read
      exact .document registered nonempty parsed
  · rw [if_neg registered]
    exact .kept fun h => absurd h registered

/-- Decoding is one pass over the fields of a row. It keeps their names and their order, and what becomes of
a field depends on its name and its value alone. -/
theorem decode_pointwise (r : Registry) :
    ∃ read : String → Json → Json, (∀ name old, Reads r name old (read name old)) ∧
      ∀ row : Row, (row.decode r).map Prod.fst = row.map Prod.fst ∧
        (∀ name, get? (row.decode r) name = (get? row name).map (read name)) ∧
        ((row.map Prod.fst).Nodup → row.decode r = row.map fun f => (f.1, read f.1 f.2)) := by
  let read (name : String) (old : Json) : Json := if name ∈ r.columnNames then decoded old else old
  refine ⟨read, reads_decoded r, fun row => ?_⟩
  have names := names_decode r row
  have values (name : String) : get? (row.decode r) name = (get? row name).map (read name) :=
    get?_decode r row name
  refine ⟨names, values, fun distinct => ?_⟩
  refine eq_of_get? (names ▸ distinct) (names.trans ?_) fun name => ?_
  · simp [Function.comp_def]
  · rw [values name, get?_map read row name]

def quotedRow : Row :=
  [("name", .string "[]"), ("metadata", .string (Json.string "[1]").text), ("id", .null)]

/-- The text inside is not read again, although the column is registered for two tables. -/
theorem decode_pointwise_quotedRow :
    quotedRow.decode (metadataRegistry.register "app.posts" ["metadata"]) =
      [("name", .string "[]"), ("metadata", .string "[1]"), ("id", .null)] := by
  obtain ⟨read, reads, rows⟩ := decode_pointwise (metadataRegistry.register "app.posts" ["metadata"])
  have name : read "name" (.string "[]") = .string "[]" :=
    (reads _ _).unique (.kept fun registered => absurd registered (by decide))
  have metadata : read "metadata" (.string (Json.string "[1]").text) = .string "[1]" :=
    (reads _ _).unique (.document (by decide) (by decide) (Json.parse_text (.string _) (by decide)))
  have id : read "id" .null = .null := (reads _ _).unique (.kept nofun)
  have decoded := (rows quotedRow).2.2 (by decide)
  simpa [quotedRow, name, metadata, id] using decoded

theorem decoded_text {j : Json} (h : j.Exact) (hd : j.depth ≤ Json.maxDepth) :
    decoded (.string j.text) = j := by
  obtain ⟨c, cs, written, -⟩ := Json.chars_cons h
  have written : j.text.isEmpty = false := by simp [Json.text, written]
  simp [decoded, document?, written, Json.parse_text h hd, Except.toOption]

end Row

/-- An insertion of one row of values, with a value for each column. -/
structure Insert.OfRow (q : Insert Node) (row : List Value) : Prop where
  query : q.query = none
  rows : q.rows = some [row.map Node.val]
  places : row.length = q.columns.length

theorem Insert.OfRow.params_eq {q : Insert Node} {row : List Value} (h : q.OfRow row) (name : DialectName) :
    (name.dialect.compile (.mk (.insert q))).params = row := by
  have own (v : Value) : (Node.val v).bound name.dialect = [v] := Node.bound_mk _ _
  rw [name.dialect.compile_params, Node.bound_mk, Layer.bound_map _ _ (by simp), Layer.written,
    Insert.written, h.query, h.rows]
  simp [List.flatMap_map, own]

namespace Request

theorem encodeColumns_getElem?_column (r : Registry) (table : String) {vs : List Value} {cs : List String}
    {i : Nat} {v : Value} {c : String} (hv : vs[i]? = some v) (hc : cs[i]? = some c) :
    (encodeColumns r table vs cs)[i]? = some (encodeParam r table c v) := by
  induction vs generalizing cs i with
  | nil => contradiction
  | cons u vs ih =>
    cases cs with
    | nil => contradiction
    | cons d cs =>
      cases i with
      | zero =>
        obtain rfl : u = v := by simpa using hv
        obtain rfl : d = c := by simpa using hc
        rfl
      | succ i => exact ih (by simpa using hv) (by simpa using hc)

theorem prepare_ofRow {r : Registry} {q : Insert Node} {row : List Value} (h : q.OfRow row)
    (name : DialectName) (nonempty : r.isEmpty = false) :
    (prepare r (name.dialect.compile (.mk (.insert q)))).params =
      encodeColumns r q.target.qualifiedName row q.columns := by
  have params := h.params_eq name
  have columns : boundColumns? (name.dialect.compile (.mk (.insert q))) = some (q.target, q.columns) :=
    if_pos (by rw [params, h.places])
  show encodeParams r _ = _
  simp [encodeParams, nonempty, columns, params]

/-- A document that is inserted into a registered column is sent as a text, and a result that holds this
text in the column is decoded to the document. -/
theorem decode_prepare_insert (name : DialectName) (r : Registry) (q : Insert Node) (row : List Value)
    (i : Nat) (c : String) (v : Json) (hq : q.OfRow row) (hc : q.columns[i]? = some c)
    (bare : '.' ∉ c.toList) (registered : r.isJsonColumn q.target.qualifiedName c = true)
    (hv : row[i]? = some (.json v)) (composite : (Value.json v).isComposite = true) (exact : v.Exact)
    (hd : v.depth ≤ 127) :
    ∃ s, (prepare r (name.dialect.compile (.mk (.insert q)))).params[i]? = some (.string s) ∧
      ∀ result : Row, Json.Members.get? result c = some (.string s) →
        Json.Members.get? (result.decode r) c = some v ∧
          (result.decode r).map Prod.fst = result.map Prod.fst := by
  have named := Registry.mem_columnNames bare registered
  refine ⟨v.text, ?_, ?_⟩
  · rw [prepare_ofRow hq name (Registry.isEmpty_of_mem named), encodeColumns_getElem?_column r _ hv hc]
    simp [encodeParam, registered, composite]
  · intro result held
    refine ⟨?_, Row.names_decode r result⟩
    rw [Row.get?_decode, held, Option.map_some, if_pos named, Row.decoded_text exact hd]

def draft : Json :=
  .object [("b\"\\", .array [.number (.int (-9223372036854775808)), .number (.int 18446744073709551615),
    .array [], .object []]), ("a\n\x01", .string "\t/é"), ("", .null)]

def draftRow : List Value :=
  [.string "metadata", .json draft]

def rowInsert : Insert Node :=
  ((Insert.ofTable "app.users").withColumns ["name", "metadata"]).addValues draftRow

theorem decode_prepare_insert_draft :
    rowInsert.OfRow draftRow ∧ draft.Exact ∧
      ∃ s, (prepare metadataRegistry (Dialect.bigQuery.compile (.mk (.insert rowInsert)))).params[1]? =
          some (.string s) ∧
        Json.Members.get? (Row.decode metadataRegistry [("name", .string "1"), ("metadata", .string s)])
          "metadata" = some draft := by
  have numbers : ∀ j ∈ [.number (.int (-9223372036854775808)), .number (.int 18446744073709551615),
      .array [], .object []], Json.Exact j := by
    simp only [List.forall_mem_cons]
    exact ⟨.int (by decide) (by decide), .int (by decide) (by decide), .array nofun, .object .nil nofun,
      nofun⟩
  have exact : draft.Exact := by
    refine .object (by decide) ?_
    simp only [List.forall_mem_cons]
    exact ⟨.array numbers, .string _, .null, nofun⟩
  have ofRow : rowInsert.OfRow draftRow := ⟨rfl, rfl, rfl⟩
  obtain ⟨s, sent, decoded⟩ := decode_prepare_insert .bigQuery metadataRegistry rowInsert draftRow 1
    "metadata" draft ofRow rfl (by decide) (by decide) rfl rfl exact (by decide)
  exact ⟨ofRow, exact, s, sent, (decoded _ rfl).1⟩

end Request

end SqlDialect
