import SqlDialect.Proofs.Boundaries
import SqlDialect.Proofs.Delegation
import SqlDialect.Proofs.Registrations

set_option autoImplicit false

namespace SqlDialect

open Scan (escapeWith)

def pathTail : List (List Char) → List Char
  | [] => []
  | name :: rest => '.' :: '\x60' :: (escapeWith '\x60' name ++ '\x60' :: pathTail rest)

theorem escapeWith_of_not_mem {q : Char} {cs : List Char} (h : q ∉ cs) : escapeWith q cs = cs := by
  induction cs with
  | nil => rfl
  | cons c cs ih =>
    simp only [List.mem_cons, not_or] at h
    simp [Scan.escapeWith_cons, Ne.symm h.1, ih h.2]

theorem eq_nil_of_escapeWith {name t u : List Char}
    (h : '\x60' :: u = escapeWith '\x60' name ++ '\x60' :: t) : name = [] ∧ u = t := by
  cases name with
  | nil => exact ⟨rfl, (List.cons.inj h).2⟩
  | cons c name =>
    rw [Scan.escapeWith_cons] at h
    split at h
    · simp at h
    · rename_i hc
      simp only [List.cons_append, List.nil_append, List.cons.injEq] at h
      exact absurd h.1.symm hc

theorem eq_dot_of_escapeWith {name t u : List Char}
    (h : '.' :: '\x60' :: u = escapeWith '\x60' name ++ '\x60' :: t) : name = ['.'] ∧ u = t := by
  cases name with
  | nil => simp [escapeWith] at h
  | cons c name =>
    rw [Scan.escapeWith_cons] at h
    split at h
    · simp at h
    · simp only [List.cons_append, List.nil_append, List.cons.injEq] at h
      obtain ⟨rfl, h⟩ := h
      obtain ⟨rfl, rfl⟩ := eq_nil_of_escapeWith h
      exact ⟨rfl, rfl⟩

/-- A name without quotes ends at the first quote. Another name may be written the same way up to there only
if it goes on behind that quote. -/
theorem escapeWith_cases {name other t u : List Char} (h : '\x60' ∉ name)
    (same : name ++ '\x60' :: u = escapeWith '\x60' other ++ '\x60' :: t) :
    (name = other ∧ u = t) ∨ ∃ more, u = escapeWith '\x60' more ++ '\x60' :: t := by
  induction name generalizing other with
  | nil =>
    obtain ⟨rfl, rfl⟩ := eq_nil_of_escapeWith same
    exact .inl ⟨rfl, rfl⟩
  | cons a name ih =>
    simp only [List.mem_cons, not_or] at h
    cases other with
    | nil =>
      simp only [escapeWith, List.flatMap_nil, List.nil_append, List.cons_append, List.cons.injEq] at same
      exact absurd same.1.symm h.1
    | cons c other =>
      rw [Scan.escapeWith_cons] at same
      split at same
      · simp only [List.cons_append, List.nil_append, List.cons.injEq] at same
        cases name with
        | nil => exact .inr ⟨other, by simpa using same.2⟩
        | cons b name =>
          simp only [List.mem_cons, not_or] at h
          simp only [List.cons_append, List.cons.injEq] at same
          exact absurd same.2.1.symm h.2.1
      · simp only [List.cons_append, List.nil_append, List.cons.injEq] at same
        obtain ⟨rfl, same⟩ := same
        refine (ih h.2 same).imp (fun e => ?_) id
        exact ⟨by rw [e.1], e.2⟩

/-- A reader that takes a closing quote for an escaped one never finds back: from then on it reads the
dots between the parts as names, and finds an odd number of quotes. -/
theorem pathTail_ne {names : List (List Char)} (h : ∀ name ∈ names, '\x60' ∉ name)
    (more : List Char) (others : List (List Char)) :
    pathTail names ≠ escapeWith '\x60' more ++ '\x60' :: pathTail others := by
  induction names generalizing more others with
  | nil => simp [pathTail]
  | cons name names ih =>
    obtain ⟨first, rest⟩ := List.forall_mem_cons.mp h
    intro same
    obtain ⟨_, next⟩ := eq_dot_of_escapeWith same
    rw [escapeWith_of_not_mem first] at next
    cases others with
    | nil => simp [pathTail] at next
    | cons other others =>
      obtain ⟨rfl, again⟩ : name = ['.'] ∧
          pathTail names = escapeWith '\x60' other ++ '\x60' :: pathTail others := by
        cases name with
        | nil => simp [pathTail] at next
        | cons c name =>
          simp only [pathTail, List.cons_append, List.cons.injEq] at next
          obtain ⟨rfl, next⟩ := next
          cases name with
          | nil => exact ⟨rfl, by simpa using next⟩
          | cons b name =>
            simp only [List.mem_cons, not_or] at first
            simp only [List.cons_append, List.cons.injEq] at next
            exact absurd next.1.symm first.2.1
      exact ih rest _ _ again

theorem pathTail_injective {names others : List (List Char)} (h : ∀ name ∈ names, '\x60' ∉ name)
    (same : pathTail names = pathTail others) : names = others := by
  induction names generalizing others with
  | nil =>
    cases others with
    | nil => rfl
    | cons other others => simp [pathTail] at same
  | cons name names ih =>
    obtain ⟨first, rest⟩ := List.forall_mem_cons.mp h
    cases others with
    | nil => simp [pathTail] at same
    | cons other others =>
      simp only [pathTail, List.cons.injEq, true_and, escapeWith_of_not_mem first] at same
      obtain ⟨rfl, tails⟩ | ⟨more, tails⟩ := escapeWith_cases first same
      · rw [ih rest tails]
      · exact absurd tails (pathTail_ne rest more others)

def Dialect.path (names : List String) : String :=
  Text.join "." (names.map bigQuery.quote)

theorem Dialect.toList_quote (name : String) :
    (bigQuery.quote name).toList = '\x60' :: escapeWith '\x60' name.toList ++ ['\x60'] :=
  Scan.toList_quoteEscaped _ name

theorem Dialect.toList_path {names : List String} (h : names ≠ []) :
    '.' :: (path names).toList = pathTail (names.map String.toList) := by
  induction names with
  | nil => contradiction
  | cons name names ih =>
    cases names with
    | nil => simp [path, Text.join, pathTail, toList_quote]
    | cons next names =>
      have rest := ih (List.cons_ne_nil _ _)
      simp only [path, List.map_cons] at rest
      simp [path, Text.join, pathTail, toList_quote, rest]

theorem Dialect.path_injective {names others : List String} (h : ∀ name ∈ names, '\x60' ∉ name.toList)
    (hne : names ≠ []) (same : path names = path others) : names = others := by
  have hothers : others ≠ [] := by
    rintro rfl
    have text := toList_path hne
    rw [same] at text
    obtain ⟨name, rest, rfl⟩ := List.exists_cons_of_ne_nil hne
    simp [path, Text.join, pathTail] at text
  have tails : pathTail (names.map String.toList) = pathTail (others.map String.toList) := by
    rw [← toList_path hne, ← toList_path hothers, same]
  have free : ∀ name ∈ names.map String.toList, '\x60' ∉ name := by simpa using h
  exact (List.map_inj_right fun _ _ => String.toList_inj.mp).mp (pathTail_injective free tails)

theorem Text.subset_join {name : String} {names : List String} (h : name ∈ names) :
    name.toList ⊆ (Text.join "." names).toList := by
  induction names with
  | nil => contradiction
  | cons first names ih =>
    cases names with
    | nil =>
      rw [List.mem_singleton.mp h]
      exact List.Subset.refl _
    | cons next names =>
      intro c hc
      simp only [Text.join, String.toList_append, List.mem_append]
      obtain rfl | h := List.mem_cons.mp h
      · exact .inl (.inl hc)
      · exact .inr (ih h hc)

theorem Dialect.filter_path {names : List String} (h : ∀ name ∈ names, '\x60' ∉ name.toList) :
    (path names).toList.filter (· != '\x60') = (Text.join "." names).toList := by
  induction names with
  | nil => rfl
  | cons name names ih =>
    obtain ⟨first, rest⟩ := List.forall_mem_cons.mp h
    have quoted : (bigQuery.quote name).toList.filter (· != '\x60') = name.toList := by
      have kept : name.toList.filter (· != '\x60') = name.toList := by
        refine List.filter_eq_self.mpr fun c hc => ?_
        exact bne_iff_ne.mpr fun e => first (e ▸ hc)
      rw [toList_quote, escapeWith_of_not_mem first]
      simp [kept]
    cases names with
    | nil => simpa [path, Text.join] using quoted
    | cons next names =>
      have tail := ih rest
      simp only [path, List.map_cons] at tail
      simp [path, Text.join, quoted, tail]

namespace Table

def parts (t : Table) : List String :=
  match t.schema.map Qualifier.ofSchema with
  | some (.projectDataset project dataset) => [project, dataset, t.name]
  | _ => t.schema.toList ++ [t.name]

theorem sql_eq_path (t : Table) : (Dialect.bigQuery.compile (.mk (.table t))).sql = Dialect.path t.parts := by
  apply String.toList_injective
  rw [Dialect.toList_compile_table]
  obtain ⟨schema, name⟩ := t
  have whole : (Dialect.bigQuery.plainTable ⟨schema, name⟩).flatMap Piece.chars =
      (Dialect.path (schema.toList ++ [name])).toList := by
    cases schema <;> simp [Dialect.plainTable, Dialect.identifier, Dialect.path, Text.join, Piece.chars]
  have qualified : Dialect.bigQuery.qualifier = Qualifier.ofSchema := rfl
  simp only [Dialect.table, parts, qualified]
  cases schema.map Qualifier.ofSchema with
  | none => exact whole
  | some q =>
    cases q with
    | plain => exact whole
    | projectDataset project dataset => simp [Dialect.identifier, Dialect.path, Text.join, Piece.chars]
    | ambiguous => simpa [Piece.chars] using whole

theorem join_parts (t : Table) : Text.join "." t.parts = t.qualifiedName := by
  obtain ⟨schema, name⟩ := t
  cases schema with
  | none => rfl
  | some schema =>
    cases h : Qualifier.ofSchema schema with
    | plain => simp [parts, h, Text.join, qualifiedName]
    | ambiguous => simp [parts, h, Text.join, qualifiedName]
    | projectDataset project dataset =>
      have joined := (Qualifier.ofSchema_eq_projectDataset_iff.mp h).joined
      have written : parts ⟨some schema, name⟩ = [project, dataset, name] := by simp [parts, h]
      rw [written, joined]
      simp [Text.join, qualifiedName, String.append_assoc]

theorem parse_of_bare {q : String} (h : '.' ∉ q.toList) : parse q = ⟨none, q⟩ := by
  rw [parse, Text.cutLast_of_not_mem h]

theorem parse_append {schema name : String} (h : '.' ∉ name.toList) :
    parse (schema ++ "." ++ name) = ⟨some schema, name⟩ := by
  have cut := Text.cutLast_append h schema.toList
  rw [parse, show (schema ++ "." ++ name).toList = schema.toList ++ '.' :: name.toList by simp, cut]
  simp

theorem exists_last_dot {q : String} (h : '.' ∈ q.toList) :
    ∃ schema name, q = schema ++ "." ++ name ∧ '.' ∉ name.toList := by
  cases cut : Text.cutLast '.' q.toList with
  | none => exact absurd h (Text.not_mem_of_cutLast cut)
  | some p =>
    obtain ⟨whole, last⟩ := Text.cutLast_eq cut
    refine ⟨String.ofList p.1, String.ofList p.2, ?_, by simpa using last⟩
    apply String.toList_injective
    simpa using whole

theorem qualifiedName_parse (q : String) : (parse q).qualifiedName = q := by
  by_cases h : '.' ∈ q.toList
  · obtain ⟨schema, name, rfl, last⟩ := exists_last_dot h
    rw [parse_append last]
    rfl
  · rw [parse_of_bare h]
    rfl

theorem not_mem_parts {q : String} {c : Char} (h : c ∉ q.toList) : ∀ name ∈ (parse q).parts, c ∉ name.toList := by
  intro name part mem
  have inside := Text.subset_join part mem
  rw [join_parts, qualifiedName_parse] at inside
  exact h inside

/-- Two dots, and no empty part before either of them. -/
structure IsThreePart (q : String) : Prop where
  dots : q.toList.count '.' = 2
  filled : ∀ before after, q.toList = before ++ '.' :: after → ∃ part c, before = part ++ [c] ∧ c ≠ '.'

theorem cut_cases {part before after rest : List Char} (h : '.' ∉ part)
    (same : part ++ '.' :: rest = before ++ '.' :: after) :
    (before = part ∧ rest = after) ∨ ∃ more, before = part ++ '.' :: more ∧ rest = more ++ '.' :: after := by
  induction part generalizing before with
  | nil =>
    cases before with
    | nil => exact .inl ⟨rfl, by simpa using same⟩
    | cons c before =>
      simp only [List.nil_append, List.cons_append, List.cons.injEq] at same
      exact .inr ⟨before, by rw [same.1]; rfl, same.2⟩
  | cons a part ih =>
    simp only [List.mem_cons, not_or] at h
    cases before with
    | nil =>
      simp only [List.nil_append, List.cons_append, List.cons.injEq] at same
      exact absurd same.1.symm h.1
    | cons c before =>
      simp only [List.cons_append, List.cons.injEq] at same
      obtain ⟨rfl, same⟩ := same
      obtain ⟨rfl, rfl⟩ | ⟨more, rfl, rfl⟩ := ih h.2 same
      · exact .inl ⟨rfl, rfl⟩
      · exact .inr ⟨more, rfl, rfl⟩

theorem exists_concat {part : List Char} (h : part ≠ []) (free : '.' ∉ part) :
    ∃ rest c, part = rest ++ [c] ∧ c ≠ '.' := by
  refine ⟨part.dropLast, part.getLast h, (List.dropLast_concat_getLast h).symm, fun e => free ?_⟩
  exact e ▸ List.getLast_mem h

theorem isThreePart_iff {schema name : String} (last : '.' ∉ name.toList) :
    IsThreePart (schema ++ "." ++ name) ↔ ∃ project dataset, Qualifier.Splits schema project dataset := by
  have text : (schema ++ "." ++ name).toList = schema.toList ++ '.' :: name.toList := by simp
  constructor
  · intro h
    have one : schema.toList.count '.' = 1 := by
      have two := h.dots
      rw [text] at two
      simp [List.count_eq_zero.mpr last] at two
      omega
    obtain ⟨project, dataset, cut, free⟩ :=
      List.eq_append_cons_of_mem (List.count_pos_iff.mp (show 0 < schema.toList.count '.' by omega))
    have rest : '.' ∉ dataset := by
      rw [cut] at one
      simp [List.count_eq_zero.mpr free] at one
      exact List.count_eq_zero.mp one
    refine ⟨String.ofList project, String.ofList dataset, ?_, ?_, ?_, ?_, ?_⟩
    · apply String.toList_injective
      simpa using cut
    · obtain ⟨part, c, whole, _⟩ := h.filled project (dataset ++ '.' :: name.toList) (by simp [cut])
      simp [whole]
    · obtain ⟨part, c, whole, other⟩ := h.filled (project ++ '.' :: dataset) name.toList (by simp [cut])
      intro empty
      have empty : dataset = [] := by simpa using empty
      rw [empty] at whole
      have same : '.' = c := by simpa using congrArg List.getLast? whole
      exact other same.symm
    · simpa using free
    · simpa using rest
  · rintro ⟨project, dataset, rfl, project_ne, dataset_ne, project_dot, dataset_dot⟩
    have parts : (project ++ "." ++ dataset ++ "." ++ name).toList =
        project.toList ++ '.' :: (dataset.toList ++ '.' :: name.toList) := by simp
    constructor
    · simp [parts, List.count_eq_zero.mpr last, List.count_eq_zero.mpr project_dot,
        List.count_eq_zero.mpr dataset_dot]
    · intro before after cut
      rw [parts] at cut
      obtain ⟨rfl, _⟩ | ⟨more, rfl, next⟩ := cut_cases project_dot cut
      · exact exists_concat (by simpa using project_ne) project_dot
      · obtain ⟨rfl, _⟩ | ⟨more, _, third⟩ := cut_cases dataset_dot next
        · obtain ⟨rest, c, whole, other⟩ := exists_concat (by simpa using dataset_ne) dataset_dot
          exact ⟨project.toList ++ '.' :: rest, c, by simp [whole], other⟩
        · exact absurd (by simp [third]) last

theorem length_parts_parse (q : String) :
    (IsThreePart q ∧ '.' ∈ q.toList ∧ (parse q).parts.length = 3) ∨
      (¬ IsThreePart q ∧ '.' ∈ q.toList ∧ (parse q).parts.length = 2) ∨
      (¬ IsThreePart q ∧ '.' ∉ q.toList ∧ (parse q).parts.length = 1) := by
  by_cases dot : '.' ∈ q.toList
  · obtain ⟨schema, name, rfl, last⟩ := exists_last_dot dot
    rw [parse_append last, isThreePart_iff last]
    simp only [← Qualifier.ofSchema_eq_projectDataset_iff]
    cases h : Qualifier.ofSchema schema with
    | plain => exact .inr (.inl ⟨by simp, dot, by simp [parts, h]⟩)
    | ambiguous => exact .inr (.inl ⟨by simp, dot, by simp [parts, h]⟩)
    | projectDataset project dataset =>
      exact .inl ⟨⟨project, dataset, rfl⟩, dot, by simp [parts, h]⟩
  · refine .inr (.inr ⟨fun h => ?_, dot, by rw [parse_of_bare dot]; rfl⟩)
    have two := h.dots
    rw [List.count_eq_zero.mpr dot] at two
    contradiction

/-- A text of `k` quoted identifiers with dots between them. -/
def IsPath (k : Nat) (text : String) : Prop :=
  ∃ names : List String, names.length = k ∧ text = Dialect.path names

theorem isPath_iff {q : String} (h : '\x60' ∉ q.toList) (k : Nat) :
    IsPath k (Dialect.bigQuery.compile (.table q)).sql ↔ (parse q).parts.length = k := by
  have some_part : (parse q).parts ≠ [] := by
    intro none
    have lengths := length_parts_parse q
    simp [none] at lengths
  constructor
  · rintro ⟨names, rfl, same⟩
    rw [Node.table, sql_eq_path] at same
    rw [Dialect.path_injective (not_mem_parts h) some_part same]
  · rintro rfl
    exact ⟨_, rfl, sql_eq_path _⟩

/-- A dotted name is kept when it is read as a table and when the table is written; the number of its quoted
parts is told by its dots. -/
theorem parse_survives (q : String) :
    (parse q).qualifiedName = q ∧
      ('\x60' ∉ q.toList →
        let sql := (Dialect.bigQuery.compile (.table q)).sql
        sql.toList.filter (· != '\x60') = q.toList ∧
          (IsPath 3 sql ↔ IsThreePart q) ∧
          (IsPath 2 sql ↔ ¬ IsThreePart q ∧ '.' ∈ q.toList) ∧
          (IsPath 1 sql ↔ '.' ∉ q.toList)) := by
  refine ⟨qualifiedName_parse q, fun h => ⟨?_, ?_⟩⟩
  · rw [Node.table, sql_eq_path, Dialect.filter_path (not_mem_parts h), join_parts, qualifiedName_parse]
  · simp only [isPath_iff h]
    obtain ⟨three, dot, length⟩ | ⟨three, dot, length⟩ | ⟨three, dot, length⟩ := length_parts_parse q <;>
      simp [three, dot, length]

/-- Two dots with nothing between them, after a backslash. -/
theorem parse_survives_emptyDataset :
    '\x60' ∉ "shop\\..orders".toList ∧ (parse "shop\\..orders").qualifiedName = "shop\\..orders" ∧
      IsPath 2 (Dialect.bigQuery.compile (.table "shop\\..orders")).sql := by
  have free : '\x60' ∉ "shop\\..orders".toList := by decide
  have two : ¬ IsThreePart "shop\\..orders" := by
    intro h
    obtain ⟨part, c, whole, other⟩ := h.filled "shop\\.".toList "orders".toList rfl
    have same : '.' = c := by simpa using congrArg List.getLast? whole
    exact other same.symm
  obtain ⟨read, written⟩ := parse_survives "shop\\..orders"
  exact ⟨free, read, (written free).2.2.1.mpr ⟨two, by decide⟩⟩

end Table

end SqlDialect
