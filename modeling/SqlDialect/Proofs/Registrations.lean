import SqlDialect.Proofs.Documents
import SqlDialect.Registry

set_option autoImplicit false

namespace SqlDialect

namespace Text

theorem eq_of_pairwise {α : Type} {lt : α → α → Prop} (asymm : ∀ {a b}, lt a b → ¬ lt b a)
    {xs ys : List α} (hx : xs.Pairwise lt) (hy : ys.Pairwise lt) (h : ∀ a, a ∈ xs ↔ a ∈ ys) : xs = ys := by
  have once {zs : List α} (hz : zs.Pairwise lt) : zs.Nodup := by
    refine hz.imp ?_
    rintro a _ less rfl
    exact asymm less less
  have same : xs.Perm ys := (List.perm_ext_iff_of_nodup (once hx) (once hy)).mpr h
  exact same.eq_of_pairwise (fun a b _ _ less greater => absurd greater (asymm less)) hx hy

theorem sortedSet_eq_iff {ss ts : List String} : sortedSet ss = sortedSet ts ↔ ∀ s, s ∈ ss ↔ s ∈ ts := by
  constructor
  · intro h s
    rw [← mem_sortedSet, h, mem_sortedSet]
  · intro h
    refine eq_of_pairwise String.lt_asymm (sorted_sortedSet ss) (sorted_sortedSet ts) fun s => ?_
    rw [mem_sortedSet, mem_sortedSet, h]

variable {α : Type}

theorem lookup_cons_eq (e : String × α) (m : List (String × α)) (k : String) :
    (e :: m).lookup k = if k = e.1 then some e.2 else m.lookup k := by
  rw [List.lookup_cons]
  by_cases h : k = e.1
  · simp [h]
  · have other : (k == e.1) = false := beq_eq_false_iff_ne.mpr h
    simp [h, other]

theorem lookup_putSorted (key : String) (value : α) (m : List (String × α)) (k : String) :
    (putSorted key value m).lookup k = if k = key then some value else m.lookup k := by
  induction m with
  | nil => exact lookup_cons_eq (key, value) [] k
  | cons e m ih =>
    unfold putSorted
    split
    · rename_i same
      rw [lookup_cons_eq, lookup_cons_eq e, ← same]
      split <;> rfl
    · rename_i different
      split
      · exact lookup_cons_eq (key, value) (e :: m) k
      · rw [lookup_cons_eq, ih, lookup_cons_eq]
        by_cases h : k = key
        · simp [h, different]
        · simp [h]

theorem Ordered.nodup {m : List (String × α)} (h : Ordered m) : (m.map Prod.fst).Nodup := by
  refine List.pairwise_map.mpr (h.imp ?_)
  intro a b less same
  exact String.lt_irrefl b.1 (same ▸ less)

theorem mem_iff_lookup {m : List (String × α)} (h : (m.map Prod.fst).Nodup) {k : String} {v : α} :
    (k, v) ∈ m ↔ m.lookup k = some v := by
  rw [List.lookup_eq_some_iff]
  constructor
  · intro held
    obtain ⟨before, after, rfl⟩ := List.append_of_mem held
    refine ⟨before, after, rfl, fun e he => bne_iff_ne.mpr ?_⟩
    rw [List.map_append, List.map_cons] at h
    exact ((List.nodup_append.mp h).2.2 e.1 (List.mem_map_of_mem he) k List.mem_cons_self).symm
  · rintro ⟨before, after, rfl, -⟩
    simp

theorem lookup_eq_of_perm {m n : List (String × α)} (h : m.Perm n) (hn : (n.map Prod.fst).Nodup)
    (k : String) : m.lookup k = n.lookup k := by
  have hm : (m.map Prod.fst).Nodup := (h.map Prod.fst).nodup_iff.mpr hn
  refine Option.ext fun v => ?_
  rw [← mem_iff_lookup hm, ← mem_iff_lookup hn, h.mem_iff]

theorem eq_of_lookup_eq {m n : List (String × α)} (hm : Ordered m) (hn : Ordered n)
    (h : ∀ k, m.lookup k = n.lookup k) : m = n := by
  refine eq_of_pairwise String.lt_asymm hm hn fun e => ?_
  rw [mem_iff_lookup hm.nodup, mem_iff_lookup hn.nodup, h]

theorem cutLast_append {sep : Char} {after : List Char} (h : sep ∉ after) (before : List Char) :
    cutLast sep (before ++ sep :: after) = some (before, after) := by
  induction before with
  | nil => simp [cutLast, cutLast_of_not_mem h]
  | cons c before ih => simp [cutLast, ih]

theorem not_mem_of_cutLast {sep : Char} {cs : List Char} (h : cutLast sep cs = none) : sep ∉ cs := by
  induction cs with
  | nil => exact List.not_mem_nil
  | cons c cs ih =>
    rw [cutLast] at h
    split at h
    · contradiction
    · rename_i none
      have other : c ≠ sep := fun e => by simp [e] at h
      exact fun m => (List.mem_cons.mp m).elim (fun e => other e.symm) (ih none)

theorem cutLast_eq {sep : Char} {cs before after : List Char} (h : cutLast sep cs = some (before, after)) :
    cs = before ++ sep :: after ∧ sep ∉ after := by
  induction cs generalizing before with
  | nil => contradiction
  | cons c cs ih =>
    rw [cutLast] at h
    split at h
    · rename_i p found
      cases h
      obtain ⟨rfl, last⟩ := ih found
      exact ⟨rfl, last⟩
    · rename_i none
      simp only [Option.ite_none_right_eq_some, Option.some.injEq, Prod.mk.injEq] at h
      obtain ⟨rfl, rfl, rfl⟩ := h
      exact ⟨rfl, not_mem_of_cutLast none⟩

end Text

namespace Registry

/-- `bare` is what follows the last dot of a column, all of it if there is none. -/
def IsBare (column bare : String) : Prop :=
  '.' ∉ bare.toList ∧ (column = bare ∨ ∃ qualifier, column = qualifier ++ "." ++ bare)

theorem isBare_iff {column bare : String} : IsBare column bare ↔ bareName column = bare := by
  constructor
  · rintro ⟨last, rfl | ⟨qualifier, rfl⟩⟩
    · rw [bareName, Text.cutLast_of_not_mem last]
    · have cut : Text.cutLast '.' (qualifier ++ "." ++ bare).toList = some (qualifier.toList, bare.toList) := by
        simpa using Text.cutLast_append last qualifier.toList
      rw [bareName, cut]
      exact String.ofList_toList
  · rintro rfl
    unfold bareName
    split
    · rename_i before bare found
      obtain ⟨whole, last⟩ := Text.cutLast_eq found
      refine ⟨by simpa using last, .inr ⟨String.ofList before, ?_⟩⟩
      rw [← String.toList_inj]
      simpa using whole
    · rename_i none
      exact ⟨Text.not_mem_of_cutLast none, .inl rfl⟩

/-- The columns of the last call for a table. -/
def lastCall? (calls : List (String × List String)) (table : String) : Option (List String) :=
  calls.reverse.lookup table

theorem lookup_register (r : Registry) (table : String) (columns : List String) (t : String) :
    (r.register table columns).tables.lookup t =
      if t = table then some (Text.sortedSet columns) else r.tables.lookup t :=
  Text.lookup_putSorted table _ r.tables t

theorem lookup_registerAll (r : Registry) (calls : List (String × List String)) (t : String) :
    (r.registerAll calls).tables.lookup t =
      ((lastCall? calls t).map Text.sortedSet).or (r.tables.lookup t) := by
  induction calls generalizing r with
  | nil => rfl
  | cons call calls ih =>
    have run : r.registerAll (call :: calls) = (r.register call.1 call.2).registerAll calls := rfl
    rw [run, ih, lookup_register, lastCall?, lastCall?, List.reverse_cons, List.lookup_append,
      Text.lookup_cons_eq]
    cases calls.reverse.lookup t with
    | some columns => rfl
    | none => split <;> rfl

theorem lookup_run (calls : List (String × List String)) (t : String) :
    (empty.registerAll calls).tables.lookup t = (lastCall? calls t).map Text.sortedSet :=
  (lookup_registerAll empty calls t).trans Option.or_none

theorem eq_of_lookup {r s : Registry} (h : ∀ t, r.tables.lookup t = s.tables.lookup t) : r = s := by
  obtain ⟨tables, names, ordered, rfl⟩ := r
  obtain ⟨tables', names', ordered', rfl⟩ := s
  obtain rfl : tables = tables' := Text.eq_of_lookup_eq ordered ordered' h
  rfl

theorem mem_columnNames_iff {r : Registry} {c : String} :
    c ∈ r.columnNames ↔ ∃ t columns, r.tables.lookup t = some columns ∧ c ∈ columns := by
  rw [r.columnNames_eq, Text.mem_sortedSet, List.mem_flatMap]
  constructor
  · rintro ⟨⟨t, columns⟩, held, hc⟩
    exact ⟨t, columns, (Text.mem_iff_lookup r.ordered.nodup).mp held, hc⟩
  · rintro ⟨t, columns, found, hc⟩
    exact ⟨(t, columns), (Text.mem_iff_lookup r.ordered.nodup).mpr found, hc⟩

theorem isJsonColumn_iff {r : Registry} {t c : String} :
    r.isJsonColumn t c = true ↔ ∃ columns, r.tables.lookup t = some columns ∧ bareName c ∈ columns := by
  unfold isJsonColumn
  cases r.tables.lookup t <;> simp

theorem lookup_run_mem {calls : List (String × List String)} {t c : String} :
    (∃ columns, (empty.registerAll calls).tables.lookup t = some columns ∧ c ∈ columns) ↔
      ∃ columns, lastCall? calls t = some columns ∧ c ∈ columns := by
  rw [lookup_run]
  cases lastCall? calls t <;> simp [Text.mem_sortedSet]

/-- The registry tells what the last call for each table has listed. -/
structure Tells (r : Registry) (calls : List (String × List String)) : Prop where
  names : ∀ c, c ∈ r.columnNames ↔ ∃ t columns, lastCall? calls t = some columns ∧ c ∈ columns
  sorted : r.columnNames.Pairwise (· < ·)
  columns : ∀ t c, r.isJsonColumn t c = true ↔
    ∃ bare columns, IsBare c bare ∧ lastCall? calls t = some columns ∧ bare ∈ columns
  empty : r.isEmpty = true ↔ r.columnNames = []
  decoded : ∀ t c, r.isJsonColumn t c = true → ∃ bare, IsBare c bare ∧ bare ∈ r.columnNames

theorem tells_run (calls : List (String × List String)) : (empty.registerAll calls).Tells calls where
  names c := by
    rw [mem_columnNames_iff]
    exact exists_congr fun t => lookup_run_mem
  sorted := by
    rw [columnNames_eq]
    exact Text.sorted_sortedSet _
  columns t c := by
    rw [isJsonColumn_iff, lookup_run_mem]
    constructor
    · rintro ⟨columns, last, hc⟩
      exact ⟨bareName c, columns, isBare_iff.mpr rfl, last, hc⟩
    · rintro ⟨bare, columns, hbare, last, hc⟩
      exact ⟨columns, last, isBare_iff.mp hbare ▸ hc⟩
  empty := List.isEmpty_iff
  decoded t c h := by
    obtain ⟨columns, found, hc⟩ := isJsonColumn_iff.mp h
    exact ⟨bareName c, isBare_iff.mpr rfl, mem_columnNames_iff.mpr ⟨t, columns, found, hc⟩⟩

def SameColumns (calls others : List (String × List String)) : Prop :=
  ∀ t, Option.Rel (fun cs ds => ∀ c, c ∈ cs ↔ c ∈ ds) (lastCall? calls t) (lastCall? others t)

theorem run_eq_iff {calls others : List (String × List String)} :
    empty.registerAll calls = empty.registerAll others ↔ SameColumns calls others := by
  have kept (cs ds : Option (List String)) : cs.map Text.sortedSet = ds.map Text.sortedSet ↔
      Option.Rel (fun cs ds => ∀ c, c ∈ cs ↔ c ∈ ds) cs ds := by
    cases cs <;> cases ds <;> simp [Text.sortedSet_eq_iff, Option.rel_some_some]
  constructor
  · intro same t
    rw [← kept, ← lookup_run, ← lookup_run, same]
  · intro same
    refine eq_of_lookup fun t => ?_
    rw [lookup_run, lookup_run, kept]
    exact same t

end Registry

theorem Config.registry_eq_of_perm (config : Config) {entries : List (String × List String)}
    (h : entries.Perm config.jsonColumns) : config.registry = Registry.empty.registerAll entries := by
  refine Registry.eq_of_lookup fun t => ?_
  have last {calls : List (String × List String)} (hc : calls.Perm config.jsonColumns) :
      Registry.lastCall? calls t = config.jsonColumns.lookup t :=
    Text.lookup_eq_of_perm (calls.reverse_perm.trans hc) config.ordered.nodup t
  rw [Config.registry, Registry.lookup_run, Registry.lookup_run, last (.refl _), last h]

namespace Registry

/-- After every run of calls the registry tells the columns of the last call for each table. It is the same
as after any other run with these last columns, and no others, and as the registry of a configuration whose
entries the calls are in some order. -/
theorem run_told (calls : List (String × List String)) :
    let r := empty.registerAll calls
    r.Tells calls ∧ (∀ others, empty.registerAll others = r ↔ SameColumns others calls) ∧
      ∀ config : Config, calls.Perm config.jsonColumns → config.registry = r :=
  ⟨tells_run calls, fun _ => run_eq_iff, fun config h => config.registry_eq_of_perm h⟩

def sharedConfig : Config :=
  ({} : Config).withTables [("b.t", ["y", "x", "y"]), ("a.t", ["z", "x"])]

theorem run_told_sharedConfig :
    let calls := [("b.t", ["y", "x", "y"]), ("a.t", ["z", "x"])]
    let r := empty.registerAll calls
    calls.Perm sharedConfig.jsonColumns ∧ sharedConfig.registry = r ∧ r.isJsonColumn "b.t" "u.x" = true ∧
      (∃ bare, IsBare "u.x" bare ∧ bare ∈ r.columnNames) ∧ r.columnNames = ["x", "y", "z"] := by
  intro calls r
  have entries : calls.Perm sharedConfig.jsonColumns := .swap _ _ _
  obtain ⟨tells, -, config⟩ := run_told calls
  exact ⟨entries, config sharedConfig entries, by decide, tells.decoded "b.t" "u.x" (by decide), by decide⟩

end Registry

end SqlDialect
