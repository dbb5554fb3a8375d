import Mathlib.Data.List.Perm.Basic
import SqlDialect.Proofs.Delegation

/-!
Rewrites of trees. What BigQuery's dialect does to calls and to updates and deletions without a condition may
as well be done to the tree, at every depth and once for all. The dialects bind the same parameters, but for
the exchange of the first two arguments of a call.
-/
set_option autoImplicit false

namespace SqlDialect

variable {α β : Type}

theorem Selection.map_id (s : Selection α) : s.map id = s := by
  cases s <;> rfl

theorem Layer.map_id (l : Layer α) : l.map id = l := by
  have selection : (fun s : Selection α => s.map id) = id := funext Selection.map_id
  cases l <;>
    simp [Layer.map, Select.map, Insert.map, Update.map, Delete.map, CreateTable.map, Raw.map, Column.map,
      Join.map, SetOperation.map, SortKey.map, Assignment.map, selection]

/-- The tree with each layer rewritten, the parts before the whole. -/
def Node.rewrite (r : Layer Node → Layer Node) (n : Node) : Node :=
  n.fold fun l => .mk (r l)

theorem Node.rewrite_mk (r : Layer Node → Layer Node) (l : Layer Node) :
    (Node.mk l).rewrite r = .mk (r (l.map (Node.rewrite r))) :=
  Node.fold_mk _ l

/-- A tree in which no layer has anything to rewrite stays as it is. -/
theorem Node.rewrite_eq_self {r : Layer Node → Layer Node} {settled : Layer Unit → Prop} {n : Node}
    (h : ∀ l ∈ n.layers, settled l) (hr : ∀ l, settled (l.map fun _ => ()) → r l = l) :
    n.rewrite r = n := by
  induction n using Node.induct with
  | layer l ih =>
    rw [Node.layers_mk, List.forall_mem_cons, List.forall_mem_flatMap] at h
    have parts : l.map (Node.rewrite r) = l.map id := Layer.map_congr fun p hp => ih p hp (h.2 p hp)
    rw [Node.rewrite_mk, parts, Layer.map_id, hr l h.1]

def exchange : List α → List α
  | a :: b :: rest => b :: a :: rest
  | few => few

theorem exchange_map (g : α → β) : ∀ xs : List α, exchange (xs.map g) = (exchange xs).map g
  | [] => rfl
  | [_] => rfl
  | _ :: _ :: _ => rfl

theorem exchange_perm : ∀ xs : List α, (exchange xs).Perm xs
  | [] => .refl _
  | [_] => .refl _
  | a :: b :: rest => .swap a b rest

theorem exchange_of_short {xs : List α} (h : xs.length < 2) : exchange xs = xs := by
  match xs, h with
  | [], _ => rfl
  | [_], _ => rfl

def nativeCall (name : String) (arguments : List α) : String × List α :=
  if Text.sameFolded name "LENGTH" then ("CHAR_LENGTH", arguments)
  else if Text.sameFolded name "NOW" then ("CURRENT_TIMESTAMP", arguments)
  else if Text.sameFolded name "DATE_FORMAT" then ("FORMAT_TIMESTAMP", exchange arguments)
  else (name, arguments)

/-- The layer as BigQuery spells it, `always` being the condition of what has none. -/
def Layer.native (always : α) : Layer α → Layer α
  | .call name arguments => .call (nativeCall name arguments).1 (nativeCall name arguments).2
  | .update q => .update { q with filter := q.filter <|> some always }
  | .delete q => .delete { q with filter := q.filter <|> some always }
  | l => l

def Node.native : Node → Node :=
  Node.rewrite (Layer.native (.rawSql "true"))

def isNativeName (name : String) : Bool :=
  Text.lower name ∉ respelledCalls

/-- Whether a layer, its parts aside, is one that BigQuery writes as it stands. -/
def Layer.isNative : Layer α → Bool
  | .call name _ => isNativeName name
  | .update q => q.filter.isSome
  | .delete q => q.filter.isSome
  | _ => true

theorem lower_length : Text.lower "LENGTH" = "length" := by decide

theorem lower_now : Text.lower "NOW" = "now" := by decide

theorem lower_dateFormat : Text.lower "DATE_FORMAT" = "date_format" := by decide

theorem CallRule.apply_ofName (name : String) (arguments : List α) :
    (CallRule.ofName name).apply name arguments = nativeCall name arguments := by
  simp only [nativeCall, Text.sameFolded, lower_length, lower_now, lower_dateFormat, beq_iff_eq]
  unfold CallRule.ofName
  split
  case h_1 same => rw [if_pos same]; rfl
  case h_2 same => rw [same, if_neg (by decide), if_pos rfl]; rfl
  case h_3 same =>
    rw [same, if_neg (by decide), if_neg (by decide), if_pos rfl]
    cases arguments with
    | nil => rfl
    | cons a arguments => cases arguments <;> rfl
  case h_4 length now dateFormat => rw [if_neg length, if_neg now, if_neg dateFormat]; rfl

theorem isNativeName_nativeCall (name : String) (arguments : List α) :
    isNativeName (nativeCall name arguments).1 = true := by
  unfold nativeCall
  split
  · exact (by decide : isNativeName "CHAR_LENGTH" = true)
  split
  · exact (by decide : isNativeName "CURRENT_TIMESTAMP" = true)
  split
  · exact (by decide : isNativeName "FORMAT_TIMESTAMP" = true)
  simp_all [isNativeName, respelledCalls, Text.sameFolded, lower_length, lower_now, lower_dateFormat]

theorem nativeCall_of_isNativeName {name : String} (h : isNativeName name = true) (arguments : List α) :
    nativeCall name arguments = (name, arguments) := by
  simp only [isNativeName, respelledCalls, decide_eq_true_eq, List.mem_cons, List.not_mem_nil, or_false,
    not_or] at h
  simp [nativeCall, Text.sameFolded, lower_length, lower_now, lower_dateFormat, h]

theorem nativeCall_map (g : α → β) (name : String) (arguments : List α) :
    nativeCall name (arguments.map g) =
      ((nativeCall name arguments).1, (nativeCall name arguments).2.map g) := by
  rw [← CallRule.apply_ofName, ← CallRule.apply_ofName, CallRule.apply_map]

/-- Only one name moves its arguments. -/
theorem nativeCall_snd (name : String) (arguments : List α) :
    (nativeCall name arguments).2 =
      if Text.sameFolded name "DATE_FORMAT" then exchange arguments else arguments := by
  simp only [nativeCall, Text.sameFolded, lower_length, lower_now, lower_dateFormat, beq_iff_eq]
  split
  next same => rw [same, if_neg (by decide)]
  next =>
    split
    next same => rw [same, if_neg (by decide)]
    next => split <;> rfl

theorem nativeCall_perm (name : String) (arguments : List α) :
    (nativeCall name arguments).2.Perm arguments := by
  rw [nativeCall_snd]
  split
  · exact exchange_perm arguments
  · exact .refl _

namespace Layer

theorem map_native (g : α → β) (always : α) (l : Layer α) :
    (l.native always).map g = (l.map g).native (g always) := by
  cases l with
  | call name arguments => simp [native, Layer.map, nativeCall_map]
  | update q => cases h : q.filter <;> simp [native, Layer.map, Update.map, h]
  | delete q => cases h : q.filter <;> simp [native, Layer.map, Delete.map, h]
  | _ => rfl

theorem isNative_map (g : α → β) (l : Layer α) : (l.map g).isNative = l.isNative := by
  cases l <;> simp [isNative, Layer.map, Update.map, Delete.map]

theorem isNative_native (always : α) (l : Layer α) : (l.native always).isNative = true := by
  cases l with
  | call name arguments => exact isNativeName_nativeCall name arguments
  | update q => cases h : q.filter <;> simp [native, isNative, h]
  | delete q => cases h : q.filter <;> simp [native, isNative, h]
  | _ => rfl

theorem native_of_isNative {l : Layer α} (h : l.isNative = true) (always : α) : l.native always = l := by
  cases l with
  | call name arguments => rw [native, nativeCall_of_isNativeName h]
  | update q =>
    obtain ⟨target, assignments, sources, filter⟩ := q
    cases filter with
    | none => contradiction
    | some e => rfl
  | delete q =>
    obtain ⟨target, filter⟩ := q
    cases filter with
    | none => contradiction
    | some e => rfl
  | _ => rfl

theorem mem_parts_native {always p : α} {l : Layer α} (h : p ∈ (l.native always).parts) :
    p ∈ l.parts ∨ p = always := by
  cases l with
  | call name arguments => exact .inl ((nativeCall_perm name arguments).mem_iff.mp h)
  | update q => cases hf : q.filter <;> simp_all [native, Layer.parts, Update.parts, or_assoc]
  | delete q => cases hf : q.filter <;> simp_all [native, Layer.parts]
  | _ => exact .inl h

end Layer

theorem Node.native_mk (l : Layer Node) :
    (Node.mk l).native = .mk ((l.map Node.native).native (.rawSql "true")) :=
  Node.rewrite_mk _ l

theorem Node.layers_native (n : Node) : n.native.layers.all Layer.isNative = true := by
  induction n using Node.induct with
  | layer l ih =>
    rw [Node.native_mk, Node.layers_mk, List.all_cons, Bool.and_eq_true, List.all_flatMap,
      List.all_eq_true, Layer.isNative_map]
    refine ⟨Layer.isNative_native _ _, fun p hp => ?_⟩
    rcases Layer.mem_parts_native hp with hp | rfl
    · rw [Layer.parts_map] at hp
      obtain ⟨part, hpart, rfl⟩ := List.mem_map.mp hp
      exact ih part hpart
    · rfl

theorem Node.native_native (n : Node) : n.native.native = n.native :=
  Node.rewrite_eq_self (List.all_eq_true.mp n.layers_native) fun l hl =>
    Layer.native_of_isNative (l.isNative_map _ ▸ hl) _

namespace Dialect

open Piece

theorem render_native (l : Layer (List Piece)) :
    bigQuery.render (l.native [.text "true"]) = bigQuery.render l := by
  have rule : bigQuery.callRule = CallRule.ofName := rfl
  have guard : bigQuery.missingFilter = some "true" := rfl
  cases l with
  | call name arguments =>
    have native := nativeCall_of_isNativeName (isNativeName_nativeCall name arguments)
      (nativeCall name arguments).2
    simp only [Layer.native, render, call, rule, CallRule.apply_ofName, native]
  | update q => cases h : q.filter <;> simp [Layer.native, render, update, mutationFilter, guard, h]
  | delete q => cases h : q.filter <;> simp [Layer.native, render, delete, mutationFilter, guard, h]
  | _ => rfl

theorem pieces_native (n : Node) : bigQuery.pieces n.native = bigQuery.pieces n := by
  induction n using Node.induct with
  | layer l ih =>
    have parts : (l.map Node.native).map bigQuery.pieces = l.map bigQuery.pieces := by
      rw [Layer.map_map]
      exact Layer.map_congr ih
    have always : bigQuery.pieces (.rawSql "true") = [.text "true"] := rfl
    rw [Node.native_mk, pieces_mk, Layer.map_native, always, parts, render_native, pieces_mk]

/-- The respelling of calls and of missing conditions may be done to the tree, once for all depths: the tree
so rewritten compiles to the same statement, and has nothing left to rewrite. -/
theorem compile_native (n : Node) :
    (bigQuery.compile n.native).sql = (bigQuery.compile n).sql ∧
      (bigQuery.compile n.native).params = (bigQuery.compile n).params ∧
      n.native.native = n.native ∧ n.native.layers.all Layer.isNative = true := by
  refine ⟨?_, ?_, n.native_native, n.layers_native⟩
  · rw [bigQuery.compile_sql, pieces_native, bigQuery.compile_sql]
  · rw [bigQuery.params_compile, pieces_native, bigQuery.params_compile]

example :
    (Node.call "Date_Format" [.call "date_format" [.col "a", .call "now" []], .val .null]).native =
      .call "FORMAT_TIMESTAMP"
        [.val .null, .call "FORMAT_TIMESTAMP" [.call "CURRENT_TIMESTAMP" [], .col "a"]] := rfl

end Dialect

/-- The layer with the first two arguments exchanged, if it is a call of `DATE_FORMAT`. -/
def Layer.exchangeFormat : Layer α → Layer α
  | .call name arguments =>
    .call name (if Text.sameFolded name "DATE_FORMAT" then exchange arguments else arguments)
  | l => l

def Node.exchangeFormat : Node → Node :=
  Node.rewrite Layer.exchangeFormat

def Layer.exchanges : Layer α → Bool
  | .call name arguments => Text.sameFolded name "DATE_FORMAT" && 2 ≤ arguments.length
  | _ => false

namespace Layer

theorem map_exchangeFormat (g : α → β) (l : Layer α) :
    l.exchangeFormat.map g = (l.map g).exchangeFormat := by
  cases l with
  | call name arguments =>
    simp only [exchangeFormat, Layer.map, exchange_map]
    split <;> rfl
  | _ => rfl

theorem exchanges_map (g : α → β) (l : Layer α) : (l.map g).exchanges = l.exchanges := by
  cases l <;> simp [exchanges, Layer.map]

theorem exchangeFormat_of_not_exchanges {l : Layer α} (h : l.exchanges = false) : l.exchangeFormat = l := by
  cases l with
  | call name arguments =>
    simp only [exchangeFormat]
    split
    next format => rw [exchange_of_short (by simpa [exchanges, format] using h)]
    next => rfl
  | _ => rfl

theorem written_eq {l : Layer α} (h : ∀ name arguments, l ≠ .call name arguments) (d e : Dialect) :
    l.written d = l.written e := by
  cases l with
  | call name arguments => exact absurd rfl (h name arguments)
  | _ => rfl

/-- What BigQuery writes of a layer is what the generic dialect writes of the exchanged layer. -/
theorem written_bigQuery (l : Layer α) :
    l.written Dialect.bigQuery = l.exchangeFormat.written Dialect.generic := by
  cases l with
  | call name arguments =>
    change ((CallRule.ofName name).apply name arguments).2 = _
    rw [CallRule.apply_ofName, nativeCall_snd]
    rfl
  | _ => exact written_eq (by simp) _ _

theorem written_perm (l : Layer α) :
    (l.written Dialect.bigQuery).Perm (l.written Dialect.generic) := by
  rw [written_bigQuery]
  cases l with
  | call name arguments =>
    change (ite _ _ _ : List α).Perm arguments
    split
    · exact exchange_perm arguments
    · exact .refl _
  | _ => exact .refl _

theorem mem_parts_of_written {d : Dialect} {l : Layer α} {p : α} (h : p ∈ l.written d) : p ∈ l.parts := by
  cases l with
  | call name arguments => exact CallRule.mem_apply h
  | insert q =>
    obtain ⟨target, columns, rows, query⟩ := q
    cases query with
    | none => exact List.mem_append_left _ h
    | some query => exact List.mem_append_right _ h
  | _ => exact h

theorem bound_bigQuery (l : Layer (List Value)) :
    l.bound Dialect.bigQuery = l.exchangeFormat.bound Dialect.generic := by
  cases l with
  | value v => rfl
  | _ => exact congrArg List.flatten (written_bigQuery _)

end Layer

namespace Node

theorem bound_exchangeFormat (n : Node) :
    n.bound Dialect.bigQuery = n.exchangeFormat.bound Dialect.generic := by
  induction n using Node.induct with
  | layer l ih =>
    have parts : (l.map Node.exchangeFormat).map (Node.bound Dialect.generic) =
        l.map (Node.bound Dialect.bigQuery) := by
      rw [Layer.map_map]
      exact Layer.map_congr fun p hp => (ih p hp).symm
    have exchanged : (Node.mk l).exchangeFormat = .mk (l.map Node.exchangeFormat).exchangeFormat :=
      Node.rewrite_mk _ l
    rw [exchanged, Node.bound_mk, Node.bound_mk, Layer.map_exchangeFormat, parts, Layer.bound_bigQuery]

theorem bound_perm (n : Node) : (n.bound Dialect.bigQuery).Perm (n.bound Dialect.generic) := by
  induction n using Node.induct with
  | layer l ih =>
    rw [Node.bound_mk, Node.bound_mk]
    by_cases leaf : ∃ v, l = .value v
    · obtain ⟨v, rfl⟩ := leaf
      exact .refl _
    · have inner : ∀ v, l ≠ .value v := fun v h => leaf ⟨v, h⟩
      rw [Layer.bound_map _ _ inner, Layer.bound_map _ _ inner]
      have moved := (l.written_perm).flatMap_right (Node.bound Dialect.bigQuery)
      exact moved.trans (.flatMap_left _ fun p hp => ih p (Layer.mem_parts_of_written hp))

theorem exchangeFormat_eq_self {n : Node} (h : ∀ l ∈ n.layers, l.exchanges = false) :
    n.exchangeFormat = n :=
  Node.rewrite_eq_self h fun l hl => Layer.exchangeFormat_of_not_exchanges (l.exchanges_map _ ▸ hl)

end Node

namespace Dialect

/-- The dialects bind the same parameters, in the same order but for the exchange of arguments in calls of
`DATE_FORMAT`, whatever raw text there is. -/
theorem params_bigQuery (n : Node) :
    (bigQuery.compile n).params = (generic.compile n.exchangeFormat).params ∧
      (bigQuery.compile n).params.Perm (generic.compile n).params ∧
      ((∀ l ∈ n.layers, l.exchanges = false) →
        (bigQuery.compile n).params = (generic.compile n).params) := by
  rw [bigQuery.compile_params, generic.compile_params,
    generic.compile_params]
  refine ⟨n.bound_exchangeFormat, n.bound_perm, fun h => ?_⟩
  rw [n.bound_exchangeFormat, Node.exchangeFormat_eq_self h]

def nestedFormat : Node :=
  .call "Date_Format"
    [.call "DATE_FORMAT" [.val (.int 1), .raw ["DATE_FORMAT(", ", '%Y')"] [.val (.int 2)], .val (.int 3)],
      .call "date_format" [.val (.int 4)], .val (.int 5)]

def rawFormat : Node :=
  .and (.raw ["DATE_FORMAT(", ", '%Y') = NOW()"] [.val (.int 1)])
    (.raw ["DATE_FORMAT(a, '%d') = "] [.val (.int 2), .call "date_format" [.val (.int 3)]])

theorem params_bigQuery_formats :
    ((bigQuery.compile nestedFormat).params = (generic.compile nestedFormat.exchangeFormat).params ∧
      (bigQuery.compile nestedFormat).params.Perm (generic.compile nestedFormat).params) ∧
    (∀ l ∈ rawFormat.layers, l.exchanges = false) ∧
      (bigQuery.compile rawFormat).params = (generic.compile rawFormat).params :=
  have nested := params_bigQuery nestedFormat
  have kept : ∀ l ∈ rawFormat.layers, l.exchanges = false := by decide
  ⟨⟨nested.1, nested.2.1⟩, kept, (params_bigQuery rawFormat).2.2 kept⟩

end Dialect

end SqlDialect
