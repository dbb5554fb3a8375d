import SqlDialect.Proofs.Changes
import SqlDialect.Proofs.Walks
import SqlDialect.Render.DialectName

set_option autoImplicit false

namespace SqlDialect

/-- Segments with marks between them, numbered from `k` on. -/
def weave (mark : Nat → String) : (k : Nat) → List String → String
  | _, [] => ""
  | _, [s] => s
  | k, s :: t :: rest => s ++ mark k ++ weave mark (k + 1) (t :: rest)

namespace Piece

def prepend (s : String) : List String → List String
  | [] => [s]
  | t :: ts => (s ++ t) :: ts

/-- The texts between the bound values. -/
def segments : List Piece → List String
  | [] => [""]
  | .text s :: ps => prepend s (segments ps)
  | .bind _ :: ps => "" :: segments ps
  | .warn _ :: ps => segments ps

theorem length_prepend {s : String} {ts : List String} (h : ts ≠ []) :
    (prepend s ts).length = ts.length := by
  cases ts with
  | nil => contradiction
  | cons t ts => rfl

theorem length_segments (ps : List Piece) : (segments ps).length = (bound ps).length + 1 := by
  induction ps with
  | nil => rfl
  | cons p ps ih =>
    cases p with
    | text s =>
      have h : segments ps ≠ [] := List.ne_nil_of_length_eq_add_one ih
      simpa [segments, length_prepend h] using ih
    | bind v => simpa [segments] using ih
    | warn t => simpa [segments] using ih

theorem segments_map (f : Value → Value) (ps : List Piece) :
    segments (ps.map (mapValue f)) = segments ps := by
  induction ps with
  | nil => rfl
  | cons p ps ih => cases p <;> simp [segments, ih]

end Piece

theorem weave_prepend (mark : Nat → String) (k : Nat) (s : String) (ts : List String) :
    weave mark k (Piece.prepend s ts) = s ++ weave mark k ts := by
  match ts with
  | [] => simp [Piece.prepend, weave]
  | [t] => rfl
  | t :: u :: rest => simp [Piece.prepend, weave, String.append_assoc]

theorem weave_cons (mark : Nat → String) (k : Nat) (s : String) {ts : List String} (h : ts ≠ []) :
    weave mark k (s :: ts) = s ++ mark k ++ weave mark (k + 1) ts := by
  cases ts with
  | nil => contradiction
  | cons t ts => rfl

namespace Dialect

open Piece

variable (d : Dialect)

/-- Writing appends the segments with placeholders between them, and binds the values. -/
theorem write_eq (ctx : Context) (ps : List Piece) :
    d.write ctx ps =
      ⟨ctx.sql ++ weave d.placeholder (ctx.params.length + 1) (segments ps), ctx.params ++ bound ps⟩ := by
  induction ps generalizing ctx with
  | nil => simp [write, segments, weave]
  | cons p ps ih =>
    have step : d.write ctx (p :: ps) = d.write (d.writePiece ctx p) ps := rfl
    rw [step, ih]
    cases p with
    | text s => simp [writePiece, segments, weave_prepend, String.append_assoc]
    | bind v =>
      have h : segments ps ≠ [] := List.ne_nil_of_length_eq_add_one (length_segments ps)
      simp [writePiece, segments, weave_cons _ _ _ h, String.append_assoc]
    | warn t => simp [writePiece, segments]

theorem write_of_unbound {ps : List Piece} (h : bound ps = []) (ctx : Context) :
    d.write ctx ps = ⟨ctx.sql ++ (d.write {} ps).sql, ctx.params⟩ := by
  have one : (segments ps).length = 1 := by rw [length_segments, h]; rfl
  obtain ⟨s, hs⟩ := List.length_eq_one_iff.mp one
  simp [write_eq, h, hs, weave]

theorem compile_sql (n : Node) :
    (d.compile n).sql = weave d.placeholder 1 (segments (d.pieces n)) := by
  simp [d.compile_eq_write, write_eq]

theorem params_compile (n : Node) : (d.compile n).params = bound (d.pieces n) := by
  simp [d.compile_eq_write, write_eq]

theorem compile_params (n : Node) : (d.compile n).params = n.bound d := by
  rw [d.params_compile, d.bound_pieces]

end Dialect

def Node.erase (n : Node) : Node :=
  n.mapValue fun _ => .null

theorem Dialect.segments_erase (d : Dialect) (n : Node) :
    Piece.segments (d.pieces n.erase) = Piece.segments (d.pieces n) := by
  rw [Node.erase, d.pieces_mapValue, Piece.segments_map]

namespace DialectName

theorem cutsQualifiers (name : DialectName) : name.dialect.CutsQualifiers := by
  cases name with
  | generic => exact Dialect.generic_cutsQualifiers
  | bigQuery => exact Dialect.bigQuery_cutsQualifiers

def mark : DialectName → (k : Nat) → String
  | .generic, k => "$" ++ k.repr
  | .bigQuery, _ => "?"

theorem placeholder_eq (name : DialectName) : name.dialect.placeholder = name.mark := by
  cases name <;> rfl

/-- For each tree there are segments such that every tree that differs from it in values only compiles to
these segments with placeholders between them, and to the values at its leaves as parameters. Changing
the values changes the parameters alike, and nothing else. -/
theorem compile_eq_weave (name : DialectName) (t : Node) :
    ∃ segments : List String, ∀ u : Node, u.erase = t.erase →
      let c := name.dialect.compile u
      segments.length = c.params.length + 1 ∧ c.params = u.bound name.dialect ∧
        c.sql = weave name.mark 1 segments ∧
        ∀ f : Value → Value,
          let changed := name.dialect.compile (u.mapValue f)
          changed.sql = c.sql ∧ changed.params = c.params.map f := by
  refine ⟨Piece.segments (name.dialect.pieces t), fun u hu => ?_⟩
  have same : Piece.segments (name.dialect.pieces u) = Piece.segments (name.dialect.pieces t) := by
    rw [← name.dialect.segments_erase u, hu, name.dialect.segments_erase t]
  refine ⟨?_, name.dialect.compile_params u, ?_, fun f => ⟨?_, ?_⟩⟩
  · rw [name.dialect.compile_params, ← name.dialect.bound_pieces, ← same]
    exact Piece.length_segments _
  · rw [name.dialect.compile_sql, same, placeholder_eq]
  · rw [name.dialect.compile_sql, name.dialect.compile_sql, name.dialect.pieces_mapValue f,
      Piece.segments_map]
  · rw [name.dialect.compile_params, name.dialect.compile_params, ← name.dialect.bound_pieces,
      ← name.dialect.bound_pieces, name.dialect.pieces_mapValue f, Piece.bound_map]

end DialectName

/-- Numbering from further on is numbering with other marks. -/
theorem weave_shift (mark : Nat → String) (n k : Nat) (segments : List String) :
    weave mark (k + n) segments = weave (fun j => mark (j + n)) k segments := by
  fun_induction weave (fun j => mark (j + n)) k segments with
  | case1 => rfl
  | case2 => rfl
  | case3 k s t rest ih => rw [weave, ← ih, Nat.add_right_comm]

namespace Dialect

open Piece

theorem run_visit (d : Dialect) (n : Node) (ctx : Context) :
    (d.visit n).run ctx =
      ((), ⟨ctx.sql ++ weave (fun k => d.placeholder (k + ctx.params.length)) 1 (segments (d.pieces n)),
        ctx.params ++ (d.compile n).params⟩) := by
  rw [d.visit_eq, d.params_compile, ← weave_shift, Nat.add_comm 1]
  exact congrArg (Prod.mk ()) (d.write_eq ctx (d.pieces n))

theorem run_mapM_compileIn (d : Dialect) (ns : List Node) :
    (ns.mapM d.compileIn).run {} = (ns.map d.compile, {}) := by
  induction ns with
  | nil => rfl
  | cons n ns ih =>
    rw [List.mapM_cons]
    exact congrArg (fun rest => (d.compile n :: rest.1, rest.2)) ih

/-- Visiting only appends. What a tree compiles to is put after what the context holds already, with the
numbers of its placeholders moved on by the parameters bound before; so compiling trees one after the other
gives for each what it compiles to alone. -/
theorem visit_appends :
    (∀ ctx t, (bigQuery.visit t).run ctx =
      ((), ⟨ctx.sql ++ (bigQuery.compile t).sql, ctx.params ++ (bigQuery.compile t).params⟩)) ∧
    (∀ t, (segments (generic.pieces t)).length = (generic.compile t).params.length + 1 ∧
      (generic.compile t).sql = weave (fun k => "$" ++ k.repr) 1 (segments (generic.pieces t)) ∧
      ∀ ctx, (generic.visit t).run ctx =
        ((), ⟨ctx.sql ++ weave (fun k => "$" ++ (k + ctx.params.length).repr) 1 (segments (generic.pieces t)),
          ctx.params ++ (generic.compile t).params⟩)) ∧
    ∀ (name : DialectName) (ts : List Node),
      (ts.mapM name.dialect.compileIn).run {} = (ts.map name.dialect.compile, {}) := by
  refine ⟨fun ctx t => ?_, fun t => ⟨?_, ?_, ?_⟩, fun name ts => name.dialect.run_mapM_compileIn ts⟩
  · -- all placeholders are spelled alike, so their numbers make no difference
    rw [bigQuery.compile_sql]
    exact bigQuery.run_visit t ctx
  · rw [generic.params_compile, length_segments]
  · exact generic.compile_sql t
  · exact generic.run_visit t

end Dialect

end SqlDialect
