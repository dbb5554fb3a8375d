import SqlDialect.Proofs.Calls

set_option autoImplicit false

namespace SqlDialect.Fragment

open Text

variable {P Q : Type}

def Piece.param? : Piece P → Option P
  | .text _ => none
  | .param p => some p

def Piece.map (g : P → Q) : Piece P → Piece Q
  | .text s => .text s
  | .param p => .param (g p)

def params (pieces : List (Piece P)) : List P :=
  pieces.filterMap Piece.param?

@[simp] theorem params_text (s : String) (pieces : List (Piece P)) :
    params (.text s :: pieces) = params pieces := rfl

@[simp] theorem params_param (p : P) (pieces : List (Piece P)) :
    params (.param p :: pieces) = p :: params pieces := rfl

@[simp] theorem params_ofText (s : String) : params (Piece.ofText s : List (Piece P)) = [] := by
  unfold Piece.ofText
  split <;> rfl

@[simp] theorem map_ofText (g : P → Q) (s : String) :
    (Piece.ofText s).map (Piece.map g) = Piece.ofText s := by
  unfold Piece.ofText
  split <;> rfl

theorem params_interleave (fs : List String) (ps : List P) : params (interleave fs ps) = ps := by
  fun_induction interleave fs ps with
  | case1 ps =>
    rw [params, List.filterMap_map]
    exact List.filterMap_some
  | case2 f fs ih => rwa [params, List.filterMap_append, ← params, params_ofText, List.nil_append]
  | case3 f fs p ps ih =>
    rw [params, List.filterMap_append, ← params, params_ofText, List.nil_append]
    exact congrArg (p :: ·) ih

theorem interleave_map (g : P → Q) (fs : List String) (ps : List P) :
    interleave fs (ps.map g) = (interleave fs ps).map (Piece.map g) := by
  fun_induction interleave fs ps with
  | case1 ps => simp [interleave, Piece.map]
  | case2 f fs ih => simpa [interleave] using ih
  | case3 f fs p ps ih => simpa [interleave, Piece.map] using ih

theorem swapAround_eq_some_iff {head tail : List Char} {p : P} {pieces : List (Piece P)} :
    swapAround head tail p = some pieces ↔
      occurs openAtEnd none head = true ∧ ∃ format rest, literalArgument tail = some (format, rest) ∧
        [.text (String.ofList (respellDateFormat head)), .text (String.ofList (format ++ [',', ' '])), .param p,
          .text (String.ofList (')' :: respellDateFormat rest))] = pieces := by
  simp only [swapAround, Option.ite_none_right_eq_some, Option.bind_eq_bind, Option.bind_eq_some_iff,
    Option.pure_def, Option.some.injEq, Prod.exists]

theorem swapAround_map (g : P → Q) (head tail : List Char) (p : P) :
    swapAround head tail (g p) = (swapAround head tail p).map (List.map (Piece.map g)) := by
  unfold swapAround
  split
  · cases literalArgument tail <;> rfl
  · rfl

/-- The fragments are respelled one by one, unless the value of a call stands between them. -/
theorem respell_cases (fs : List String) (ps : List P) :
    (respell fs ps = interleave (fs.map fun f => String.ofList (respellNow f.toList)) ps ∧
      ∀ f ∈ fs, hasDateFormat (respellNow f.toList) = false) ∨
    respell fs ps = interleave (fs.map fun f => String.ofList (respellDateFormat (respellNow f.toList))) ps ∨
    ∃ head tail p, fs = [head, tail] ∧ ps = [p] ∧
      swapAround (respellNow head.toList) (respellNow tail.toList) p = some (respell fs ps) := by
  by_cases held : ((fs.map fun f => respellNow f.toList).any hasDateFormat) = true
  · right
    simp only [respell, if_pos held]
    split
    · rename_i head tail p texts
      obtain ⟨head, _, rfl, rfl, second⟩ := List.map_eq_cons_iff.mp texts
      obtain ⟨tail, _, rfl, rfl, rest⟩ := List.map_eq_cons_iff.mp second
      obtain rfl := List.map_eq_nil_iff.mp rest
      cases swapped : swapAround (respellNow head.toList) (respellNow tail.toList) p with
      | none => simp
      | some pieces => exact .inr ⟨head, tail, p, rfl, rfl, by simpa using swapped⟩
    · simp [Function.comp_def]
  · left
    simp only [respell, if_neg held]
    exact ⟨by simp [Function.comp_def], by simpa using held⟩

theorem params_respell (fs : List String) (ps : List P) : params (respell fs ps) = ps := by
  obtain ⟨plain, -⟩ | plain | ⟨head, tail, p, rfl, rfl, swapped⟩ := respell_cases fs ps
  · rw [plain, params_interleave]
  · rw [plain, params_interleave]
  · obtain ⟨_, format, rest, _, pieces⟩ := swapAround_eq_some_iff.mp swapped
    rw [← pieces]
    rfl

theorem respell_map (g : P → Q) (fs : List String) (ps : List P) :
    respell fs (ps.map g) = (respell fs ps).map (Piece.map g) := by
  simp only [respell]
  generalize fs.map (fun f => respellNow f.toList) = texts
  split
  · -- The two sides look at the same texts and at as many parameters.
    split
    · rename_i head tail q hq _
      obtain ⟨p, rfl, rfl⟩ : ∃ p, ps = [p] ∧ g p = q := by simpa using hq
      simp only [swapAround_map]
      cases swapAround head tail p with
      | none => exact interleave_map g _ [p]
      | some pieces => rfl
    · rename_i other
      split
      · exact absurd rfl (other _ _ _ rfl)
      · exact interleave_map g _ ps
  · exact interleave_map g _ ps

def Piece.chars : Piece P → List Char
  | .text s => s.toList
  | .param _ => []

def written (pieces : List (Piece P)) : List Char :=
  pieces.flatMap Piece.chars

/-- Neither a blank nor a character of a name. -/
structure Lasting (c : Char) : Prop where
  solid : isSpace c = false
  unnamed : isNameChar c = false

section

variable {c : Char}

theorem Lasting.count_name (h : Lasting c) {name found : List Char} (hfound : found.map Char.toLower = name)
    (letters : name.all isNameChar = true) : found.count c = 0 := by
  rw [List.count_eq_zero]
  intro hc
  simpa [h.unnamed] using isNameChar_of_map hfound letters c hc

theorem Lasting.count_blank (h : Lasting c) {gap : List Char} (hgap : Blank gap) : gap.count c = 0 := by
  rw [List.count_eq_zero]
  intro hc
  simpa [h.solid] using hgap c hc

theorem Lasting.ne_blank (h : Lasting c) : ' ' ≠ c := by
  rintro rfl
  exact absurd h.solid (by decide)

theorem Lasting.count_formatTimestamp (h : Lasting c) : formatTimestamp.count c = 0 :=
  h.count_name rfl (by decide)

theorem Lasting.count_currentTimestamp (h : Lasting c) :
    currentTimestamp.count c = ['(', ')'].count c := by
  have split : currentTimestamp = "CURRENT_TIMESTAMP".toList ++ ['(', ')'] := by decide
  rw [split, List.count_append, h.count_name rfl (by decide), Nat.zero_add]

/-- A pattern that replaces names and blanks only: every other character is in the match as often as in what
stands for it. -/
def Conserves (p : Pattern (List Char)) : Prop :=
  ∀ before cs m, p before cs = some m →
    ∃ w rest, cs = w ++ rest ∧ w ≠ [] ∧ m.length = w.length ∧ ∀ c, Lasting c → m.value.count c = w.count c

theorem nowCall_conserves : Conserves nowCall := by
  intro before cs m h
  obtain ⟨_, _, rest, ⟨name, gap, rfl, hname, hgap⟩, rfl, rfl⟩ := nowCall_eq_some_iff.mp h
  refine ⟨_, rest, rfl, by simp, rfl, fun c hc => ?_⟩
  have names := hc.count_name hname (by decide)
  have blanks := hc.count_blank hgap
  simp only [hc.count_currentTimestamp, List.count_append, List.count_cons, List.count_nil, names, blanks]
  omega

theorem dateFormatCall_conserves : Conserves dateFormatCall := by
  intro before cs m h
  obtain ⟨_, name, gap, rest, hname, hgap, rfl, rfl⟩ := dateFormatCall_eq_some_iff.mp h
  refine ⟨_, rest, rfl, by simp, rfl, fun c hc => ?_⟩
  have names := hc.count_name hname (by decide)
  simp only [List.count_append, hc.count_formatTimestamp, names, Nat.add_assoc]

theorem count_literalArgument {cs format rest : List Char}
    (h : literalArgument cs = some (format, rest)) (hc : Lasting c) :
    cs.count c = [',', ')'].count c + format.count c + rest.count c := by
  obtain ⟨a, b, d, ha, hb, hd, _, rfl⟩ := literalArgument_eq_some_iff.mp h
  have blanks := And.intro (hc.count_blank ha) (And.intro (hc.count_blank hb) (hc.count_blank hd))
  simp only [List.count_append, List.count_cons, List.count_nil, blanks]
  omega

theorem dateFormatLiteral_conserves : Conserves dateFormatLiteral := by
  intro before cs m h
  obtain ⟨_, value, format, _, rest, _,
    ⟨name, gap, a, b, d, e, rfl, hname, hgap, ha, hb, hd, he, _⟩, rfl, rfl⟩ := dateFormatLiteral_eq h
  refine ⟨_, rest, rfl, by simp, rfl, fun c hc => ?_⟩
  have names := hc.count_name hname (by decide)
  have before := And.intro (hc.count_blank hgap) (hc.count_blank ha)
  have after := And.intro (hc.count_blank hb) (And.intro (hc.count_blank hd) (hc.count_blank he))
  simp only [List.count_append, List.count_cons, List.count_nil, hc.count_formatTimestamp,
    beq_false_of_ne hc.ne_blank, Bool.false_eq_true, if_false, names, before, after]
  omega

/-- What one match conserves, the replacement of all matches conserves. -/
theorem count_replaceFrom {p : Pattern (List Char)} (hp : Conserves p) (hc : Lasting c)
    (before : Option Char) (skip : Nat) (cs : List Char) :
    (replaceFrom p before skip cs).count c = (cs.drop skip).count c := by
  fun_induction replaceFrom p before skip cs with
  | case1 => simp
  | case2 before skip x cs ih => exact ih
  | case3 before x cs m hm ih =>
    obtain ⟨w, rest, hw, hne, hlength, hcount⟩ := hp before (x :: cs) m hm
    obtain ⟨y, w, rfl⟩ := List.exists_cons_of_ne_nil hne
    rw [List.cons_append, List.cons.injEq] at hw
    obtain ⟨rfl, rfl⟩ := hw
    rw [hlength, List.length_cons, Nat.add_sub_cancel, List.drop_left] at ih
    rw [List.count_append, hlength, List.length_cons, Nat.add_sub_cancel, ih, hcount c hc, List.drop_zero,
      ← List.cons_append, List.count_append]
  | case4 before x cs _ ih =>
    rw [List.count_cons, ih]
    simp [List.count_cons]

theorem count_respellNow (hc : Lasting c) (cs : List Char) : (respellNow cs).count c = cs.count c :=
  count_replaceFrom nowCall_conserves hc none 0 cs

theorem count_respellDateFormat (hc : Lasting c) (cs : List Char) :
    (respellDateFormat cs).count c = cs.count c := by
  have renamed := count_replaceFrom dateFormatCall_conserves hc none 0 (replaceAll dateFormatLiteral cs)
  exact renamed.trans (count_replaceFrom dateFormatLiteral_conserves hc none 0 cs)

@[simp] theorem written_ofText (s : String) : written (Piece.ofText s : List (Piece P)) = s.toList := by
  unfold Piece.ofText
  split
  · simp_all [written]
  · simp [written, Piece.chars]

theorem written_append (a b : List (Piece P)) : written (a ++ b) = written a ++ written b :=
  List.flatMap_append

theorem written_interleave (fs : List String) (ps : List P) :
    written (interleave fs ps) = fs.flatMap String.toList := by
  fun_induction interleave fs ps with
  | case1 ps => simp [written, List.flatMap_map, Piece.chars]
  | case2 f fs ih => rw [written_append, written_ofText, ih, List.flatMap_cons]
  | case3 f fs p ps ih =>
    rw [written_append, written_ofText, List.flatMap_cons, ← ih]
    rfl

theorem count_swapAround (hc : Lasting c) {head tail : List Char} {p : P} {pieces : List (Piece P)}
    (h : swapAround head tail p = some pieces) : (written pieces).count c = (head ++ tail).count c := by
  obtain ⟨_, format, rest, hformat, rfl⟩ := swapAround_eq_some_iff.mp h
  have argument := count_literalArgument hformat hc
  simp only [written, List.flatMap_cons, List.flatMap_nil, Piece.chars, String.toList_ofList,
    List.count_append, List.count_cons, List.count_nil, count_respellDateFormat hc, argument,
    beq_false_of_ne hc.ne_blank, Bool.false_eq_true, if_false]
  omega

theorem count_flatMap_congr {α : Type} {f g : α → List Char} (h : ∀ a, (f a).count c = (g a).count c)
    (as : List α) : (as.flatMap f).count c = (as.flatMap g).count c := by
  induction as with
  | nil => rfl
  | cons a as ih => rw [List.flatMap_cons, List.flatMap_cons, List.count_append, List.count_append, h, ih]

theorem count_respell (hc : Lasting c) (fs : List String) (ps : List P) :
    (written (respell fs ps)).count c = (fs.flatMap String.toList).count c := by
  obtain ⟨plain, -⟩ | plain | ⟨head, tail, p, rfl, rfl, swapped⟩ := respell_cases fs ps
  · simp only [plain, written_interleave, List.flatMap_map, String.toList_ofList]
    exact count_flatMap_congr (fun f => count_respellNow hc f.toList) fs
  · simp only [plain, written_interleave, List.flatMap_map, String.toList_ofList]
    refine count_flatMap_congr (fun f => ?_) fs
    rw [count_respellDateFormat hc, count_respellNow hc]
  · rw [count_swapAround hc swapped, List.count_append, count_respellNow hc, count_respellNow hc]
    simp

theorem not_mem_of_text (hc : Lasting c) {fs : List String} (hfs : ∀ f ∈ fs, c ∉ f.toList) {ps : List P}
    {s : String} (hs : Piece.text s ∈ respell fs ps) : c ∉ s.toList := by
  have none : (fs.flatMap String.toList).count c = 0 := by simpa [List.count_eq_zero] using hfs
  rw [← count_respell hc fs ps, List.count_eq_zero] at none
  exact fun m => none (List.mem_flatMap.mpr ⟨.text s, hs, m⟩)

end

/-- Respelling neither loses nor invents anything: every parameter is kept, in the order given, and every
character that belongs to no name and is no blank, as often as the fragments hold it. -/
theorem respell_conserves (fs : List String) (ps : List P) :
    params (respell fs ps) = ps ∧
      ∀ c, Lasting c → (written (respell fs ps)).count c = (fs.flatMap String.toList).count c :=
  ⟨params_respell fs ps, fun _ hc => count_respell hc fs ps⟩

def quotedCalls : List String :=
  ["date_format( a , '?\\'%d' ) = NOW( ) and Date_Format (", ", \"?\" ) or b = '?'"]

theorem respell_conserves_quotedCalls :
    params (respell quotedCalls [7]) = [7] ∧
      Lasting '?' ∧ (written (respell quotedCalls [7])).count '?' = 3 :=
  have mark : Lasting '?' := ⟨by decide, by decide⟩
  have kept := respell_conserves quotedCalls [7]
  ⟨kept.1, mark, (kept.2 '?' mark).trans (by decide)⟩

end SqlDialect.Fragment
