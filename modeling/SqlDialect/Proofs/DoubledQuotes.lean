import SqlDialect.Render.Dialect

set_option autoImplicit false

namespace SqlDialect

/-- Reads a name after its opening quote, up to the first quote that is not doubled. -/
def readBody (q : Char) : List Char → Option (List Char × List Char)
  | [] => none
  | c :: cs =>
    if c = q then
      match cs with
      | [] => some ([], [])
      | d :: rest =>
        if d = q then (readBody q rest).map (Prod.map (q :: ·) id) else some ([], d :: rest)
    else (readBody q cs).map (Prod.map (c :: ·) id)

def readName (q : Char) (text : String) : Option (String × String) :=
  match text.toList with
  | [] => none
  | c :: cs =>
    if c = q then (readBody q cs).map (Prod.map String.ofList String.ofList) else none

def doubleQuotes (q : Char) (cs : List Char) : List Char :=
  cs.flatMap fun c => if c = q then [q, q] else [c]

theorem doubleQuotes_cons (q c : Char) (cs : List Char) :
    doubleQuotes q (c :: cs) = (if c = q then [q, q] else [c]) ++ doubleQuotes q cs := rfl

theorem toList_quoteDoubled (q : Char) (name : String) :
    (quoteDoubled q name).toList = q :: doubleQuotes q name.toList ++ [q] :=
  String.toList_ofList

variable {q : Char}

theorem readBody_of_ne {c : Char} (h : c ≠ q) (cs : List Char) :
    readBody q (c :: cs) = (readBody q cs).map (Prod.map (c :: ·) id) := by
  cases cs <;> simp [readBody, h]

theorem readBody_doubleQuotes (name : List Char) {rest : List Char} (h : rest.head? ≠ some q) :
    readBody q (doubleQuotes q name ++ q :: rest) = some (name, rest) := by
  induction name with
  | nil =>
    cases rest with
    | nil => simp [doubleQuotes, readBody]
    | cons d rest =>
      have hd : d ≠ q := by simpa using h
      simp [doubleQuotes, readBody, hd]
  | cons c name ih =>
    rw [doubleQuotes_cons]
    by_cases hc : c = q
    · subst hc
      simp [readBody, ih]
    · rw [if_neg hc, List.cons_append, List.nil_append, List.cons_append, readBody_of_ne hc, ih]
      rfl

theorem eq_of_readBody {cs name rest : List Char} (h : readBody q cs = some (name, rest)) :
    cs = doubleQuotes q name ++ q :: rest ∧ rest.head? ≠ some q := by
  fun_induction readBody q cs generalizing name with
  | case1 => contradiction
  | case2 =>
    cases h
    exact ⟨rfl, by simp⟩
  | case3 rest' ih =>
    obtain ⟨⟨body, left⟩, hbody, h⟩ := Option.map_eq_some_iff.mp h
    cases h
    obtain ⟨htext, hleft⟩ := ih hbody
    exact ⟨by simp [doubleQuotes_cons, htext], hleft⟩
  | case4 d rest' hd =>
    cases h
    exact ⟨rfl, by simpa using hd⟩
  | case5 c cs hc ih =>
    obtain ⟨⟨body, left⟩, hbody, h⟩ := Option.map_eq_some_iff.mp h
    cases h
    obtain ⟨htext, hleft⟩ := ih hbody
    exact ⟨by simp [doubleQuotes_cons, hc, htext], hleft⟩

/-- Reading finds a name and a rest exactly where the text is the quoted name followed by the rest, and the
rest does not go on with a quote. -/
theorem readName_eq_some_iff (q : Char) (text name rest : String) :
    readName q text = some (name, rest) ↔
      text = quoteDoubled q name ++ rest ∧ rest.toList.head? ≠ some q := by
  constructor
  · intro h
    unfold readName at h
    cases hcs : text.toList with
    | nil => simp [hcs] at h
    | cons c cs =>
      rw [hcs] at h
      by_cases hc : c = q
      · subst hc
        simp only [if_true] at h
        obtain ⟨⟨body, left⟩, hbody, h⟩ := Option.map_eq_some_iff.mp h
        cases h
        obtain ⟨htext, hleft⟩ := eq_of_readBody hbody
        refine ⟨?_, by simpa using hleft⟩
        apply String.toList_injective
        rw [hcs, htext, String.toList_append, toList_quoteDoubled]
        simp
      · simp [hc] at h
  · intro h
    obtain ⟨htext, hrest⟩ := h
    have hlist : text.toList = q :: (doubleQuotes q name.toList ++ q :: rest.toList) := by
      rw [htext, String.toList_append, toList_quoteDoubled]
      simp
    simp [readName, hlist, readBody_doubleQuotes name.toList hrest]

example : readBody '"' "\"\"a\"\"\"\"\".b".toList = some ("\"a\"\"".toList, ".b".toList) := by
  decide +kernel

end SqlDialect
