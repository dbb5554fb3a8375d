import Mathlib.Data.List.Induction
import SqlDialect.Proofs.SetList

set_option autoImplicit false

namespace SqlDialect.Scan

def State.Within (q : Char) : State → Prop
  | .outside => False
  | .inside quote => quote = q
  | .escaped quote => quote = q

/-- The scan is inside of the quotation after each part from the start of the text but the whole, and
outside after the whole. -/
structure Token (q : Char) (text : List Char) : Prop where
  within : ∀ part, part <+: text → part ≠ [] → part ≠ text → (State.outside.after part).Within q
  closed : State.outside.after text = .outside

/-- How many backslashes a text ends with. -/
def trailingBackslashes (cs : List Char) : Nat :=
  (cs.reverse.takeWhile (· = '\\')).length

/-- Wherever a quote or the end of the text follows, backslashes come in pairs. -/
structure Paired (q : Char) (cs : List Char) : Prop where
  quotes : ∀ before, before ++ [q] <+: cs → trailingBackslashes before % 2 = 0
  ending : trailingBackslashes cs % 2 = 0

theorem trailingBackslashes_concat (cs : List Char) (c : Char) :
    trailingBackslashes (cs ++ [c]) = if c = '\\' then trailingBackslashes cs + 1 else 0 := by
  by_cases h : c = '\\' <;> simp [trailingBackslashes, h]

theorem escapeWith_concat (q c : Char) (cs : List Char) :
    escapeWith q (cs ++ [c]) = escapeWith q cs ++ if c = q then ['\\', q] else [c] := by
  simp [escapeWith]

def StaysWithin (q : Char) (s : State) (text : List Char) : Prop :=
  ∀ part, part <+: text → (s.after part).Within q

theorem staysWithin_concat {q : Char} {s : State} {text : List Char} {c : Char} :
    StaysWithin q s (text ++ [c]) ↔ StaysWithin q s text ∧ (s.after (text ++ [c])).Within q := by
  constructor
  · intro h
    exact ⟨fun part hpart => h part (hpart.trans (List.prefix_append text [c])), h _ (List.prefix_refl _)⟩
  · rintro ⟨htext, hlast⟩ part hpart
    rcases List.prefix_concat_iff.mp hpart with rfl | hpart
    · exact hlast
    · exact htext part hpart

variable {q : Char}

theorem after_escapeWith_of_staysWithin (hq : q ≠ '\\') {cs : List Char}
    (h : StaysWithin q (.inside q) (escapeWith q cs)) :
    (State.inside q).after (escapeWith q cs) =
      if trailingBackslashes cs % 2 = 0 then .inside q else .escaped q := by
  induction cs using List.reverseRecOn with
  | nil => rfl
  | append_singleton cs c ih =>
    rw [escapeWith_concat] at h
    have before : StaysWithin q (.inside q) (escapeWith q cs) := fun part hpart =>
      h part (hpart.trans (List.prefix_append _ _))
    have last := h _ (List.prefix_refl _)
    rw [escapeWith_concat, trailingBackslashes_concat]
    rw [State.after_append, ih before] at last ⊢
    by_cases hquote : c = q
    · subst hquote
      split at last <;> simp_all [State.after, State.next, State.Within]
    · by_cases hslash : c = '\\'
      · subst hslash
        split at last <;> simp_all [State.after, State.next] <;> omega
      · split at last <;> simp_all [State.after, State.next]

theorem staysWithin_escapeWith_concat (hq : q ≠ '\\') (cs : List Char) (c : Char) :
    StaysWithin q (.inside q) (escapeWith q (cs ++ [c])) ↔
      StaysWithin q (.inside q) (escapeWith q cs) ∧ (c = q → trailingBackslashes cs % 2 = 0) := by
  rw [escapeWith_concat]
  by_cases hquote : c = q
  · subst hquote
    have two : escapeWith c cs ++ ['\\', c] = escapeWith c cs ++ ['\\'] ++ [c] := by simp
    rw [if_pos rfl, two, staysWithin_concat, staysWithin_concat, and_assoc]
    refine and_congr_right fun before => ?_
    simp only [State.after_append, after_escapeWith_of_staysWithin hq before]
    split <;> simp_all [State.after, State.next, State.Within]
  · rw [if_neg hquote, staysWithin_concat]
    refine and_congr_right fun before => ?_
    rw [State.after_append, after_escapeWith_of_staysWithin hq before]
    by_cases hslash : c = '\\' <;> split <;> simp_all [State.after, State.next, State.Within]

theorem staysWithin_escapeWith_iff (hq : q ≠ '\\') (cs : List Char) :
    StaysWithin q (.inside q) (escapeWith q cs) ↔
      ∀ before, before ++ [q] <+: cs → trailingBackslashes before % 2 = 0 := by
  induction cs using List.reverseRecOn with
  | nil =>
    constructor
    · intro _ before hbefore
      simp at hbefore
    · intro _ part hpart
      rw [List.prefix_nil.mp hpart]
      rfl
  | append_singleton cs c ih =>
    rw [staysWithin_escapeWith_concat hq, ih]
    constructor
    · rintro ⟨hcs, hlast⟩ before hbefore
      rcases List.prefix_concat_iff.mp hbefore with heq | hbefore
      · obtain ⟨rfl, hc⟩ := List.append_inj' heq rfl
        exact hlast (List.singleton_inj.mp hc).symm
      · exact hcs before hbefore
    · intro h
      refine ⟨fun before hbefore => h before (hbefore.trans (List.prefix_append cs [c])), ?_⟩
      rintro rfl
      exact h cs (List.prefix_refl _)

theorem countFrom_of_staysWithin {s : State} {text : List Char} (h : StaysWithin q s text) :
    countFrom s text = 0 := by
  induction text generalizing s with
  | nil => rfl
  | cons c text ih =>
    have start : s.Within q := h [] List.nil_prefix
    have hs : s ≠ .outside := by rintro rfl; exact start
    have rest := ih fun part hpart => h (c :: part) (List.cons_prefix_cons.mpr ⟨rfl, hpart⟩)
    simp [countFrom, hs, rest]

theorem after_quote (hq : isQuote q = true) (text : List Char) :
    State.outside.after (q :: text) = (State.inside q).after text := by
  simp [State.after, State.next, hq]

/-- A name between quotes is a token if and only if the scan stays inside up to the last quote, which
closes. -/
theorem token_between_iff (hq : isQuote q = true) (inner : List Char) :
    Token q (q :: inner ++ [q]) ↔
      StaysWithin q (.inside q) inner ∧ (State.inside q).after (inner ++ [q]) = .outside := by
  rw [List.cons_append]
  constructor
  · rintro ⟨hwithin, hclosed⟩
    refine ⟨fun part hpart => ?_, by rwa [← after_quote hq]⟩
    rw [← after_quote hq]
    refine hwithin (q :: part) ?_ (List.cons_ne_nil q part) ?_
    · exact List.cons_prefix_cons.mpr ⟨rfl, hpart.trans (List.prefix_append inner [q])⟩
    · intro heq
      have hlength := hpart.length_le
      rw [(List.cons.inj heq).2, List.length_append, List.length_singleton] at hlength
      omega
  · rintro ⟨hstays, hclosed⟩
    refine ⟨fun part hpart hnil hwhole => ?_, by rwa [after_quote hq]⟩
    obtain rfl | ⟨rest, rfl, hrest⟩ := List.prefix_cons_iff.mp hpart
    · contradiction
    · rw [after_quote hq]
      rcases List.prefix_concat_iff.mp hrest with rfl | hrest
      · contradiction
      · exact hstays rest hrest

theorem token_quoteEscaped_iff (hq : isQuote q = true) (name : String) :
    Token q (quoteEscaped q name).toList ↔ Paired q name.toList := by
  have hne := ne_backslash hq
  have closes (h : StaysWithin q (.inside q) (escapeWith q name.toList)) :
      (State.inside q).after (escapeWith q name.toList ++ [q]) = .outside ↔
        trailingBackslashes name.toList % 2 = 0 := by
    rw [State.after_append, after_escapeWith_of_staysWithin hne h]
    split <;> simp_all [State.after, State.next]
  rw [toList_quoteEscaped, token_between_iff hq]
  constructor
  · rintro ⟨hstays, hclosed⟩
    exact ⟨(staysWithin_escapeWith_iff hne _).mp hstays, (closes hstays).mp hclosed⟩
  · rintro ⟨hquotes, hending⟩
    have hstays := (staysWithin_escapeWith_iff hne _).mpr hquotes
    exact ⟨hstays, (closes hstays).mpr hending⟩

theorem countFrom_of_token (hq : isQuote q = true) {inner : List Char} (h : Token q (q :: inner ++ [q])) :
    countFrom .outside (q :: inner ++ [q]) = 0 := by
  have hinner := countFrom_of_staysWithin ((token_between_iff hq inner).mp h).1
  rw [List.cons_append, countFrom, next_opening hq, countFrom_append, hinner]
  simp [countFrom, ne_mark hq]

end SqlDialect.Scan

namespace SqlDialect.Dialect

open Scan

/-- A name is written as one token if and only if the backslashes before each backtick in it, and those at
its end, come in pairs; and then what follows it is read as if it stood alone. -/
theorem token_quote_iff (name : String) :
    (Scan.Token '\x60' (bigQuery.quote name).toList ↔ Paired '\x60' name.toList) ∧
      (Paired '\x60' name.toList → ∀ rest : String,
        countPlaceholders (bigQuery.quote name ++ rest) = countPlaceholders rest ∧
          mask (bigQuery.quote name ++ rest).toList =
            mask (bigQuery.quote name).toList ++ mask rest.toList) := by
  have htoken : Scan.Token '\x60' (bigQuery.quote name).toList ↔ Paired '\x60' name.toList :=
    token_quoteEscaped_iff rfl name
  refine ⟨htoken, fun hpaired rest => ?_⟩
  have hclosed := (htoken.mpr hpaired).closed
  have hcount : countFrom .outside (bigQuery.quote name).toList = 0 := by
    have hbetween : (bigQuery.quote name).toList = _ := toList_quoteEscaped '\x60' name
    rw [hbetween] at htoken ⊢
    exact countFrom_of_token rfl (htoken.mpr hpaired)
  simp only [countPlaceholders, String.toList_append]
  exact ⟨by rw [countFrom_append, hcount, hclosed, Nat.zero_add], mask_append hclosed _⟩

/-- A backslash at the end of a name takes the closing backtick along; one before a backtick inside of the
name leaves that backtick to close. -/
theorem quote_not_token :
    ¬ Scan.Token '\x60' (bigQuery.quote "a\\").toList ∧
      ¬ Scan.Token '\x60' (bigQuery.quote "a\\\x60b").toList := by
  constructor
  · intro h
    exact absurd h.closed (by decide)
  · intro h
    exact h.within ['\x60', 'a', '\\', '\\', '\x60'] ⟨_, rfl⟩ (by decide) (by decide)

end SqlDialect.Dialect
