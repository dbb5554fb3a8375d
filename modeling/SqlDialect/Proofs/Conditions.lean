/-!
Conditions as they are read: `not` binds tighter than `and`, and `and` tighter than `or`. A condition is
a tree of the grammar with these three levels. The words of a text determine what it means, and words
joined by `and` or `or` are read as a condition that regroups the parts.
-/
set_option autoImplicit false

namespace SqlDialect

inductive Token where
  | column (word : List Char)
  | and
  | or
  | not
  | opens
  | closes
  deriving DecidableEq

mutual
inductive Factor where
  | column (word : List Char)
  | group (c : Condition)
  | not (f : Factor)

inductive Conjunction where
  | single (f : Factor)
  | and (c : Conjunction) (f : Factor)

inductive Condition where
  | only (c : Conjunction)
  | or (d : Condition) (c : Conjunction)
end

mutual
def Factor.tokens : Factor → List Token
  | .column word => [.column word]
  | .group c => .opens :: c.tokens ++ [.closes]
  | .not f => .not :: f.tokens

def Conjunction.tokens : Conjunction → List Token
  | .single f => f.tokens
  | .and c f => c.tokens ++ .and :: f.tokens

def Condition.tokens : Condition → List Token
  | .only c => c.tokens
  | .or d c => d.tokens ++ .or :: c.tokens
end

mutual
def Factor.eval (σ : List Char → Bool) : Factor → Bool
  | .column word => σ word
  | .group c => c.eval σ
  | .not f => !f.eval σ

def Conjunction.eval (σ : List Char → Bool) : Conjunction → Bool
  | .single f => f.eval σ
  | .and c f => c.eval σ && f.eval σ

def Condition.eval (σ : List Char → Bool) : Condition → Bool
  | .only c => c.eval σ
  | .or d c => d.eval σ || c.eval σ
end

mutual
def Factor.columns : Factor → List (List Char)
  | .column word => [word]
  | .group c => c.columns
  | .not f => f.columns

def Conjunction.columns : Conjunction → List (List Char)
  | .single f => f.columns
  | .and c f => c.columns ++ f.columns

def Condition.columns : Condition → List (List Char)
  | .only c => c.columns
  | .or d c => d.columns ++ c.columns
end

/-- A condition that has been read in part: whether one of its finished conjunctions holds, whether the
current one holds so far, and whether the next factor is negated. -/
structure Frame where
  earlier : Bool := false
  current : Bool := true
  negated : Bool := false

def Frame.value (fr : Frame) : Bool :=
  fr.earlier || fr.current

def Frame.take (fr : Frame) (v : Bool) : Frame :=
  { fr with current := fr.current && (v != fr.negated), negated := false }

/-- The value of words, with a frame for each bracket that is open. -/
def evalTokens (σ : List Char → Bool) : List Frame → Frame → List Token → Bool
  | _, fr, [] => fr.value
  | fs, fr, .column word :: ts => evalTokens σ fs (fr.take (σ word)) ts
  | fs, fr, .not :: ts => evalTokens σ fs { fr with negated := !fr.negated } ts
  | fs, fr, .and :: ts => evalTokens σ fs fr ts
  | fs, fr, .or :: ts => evalTokens σ fs { earlier := fr.value } ts
  | fs, fr, .opens :: ts => evalTokens σ (fr :: fs) {} ts
  | outer :: fs, fr, .closes :: ts => evalTokens σ fs (outer.take fr.value) ts
  | [], fr, .closes :: ts => evalTokens σ [] fr ts

theorem Frame.take_not (fr : Frame) (v : Bool) :
    { fr with negated := !fr.negated }.take v = fr.take (!v) := by
  simp [take]

theorem Frame.take_take {fr : Frame} (h : fr.negated = false) (v w : Bool) :
    (fr.take v).take w = fr.take (v && w) := by
  simp [take, h, Bool.and_assoc]

theorem Frame.value_take (earlier v : Bool) : (Frame.take { earlier } v).value = (earlier || v) := by
  simp [take, value]

section

variable (σ : List Char → Bool)

mutual
theorem Factor.evalTokens_append (f : Factor) (fs : List Frame) (fr : Frame) (ts : List Token) :
    evalTokens σ fs fr (f.tokens ++ ts) = evalTokens σ fs (fr.take (f.eval σ)) ts := by
  match f with
  | .column word => rfl
  | .group c =>
    obtain ⟨inner, hread, hvalue⟩ := c.evalTokens_append (fr :: fs) false (.closes :: ts)
    calc evalTokens σ fs fr ((Factor.group c).tokens ++ ts)
        = evalTokens σ (fr :: fs) {} (c.tokens ++ .closes :: ts) := by simp [Factor.tokens, evalTokens]
      _ = evalTokens σ fs (fr.take inner.value) ts := hread
      _ = evalTokens σ fs (fr.take (c.eval σ)) ts := by rw [hvalue, Bool.false_or]
  | .not f =>
    have hf := f.evalTokens_append fs { fr with negated := !fr.negated } ts
    rw [Frame.take_not] at hf
    exact hf

theorem Conjunction.evalTokens_append (c : Conjunction) (fs : List Frame) (fr : Frame)
    (h : fr.negated = false) (ts : List Token) :
    evalTokens σ fs fr (c.tokens ++ ts) = evalTokens σ fs (fr.take (c.eval σ)) ts := by
  match c with
  | .single f => exact f.evalTokens_append fs fr ts
  | .and c f =>
    calc evalTokens σ fs fr ((Conjunction.and c f).tokens ++ ts)
        = evalTokens σ fs fr (c.tokens ++ .and :: (f.tokens ++ ts)) := by simp [Conjunction.tokens]
      _ = evalTokens σ fs (fr.take (c.eval σ)) (f.tokens ++ ts) := c.evalTokens_append fs fr h _
      _ = evalTokens σ fs ((fr.take (c.eval σ)).take (f.eval σ)) ts := f.evalTokens_append fs _ ts
      _ = evalTokens σ fs (fr.take (c.eval σ && f.eval σ)) ts := by rw [Frame.take_take h]

theorem Condition.evalTokens_append (c : Condition) (fs : List Frame) (earlier : Bool)
    (ts : List Token) :
    ∃ fr : Frame, evalTokens σ fs { earlier } (c.tokens ++ ts) = evalTokens σ fs fr ts ∧
      fr.value = (earlier || c.eval σ) := by
  match c with
  | .only c =>
    have hc := c.evalTokens_append fs { earlier } rfl ts
    exact ⟨_, hc, Frame.value_take earlier (c.eval σ)⟩
  | .or d c =>
    obtain ⟨fr, hd, hvalue⟩ := d.evalTokens_append fs earlier (.or :: (c.tokens ++ ts))
    have hc := c.evalTokens_append fs { earlier := fr.value } rfl ts
    refine ⟨Frame.take { earlier := fr.value } (c.eval σ), ?_, ?_⟩
    · rw [Condition.tokens, List.append_assoc]
      exact hd.trans hc
    · rw [Frame.value_take, hvalue, Bool.or_assoc]
      rfl
end

theorem Condition.evalTokens_tokens (c : Condition) : evalTokens σ [] {} c.tokens = c.eval σ := by
  obtain ⟨fr, hread, hvalue⟩ := c.evalTokens_append σ [] false []
  rw [List.append_nil] at hread
  rw [hread, ← Bool.false_or (c.eval σ), ← hvalue]
  rfl

/-- The grammar leaves no choice: conditions that are written alike mean the same. -/
theorem Condition.eval_eq_of_tokens_eq {c d : Condition} (h : c.tokens = d.tokens) :
    c.eval σ = d.eval σ := by
  rw [← c.evalTokens_tokens, ← d.evalTokens_tokens, h]

end

def Conjunction.andThen (a : Conjunction) : Conjunction → Conjunction
  | .single f => .and a f
  | .and b f => .and (a.andThen b) f

def Conjunction.negate : Conjunction → Conjunction
  | .single f => .single (.not f)
  | .and c f => .and c.negate f

namespace Condition

def isOr : Condition → Bool
  | .only _ => false
  | .or _ _ => true

def andLast : Condition → Conjunction → Condition
  | .only a, c => .only (a.andThen c)
  | .or d a, c => .or d (a.andThen c)

/-- What is read where `and` stands between two texts: the last part of the first and the first part of the
second are taken together. -/
def conjoin (a : Condition) : Condition → Condition
  | .only c => a.andLast c
  | .or b c => .or (a.conjoin b) c

def disjoin (a : Condition) : Condition → Condition
  | .only c => .or a c
  | .or b c => .or (a.disjoin b) c

def negate : Condition → Condition
  | .only c => .only c.negate
  | .or d c => .or d.negate c

def conjoinAll (c : Condition) : List Condition → Condition
  | [] => c
  | k :: ks => c.conjoin (k.conjoinAll ks)

end Condition

theorem Conjunction.tokens_andThen (a b : Conjunction) :
    (a.andThen b).tokens = a.tokens ++ .and :: b.tokens := by
  match b with
  | .single f => rfl
  | .and b f =>
    have hb := tokens_andThen a b
    simp [andThen, tokens, hb]

theorem Conjunction.tokens_negate (c : Conjunction) : c.negate.tokens = .not :: c.tokens := by
  match c with
  | .single f => rfl
  | .and c f =>
    have hc := tokens_negate c
    simp [negate, tokens, hc]

namespace Condition

theorem tokens_andLast (a : Condition) (c : Conjunction) :
    (a.andLast c).tokens = a.tokens ++ .and :: c.tokens := by
  cases a with
  | only a => exact a.tokens_andThen c
  | or d a => simp [andLast, tokens, a.tokens_andThen c]

theorem tokens_conjoin (a b : Condition) : (a.conjoin b).tokens = a.tokens ++ .and :: b.tokens := by
  match b with
  | .only c => exact a.tokens_andLast c
  | .or b c =>
    have hb := tokens_conjoin a b
    simp [conjoin, tokens, hb]

theorem tokens_disjoin (a b : Condition) : (a.disjoin b).tokens = a.tokens ++ .or :: b.tokens := by
  match b with
  | .only c => rfl
  | .or b c =>
    have hb := tokens_disjoin a b
    simp [disjoin, tokens, hb]

theorem tokens_negate (c : Condition) : c.negate.tokens = .not :: c.tokens := by
  match c with
  | .only c => exact c.tokens_negate
  | .or d c =>
    have hd := tokens_negate d
    simp [negate, tokens, hd]

end Condition

section

variable (σ : List Char → Bool)

theorem Conjunction.eval_andThen (a b : Conjunction) :
    (a.andThen b).eval σ = (a.eval σ && b.eval σ) := by
  match b with
  | .single f => rfl
  | .and b f =>
    have hb := eval_andThen a b
    simp [andThen, eval, hb, Bool.and_assoc]

theorem Conjunction.columns_andThen (a b : Conjunction) :
    (a.andThen b).columns = a.columns ++ b.columns := by
  match b with
  | .single f => rfl
  | .and b f =>
    have hb := columns_andThen a b
    simp [andThen, columns, hb]

namespace Condition

theorem columns_conjoin (a b : Condition) : (a.conjoin b).columns = a.columns ++ b.columns := by
  match b with
  | .only c =>
    cases a with
    | only a => exact a.columns_andThen c
    | or d a => simp [conjoin, andLast, columns, a.columns_andThen c]
  | .or b c =>
    have hb := columns_conjoin a b
    simp [conjoin, columns, hb]

theorem isOr_conjoin (a b : Condition) : (a.conjoin b).isOr = (a.isOr || b.isOr) := by
  cases b with
  | only c => cases a <;> rfl
  | or b c => simp [conjoin, isOr]

/-- What is added to a condition is part of its last conjunction and of what follows it. -/
theorem eval_conjoin_of_first {d : Condition} (h : d.eval σ = true) (a : Conjunction) (b : Condition) :
    ((Condition.or d a).conjoin b).eval σ = true := by
  match b with
  | .only c => simp [conjoin, andLast, eval, h]
  | .or b c =>
    have hb := eval_conjoin_of_first h a b
    simp [conjoin, eval, hb]

theorem eval_conjoin_of_both {a b : Condition} (ha : a.eval σ = true) (hb : b.eval σ = true) :
    (a.conjoin b).eval σ = true := by
  match b with
  | .only c =>
    have hc : c.eval σ = true := hb
    cases a with
    | only a => simpa [conjoin, andLast, eval, a.eval_andThen, hc] using ha
    | or d a => simpa [conjoin, andLast, eval, a.eval_andThen, hc] using ha
  | .or b c =>
    simp only [eval, Bool.or_eq_true] at hb
    rcases hb with hb | hc
    · simp [conjoin, eval, eval_conjoin_of_both ha hb]
    · simp [conjoin, eval, hc]

theorem eval_conjoin_of_not_or {a b : Condition} (ha : a.isOr = false) (hb : b.isOr = false) :
    (a.conjoin b).eval σ = (a.eval σ && b.eval σ) := by
  cases a with
  | or d a => contradiction
  | only a =>
    cases b with
    | or b c => contradiction
    | only c => exact a.eval_andThen σ c

theorem isOr_conjoinAll (c : Condition) (ks : List Condition) :
    (c.conjoinAll ks).isOr = (c :: ks).any isOr := by
  induction ks generalizing c with
  | nil => simp [conjoinAll]
  | cons k ks ih => rw [conjoinAll, isOr_conjoin, ih, List.any_cons (l := k :: ks)]

theorem columns_conjoinAll (c : Condition) (ks : List Condition) :
    (c.conjoinAll ks).columns = (c :: ks).flatMap columns := by
  induction ks generalizing c with
  | nil => simp [conjoinAll]
  | cons k ks ih =>
    rw [conjoinAll, columns_conjoin, ih]
    rfl

theorem eval_conjoinAll_of_all {c : Condition} {ks : List Condition}
    (h : ∀ k ∈ c :: ks, k.eval σ = true) : (c.conjoinAll ks).eval σ = true := by
  induction ks generalizing c with
  | nil => exact h c List.mem_cons_self
  | cons k ks ih =>
    obtain ⟨hc, hks⟩ := List.forall_mem_cons.mp h
    exact eval_conjoin_of_both σ hc (ih hks)

theorem eval_conjoinAll_of_not_or {c : Condition} {ks : List Condition}
    (h : (c :: ks).any isOr = false) : (c.conjoinAll ks).eval σ = (c :: ks).all (·.eval σ) := by
  induction ks generalizing c with
  | nil => simp [conjoinAll]
  | cons k ks ih =>
    rw [List.any_cons, Bool.or_eq_false_iff] at h
    have hks : (k.conjoinAll ks).isOr = false := by rw [isOr_conjoinAll]; exact h.2
    rw [conjoinAll, eval_conjoin_of_not_or σ h.1 hks, ih h.2, List.all_cons (l := k :: ks)]

end Condition

end

section

variable {σ τ : List Char → Bool}

mutual
theorem Factor.eval_congr (f : Factor) (h : ∀ x ∈ f.columns, σ x = τ x) : f.eval σ = f.eval τ := by
  match f with
  | .column word => exact h word List.mem_cons_self
  | .group c => exact c.eval_congr h
  | .not f => exact congrArg Bool.not (f.eval_congr h)

theorem Conjunction.eval_congr (c : Conjunction) (h : ∀ x ∈ c.columns, σ x = τ x) :
    c.eval σ = c.eval τ := by
  match c with
  | .single f => exact f.eval_congr h
  | .and c f =>
    obtain ⟨hc, hf⟩ := List.forall_mem_append.mp h
    rw [Conjunction.eval, Conjunction.eval, c.eval_congr hc, f.eval_congr hf]

theorem Condition.eval_congr (c : Condition) (h : ∀ x ∈ c.columns, σ x = τ x) :
    c.eval σ = c.eval τ := by
  match c with
  | .only c => exact c.eval_congr h
  | .or d c =>
    obtain ⟨hd, hc⟩ := List.forall_mem_append.mp h
    rw [Condition.eval, Condition.eval, d.eval_congr hd, c.eval_congr hc]
end

theorem exists_agree {xs ys : List (List Char)} (h : (xs ++ ys).Nodup) (σ τ : List Char → Bool) :
    ∃ ρ : List Char → Bool, (∀ x ∈ xs, ρ x = σ x) ∧ ∀ y ∈ ys, ρ y = τ y := by
  refine ⟨fun x => if x ∈ xs then σ x else τ x, fun x hx => if_pos hx, fun y hy => if_neg ?_⟩
  intro hx
  exact (List.nodup_append.mp h).2.2 y hx y hy rfl

end

mutual
theorem Factor.exists_eval (f : Factor) (h : f.columns.Nodup) (v : Bool) : ∃ σ, f.eval σ = v := by
  match f with
  | .column word => exact ⟨fun _ => v, rfl⟩
  | .group c => exact c.exists_eval h v
  | .not f =>
    obtain ⟨σ, hσ⟩ := f.exists_eval h (!v)
    exact ⟨σ, by simp [Factor.eval, hσ]⟩

theorem Conjunction.exists_eval (c : Conjunction) (h : c.columns.Nodup) (v : Bool) :
    ∃ σ, c.eval σ = v := by
  match c with
  | .single f => exact f.exists_eval h v
  | .and c f =>
    obtain ⟨hc, hf, _⟩ := List.nodup_append.mp h
    obtain ⟨σ, hσ⟩ := c.exists_eval hc v
    obtain ⟨τ, hτ⟩ := f.exists_eval hf v
    obtain ⟨ρ, hρσ, hρτ⟩ := exists_agree h σ τ
    exact ⟨ρ, by simp [Conjunction.eval, c.eval_congr hρσ, f.eval_congr hρτ, hσ, hτ]⟩

theorem Condition.exists_eval (c : Condition) (h : c.columns.Nodup) (v : Bool) :
    ∃ σ, c.eval σ = v := by
  match c with
  | .only c => exact c.exists_eval h v
  | .or d c =>
    obtain ⟨hd, hc, _⟩ := List.nodup_append.mp h
    obtain ⟨σ, hσ⟩ := d.exists_eval hd v
    obtain ⟨τ, hτ⟩ := c.exists_eval hc v
    obtain ⟨ρ, hρσ, hρτ⟩ := exists_agree h σ τ
    exact ⟨ρ, by simp [Condition.eval, d.eval_congr hρσ, c.eval_congr hρτ, hσ, hτ]⟩
end

/-- An `or` outside of brackets is enough for the joined text to hold where one of its parts does not. -/
theorem Condition.exists_eval_conjoinAll {c k : Condition} {ks : List Condition}
    (h : (c :: k :: ks).any isOr = true) (hn : ((c :: k :: ks).flatMap columns).Nodup) :
    ∃ σ, (c.conjoinAll (k :: ks)).eval σ = true ∧ (c :: k :: ks).all (·.eval σ) = false := by
  cases c with
  | or d a =>
    have hdk : (d.columns ++ k.columns).Nodup :=
      hn.sublist ((List.sublist_append_left _ _).append (List.sublist_append_left _ _))
    obtain ⟨hd, hk, _⟩ := List.nodup_append.mp hdk
    obtain ⟨σ, hσ⟩ := d.exists_eval hd true
    obtain ⟨τ, hτ⟩ := k.exists_eval hk false
    obtain ⟨ρ, hρσ, hρτ⟩ := exists_agree hdk σ τ
    have first : d.eval ρ = true := (d.eval_congr hρσ).trans hσ
    have second : k.eval ρ = false := (k.eval_congr hρτ).trans hτ
    exact ⟨ρ, eval_conjoin_of_first ρ first a _, by simp [second]⟩
  | only a =>
    have hrest : (k.conjoinAll ks).isOr = true := by
      rw [isOr_conjoinAll]
      exact h
    have hcols : (a.columns ++ (k.conjoinAll ks).columns).Nodup := by
      rw [columns_conjoinAll]
      exact hn
    rw [conjoinAll]
    cases hx : k.conjoinAll ks with
    | only x => simp [hx, isOr] at hrest
    | or d x =>
      rw [hx] at hcols
      have hax : (a.columns ++ x.columns).Nodup :=
        hcols.sublist ((List.Sublist.refl _).append (List.sublist_append_right _ _))
      obtain ⟨ha, hx, _⟩ := List.nodup_append.mp hax
      obtain ⟨σ, hσ⟩ := a.exists_eval ha false
      obtain ⟨τ, hτ⟩ := x.exists_eval hx true
      obtain ⟨ρ, hρσ, hρτ⟩ := exists_agree hax σ τ
      have first : a.eval ρ = false := (a.eval_congr hρσ).trans hσ
      have last : x.eval ρ = true := (x.eval_congr hρτ).trans hτ
      exact ⟨ρ, by simp [conjoin, eval, last], by simp [eval, first]⟩

/-- How a condition that was read from a joined text compares to the conditions that were joined. -/
structure Condition.Joins (c : Condition) (ks : List Condition) : Prop where
  implied : ∀ σ, ks.all (·.eval σ) = true → c.eval σ = true
  agrees : ks.length = 1 ∨ ks.any isOr = false → ∀ σ, c.eval σ = ks.all (·.eval σ)
  differs : 1 < ks.length → ks.any isOr = true → (ks.flatMap columns).Nodup →
    ∃ σ, c.eval σ = true ∧ ks.all (·.eval σ) = false

theorem Condition.joins_conjoinAll (c : Condition) (ks : List Condition) :
    (c.conjoinAll ks).Joins (c :: ks) where
  implied σ h := eval_conjoinAll_of_all σ (List.all_eq_true.mp h)
  agrees h σ := by
    rcases h with one | none
    · obtain rfl : ks = [] := by simpa using one
      simp [conjoinAll]
    · exact eval_conjoinAll_of_not_or σ none
  differs h hor hn := by
    cases ks with
    | nil => exact absurd h (by simp)
    | cons k ks => exact exists_eval_conjoinAll hor hn

end SqlDialect
