import Mathlib.Data.List.Infix
import Mathlib.Data.List.Forall2

/-!
# LIKE

`like_match` of `query/sql/Engine.hpp` walks over the subject and the pattern with one place to go
back to, the last `%`. It compares for equality first, so a `%` of the subject that meets a `%` of
the pattern is taken for a match of the two bytes and the wildcard is lost. What it accepts does
match. What matches is accepted where the subject or the pattern has no `%`, and nothing less than
that will do (`likeMatch_sharp`).
-/

namespace Lockstep.Sql.Like

open List Option

/-- The byte of `%`, which matches any bytes. -/
def percent : UInt8 := 37

/-- The byte of `_`, which matches one byte. -/
def underscore : UInt8 := 95

/-- A place of the two loops: the rest of the subject and of the pattern, and behind the last `%`
the pattern and where it was tried. -/
structure Place where
  s : List UInt8
  pat : List UInt8
  star : Option (List UInt8 × List UInt8) := none
  behind : ∀ x ∈ star, pat.length ≤ x.1.length := by simp

/-- Back to the last `%`, which takes one byte more. -/
def back : Option (List UInt8 × List UInt8) → Place ⊕ Bool
  | some (pat, s) => .inl ⟨s.tail, pat, some (pat, s.tail), by simp⟩
  | none => .inr false

namespace Place

/-- One round of the loop, or its result. -/
def step : Place → Place ⊕ Bool
  | ⟨[], pat, _, _⟩ => .inr (pat.all (· == percent))
  | ⟨_ :: _, [], star, _⟩ => back star
  | ⟨c :: s, q :: pat, star, h⟩ =>
    if q = underscore ∨ q = c then
      .inl ⟨s, pat, star, fun x hx ↦ (Nat.le_succ _).trans (h x hx)⟩
    else if q = percent then .inl ⟨c :: s, pat, some (pat, c :: s), by simp⟩
    else back star

/-- The pattern behind the last `%`, the subject there, and the subject get shorter in turn. -/
def size (a : Place) : ℕ × ℕ × ℕ :=
  (a.star.elim (a.pat.length + 1) (·.1.length), a.star.elim 0 (·.2.length), a.s.length)

variable {a b : Place}

lemma step_lt (h : a.step = .inl b) :
    Prod.Lex (· < ·) (Prod.Lex (· < ·) (· < ·)) b.size a.size := by
  have hback : a.s ≠ [] → back a.star = .inl b →
      Prod.Lex (· < ·) (Prod.Lex (· < ·) (· < ·)) b.size a.size := by
    intro hs hb
    have hpos := length_pos_iff.mpr hs
    cases hstar : a.star with
    | none => simp [back, hstar] at hb
    | some x =>
      rw [hstar] at hb
      cases hb
      simp only [Prod.lex_def, size, hstar, elim_some, length_tail, lt_irrefl, false_or,
        true_and]
      omega
  obtain ⟨s, pat, star, hstar⟩ := a
  match s, pat with
  | [], _ => cases h
  | _ :: _, [] => exact hback (by simp) h
  | c :: s, q :: pat =>
    rw [step] at h
    split_ifs at h
    · cases h
      cases star <;> simp [Prod.lex_def, size]
    · cases h
      cases star with
      | none =>
        simp only [Prod.lex_def, size, elim_none, elim_some, length_cons]
        omega
      | some x => simpa [Prod.lex_def, size] using .inl (hstar x rfl)
    · exact hback (by simp) h

end Place

def likeLoop (a : Place) : Bool :=
  match _h : a.step with
  | .inl b => likeLoop b
  | .inr result => result
termination_by a.size
decreasing_by exact Place.step_lt _h

lemma likeLoop_inl {a b : Place} (h : a.step = .inl b) : likeLoop a = likeLoop b := by
  rw [likeLoop, h]

lemma likeLoop_inr {a : Place} {result : Bool} (h : a.step = .inr result) :
    likeLoop a = result := by
  rw [likeLoop, h]

def likeMatch (s pat : List UInt8) : Bool := likeLoop ⟨s, pat, none, by simp⟩

/-! ### Matching -/

inductive Matches : List UInt8 → List UInt8 → Prop
  | nil : Matches [] []
  | percent (run : List UInt8) {s pat : List UInt8} :
    Matches s pat → Matches (run ++ s) (percent :: pat)
  | underscore (c : UInt8) {s pat : List UInt8} :
    Matches s pat → Matches (c :: s) (underscore :: pat)
  | byte {c : UInt8} {s pat : List UInt8} : c ≠ Like.percent → c ≠ Like.underscore →
    Matches s pat → Matches (c :: s) (c :: pat)

variable {c q : UInt8} {s pat : List UInt8}

lemma matches_percent : Matches s (percent :: pat) ↔ ∃ t, t <:+ s ∧ Matches t pat := by
  constructor
  · intro h
    generalize hp : percent :: pat = p at h
    cases h with
    | nil => cases hp
    | percent run h =>
      cases hp
      exact ⟨_, suffix_append run _, h⟩
    | underscore c h => cases hp
    | byte hne _ h =>
      cases hp
      exact absurd rfl hne
  · rintro ⟨t, ⟨run, rfl⟩, h⟩
    exact h.percent run

lemma matches_cons (hq : q ≠ percent) :
    Matches s (q :: pat) ↔ ∃ c t, s = c :: t ∧ (q = underscore ∨ q = c) ∧ Matches t pat := by
  constructor
  · intro h
    cases h with
    | percent => exact absurd rfl hq
    | underscore c h => exact ⟨c, _, rfl, .inl rfl, h⟩
    | byte _ _ h => exact ⟨q, _, rfl, .inr rfl, h⟩
  · rintro ⟨c, t, rfl, hlit, h⟩
    by_cases hu : q = underscore
    · subst hu
      exact h.underscore c
    · obtain rfl := hlit.resolve_left hu
      exact h.byte hq hu

lemma Matches.eq_nil (h : Matches s []) : s = [] := by
  cases h
  rfl

lemma matches_nil : Matches [] pat ↔ pat.all (· == percent) = true := by
  induction pat with
  | nil => exact ⟨fun _ ↦ rfl, fun _ ↦ .nil⟩
  | cons q pat ih =>
    by_cases hq : q = percent
    · subst hq
      simp [matches_percent, ih]
    · simp [matches_cons hq, hq]

/-- Bytes of the subject that the loop takes together with bytes of the pattern, one by one. -/
def Aligned : List UInt8 → List UInt8 → Prop := Forall₂ fun c q ↦ q = underscore ∨ q = c

lemma Aligned.refl (u : List UInt8) : Aligned u u := forall₂_same.mpr fun _ _ ↦ .inr rfl

/-- No `%` of the subject can meet one of the pattern. -/
def Apart (s pat : List UInt8) : Prop := percent ∉ s ∨ percent ∉ pat

variable {u v t : List UInt8}

lemma Apart.ne_percent (h : Apart (c :: s) (q :: pat)) (hlit : q = underscore ∨ q = c) :
    q ≠ percent := by
  rintro rfl
  obtain hu | rfl := hlit
  · cases hu
  · exact h.elim (· mem_cons_self) (· mem_cons_self)

lemma Apart.mono (h : Apart s pat) {s' pat' : List UInt8} (hs : s' ⊆ s) (hpat : pat' ⊆ pat) :
    Apart s' pat' :=
  h.imp (fun hs' hmem ↦ hs' (hs hmem)) fun hpat' hmem ↦ hpat' (hpat hmem)

lemma Apart.of_append (h : Apart (u ++ s) (v ++ pat)) : Apart u v ∧ Apart s pat :=
  ⟨h.mono (subset_append_left ..) (subset_append_left ..),
    h.mono (subset_append_right ..) (subset_append_right ..)⟩

lemma matches_cons_cons (hlit : q = underscore ∨ q = c) (h : Matches s pat) :
    Matches (c :: s) (q :: pat) := by
  by_cases hq : q = percent
  · exact hq ▸ h.percent [c]
  · exact (matches_cons hq).mpr ⟨c, s, rfl, hlit, h⟩

namespace Aligned

lemma matches_append (h : Aligned u v) (hmatch : Matches s pat) : Matches (u ++ s) (v ++ pat) := by
  induction h with
  | nil => exact hmatch
  | cons hq _ ih => exact matches_cons_cons hq ih

/-- What matches a pattern that starts with the bytes taken is as long, and its rest matches. -/
lemma suffix (h : Aligned u v) (hapart : Apart u v) (hmatch : Matches t (v ++ pat)) :
    ∃ t', t' <:+ t ∧ t'.length + u.length = t.length ∧ Matches t' pat := by
  induction h generalizing t with
  | nil => exact ⟨t, suffix_rfl, rfl, hmatch⟩
  | @cons c q _ _ hq _ ih =>
    obtain ⟨c, t, rfl, -, hrest⟩ := (matches_cons (hapart.ne_percent hq)).mp hmatch
    obtain ⟨t', hsuffix, hlen, hmatch⟩ :=
      ih (hapart.mono (subset_cons_self ..) (subset_cons_self ..)) hrest
    refine ⟨t', hsuffix.trans (suffix_cons c t), ?_, hmatch⟩
    simp only [length_cons, ← hlen]
    omega

lemma of_matches_append (h : Aligned u v) (hapart : Apart u v)
    (hmatch : Matches (u ++ s) (v ++ pat)) : Matches s pat := by
  obtain ⟨t, ht, hlen, hmatch⟩ := h.suffix hapart hmatch
  rw [length_append] at hlen
  have hsuffix := suffix_of_suffix_length_le ht (suffix_append u s) (by omega)
  rwa [← hsuffix.eq_of_length (by omega)]

end Aligned

/-! ### What the loop decides -/

namespace Place

/-- What the loop is to decide from here on. -/
def Holds (a : Place) : Prop :=
  match a.star with
  | none => Matches a.s a.pat
  | some (pat, s) => ∃ t, t <:+ s ∧ Matches t pat

/-- Since the last `%` bytes were taken one by one. -/
def Tried (a : Place) : Prop :=
  ∀ x ∈ a.star, ∃ u v, x.2 = u ++ a.s ∧ x.1 = v ++ a.pat ∧ Aligned u v

protected def Apart (a : Place) : Prop :=
  Like.Apart a.s a.pat ∧ ∀ x ∈ a.star, Like.Apart x.2 x.1

/-- One round of the loop never turns a place that does not match into one that does, and it loses
no match as long as no two `%` can meet. -/
def Follows (a : Place) : Place ⊕ Bool → Prop
  | .inl b => b.Tried ∧ (b.Holds → a.Holds) ∧ (a.Apart → b.Apart ∧ (a.Holds → b.Holds))
  | .inr result => (result = true → a.Holds) ∧ (a.Apart → a.Holds → result = true)

variable {a b : Place}

lemma back_follows (htried : a.Tried) (hs : a.s ≠ [])
    (hfails : a.Apart → ¬ Matches a.s a.pat) : a.Follows (back a.star) := by
  obtain ⟨s, pat, star, _⟩ := a
  cases star with
  | none => exact ⟨nofun, fun hapart hmatch ↦ absurd hmatch (hfails hapart)⟩
  | some x =>
    obtain ⟨u, v, hu, hv, haligned⟩ := htried x rfl
    refine ⟨fun y hy ↦ ?_, ?_, fun hapart ↦ ⟨?_, ?_⟩⟩
    · cases hy
      exact ⟨[], [], rfl, rfl, .nil⟩
    · rintro ⟨t, ht, hmatch⟩
      exact ⟨t, ht.trans (tail_suffix _), hmatch⟩
    · have htail := (hapart.2 x rfl).mono (tail_suffix x.2).subset (Subset.refl x.1)
      exact ⟨htail, fun y hy ↦ by cases hy; exact htail⟩
    rintro ⟨t, ht, hmatch⟩
    obtain ⟨c, rest, hrest⟩ := exists_cons_of_ne_nil (l := x.2) (by simp [hu, hs])
    rw [hrest] at ht
    rcases suffix_cons_iff.mp ht with rfl | ht
    · have happend := hapart.2 x rfl
      rw [← hrest, hu, hv] at hmatch
      rw [hu, hv] at happend
      exact absurd (haligned.of_matches_append happend.of_append.1 hmatch) (hfails hapart)
    · exact ⟨t, by rwa [hrest], hmatch⟩

namespace Tried

variable (h : a.Tried)

include h

/-- A match of what is left is a match from the last `%` on. -/
lemma holds (hmatch : Matches a.s a.pat) : a.Holds := by
  obtain ⟨s, pat, star, _⟩ := a
  cases star with
  | none => exact hmatch
  | some x =>
    obtain ⟨u, v, hu, hv, haligned⟩ := h x rfl
    refine ⟨x.2, suffix_rfl, ?_⟩
    rw [hu, hv]
    exact haligned.matches_append hmatch

/-- Where no two `%` can meet, an end of what is left matches the rest of the pattern. -/
lemma exists_suffix (hapart : a.Apart) (hholds : a.Holds) :
    ∃ t, t <:+ a.s ∧ Matches t a.pat := by
  obtain ⟨s, pat, star, _⟩ := a
  cases star with
  | none => exact ⟨s, suffix_rfl, hholds⟩
  | some x =>
    obtain ⟨u, v, hu, hv, haligned⟩ := h x rfl
    obtain ⟨t, ht, hmatch⟩ := hholds
    have happend := hapart.2 x rfl
    rw [hu, hv] at happend
    rw [hv] at hmatch
    obtain ⟨t', ht', hlen, hmatch⟩ := haligned.suffix happend.of_append.1 hmatch
    have hle := ht.length_le
    rw [hu, length_append] at hle
    refine ⟨t', suffix_of_suffix_length_le (ht'.trans ht) ?_ (by omega), hmatch⟩
    rw [hu]
    exact suffix_append u _

end Tried

lemma step_follows (htried : a.Tried) : a.Follows a.step := by
  obtain ⟨s, pat, star, hbehind⟩ := a
  match s, pat with
  | [], pat =>
    rw [step, Follows, ← matches_nil]
    refine ⟨htried.holds, fun hapart hholds ↦ ?_⟩
    obtain ⟨t, ht, hmatch⟩ := htried.exists_suffix hapart hholds
    rwa [suffix_nil.mp ht] at hmatch
  | c :: s, [] => exact back_follows htried (by simp) fun _ h ↦ cons_ne_nil c s h.eq_nil
  | c :: s, q :: pat =>
    rw [step]
    split_ifs with hlit hpercent
    · have hrest : Like.Apart (c :: s) (q :: pat) → Like.Apart s pat :=
        fun h ↦ h.mono (subset_cons_self ..) (subset_cons_self ..)
      cases star with
      | none =>
        refine ⟨nofun, matches_cons_cons hlit, fun hapart ↦ ⟨⟨hrest hapart.1, nofun⟩, fun h ↦ ?_⟩⟩
        obtain ⟨c', t, heq, -, hmatch⟩ := (matches_cons (hapart.1.ne_percent hlit)).mp h
        cases heq
        exact hmatch
      | some x =>
        obtain ⟨u, v, hu, hv, haligned⟩ := htried x rfl
        refine ⟨fun y hy ↦ ?_, id, fun hapart ↦ ⟨⟨hrest hapart.1, hapart.2⟩, id⟩⟩
        cases hy
        exact ⟨u ++ [c], v ++ [q], by simp [hu], by simp [hv],
          rel_append haligned (.cons hlit .nil)⟩
    · subst hpercent
      have hrest : Like.Apart (c :: s) (percent :: pat) → Like.Apart (c :: s) pat :=
        fun h ↦ h.mono (Subset.refl _) (subset_cons_self ..)
      refine ⟨fun y hy ↦ ?_, fun h ↦ htried.holds (matches_percent.mpr h),
        fun hapart ↦ ⟨⟨hrest hapart.1, fun y hy ↦ ?_⟩, fun hholds ↦ ?_⟩⟩
      · cases hy
        exact ⟨[], [], rfl, rfl, .nil⟩
      · cases hy
        exact hrest hapart.1
      · obtain ⟨t, ht, hmatch⟩ := htried.exists_suffix hapart hholds
        obtain ⟨t', ht', hmatch⟩ := matches_percent.mp hmatch
        exact ⟨t', ht'.trans ht, hmatch⟩
    · refine back_follows htried (by simp) fun _ hmatch ↦ ?_
      obtain ⟨_, _, heq, h, -⟩ := (matches_cons hpercent).mp hmatch
      cases heq
      exact hlit h

lemma likeLoop_follows (htried : a.Tried) :
    (likeLoop a = true → a.Holds) ∧ (a.Apart → a.Holds → likeLoop a = true) := by
  induction a using likeLoop.induct with
  | case1 a b hstep ih =>
    have hfollows := a.step_follows htried
    rw [hstep] at hfollows
    obtain ⟨hb, hsound, hcomplete⟩ := hfollows
    rw [likeLoop_inl hstep]
    refine ⟨fun h ↦ hsound ((ih hb).1 h), fun hapart h ↦ ?_⟩
    exact (ih hb).2 (hcomplete hapart).1 ((hcomplete hapart).2 h)
  | case2 a result hstep =>
    have hfollows := a.step_follows htried
    rw [hstep] at hfollows
    rwa [likeLoop_inr hstep]

lemma tried_start (s pat : List UInt8) : Tried ⟨s, pat, none, by simp⟩ := by simp [Tried]

end Place

/-- Only what matches is accepted. -/
lemma matches_of_likeMatch (h : likeMatch s pat = true) : Matches s pat :=
  (Place.likeLoop_follows (Place.tried_start s pat)).1 h

lemma likeMatch_iff_of_apart (h : Apart s pat) : likeMatch s pat = true ↔ Matches s pat :=
  ⟨matches_of_likeMatch, (Place.likeLoop_follows (Place.tried_start s pat)).2 ⟨h, by simp⟩⟩

lemma likeMatch_append (h : Aligned u v) : likeMatch (u ++ s) (v ++ pat) = likeMatch s pat := by
  induction h with
  | nil => rfl
  | cons hq _ ih => exact (likeLoop_inl (by exact if_pos hq)).trans ih

lemma length_eq_of_matches (h : Matches s pat) (hpat : percent ∉ pat) :
    s.length = pat.length := by
  induction h with
  | nil => rfl
  | percent => exact absurd mem_cons_self hpat
  | underscore _ _ ih => exact congrArg (· + 1) (ih fun h ↦ hpat (mem_cons_of_mem _ h))
  | byte _ _ _ ih => exact congrArg (· + 1) (ih fun h ↦ hpat (mem_cons_of_mem _ h))

/-- Behind two `%` that have met, a rest of another length is not accepted. -/
lemma likeMatch_met (u : List UInt8) (hpat : percent ∉ pat) (hlen : s.length ≠ pat.length) :
    likeMatch (u ++ percent :: s) (u ++ percent :: pat) = false := by
  rw [append_cons u percent s, append_cons u percent pat, likeMatch_append (.refl _),
    Bool.eq_false_iff, ne_eq, likeMatch_iff_of_apart (.inr hpat)]
  exact fun h ↦ hlen (length_eq_of_matches h hpat)

lemma matches_self (s : List UInt8) : Matches s s := by
  simpa using (Aligned.refl s).matches_append .nil

lemma matches_underscores : ∀ s : List UInt8, Matches s (replicate s.length underscore)
  | [] => .nil
  | c :: s => (matches_underscores s).underscore c

end Lockstep.Sql.Like
