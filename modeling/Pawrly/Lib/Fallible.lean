import Mathlib.Tactic.Common
import Mathlib.Data.List.Forall2

/-!
# Inverting fallible computations

Rules for programs in `Except ε`: what the success of a bind, of a loop that collects results
(`mapM`) and of a loop with an accumulator (`foldlM`) says about the steps.
-/

namespace Fallible

universe u v

variable {ε : Type u} {α β σ : Type v}

lemma bind_eq_ok {x : Except ε α} {f : α → Except ε β} {b : β} :
    (x >>= f) = .ok b ↔ ∃ a, x = .ok a ∧ f a = .ok b := by
  cases x with
  | error e => simp [bind, Except.bind]
  | ok a => simp [bind, Except.bind]

lemma bind_eq_error {x : Except ε α} {f : α → Except ε β} {e : ε} (h : x = .error e) :
    (x >>= f) = .error e := by
  rw [h]
  rfl

lemma mapError_eq_ok {δ : Type*} {x : Except ε α} {f : ε → δ} {a : α} :
    x.mapError f = .ok a ↔ x = .ok a := by
  cases x <;> simp [Except.mapError]

lemma ite_error_eq_ok {p : Prop} [Decidable p] {e : ε} {x : Except ε α} {a : α} :
    (if p then .error e else x) = .ok a ↔ ¬ p ∧ x = .ok a := by
  split_ifs with h <;> simp [h]

/-- A collecting loop succeeds exactly when every turn does, in order. -/
lemma mapM_eq_ok_iff {f : α → Except ε β} {l : List α} {r : List β} :
    l.mapM f = .ok r ↔ List.Forall₂ (fun a b => f a = .ok b) l r := by
  induction l generalizing r with
  | nil =>
      simp only [List.mapM_nil, List.forall₂_nil_left_iff]
      exact ⟨fun h => by cases h; rfl, fun h => by rw [h]; rfl⟩
  | cons a l ih =>
      rw [List.mapM_cons, bind_eq_ok]
      constructor
      · rintro ⟨b, hb, h⟩
        obtain ⟨bs, hbs, h'⟩ := Iff.mp bind_eq_ok h
        cases h'
        exact .cons hb (ih.mp hbs)
      · intro h
        cases h with
        | cons hb hbs =>
            exact ⟨_, hb, Iff.mpr bind_eq_ok ⟨_, ih.mpr hbs, rfl⟩⟩

/-- A collecting loop succeeds when every turn does. -/
lemma mapM_ok_iff {f : α → Except ε β} {l : List α} :
    (∃ r, l.mapM f = .ok r) ↔ ∀ a ∈ l, ∃ b, f a = .ok b := by
  induction l with
  | nil => exact ⟨fun _ => List.forall_mem_nil _, fun _ => ⟨[], rfl⟩⟩
  | cons a l ih =>
      rw [List.forall_mem_cons, ← ih, List.mapM_cons]
      constructor
      · rintro ⟨r, hr⟩
        obtain ⟨b, hb, hr⟩ := Iff.mp bind_eq_ok hr
        obtain ⟨bs, hbs, _⟩ := Iff.mp bind_eq_ok hr
        exact ⟨⟨b, hb⟩, bs, hbs⟩
      · rintro ⟨⟨b, hb⟩, bs, hbs⟩
        exact ⟨b :: bs, Iff.mpr bind_eq_ok ⟨b, hb, Iff.mpr bind_eq_ok ⟨bs, hbs, rfl⟩⟩⟩

/-- When each turn succeeds with a related result, the loop does. -/
lemma mapM_forall₂ {f : α → Except ε β} {R : α → β → Prop} {l : List α}
    (h : ∀ a ∈ l, ∃ b, f a = .ok b ∧ R a b) : ∃ r, l.mapM f = .ok r ∧ List.Forall₂ R l r := by
  induction l with
  | nil => exact ⟨[], rfl, .nil⟩
  | cons a l ih =>
      rw [List.forall_mem_cons] at h
      obtain ⟨⟨b, hb, hR⟩, h⟩ := h
      obtain ⟨r, hr, hrel⟩ := ih h
      refine ⟨b :: r, ?_, .cons hR hrel⟩
      rw [List.mapM_cons]
      exact Iff.mpr bind_eq_ok ⟨b, hb, Iff.mpr bind_eq_ok ⟨r, hr, rfl⟩⟩

lemma mapM_eq_nil_iff {f : α → Except ε β} {l : List α} {r : List β} (h : l.mapM f = .ok r) :
    r = [] ↔ l = [] := by
  have hlen := (Iff.mp mapM_eq_ok_iff h).length_eq
  rw [← List.length_eq_zero_iff, ← hlen, List.length_eq_zero_iff]

lemma exists_right {R : α → β → Prop} {l : List α} {r : List β} (h : List.Forall₂ R l r)
    {a : α} (ha : a ∈ l) : ∃ b ∈ r, R a b := by
  induction h with
  | nil => cases ha
  | @cons a' b l r hab _ ih =>
      rcases List.mem_cons.mp ha with rfl | hmem
      · exact ⟨b, List.mem_cons_self, hab⟩
      · obtain ⟨b', hb', hR⟩ := ih hmem
        exact ⟨b', List.mem_cons_of_mem _ hb', hR⟩

lemma exists_left {R : α → β → Prop} {l : List α} {r : List β} (h : List.Forall₂ R l r)
    {b : β} (hb : b ∈ r) : ∃ a ∈ l, R a b :=
  exists_right (R := fun b a => R a b) h.flip hb

lemma mem_of_mapM {f : α → Except ε β} {l : List α} {r : List β} (h : l.mapM f = .ok r)
    {b : β} (hb : b ∈ r) : ∃ a ∈ l, f a = .ok b :=
  exists_left (Iff.mp mapM_eq_ok_iff h) hb

lemma exists_of_mapM {f : α → Except ε β} {l : List α} {r : List β} (h : l.mapM f = .ok r)
    {a : α} (ha : a ∈ l) : ∃ b ∈ r, f a = .ok b :=
  exists_right (Iff.mp mapM_eq_ok_iff h) ha

/-- The turns of a collecting loop by their numbers. -/
lemma getElem?_of_mapM {f : α → Except ε β} {l : List α} {r : List β} (h : l.mapM f = .ok r)
    {i : ℕ} {a : α} (ha : l[i]? = some a) : ∃ b, r[i]? = some b ∧ f a = .ok b := by
  have h₂ := Iff.mp mapM_eq_ok_iff h
  clear h
  induction h₂ generalizing i with
  | nil => cases ha
  | cons hab _ ih =>
      cases i with
      | zero =>
          cases ha
          exact ⟨_, rfl, hab⟩
      | succ i => exact ih ha

/-- Two collecting loops over one list: when each turn of the first comes with a related turn
of the second, the second succeeds as well and the results are related in order. -/
lemma mapM_relate {γ : Type v} {f : α → Except ε β} {g : α → Except ε γ} {R : γ → β → Prop}
    {l : List α} {r : List β} (h : l.mapM f = .ok r)
    (hR : ∀ a b, f a = .ok b → ∃ c, g a = .ok c ∧ R c b) :
    ∃ cs, l.mapM g = .ok cs ∧ List.Forall₂ R cs r := by
  have h₂ := Iff.mp mapM_eq_ok_iff h
  clear h
  induction h₂ with
  | nil => exact ⟨[], rfl, .nil⟩
  | cons hab _ ih =>
      obtain ⟨c, hc, hcb⟩ := hR _ _ hab
      obtain ⟨cs, hcs, hR'⟩ := ih
      refine ⟨c :: cs, ?_, .cons hcb hR'⟩
      rw [List.mapM_cons]
      exact Iff.mpr bind_eq_ok ⟨c, hc, Iff.mpr bind_eq_ok ⟨cs, hcs, rfl⟩⟩

/-- A collecting loop whose turns give the same results. -/
lemma mapM_imp {f g : α → Except ε β} {l : List α} {r : List β} (h : l.mapM f = .ok r)
    (hfg : ∀ a ∈ l, ∀ b, f a = .ok b → g a = .ok b) : l.mapM g = .ok r := by
  rw [mapM_eq_ok_iff] at h ⊢
  induction h with
  | nil => exact .nil
  | cons hab _ ih =>
      exact .cons (hfg _ List.mem_cons_self _ hab)
        (ih fun a ha => hfg a (List.mem_cons_of_mem _ ha))

/-- A collecting loop whose turns are the same. -/
lemma mapM_congr {f g : α → Except ε β} {l : List α} (h : ∀ a ∈ l, f a = g a) :
    l.mapM f = l.mapM g := by
  induction l with
  | nil => rfl
  | cons a l ih =>
      rw [List.mapM_cons, List.mapM_cons, h a List.mem_cons_self,
        ih fun b hb => h b (List.mem_cons_of_mem a hb)]

/-- A collecting loop all of whose turns give a left result. -/
lemma mapM_inl {γ : Type v} {f : α → Except ε (β ⊕ γ)} {g : α → Except ε β} {l : List α}
    {r : List (β ⊕ γ)} (h : l.mapM f = .ok r)
    (hfg : ∀ a ∈ l, ∀ b, f a = .ok b → ∃ c, b = .inl c ∧ g a = .ok c) :
    l.mapM g = .ok (r.filterMap Sum.getLeft?) ∧ r.filterMap Sum.getRight? = [] := by
  rw [mapM_eq_ok_iff] at h ⊢
  induction h with
  | nil => exact ⟨.nil, rfl⟩
  | cons hab _ ih =>
      obtain ⟨c, rfl, hc⟩ := hfg _ List.mem_cons_self _ hab
      obtain ⟨hleft, hright⟩ := ih fun a ha => hfg a (List.mem_cons_of_mem _ ha)
      exact ⟨.cons hc hleft, hright⟩

/-- When a projection of each result is a function of its input, the projected results are
the image of the inputs. -/
lemma map_of_mapM {γ : Type*} {f : α → Except ε β} {l : List α} {r : List β}
    (h : l.mapM f = .ok r) {g : β → γ} {k : α → γ} (hg : ∀ a b, f a = .ok b → g b = k a) :
    r.map g = l.map k := by
  have h₂ := Iff.mp mapM_eq_ok_iff h
  clear h
  induction h₂ with
  | nil => rfl
  | cons hab _ ih => rw [List.map_cons, List.map_cons, ih, hg _ _ hab]

/-- A loop keeps what each of its turns keeps. -/
lemma foldlM_induction {f : σ → α → Except ε σ} {P : σ → Prop} {l : List α} {s s' : σ}
    (h : l.foldlM f s = .ok s') (hs : P s)
    (hstep : ∀ s a s', a ∈ l → f s a = .ok s' → P s → P s') : P s' := by
  induction l generalizing s with
  | nil => cases h; exact hs
  | cons a l ih =>
      rw [List.foldlM_cons] at h
      obtain ⟨t, ht, hl⟩ := Iff.mp bind_eq_ok h
      refine ih hl (hstep s a t List.mem_cons_self ht hs) ?_
      intro s₁ b s₂ hb
      exact hstep s₁ b s₂ (List.mem_cons_of_mem _ hb)

/-- What one turn establishes and the later turns keep holds at the end of the loop. -/
lemma foldlM_exists {f : σ → α → Except ε σ} {Q : α → σ → Prop} {l : List α} {s s' : σ}
    (h : l.foldlM f s = .ok s') (hset : ∀ s a s', f s a = .ok s' → Q a s')
    (hkeep : ∀ s a s' b, f s a = .ok s' → Q b s → Q b s') :
    ∀ a ∈ l, Q a s' := by
  induction l generalizing s with
  | nil => intro a ha; cases ha
  | cons b l ih =>
      rw [List.foldlM_cons] at h
      obtain ⟨t, ht, hl⟩ := Iff.mp bind_eq_ok h
      intro a ha
      rcases List.mem_cons.mp ha with rfl | hmem
      · exact foldlM_induction hl (hset s a t ht)
          (fun s₁ c s₂ _ hc hq => hkeep s₁ c s₂ a hc hq)
      · exact ih hl a hmem

/-! ## Kinds of errors -/

/-- Every error of a computation is of one kind. -/
def FailsWith (Q : ε → Prop) (x : Except ε α) : Prop := ∀ e, x = .error e → Q e

section

variable {Q : ε → Prop}

lemma FailsWith.ok (a : α) : FailsWith Q (.ok a : Except ε α) := by
  intro e h
  cases h

lemma FailsWith.error {e : ε} (h : Q e) : FailsWith Q (.error e : Except ε α) := by
  rintro _ ⟨⟩
  exact h

lemma FailsWith.bind {x : Except ε α} {f : α → Except ε β} (hx : FailsWith Q x)
    (hf : ∀ a, FailsWith Q (f a)) : FailsWith Q (x >>= f) := by
  cases x with
  | error e => exact .error (hx e rfl)
  | ok a => exact hf a

lemma FailsWith.mapError {δ : Type*} {x : Except δ α} {f : δ → ε} (h : ∀ e, Q (f e)) :
    FailsWith Q (x.mapError f) := by
  cases x with
  | error e => exact .error (h e)
  | ok a => exact .ok a

lemma FailsWith.mapM {f : α → Except ε β} (h : ∀ a, FailsWith Q (f a)) (l : List α) :
    FailsWith Q (l.mapM f) := by
  induction l with
  | nil => exact .ok []
  | cons a l ih =>
      rw [List.mapM_cons]
      exact (h a).bind fun b => ih.bind fun bs => .ok (b :: bs)

end

end Fallible
