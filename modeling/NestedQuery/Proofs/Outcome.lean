/-!
# Chains of steps that may fail

What the success of `bind` and `map` says about the steps.

* `bind_eq_ok`, `map_eq_ok`   a chain succeeds when each of its steps does;
* `bind_ok`, `map_ok`         a step that succeeds is passed;
* `bind_eq_error`, `map_eq_error`   a chain fails as the first step that fails;
* `FailsOnly`                 a property of all failures, which chains keep;
* `Judges`                    a chain accepts some items, or fails with the first offence;
* `SameOutcome`               two chains both fail, or succeed with related results.
-/

namespace NestedQuery

universe u v w
variable {ε : Type u} {α : Type v} {β : Type w}

theorem bind_ok (a : α) (f : α → Except ε β) : (Except.ok a).bind f = f a := rfl

theorem map_ok (a : α) (f : α → β) : (Except.ok a : Except ε α).map f = .ok (f a) := rfl

theorem bind_eq_ok {x : Except ε α} {f : α → Except ε β} {b : β} :
    x.bind f = .ok b ↔ ∃ a, x = .ok a ∧ f a = .ok b := by
  cases x with
  | error e =>
    constructor
    · intro h
      cases h
    · rintro ⟨a, h, _⟩
      cases h
  | ok a =>
    constructor
    · intro h
      exact ⟨a, rfl, h⟩
    · rintro ⟨a', h, hf⟩
      cases h
      exact hf

theorem map_eq_ok {x : Except ε α} {f : α → β} {b : β} :
    x.map f = .ok b ↔ ∃ a, x = .ok a ∧ f a = b := by
  cases x with
  | error e =>
    constructor
    · intro h
      cases h
    · rintro ⟨a, h, _⟩
      cases h
  | ok a =>
    constructor
    · intro h
      cases h
      exact ⟨a, rfl, rfl⟩
    · rintro ⟨a', h, hf⟩
      cases h
      rw [map_ok, hf]

/-! ## failures -/

theorem bind_eq_error {x : Except ε α} {f : α → Except ε β} {e : ε} :
    x.bind f = .error e ↔ x = .error e ∨ ∃ a, x = .ok a ∧ f a = .error e := by
  cases x with
  | error e' =>
    constructor
    · intro h
      cases h
      exact .inl rfl
    · rintro (h | ⟨a, h, _⟩)
      · cases h
        rfl
      · cases h
  | ok a =>
    constructor
    · intro h
      exact .inr ⟨a, rfl, h⟩
    · rintro (h | ⟨a', h, hf⟩)
      · cases h
      · cases h
        exact hf

theorem map_eq_error {x : Except ε α} {f : α → β} {e : ε} : x.map f = .error e ↔ x = .error e := by
  cases x with
  | error e' =>
    constructor
    · intro h
      cases h
      rfl
    · intro h
      cases h
      rfl
  | ok a => exact ⟨nofun, nofun⟩

/-- a step fails with errors of one kind only -/
def FailsOnly (P : ε → Prop) (x : Except ε α) : Prop := ∀ e, x = .error e → P e

section
variable {P : ε → Prop}

theorem failsOnly_ok (a : α) : FailsOnly P (.ok a : Except ε α) := nofun

theorem failsOnly_error {e : ε} (h : P e) : FailsOnly P (.error e : Except ε α) := by
  intro e' he
  cases he
  exact h

theorem FailsOnly.bind {x : Except ε α} {f : α → Except ε β} (hx : FailsOnly P x)
    (hf : ∀ a, x = .ok a → FailsOnly P (f a)) : FailsOnly P (x.bind f) := by
  intro e he
  cases x with
  | error e' =>
    cases he
    exact hx _ rfl
  | ok a => exact hf a rfl e he

theorem FailsOnly.map {x : Except ε α} (hx : FailsOnly P x) (f : α → β) :
    FailsOnly P (x.map f) := by
  intro e he
  cases x with
  | error e' =>
    cases he
    exact hx _ rfl
  | ok a => cases he

end

/-! ## items in their order -/

/-- some item offends, and all items before it are accepted -/
def FirstOffence {ι : Type w} (accepted : ι → Prop) (offends : ι → ε → Prop) (items : List ι)
    (e : ε) : Prop :=
  ∃ before item after, items = before ++ item :: after ∧ (∀ i ∈ before, accepted i) ∧
    offends item e

/-- a step that succeeds accepts all items, and one that fails does so with the first offence -/
def Judges {ι : Type w} (accepted : ι → Prop) (offends : ι → ε → Prop) (items : List ι) :
    Except ε α → Prop
  | .ok _ => ∀ i ∈ items, accepted i
  | .error e => FirstOffence accepted offends items e

section
variable {ι : Type w} {accepted : ι → Prop} {offends : ι → ε → Prop} {items others : List ι}

theorem FirstOffence.append_right {e : ε} (h : FirstOffence accepted offends items e)
    (others : List ι) : FirstOffence accepted offends (items ++ others) e := by
  obtain ⟨before, item, after, rfl, hbefore, hitem⟩ := h
  exact ⟨before, item, after ++ others, List.append_assoc _ _ _, hbefore, hitem⟩

theorem FirstOffence.append_left {e : ε} (hitems : ∀ i ∈ items, accepted i)
    (h : FirstOffence accepted offends others e) :
    FirstOffence accepted offends (items ++ others) e := by
  obtain ⟨before, item, after, rfl, hbefore, hitem⟩ := h
  exact ⟨items ++ before, item, after, (List.append_assoc _ _ _).symm,
    List.forall_mem_append.mpr ⟨hitems, hbefore⟩, hitem⟩

theorem judges_nil (a : α) : Judges accepted offends [] (.ok a : Except ε α) := nofun

theorem judges_ok {i : ι} (h : accepted i) (a : α) :
    Judges accepted offends [i] (.ok a : Except ε α) := List.forall_mem_singleton.mpr h

theorem judges_error {i : ι} {e : ε} (h : offends i e) :
    Judges accepted offends [i] (.error e : Except ε α) :=
  ⟨[], i, [], rfl, nofun, h⟩

theorem Judges.map {x : Except ε α} (h : Judges accepted offends items x) (f : α → β) :
    Judges accepted offends items (x.map f) := by
  cases x with
  | ok a => exact h
  | error e => exact h

theorem Judges.bind {x : Except ε α} {f : α → Except ε β} (hx : Judges accepted offends items x)
    (hf : ∀ a, x = .ok a → Judges accepted offends others (f a)) :
    Judges accepted offends (items ++ others) (x.bind f) := by
  cases x with
  | error e => exact FirstOffence.append_right hx others
  | ok a =>
    have hothers := hf a rfl
    rw [bind_ok]
    cases hfa : f a with
    | ok b =>
      rw [hfa] at hothers
      exact List.forall_mem_append.mpr ⟨hx, hothers⟩
    | error e =>
      rw [hfa] at hothers
      exact FirstOffence.append_left hx hothers

/-- where what offends is not accepted, a step succeeds exactly when all items are -/
theorem Judges.exists_ok_iff {x : Except ε α} (h : Judges accepted offends items x)
    (hoffends : ∀ i e, offends i e → ¬ accepted i) :
    (∃ a, x = .ok a) ↔ ∀ i ∈ items, accepted i := by
  cases x with
  | ok a => exact iff_of_true ⟨a, rfl⟩ h
  | error e =>
    obtain ⟨before, item, after, rfl, -, hitem⟩ := h
    refine iff_of_false nofun fun hall => ?_
    exact hoffends item e hitem (hall item (List.mem_append_right _ List.mem_cons_self))

end

/-! ## outcomes of two chains -/

/-- two steps both fail, or they succeed with related results -/
inductive SameOutcome (R : α → β → Prop) : Except ε α → Except ε β → Prop
  | ok {a : α} {b : β} (h : R a b) : SameOutcome R (.ok a) (.ok b)
  | error (e e' : ε) : SameOutcome R (.error e) (.error e')

section
variable {γ : Type u} {δ : Type w} {R : α → β → Prop} {S : γ → δ → Prop} {x : Except ε α}
  {y : Except ε β}

theorem SameOutcome.bind {f : α → Except ε γ} {g : β → Except ε δ} (h : SameOutcome R x y)
    (hfg : ∀ a b, R a b → SameOutcome S (f a) (g b)) : SameOutcome S (x.bind f) (y.bind g) := by
  cases h with
  | ok h => exact hfg _ _ h
  | error e e' => exact .error e e'

theorem SameOutcome.map {f : α → γ} {g : β → δ} (h : SameOutcome R x y)
    (hfg : ∀ a b, R a b → S (f a) (g b)) : SameOutcome S (x.map f) (y.map g) := by
  cases h with
  | ok h => exact .ok (hfg _ _ h)
  | error e e' => exact .error e e'

theorem sameOutcome_refl {R : α → α → Prop} (h : ∀ a, R a a) (x : Except ε α) :
    SameOutcome R x x := by
  cases x with
  | ok a => exact .ok (h a)
  | error e => exact .error e e

theorem SameOutcome.mono {R' : α → β → Prop} (h : SameOutcome R x y)
    (hR : ∀ a b, R a b → R' a b) : SameOutcome R' x y := by
  cases h with
  | ok h => exact .ok (hR _ _ h)
  | error e e' => exact .error e e'

theorem SameOutcome.symm {R : α → α → Prop} {x y : Except ε α} (h : SameOutcome R x y)
    (hR : ∀ a b, R a b → R b a) : SameOutcome R y x := by
  cases h with
  | ok h => exact .ok (hR _ _ h)
  | error e e' => exact .error e' e

theorem SameOutcome.trans {R : α → α → Prop} {x y z : Except ε α} (h : SameOutcome R x y)
    (h' : SameOutcome R y z) (hR : ∀ a b c, R a b → R b c → R a c) : SameOutcome R x z := by
  cases h with
  | ok h =>
    cases h' with
    | ok h' => exact .ok (hR _ _ _ h h')
  | error e e' =>
    cases h' with
    | error e' e'' => exact .error e e''

theorem SameOutcome.exists_ok_iff (h : SameOutcome R x y) : (∃ a, x = .ok a) ↔ ∃ b, y = .ok b := by
  cases h with
  | ok h => exact iff_of_true ⟨_, rfl⟩ ⟨_, rfl⟩
  | error e e' => exact iff_of_false nofun nofun

/-- that the second step succeeds with a related result where the first one does, and that the
first one succeeds where the second one does -/
theorem sameOutcome_of_exists (h : ∀ a, x = .ok a → ∃ b, y = .ok b ∧ R a b)
    (h' : ∀ b, y = .ok b → ∃ a, x = .ok a) : SameOutcome R x y := by
  cases x with
  | ok a =>
    obtain ⟨b, rfl, hab⟩ := h a rfl
    exact .ok hab
  | error e =>
    cases y with
    | ok b =>
      obtain ⟨a, ha⟩ := h' b rfl
      cases ha
    | error e' => exact .error e e'

end

end NestedQuery
