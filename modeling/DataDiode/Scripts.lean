import Mathlib.Order.Defs.Unbundled

/-!
# Scripts

A script runs in a state and may fail, and a failure leaves the state as it is then. What a script
does is described by a relation `R` that it takes its state along, whether it fails or not, and by
what holds when it returns. With `R` a preorder such descriptions compose.

## Main results

* `Leads.bind`: one script after another.
* `Leads.forM`: a loop, with a property for each element that later turns keep.
-/

namespace Script

universe u

variable {ε σ α β : Type u}

/-- The state that a script leaves. -/
def final (x : EStateM ε σ α) (s : σ) : σ :=
  match x.run s with
  | .ok _ s' => s'
  | .error _ s' => s'

/-- What a script returns, if it does. -/
def result (x : EStateM ε σ α) (s : σ) : Option α :=
  match x.run s with
  | .ok a _ => some a
  | .error _ _ => none

/-- **A description of a script** in a state: it takes the state along `R`, and `Q` holds if it
returns. -/
def Leads (R : σ → σ → Prop) (s : σ) (x : EStateM ε σ α) (Q : α → σ → Prop) : Prop :=
  match x.run s with
  | .ok a s' => R s s' ∧ Q a s'
  | .error _ s' => R s s'

section Rules

variable {R : σ → σ → Prop} {s : σ} {Q : α → σ → Prop}

/-- Where a script leads, whether it fails or not. -/
theorem Leads.final {x : EStateM ε σ α} (h : Leads R s x Q) : R s (final x s) := by
  rw [Leads] at h
  rw [Script.final]
  split at h
  · exact h.1
  · exact h

/-- What its result is. -/
theorem Leads.result {x : EStateM ε σ α} {a : α} (h : Leads R s x Q)
    (hresult : result x s = some a) : Q a (Script.final x s) := by
  rw [Leads] at h
  rw [Script.result] at hresult
  rw [Script.final]
  cases hrun : x.run s with
  | error e s' =>
      rw [hrun] at hresult
      exact absurd hresult (by simp)
  | ok b s' =>
      rw [hrun] at h hresult
      obtain rfl := Option.some.inj hresult
      exact h.2

/-- A weaker result. -/
theorem Leads.weaken {x : EStateM ε σ α} {Q' : α → σ → Prop} (h : Leads R s x Q)
    (hQ : ∀ a s', R s s' → Q a s' → Q' a s') : Leads R s x Q' := by
  rw [Leads] at h ⊢
  split at h
  · exact ⟨h.1, hQ _ _ h.1 h.2⟩
  · exact h

/-- The state may be followed along a wider relation. -/
theorem Leads.mono {R' : σ → σ → Prop} {x : EStateM ε σ α} (h : Leads R s x Q)
    (hR : ∀ s', R s s' → R' s s') : Leads R' s x Q := by
  rw [Leads] at h ⊢
  split at h
  · exact ⟨hR _ h.1, h.2⟩
  · exact hR _ h

/-- A script that ends in one state. -/
theorem Leads.modify {f : σ → σ} {Q : PUnit → σ → Prop} (hR : R s (f s)) (hQ : Q ⟨⟩ (f s)) :
    Leads R s (modify f : EStateM ε σ PUnit) Q := ⟨hR, hQ⟩

variable [IsPreorder σ R]

/-- A result that is returned leaves the state as it is. -/
theorem Leads.pure {a : α} (h : Q a s) : Leads R s (pure a : EStateM ε σ α) Q := ⟨refl s, h⟩

/-- An error leaves the state as it is. -/
theorem Leads.throw {e : ε} : Leads R s (throw e : EStateM ε σ α) Q := refl (r := R) s

/-- A value that may be missing leaves the state as it is. -/
theorem Leads.ofExcept {x : Except ε α} :
    Leads R s (ofExcept x : EStateM ε σ α) fun a s' => x = .ok a ∧ s' = s := by
  cases x with
  | error e => exact Leads.throw
  | ok a => exact Leads.pure ⟨rfl, rfl⟩

/-- Reading the state changes nothing. -/
theorem Leads.get : Leads R s (get : EStateM ε σ σ) fun a s' => a = s ∧ s' = s :=
  ⟨refl s, rfl, rfl⟩

/-- **One script after another.** -/
theorem Leads.bind {x : EStateM ε σ α} {f : α → EStateM ε σ β} {Q' : β → σ → Prop}
    (hx : Leads R s x Q) (hf : ∀ a s', R s s' → Q a s' → Leads R s' (f a) Q') :
    Leads R s (x >>= f) Q' := by
  rw [Leads] at hx ⊢
  rw [EStateM.run_bind]
  cases hrun : x.run s with
  | error e s' =>
      rw [hrun] at hx
      exact hx
  | ok a s' =>
      rw [hrun] at hx
      have hnext := hf a s' hx.1 hx.2
      rw [Leads] at hnext
      dsimp only
      cases hrun' : (f a).run s' with
      | error e s'' =>
          rw [hrun'] at hnext
          exact IsTrans.trans _ _ _ hx.1 hnext
      | ok b s'' =>
          rw [hrun'] at hnext
          exact ⟨IsTrans.trans _ _ _ hx.1 hnext.1, hnext.2⟩

/-- **A loop** establishes for each element what a turn does, if later turns keep it. -/
theorem Leads.forM {l : List α} {f : α → EStateM ε σ PUnit} {P : α → σ → Prop}
    (hkeeps : ∀ a s₁ s₂, R s₁ s₂ → P a s₁ → P a s₂)
    (hturn : ∀ a ∈ l, ∀ s', R s s' → Leads R s' (f a) fun _ s'' => P a s'') :
    Leads R s (l.forM f) fun _ s' => ∀ a ∈ l, P a s' := by
  induction l generalizing s with
  | nil => exact Leads.pure fun a ha => absurd ha List.not_mem_nil
  | cons a l ih =>
      rw [List.forM_eq_forM, List.forM_cons]
      refine Leads.bind (hturn a List.mem_cons_self s (refl s)) fun _ s₁ h₁ hP => ?_
      refine Leads.weaken (ih fun b hb s' hs' => ?_) fun _ s₂ h₂ hrest => ?_
      · exact hturn b (List.mem_cons_of_mem _ hb) s' (IsTrans.trans _ _ _ h₁ hs')
      · exact List.forall_mem_cons.mpr ⟨hkeeps a s₁ s₂ h₂ hP, hrest⟩

/-- A loop of which nothing is asked but to move the state along. -/
theorem Leads.forM_true {l : List α} {f : α → EStateM ε σ PUnit}
    (hturn : ∀ a s', Leads R s' (f a) fun _ _ => True) :
    Leads R s (l.forM f) fun _ _ => True :=
  (Leads.forM (P := fun _ _ => True) (fun _ _ _ _ => id) fun a _ s' _ => hturn a s').weaken
    fun _ _ _ _ => trivial

end Rules

end Script
