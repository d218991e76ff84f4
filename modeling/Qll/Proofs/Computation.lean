/-!
# Computations that may fail

What a computation with a state and a way to fail must have done when it ended well. A sequence
ended well when each part did, so a long computation is taken apart from its end to its steps.
-/

namespace Qll.Computation

variable {ε σ α β : Type} {s t : σ}

/-- A sequence ends well when its two parts do. -/
@[simp] theorem bind_ok {x : EStateM ε σ α} {f : α → EStateM ε σ β} {b : β} :
    (x >>= f) s = .ok b t ↔ ∃ a u, x s = .ok a u ∧ f a u = .ok b t := by
  change EStateM.bind x f s = .ok b t ↔ _
  unfold EStateM.bind
  cases hx : x s with
  | ok a u => exact ⟨fun h => ⟨a, u, rfl, h⟩, fun ⟨_, _, h, h'⟩ => by cases h; exact h'⟩
  | error e u => simp

/-- Giving a value leaves the state. -/
@[simp] theorem pure_ok {a b : α} :
    (pure a : EStateM ε σ α) s = .ok b t ↔ a = b ∧ s = t := by
  change EStateM.pure a s = .ok b t ↔ _
  simp [EStateM.pure]

/-- Reading the state leaves it. -/
@[simp] theorem get_ok {a : σ} : (get : EStateM ε σ σ) s = .ok a t ↔ s = a ∧ s = t := by
  change EStateM.Result.ok s s = .ok a t ↔ _
  simp

/-- What follows a reading of the state is given the state. -/
@[simp high] theorem get_bind_ok {f : σ → EStateM ε σ β} {b : β} :
    ((get : EStateM ε σ σ) >>= f) s = .ok b t ↔ f s s = .ok b t := Iff.rfl

/-- What comes behind a reading of the state is run with that state. -/
theorem get_bind_run {f : σ → EStateM ε σ β} : ((get : EStateM ε σ σ) >>= f) s = f s s := rfl

/-- Setting the state. -/
@[simp] theorem set_ok {u : σ} {a : PUnit} : (set u : EStateM ε σ PUnit) s = .ok a t ↔ u = t := by
  change EStateM.Result.ok PUnit.unit u = .ok a t ↔ _
  simp

/-- Changing the state. -/
@[simp] theorem modify_ok {f : σ → σ} {a : PUnit} :
    (modify f : EStateM ε σ PUnit) s = .ok a t ↔ f s = t := by
  change EStateM.Result.ok PUnit.unit (f s) = .ok a t ↔ _
  simp

/-- A failure does not end well. -/
@[simp] theorem throw_ok {e : ε} {a : α} : (throw e : EStateM ε σ α) s ≠ .ok a t := by
  change EStateM.Result.error e s ≠ .ok a t
  simp

/-- A guarded computation ends well when the guard does not fail. -/
theorem guard_ok {c : Prop} [Decidable c] {e : ε} {k : PUnit → EStateM ε σ β} {b : β} :
    (if c then throw e >>= k else k ⟨⟩) s = .ok b t ↔ ¬ c ∧ k ⟨⟩ s = .ok b t := by
  by_cases h : c
  · rw [if_pos h, bind_ok]
    exact ⟨fun ⟨_, _, h', _⟩ => absurd h' throw_ok, fun h' => absurd h h'.1⟩
  · rw [if_neg h]
    exact ⟨fun h' => ⟨h, h'⟩, fun h' => h'.2⟩

/-- A mapped computation ends well when the computation does. -/
@[simp] theorem map_ok {x : EStateM ε σ α} {f : α → β} {b : β} :
    (f <$> x) s = .ok b t ↔ ∃ a, x s = .ok a t ∧ f a = b := by
  change EStateM.map f x s = .ok b t ↔ _
  unfold EStateM.map
  cases hx : x s with
  | ok a u =>
    simp only [EStateM.Result.ok.injEq]
    exact ⟨fun ⟨h, h'⟩ => ⟨a, ⟨rfl, h'⟩, h⟩, fun ⟨a', ⟨ha, h'⟩, h⟩ => ⟨ha ▸ h, h'⟩⟩
  | error e u => simp

/-- A computation over a list leaves the state when its steps do. -/
theorem foldlM_state {f : β → α → EStateM ε σ β} {l : List α} {b b' : β}
    (hf : ∀ c, ∀ a ∈ l, ∀ c' u, f c a s = .ok c' u → u = s) (h : l.foldlM f b s = .ok b' t) :
    t = s := by
  induction l generalizing b with
  | nil => exact (pure_ok.1 h).2.symm
  | cons a l ih =>
    rw [List.foldlM_cons] at h
    obtain ⟨c, u, hc, hrest⟩ := bind_ok.1 h
    obtain rfl := hf b a (by simp) c u hc
    exact ih (fun c a ha => hf c a (by simp [ha])) hrest

/-! ## Failures -/

/-- A sequence fails in its first part, or in its second part after the first. -/
theorem bind_error {x : EStateM ε σ α} {f : α → EStateM ε σ β} {e : ε} :
    (x >>= f) s = .error e t ↔ x s = .error e t ∨ ∃ a u, x s = .ok a u ∧ f a u = .error e t := by
  change EStateM.bind x f s = .error e t ↔ _
  unfold EStateM.bind
  cases hx : x s with
  | ok a u =>
    exact ⟨fun h => .inr ⟨a, u, rfl, h⟩, fun h => h.elim nofun fun ⟨_, _, h, h'⟩ => by cases h; exact h'⟩
  | error e' u =>
    exact ⟨fun h => .inl (by cases h; rfl), fun h => h.elim (fun h => by cases h; rfl) nofun⟩

/-- A failure fails as it says, in the state it finds. -/
theorem throw_error {e e' : ε} : (throw e : EStateM ε σ α) s = .error e' t ↔ e = e' ∧ s = t := by
  change EStateM.Result.error e s = .error e' t ↔ _
  simp

/-! ## With more steps -/

/-- Whatever one computation gives, the other gives too. -/
def Extends (x y : EStateM ε σ α) : Prop := ∀ s a t, x s = .ok a t → y s = .ok a t

/-- A computation gives what it gives. -/
theorem Extends.refl (x : EStateM ε σ α) : Extends x x := fun _ _ _ h => h

/-- A failure gives nothing. -/
theorem Extends.throw {e : ε} {x : EStateM ε σ α} : Extends (throw e) x :=
  fun _ _ _ h => absurd h throw_ok

/-- A sequence gives what its parts give. -/
theorem Extends.bind {x x' : EStateM ε σ α} {f f' : α → EStateM ε σ β} (hx : Extends x x')
    (hf : ∀ a, Extends (f a) (f' a)) : Extends (x >>= f) (x' >>= f') := by
  intro s b t h
  obtain ⟨a, u, hu, ht⟩ := bind_ok.1 h
  exact bind_ok.2 ⟨a, u, hx s a u hu, hf a u b t ht⟩

/-- A computation over a list gives what its steps give. -/
theorem Extends.foldlM {f f' : β → α → EStateM ε σ β} (hf : ∀ b a, Extends (f b a) (f' b a)) :
    ∀ (l : List α) (b : β), Extends (l.foldlM f b) (l.foldlM f' b)
  | [], b => .refl _
  | a :: l, b => by
    rw [List.foldlM_cons, List.foldlM_cons]
    exact .bind (hf b a) fun b' => Extends.foldlM hf l b'

/-! ## With a second state -/

section Inner

variable {ρ : Type} {r : ρ}

/-- A sequence with an inner state ends well when its two parts do. -/
theorem inner_bind_ok {x : StateT ρ (EStateM ε σ) α} {f : α → StateT ρ (EStateM ε σ) β}
    {b : β × ρ} :
    (x >>= f) r s = .ok b t ↔ ∃ a q u, x r s = .ok (a, q) u ∧ f a q u = .ok b t := by
  change ((x r >>= fun p => f p.1 p.2) s = .ok b t) ↔ _
  rw [bind_ok]
  exact ⟨fun ⟨(a, q), u, h⟩ => ⟨a, q, u, h⟩, fun ⟨a, q, u, h⟩ => ⟨(a, q), u, h⟩⟩

/-- Giving a value leaves both states. -/
theorem inner_pure_ok {a b : α} {q : ρ} :
    (pure a : StateT ρ (EStateM ε σ) α) r s = .ok (b, q) t ↔ a = b ∧ r = q ∧ s = t := by
  change (pure (a, r) : EStateM ε σ (α × ρ)) s = .ok (b, q) t ↔ _
  rw [pure_ok, Prod.mk.injEq, and_assoc]

/-- What follows a computation that does not know the inner state finds it unchanged. -/
theorem inner_lift_ok {x : EStateM ε σ α} {f : α → StateT ρ (EStateM ε σ) β} {b : β × ρ} :
    ((liftM x : StateT ρ (EStateM ε σ) α) >>= f) r s = .ok b t ↔
      ∃ a u, x s = .ok a u ∧ f a r u = .ok b t := by
  rw [inner_bind_ok]
  change (∃ a q u, (x >>= fun a => pure (a, r)) s = .ok (a, q) u ∧ f a q u = .ok b t) ↔ _
  constructor
  · rintro ⟨a, q, u, ha, hb⟩
    obtain ⟨a', u', ha', hq⟩ := bind_ok.1 ha
    obtain ⟨hq, rfl⟩ := pure_ok.1 hq
    cases hq
    exact ⟨a, u', ha', hb⟩
  · rintro ⟨a, u, ha, hb⟩
    exact ⟨a, r, u, bind_ok.2 ⟨a, u, ha, pure_ok.2 ⟨rfl, rfl⟩⟩, hb⟩

end Inner

/-! ## Without a state -/

/-- A sequence gives a value when its two parts do. -/
theorem except_bind_ok {x : Except ε α} {f : α → Except ε β} {b : β} :
    (x >>= f) = .ok b ↔ ∃ a, x = .ok a ∧ f a = .ok b := by
  cases x with
  | ok a => exact ⟨fun h => ⟨a, rfl, h⟩, fun ⟨_, h, h'⟩ => by cases h; exact h'⟩
  | error e => exact ⟨fun h => (by cases h), fun ⟨_, h, _⟩ => (by cases h)⟩

/-- A sequence gives an error when one of its two parts does. -/
theorem except_bind_error {x : Except ε α} {f : α → Except ε β} {e : ε} :
    (x >>= f) = .error e ↔ x = .error e ∨ ∃ a, x = .ok a ∧ f a = .error e := by
  cases x with
  | ok a => exact ⟨fun h => .inr ⟨a, rfl, h⟩, fun h => h.elim nofun fun ⟨_, h, h'⟩ => by cases h; exact h'⟩
  | error e' =>
    exact ⟨fun h => .inl (by cases h; rfl), fun h => h.elim (fun h => by cases h; rfl) nofun⟩

/-- Whatever error is given has a property. -/
def Errs (P : ε → Prop) (x : Except ε α) : Prop := ∀ e, x = .error e → P e

namespace Errs

variable {P : ε → Prop} {x : Except ε α} {f : α → Except ε β}

/-- A result is no failure. -/
theorem ok (a : α) : Errs P (.ok a : Except ε α) := nofun

/-- A failure of the kind in question is one of that kind. -/
theorem error {e : ε} (h : P e) : Errs P (.error e : Except ε α) := fun _ h' => Except.error.inj h' ▸ h

/-- Steps that fail in one way only fail in that way one behind the other. -/
theorem bind (hx : Errs P x) (hf : ∀ a, Errs P (f a)) : Errs P (x >>= f) := by
  intro e h
  obtain h | ⟨a, -, h⟩ := except_bind_error.1 h
  · exact hx e h
  · exact hf a e h

/-- A step that fails in one way only does so for each element of a list. -/
theorem mapM {g : β → Except ε α} : ∀ (l : List β), (∀ b ∈ l, Errs P (g b)) → Errs P (l.mapM g)
  | [], _ => by
    rw [List.mapM_nil]
    exact ok []
  | b :: l, h => by
    rw [List.mapM_cons]
    exact bind (h b (by simp)) fun a => bind (mapM l fun c hc => h c (by simp [hc])) fun as => ok _

end Errs

/-- A value is given as it is. -/
theorem except_pure_ok {a b : α} : (pure a : Except ε α) = .ok b ↔ a = b :=
  ⟨fun h => (by cases h; rfl), fun h => h ▸ rfl⟩

end Qll.Computation
