import Mathlib.Data.List.Forall2

/-!
Results that may be faults.

Every stage of the assembler gives an `Except`. These lemmas take a successful or failed sequence
of steps apart, and carry a property along a fold whose steps may fail.
-/

set_option autoImplicit false
set_option relaxedAutoImplicit false

namespace Rv32Asm.Outcome

universe u v w

section Sequence

variable {ε : Type u} {δ : Type v} {α β : Type w}

theorem ok_bind {a : α} {f : α → Except ε β} : (Except.ok a >>= f) = f a := rfl

theorem bind_eq_ok_iff {x : Except ε α} {f : α → Except ε β} {b : β} :
    (x >>= f) = .ok b ↔ ∃ a, x = .ok a ∧ f a = .ok b := by
  cases x with
  | error e => simp [bind, Except.bind]
  | ok a => simp [bind, Except.bind]

theorem bind_eq_error_iff {x : Except ε α} {f : α → Except ε β} {e : ε} :
    (x >>= f) = .error e ↔ x = .error e ∨ ∃ a, x = .ok a ∧ f a = .error e := by
  cases x with
  | error e' => simp [bind, Except.bind]
  | ok a => simp [bind, Except.bind]

theorem pure_eq_ok_iff {a b : α} : (pure a : Except ε α) = .ok b ↔ a = b := by
  simp [pure, Except.pure]

theorem pure_ne_error {a : α} {e : ε} : (pure a : Except ε α) ≠ .error e := by
  simp [pure, Except.pure]

theorem throw_ne_ok {e : ε} {a : α} : (throw e : Except ε α) ≠ .ok a := by
  simp [throw, throwThe, MonadExceptOf.throw]

theorem throw_bind {e : ε} {f : α → Except ε β} : ((throw e : Except ε α) >>= f) = throw e := rfl

theorem mapError_eq_ok_iff {x : Except ε α} {g : ε → δ} {a : α} :
    x.mapError g = .ok a ↔ x = .ok a := by
  cases x <;> simp [Except.mapError]

theorem mapError_eq_error_iff {x : Except ε α} {g : ε → δ} {d : δ} :
    x.mapError g = .error d ↔ ∃ e, x = .error e ∧ g e = d := by
  cases x <;> simp [Except.mapError]

theorem mapError_bind {x : Except ε α} {f : α → Except ε β} {g : ε → δ} :
    (x >>= f).mapError g = (x.mapError g >>= fun a => (f a).mapError g) := by
  cases x <;> rfl

theorem map_bind {γ : Type w} {x : Except ε α} {f : α → Except ε β} {g : β → γ} :
    (x >>= f).map g = (x >>= fun a => (f a).map g) := by
  cases x <;> rfl

theorem mapError_map {x : Except ε α} {f : α → β} {g : ε → δ} :
    (x.map f).mapError g = (x.mapError g).map f := by
  cases x <;> rfl

theorem map_eq_ok_iff {x : Except ε α} {g : α → β} {b : β} :
    x.map g = .ok b ↔ ∃ a, x = .ok a ∧ g a = b := by
  cases x <;> simp [Except.map]

theorem map_eq_error_iff {x : Except ε α} {g : α → β} {e : ε} :
    x.map g = .error e ↔ x = .error e := by
  cases x <;> simp [Except.map]

theorem exists_eq_ok_of_isOk {x : Except ε α} (ok : x.isOk = true) : ∃ a, x = .ok a := by
  cases x with
  | error e => simp [Except.isOk, Except.toBool] at ok
  | ok a => exact ⟨a, rfl⟩

end Sequence

theorem mapM_eq_ok_iff {ε : Type u} {α : Type v} {β : Type w} {f : α → Except ε β} {as : List α}
    {bs : List β} : as.mapM f = .ok bs ↔ List.Forall₂ (fun a b => f a = .ok b) as bs := by
  induction as generalizing bs with
  | nil =>
    rw [List.mapM_nil, pure_eq_ok_iff, List.forall₂_nil_left_iff]
    exact eq_comm
  | cons a as ih =>
    simp only [List.mapM_cons, bind_eq_ok_iff, pure_eq_ok_iff, ih]
    constructor
    · rintro ⟨b, first, bs, rest, rfl⟩
      exact .cons first rest
    · rintro (_ | ⟨first, rest⟩)
      exact ⟨_, first, _, rest, rfl⟩

/-- Mapping a list fails at the first element that does. -/
theorem mapM_eq_error_iff {ε : Type u} {α : Type v} {β : Type w} {f : α → Except ε β} {as : List α}
    {e : ε} :
    as.mapM f = .error e ↔
      ∃ before a after, as = before ++ a :: after ∧ (∀ b ∈ before, ∃ c, f b = .ok c) ∧
        f a = .error e := by
  constructor
  · intro failed
    induction as with
    | nil => exact absurd failed pure_ne_error
    | cons a as ih =>
      rw [List.mapM_cons, bind_eq_error_iff] at failed
      rcases failed with here | ⟨c, first, later⟩
      · exact ⟨[], a, as, rfl, by simp, here⟩
      · rw [bind_eq_error_iff] at later
        rcases later with later | ⟨_, _, never⟩
        · obtain ⟨before, a', after, rfl, before_ok, here⟩ := ih later
          refine ⟨a :: before, a', after, rfl, ?_, here⟩
          exact List.forall_mem_cons.mpr ⟨⟨c, first⟩, before_ok⟩
        · exact absurd never pure_ne_error
  · rintro ⟨before, a, after, rfl, before_ok, here⟩
    induction before with
    | nil =>
      rw [List.nil_append, List.mapM_cons, here]
      rfl
    | cons b before ih =>
      rw [List.forall_mem_cons] at before_ok
      obtain ⟨⟨c, first⟩, rest⟩ := before_ok
      rw [List.cons_append, List.mapM_cons, first, ok_bind, ih rest]
      rfl

section Fold

variable {ε : Type u} {σ : Type v} {α : Type w} {f : σ → α → Except ε σ} {P : σ → Prop}

theorem foldlM_preserves (kept : ∀ s a s', P s → f s a = .ok s' → P s') (as : List α) {s s' : σ}
    (start : P s) (run : as.foldlM f s = .ok s') : P s' := by
  induction as generalizing s with
  | nil =>
    obtain rfl : s = s' := by simpa [pure, Except.pure] using run
    exact start
  | cons a as ih =>
    rw [List.foldlM_cons, bind_eq_ok_iff] at run
    obtain ⟨next, step, rest⟩ := run
    exact ih (kept s a next start step) rest

theorem foldlM_zipIdx_preserves {f : σ → α × Nat → Except ε σ} {P : Nat → σ → Prop}
    (kept : ∀ n s a s', P n s → f s (a, n) = .ok s' → P (n + 1) s') (as : List α) {n : Nat}
    {s s' : σ} (start : P n s) (run : (as.zipIdx n).foldlM f s = .ok s') :
    P (n + as.length) s' := by
  induction as generalizing n s with
  | nil =>
    obtain rfl : s = s' := pure_eq_ok_iff.mp run
    exact start
  | cons a as ih =>
    rw [List.zipIdx_cons, List.foldlM_cons, bind_eq_ok_iff] at run
    obtain ⟨next, step, rest⟩ := run
    have after := ih (kept n s a next start step) rest
    rwa [List.length_cons, Nat.add_comm as.length, ← Nat.add_assoc]

/-- A fold fails at the first step that does. -/
theorem foldlM_eq_error_iff {as : List α} {s : σ} {e : ε} :
    as.foldlM f s = .error e ↔
      ∃ before a after s', as = before ++ a :: after ∧ before.foldlM f s = .ok s' ∧
        f s' a = .error e := by
  constructor
  · intro failed
    induction as generalizing s with
    | nil => simp [pure, Except.pure] at failed
    | cons a as ih =>
      rw [List.foldlM_cons, bind_eq_error_iff] at failed
      rcases failed with here | ⟨next, step, later⟩
      · exact ⟨[], a, as, s, rfl, rfl, here⟩
      · obtain ⟨before, a', after, s', rfl, run, failed⟩ := ih later
        refine ⟨a :: before, a', after, s', rfl, ?_, failed⟩
        rw [List.foldlM_cons, step]
        exact run
  · rintro ⟨before, a, after, s', rfl, run, failed⟩
    rw [List.foldlM_append, run, ok_bind, List.foldlM_cons, failed]
    rfl

end Fold

section Both

variable {ε ε' : Type u} {α α' β β' : Type v} {f : ε → ε'} {g : α → α'} {h : β → β'}

def both (f : ε → ε') (g : α → α') : Except ε α → Except ε' α'
  | .error e => .error (f e)
  | .ok a => .ok (g a)

@[simp] theorem both_ok (a : α) : both f g (.ok a) = .ok (g a) := rfl

@[simp] theorem both_error (e : ε) : both f g (.error e : Except ε α) = .error (f e) := rfl

@[simp] theorem both_pure (a : α) : both f g (pure a) = pure (g a) := rfl

theorem both_bind {x : Except ε α} {y : Except ε' α'} {k : α → Except ε β} {l : α' → Except ε' β'}
    (first : y = both f g x) (rest : ∀ a, l (g a) = both f h (k a)) :
    (y >>= l) = both f h (x >>= k) := by
  subst first
  cases x with
  | error e => rfl
  | ok a => exact rest a

/-- Outcomes that a change makes equal stay so if they are continued in such a way. -/
theorem both_bind_congr {δ : Type u} {γ η : Type v} {f' : δ → ε'} {g' : γ → α'} {h' : η → β'}
    {x : Except ε α} {y : Except δ γ} {k : α → Except ε β} {l : γ → Except δ η}
    (first : both f g x = both f' g' y)
    (rest : ∀ a c, g a = g' c → both f h (k a) = both f' h' (l c)) :
    both f h (x >>= k) = both f' h' (y >>= l) := by
  cases x with
  | error e =>
    cases y with
    | error d => exact congrArg Except.error (Except.error.inj first)
    | ok c => simp at first
  | ok a =>
    cases y with
    | error d => simp at first
    | ok c => exact rest a c (Except.ok.inj first)

theorem exists_eq_ok_of_both {δ : Type u} {γ : Type v} {f' : δ → ε'} {g' : γ → α'} {y : Except δ γ}
    {a : α} (same : both f g (.ok a) = both f' g' y) : ∃ c, y = .ok c ∧ g a = g' c := by
  cases y with
  | error d => simp at same
  | ok c => exact ⟨c, rfl, Except.ok.inj same⟩

theorem both_mapError {δ δ' : Type u} {wrap : ε → δ} {wrap' : ε' → δ'} {f' : δ → δ'}
    (wrapped : ∀ e, f' (wrap e) = wrap' (f e)) (x : Except ε α) :
    both f' g (x.mapError wrap) = (both f g x).mapError wrap' := by
  cases x with
  | error e => exact congrArg Except.error (wrapped e)
  | ok a => rfl

theorem both_foldlM {step : β → α → Except ε β} {step' : β' → α' → Except ε' β'}
    (each : ∀ s a, step' (h s) (g a) = both f h (step s a)) (as : List α) (s : β) :
    (as.map g).foldlM step' (h s) = both f h (as.foldlM step s) := by
  induction as generalizing s with
  | nil => rfl
  | cons a as ih =>
    rw [List.map_cons, List.foldlM_cons, List.foldlM_cons]
    exact both_bind (each s a) ih

theorem both_mapM {step : α → Except ε β} {step' : α' → Except ε' β'}
    (each : ∀ a, step' (g a) = both f h (step a)) (as : List α) :
    (as.map g).mapM step' = both f (List.map h) (as.mapM step) := by
  induction as with
  | nil => rfl
  | cons a as ih =>
    rw [List.map_cons, List.mapM_cons, List.mapM_cons]
    exact both_bind (each a) fun b => both_bind ih fun bs => rfl

end Both

section Settles

variable {ε : Type u} {α β : Type v} {E : ε → Prop} {P : α → Prop} {Q : β → Prop}

/-- The fault of an outcome has `E`, or its result has `P`. -/
def Settles (E : ε → Prop) (P : α → Prop) : Except ε α → Prop
  | .error e => E e
  | .ok a => P a

theorem Settles.of_error {x : Except ε α} (settles : Settles E P x) {e : ε} (failed : x = .error e) :
    E e := by
  subst failed
  exact settles

theorem Settles.of_ok {x : Except ε α} (settles : Settles E P x) {a : α} (result : x = .ok a) :
    P a := by
  subst result
  exact settles

theorem Settles.bind {x : Except ε α} {k : α → Except ε β} (first : Settles E P x)
    (rest : ∀ a, P a → Settles E Q (k a)) : Settles E Q (x >>= k) := by
  cases x with
  | error e => exact first
  | ok a => exact rest a first

theorem Settles.mono {E' : ε → Prop} {P' : α → Prop} {x : Except ε α} (settles : Settles E P x)
    (fault : ∀ e, E e → E' e) (result : ∀ a, P a → P' a) : Settles E' P' x := by
  cases x with
  | error e => exact fault e settles
  | ok a => exact result a settles

theorem foldlM_settles {f : β → α → Except ε β} {as : List α}
    (step : ∀ a ∈ as, ∀ s, Q s → Settles E Q (f s a)) {s : β} (start : Q s) :
    Settles E Q (as.foldlM f s) := by
  induction as generalizing s with
  | nil => exact start
  | cons a as ih =>
    rw [List.forall_mem_cons] at step
    rw [List.foldlM_cons]
    exact (step.1 s start).bind fun next kept => ih step.2 kept

theorem mapM_settles {f : α → Except ε β} {as : List α}
    (each : ∀ a ∈ as, Settles E (fun _ => True) (f a)) :
    Settles E (fun _ => True) (as.mapM f) := by
  induction as with
  | nil => trivial
  | cons a as ih =>
    rw [List.forall_mem_cons] at each
    rw [List.mapM_cons]
    exact each.1.bind fun _ _ => (ih each.2).bind fun _ _ => trivial

end Settles

end Rv32Asm.Outcome
