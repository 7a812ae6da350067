import RegAtlas.Proofs.Success

namespace RegAtlas

variable {ε α β σ : Type}

/-- A value has the property `P`, and a failure has the property `E`. -/
def Outcome (P : α → Prop) (E : ε → Prop) : Except ε α → Prop
  | .ok a => P a
  | .error e => E e

namespace Outcome

variable {P P' : α → Prop} {E E' : ε → Prop} {x : Except ε α}

theorem mono (h : Outcome P E x) (hP : ∀ a, x = .ok a → P a → P' a)
    (hE : ∀ e, x = .error e → E e → E' e) : Outcome P' E' x := by
  cases x with
  | ok a => exact hP a rfl h
  | error e => exact hE e rfl h

theorem mono_error (h : Outcome P E x) (hE : ∀ e, E e → E' e) : Outcome P E' x :=
  h.mono (fun _ _ ha => ha) fun e _ => hE e

theorem of_fails (h : Outcome P E x) (hE : ∀ e, (∀ a, x ≠ .ok a) → E e → E' e) :
    Outcome (fun _ => True) E' x :=
  h.mono (fun _ _ _ => trivial) fun e he => hE e fun a ha => by cases he.symm.trans ha

theorem bind {Q : β → Prop} {f : α → Except ε β} (hx : Outcome P E x)
    (hf : ∀ a, x = .ok a → P a → Outcome Q E (f a)) : Outcome Q E (x.bind f) := by
  cases x with
  | ok a => exact hf a rfl hx
  | error e => exact hx

theorem map {Q : β → Prop} {f : α → β} (hx : Outcome P E x) (hf : ∀ a, P a → Q (f a)) :
    Outcome Q E (x.map f) := by
  cases x with
  | ok a => exact hf a hx
  | error e => exact hx

theorem mapM {R : α → β → Prop} {f : α → Except ε β} {xs : List α}
    (h : ∀ x ∈ xs, Outcome (R x) E (f x)) : Outcome (List.Forall₂ R xs) E (xs.mapM f) := by
  induction xs with
  | nil => exact .nil
  | cons x xs ih =>
    rw [List.forall_mem_cons] at h
    rw [List.mapM_cons]
    refine bind h.1 fun y _ hy => bind (ih h.2) fun ys _ hys => ?_
    exact .cons hy hys

/-- An invariant of a loop may speak of the elements that have been visited, and a failure of the
element at which it came about. -/
theorem foldlM {f : σ → α → Except ε σ} {xs : List α} (P : List α → σ → Prop)
    (step : ∀ pre x post s, xs = pre ++ x :: post → P pre s →
      Outcome (P (pre ++ [x])) E (f s x)) {s : σ} (h0 : P [] s) :
    Outcome (P xs) E (xs.foldlM f s) := by
  suffices ∀ pre post s, xs = pre ++ post → P pre s → Outcome (P xs) E (post.foldlM f s) from
    this [] xs s rfl h0
  intro pre post
  induction post generalizing pre with
  | nil =>
    intro s hxs hs
    rw [List.append_nil] at hxs
    subst hxs
    exact hs
  | cons x post ih =>
    intro s hxs hs
    rw [List.foldlM_cons]
    refine bind (step pre x post s hxs hs) fun t _ ht => ih (pre ++ [x]) t ?_ ht
    rw [hxs, List.append_assoc, List.singleton_append]

end Outcome

end RegAtlas
