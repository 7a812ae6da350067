import RegAtlas.Journal
import Mathlib.Data.List.Forall2

namespace RegAtlas

variable {ε ε' α β σ : Type}

namespace Success

@[simp] theorem bind_eq_ok {x : Except ε α} {f : α → Except ε β} {b : β} :
    x.bind f = .ok b ↔ ∃ a, x = .ok a ∧ f a = .ok b := by
  cases x <;> simp [Except.bind]

@[simp] theorem map_eq_ok {x : Except ε α} {f : α → β} {b : β} :
    x.map f = .ok b ↔ ∃ a, x = .ok a ∧ f a = b := by
  cases x <;> simp [Except.map]

@[simp] theorem mapError_eq_ok {f : ε → ε'} {r : Except ε α} {a : α} :
    r.mapError f = .ok a ↔ r = .ok a := by
  cases r with
  | error e => exact ⟨nofun, nofun⟩
  | ok b => exact ⟨fun h => congrArg _ (Except.ok.inj h), fun h => congrArg _ (Except.ok.inj h)⟩

theorem bind_eq_error {x : Except ε α} {f : α → Except ε β} {e : ε} :
    x.bind f = .error e ↔ x = .error e ∨ ∃ a, x = .ok a ∧ f a = .error e := by
  cases x <;> simp [Except.bind]

theorem mapError_eq_error {f : ε → ε'} {r : Except ε α} {e' : ε'} :
    r.mapError f = .error e' ↔ ∃ e, r = .error e ∧ f e = e' := by
  cases r <;> simp [Except.mapError]

theorem map_eq_error {x : Except ε α} {f : α → β} {e : ε} : x.map f = .error e ↔ x = .error e := by
  cases x <;> simp [Except.map]

theorem toOption_eq_some_iff {x : Except ε α} {a : α} : x.toOption = some a ↔ x = .ok a := by
  cases x <;> simp [Except.toOption]

theorem exists_ok {x : Except ε α} {f : α → β} {b : β} (h : x.toOption.map f = some b) :
    ∃ a, x = .ok a ∧ f a = b := by
  obtain ⟨a, ha, hb⟩ := Option.map_eq_some_iff.1 h
  exact ⟨a, toOption_eq_some_iff.1 ha, hb⟩

theorem exists_of_isOk {x : Except ε α} (h : x.isOk = true) : ∃ a, x = .ok a := by
  cases x with
  | error e => cases h
  | ok a => exact ⟨a, rfl⟩

theorem forM_eq_ok {f : α → Except ε Unit} {xs : List α} :
    xs.forM f = .ok () ↔ ∀ x ∈ xs, f x = .ok () := by
  induction xs with
  | nil => simp [pure, Except.pure]
  | cons x xs ih =>
    rw [List.forall_mem_cons, ← ih]
    refine (bind_eq_ok (f := fun _ => xs.forM f)).trans ?_
    exact ⟨fun ⟨_, hx, hxs⟩ => ⟨hx, hxs⟩, fun ⟨hx, hxs⟩ => ⟨(), hx, hxs⟩⟩

/-- A loop that remembers what it has visited fails at the first element whose step fails. -/
theorem visit_eq_error (visit : List α → List α → Except ε Unit)
    (step : List α → α → Except ε Unit) (hnil : ∀ before, visit before [] = .ok ())
    (hcons : ∀ before x xs,
      visit before (x :: xs) = (step before x).bind fun _ => visit (x :: before) xs)
    (before xs : List α) {e : ε} : visit before xs = .error e ↔
      ∃ pre x post, xs = pre ++ x :: post ∧ visit before pre = .ok () ∧
        step (pre.reverse ++ before) x = .error e := by
  induction xs generalizing before with
  | nil => simp [hnil]
  | cons y ys ih =>
    rw [hcons, bind_eq_error]
    constructor
    · rintro (hy | ⟨_, hy, hys⟩)
      · exact ⟨[], y, ys, rfl, hnil before, hy⟩
      · obtain ⟨pre, x, post, rfl, hpre, hx⟩ := (ih _).1 hys
        refine ⟨y :: pre, x, post, rfl, ?_, by simpa using hx⟩
        exact (hcons before y pre).trans (bind_eq_ok.2 ⟨(), hy, hpre⟩)
    · rintro ⟨pre, x, post, hxs, hpre, hx⟩
      cases pre with
      | nil =>
        cases hxs
        exact .inl hx
      | cons z pre =>
        cases hxs
        rw [hcons] at hpre
        obtain ⟨_, hy, hpre⟩ := bind_eq_ok.1 hpre
        exact .inr ⟨(), hy, (ih _).2 ⟨pre, x, post, rfl, hpre, by simpa using hx⟩⟩

theorem forM_eq_error {f : α → Except ε Unit} {xs : List α} {e : ε} : xs.forM f = .error e ↔
    ∃ pre x post, xs = pre ++ x :: post ∧ (∀ y ∈ pre, f y = .ok ()) ∧ f x = .error e := by
  simp only [← forM_eq_ok]
  exact visit_eq_error (fun _ xs => xs.forM f) (fun _ => f) (fun _ => rfl) (fun _ _ _ => rfl) [] xs

theorem mapM_eq_ok {f : α → Except ε β} {xs : List α} {ys : List β} :
    xs.mapM f = .ok ys ↔ List.Forall₂ (fun x y => f x = .ok y) xs ys := by
  induction xs generalizing ys with
  | nil => simp [pure, Except.pure, eq_comm]
  | cons x xs ih =>
    rw [List.mapM_cons, List.forall₂_cons_left_iff]
    refine bind_eq_ok.trans (exists_congr fun y => ?_)
    rw [exists_and_left]
    refine and_congr_right fun _ => bind_eq_ok.trans (exists_congr fun ys' => ?_)
    rw [ih]
    exact and_congr_right fun _ => ⟨fun h => (Except.ok.inj h).symm, fun h => congrArg _ h.symm⟩

theorem mapM_eq_map {f : α → Except ε β} {g : α → β} {xs : List α}
    (h : ∀ x ∈ xs, f x = .ok (g x)) : xs.mapM f = .ok (xs.map g) :=
  mapM_eq_ok.2 (List.forall₂_map_right_iff.2 (List.forall₂_same.2 h))

theorem exists_mapM_eq_ok {f : α → Except ε β} {xs : List α} (h : ∀ x ∈ xs, ∃ y, f x = .ok y) :
    ∃ ys, xs.mapM f = .ok ys ∧ ∀ x ∈ xs, ∃ y ∈ ys, f x = .ok y := by
  simp only [mapM_eq_ok]
  induction xs with
  | nil => exact ⟨[], .nil, fun _ hx => absurd hx List.not_mem_nil⟩
  | cons x xs ih =>
    rw [List.forall_mem_cons] at h
    obtain ⟨y, hy⟩ := h.1
    obtain ⟨ys, hys, hmem⟩ := ih h.2
    refine ⟨y :: ys, .cons hy hys, List.forall_mem_cons.2 ⟨⟨y, List.mem_cons_self, hy⟩, ?_⟩⟩
    intro x' hx'
    obtain ⟨y', hy', hx'⟩ := hmem x' hx'
    exact ⟨y', List.mem_cons_of_mem _ hy', hx'⟩

theorem foldlM_invariant {f : σ → α → Except ε σ} (P : List α → σ → Prop)
    (step : ∀ pre x s s', P pre s → f s x = .ok s' → P (pre ++ [x]) s') {xs : List α} {s s' : σ}
    (h0 : P [] s) (h : xs.foldlM f s = .ok s') : P xs s' := by
  suffices ∀ pre s, P pre s → xs.foldlM f s = .ok s' → P (pre ++ xs) s' from this [] s h0 h
  clear h0 h
  induction xs with
  | nil =>
    intro pre s hs h
    cases h
    simpa using hs
  | cons x xs ih =>
    intro pre s hs h
    rw [List.foldlM_cons] at h
    obtain ⟨t, ht, h⟩ := bind_eq_ok.1 h
    simpa using ih (pre ++ [x]) t (step pre x s t hs ht) h

end Success

namespace Logged

theorem seq_eq_ok {x : Logged ε Unit} {y : Logged ε α} {a : α} :
    (x >>= fun _ => y).result = .ok a ↔ x.result = .ok () ∧ y.result = .ok a := by
  rw [result_bind, Success.bind_eq_ok]
  exact ⟨fun ⟨_, hx, hy⟩ => ⟨hx, hy⟩, fun ⟨hx, hy⟩ => ⟨(), hx, hy⟩⟩

theorem seq_eq_error {x : Logged ε Unit} {y : Logged ε α} {e : ε} :
    (x >>= fun _ => y).result = .error e ↔
      x.result = .error e ∨ x.result = .ok () ∧ y.result = .error e := by
  rw [result_bind, Success.bind_eq_error]
  exact or_congr_right ⟨fun ⟨_, hx, hy⟩ => ⟨hx, hy⟩, fun ⟨hx, hy⟩ => ⟨(), hx, hy⟩⟩

@[simp] theorem result_mapM (f : α → Logged ε β) (xs : List α) :
    (xs.mapM f).result = xs.mapM fun x => (f x).result := by
  induction xs with
  | nil => rfl
  | cons x xs ih =>
    simp only [List.mapM_cons, result_bind, ih, result_pure]
    rfl

@[simp] theorem result_forM (f : α → Logged ε Unit) (xs : List α) :
    (xs.forM f).result = xs.forM fun x => (f x).result := by
  induction xs with
  | nil => rfl
  | cons x xs ih =>
    refine (result_bind (f x) fun _ => xs.forM f).trans ?_
    rw [ih]
    rfl

@[simp] theorem result_foldlM (f : σ → α → Logged ε σ) (xs : List α) (s : σ) :
    (xs.foldlM f s).result = xs.foldlM (fun s x => (f s x).result) s := by
  induction xs generalizing s with
  | nil => rfl
  | cons x xs ih =>
    simp only [List.foldlM_cons, result_bind, ih]
    rfl

end Logged

end RegAtlas
