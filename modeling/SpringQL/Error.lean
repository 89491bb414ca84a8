import Mathlib.Data.List.Forall2

/-!
# SpringQL.Error

How a call of the engine's code ends. A Rust function returning `Result<T>` is a function into
`Except SpringError T`. Code that may also panic (`expect`, `unreachable!()`, `assert_eq!`) is a
function into `Except Fault T`: `.error (.error e)` is a returned `Err(e)`, `.error (.panic msg)` a
panic with its message. A panic and an `Err` both stop the caller at once, as `?` and the panic
do in the source.

The lemmas here are about `List.mapM` over `Except`, which is how the source's
`.map(..).collect::<Result<Vec<_>>>()` is read:

* `mapM_eq_ok_iff`: the traversal succeeds with `ys` exactly when each element succeeds with
  the element of `ys` at its place.
* `mapM_eq_error_of_mem`, `mapM_eq_error`: one failing element makes the whole traversal fail,
  and a failed traversal fails with the error of one of its elements.
-/

namespace SpringQL

/-- `SpringError`: the error kinds of the engine, each with the text of its `anyhow!` message. -/
inductive SpringError where
  | sql (msg : String)
  | invalidOption (msg : String)
  | unavailable (msg : String)
  | foreignIo (msg : String)
  | foreignSourceTimeout (msg : String)
  | foreignSinkTimeout (msg : String)
  | internal (msg : String)
  deriving DecidableEq, Repr

/-- An abnormal end of a call: a returned `Err`, or a panic. -/
inductive Fault where
  | error (e : SpringError)
  | panic (msg : String)
  deriving DecidableEq, Repr

/-- The `?` operator on a `Result` inside code that may also panic. -/
def Fault.lift {α : Type} : Except SpringError α → Except Fault α
  | .ok a => .ok a
  | .error e => .error (.error e)

/-- `Option::expect`: the value, or a panic with the given message. -/
def expect {α : Type} (o : Option α) (msg : String) : Except Fault α :=
  match o with
  | some a => .ok a
  | none => .error (.panic msg)

/-- `Result::expect`: the value, or a panic with the given message. -/
def expectOk {α : Type} (r : Except SpringError α) (msg : String) : Except Fault α :=
  match r with
  | .ok a => .ok a
  | .error _ => .error (.panic msg)

/-- The message of `unreachable!()`. -/
def unreachableMsg : String := "internal error: entered unreachable code"

@[simp] theorem Fault.lift_ok {α : Type} (a : α) : Fault.lift (.ok a) = .ok a := rfl

@[simp] theorem Fault.lift_error {α : Type} (e : SpringError) :
    Fault.lift (α := α) (.error e) = .error (.error e) := rfl

@[simp] theorem expect_some {α : Type} (a : α) (msg : String) : expect (some a) msg = .ok a := rfl

@[simp] theorem expect_none {α : Type} (msg : String) :
    expect (α := α) none msg = .error (.panic msg) := rfl

@[simp] theorem expect_eq_ok {α : Type} {o : Option α} {msg : String} {a : α} :
    expect o msg = .ok a ↔ o = some a := by
  cases o <;> simp

@[simp] theorem expectOk_ok {α : Type} (a : α) (msg : String) : expectOk (.ok a) msg = .ok a := rfl

@[simp] theorem expectOk_error {α : Type} (e : SpringError) (msg : String) :
    expectOk (α := α) (.error e) msg = .error (.panic msg) := rfl

section MapM

variable {ε α β : Type} {f : α → Except ε β}

theorem mapM_eq_ok_iff {xs : List α} {ys : List β} :
    xs.mapM f = .ok ys ↔ List.Forall₂ (fun x y => f x = .ok y) xs ys := by
  induction xs generalizing ys with
  | nil => cases ys <;> simp only [List.mapM_nil, List.forall₂_nil_left_iff] <;> simp [pure, Except.pure]
  | cons x xs ih =>
    rw [List.mapM_cons]
    cases ys with
    | nil => cases f x <;> cases xs.mapM f <;> simp only [bind, Except.bind, pure, Except.pure] <;> simp
    | cons y ys =>
      rw [List.forall₂_cons, ← ih]
      cases f x <;> cases xs.mapM f <;> simp only [bind, Except.bind, pure, Except.pure] <;> simp

theorem mapM_eq_error_of_mem {xs : List α} {x : α} {e : ε} (hx : x ∈ xs) (he : f x = .error e) :
    ∃ e', xs.mapM f = .error e' := by
  induction xs with
  | nil => cases hx
  | cons y xs ih =>
    rw [List.mapM_cons]
    cases hy : f y with
    | error e' => exact ⟨e', rfl⟩
    | ok z =>
      rcases List.mem_cons.mp hx with rfl | hx
      · rw [he] at hy; cases hy
      · obtain ⟨e', he'⟩ := ih hx
        exact ⟨e', by simp only [bind, Except.bind, he']⟩

theorem mapM_ok_self (xs : List α) : xs.mapM (fun x => (.ok x : Except ε α)) = .ok xs := by
  induction xs with
  | nil => rfl
  | cons x xs ih => rw [List.mapM_cons, ih]; rfl

/-- A traversal by `f` then `g` succeeds exactly when the traversal by `f` succeeds and the one
by `g` succeeds on its result. -/
theorem mapM_bind_eq_ok_iff {γ : Type} {g : β → Except ε γ} {xs : List α} {ys : List γ} :
    xs.mapM (fun x => f x >>= g) = .ok ys ↔ ∃ zs, xs.mapM f = .ok zs ∧ zs.mapM g = .ok ys := by
  simp only [mapM_eq_ok_iff]
  induction xs generalizing ys with
  | nil => simp
  | cons x xs ih =>
    cases ys with
    | nil => simp
    | cons y ys =>
      simp only [List.forall₂_cons, ih]
      constructor
      · rintro ⟨hxy, zs, hzs, hys⟩
        cases hfx : f x with
        | error e => simp [hfx, bind, Except.bind] at hxy
        | ok z =>
          exact ⟨z :: zs, .cons hfx hzs, .cons (by simpa [hfx, bind, Except.bind] using hxy) hys⟩
      · rintro ⟨_ | ⟨z, zs⟩, hzs, hys⟩
        · cases hzs
        · cases hzs with
          | cons hz hzs =>
            cases hys with
            | cons hy hys => exact ⟨by simp [hz, bind, Except.bind, hy], zs, hzs, hys⟩

/-- A failed traversal failed at one of its elements, with that element's error. -/
theorem mapM_eq_error {xs : List α} {e : ε} (h : xs.mapM f = .error e) :
    ∃ x ∈ xs, f x = .error e := by
  induction xs with
  | nil => cases h
  | cons y xs ih =>
    rw [List.mapM_cons] at h
    cases hy : f y with
    | error e' =>
      simp only [hy, bind, Except.bind] at h
      cases h
      exact ⟨y, List.mem_cons_self y xs, hy⟩
    | ok z =>
      cases hxs : xs.mapM f with
      | error e' =>
        simp only [hy, hxs, bind, Except.bind] at h
        cases h
        obtain ⟨x, hx, hfx⟩ := ih hxs
        exact ⟨x, List.mem_cons_of_mem y hx, hfx⟩
      | ok zs =>
        simp only [hy, hxs, bind, Except.bind, pure, Except.pure] at h
        cases h

/-- A traversal fails with the error of its first failing element. -/
theorem mapM_append_cons_error {xs₁ xs₂ : List α} {x : α} {e : ε}
    (hok : ∀ y ∈ xs₁, ∃ z, f y = .ok z) (he : f x = .error e) : (xs₁ ++ x :: xs₂).mapM f = .error e := by
  induction xs₁ with
  | nil => rw [List.nil_append, List.mapM_cons, he]; rfl
  | cons y xs₁ ih =>
    obtain ⟨z, hz⟩ := hok y (List.mem_cons_self y xs₁)
    rw [List.cons_append, List.mapM_cons, hz, ih fun y hy => hok y (List.mem_cons_of_mem _ hy)]
    rfl

/-- A traversal by `f` succeeds when `f` succeeds on every element. -/
theorem mapM_ok_of_forall {xs : List α} (h : ∀ x ∈ xs, ∃ y, f x = .ok y) :
    ∃ ys, xs.mapM f = .ok ys := by
  cases hm : xs.mapM f with
  | ok ys => exact ⟨ys, rfl⟩
  | error e =>
    obtain ⟨x, hx, hfx⟩ := mapM_eq_error hm
    obtain ⟨y, hy⟩ := h x hx
    rw [hy] at hfx
    cases hfx

end MapM

end SpringQL
