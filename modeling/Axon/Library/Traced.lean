import Mathlib.Data.List.Basic

/-!
# Computations with a log

A computation that may fail, together with what it has logged until it returned or failed.  Running
a program this way beside its plain model says what the program has done on the way, also in the
runs that fail.

* **`Traced`** : the result and the log; a monad.
* `Traced.lift`, `Traced.tell` : a step that logs nothing, and a step that logs one thing.
* `Traced.value` : what a computation returns that cannot fail.
* **`Traced.result_bind`** : forgetting the log gives back the plain computation.
* **`Traced.Spec`** : everything logged satisfies `P`, and what is returned satisfies `Q`.
* **`Traced.Ends`** : the same, and a failure satisfies `E`.
* **`Traced.Relies`** : the same, where everything logged satisfies `A`.
* **`Traced.Yields`** : the computation returns, where everything logged satisfies `A`.
-/

namespace Library

/-- A result, and the log up to it. -/
structure Traced (ω ε α : Type) where
  result : Except ε α
  log : List ω

namespace Traced

variable {ω ε α β : Type}

/-- A step that logs nothing. -/
def lift (x : Except ε α) : Traced ω ε α := ⟨x, []⟩

/-- A step that logs `w`. -/
def tell (w : ω) (x : Except ε α) : Traced ω ε α := ⟨x, [w]⟩

/-- The log goes on with the second step if the first returned. -/
def seq (x : Traced ω ε α) (f : α → Traced ω ε β) : Traced ω ε β :=
  match x.result with
  | .ok a => ⟨(f a).result, x.log ++ (f a).log⟩
  | .error e => ⟨.error e, x.log⟩

instance : Monad (Traced ω ε) where
  pure a := ⟨.ok a, []⟩
  bind := seq

/-- A step after one that has returned. -/
lemma mk_bind (a : α) (log : List ω) (f : α → Traced ω ε β) :
    ((⟨.ok a, log⟩ : Traced ω ε α) >>= f) = ⟨(f a).result, log ++ (f a).log⟩ := rfl

/-- A step after one that has failed. -/
lemma error_bind (e : ε) (log : List ω) (f : α → Traced ω ε β) :
    ((⟨.error e, log⟩ : Traced ω ε α) >>= f) = ⟨.error e, log⟩ := rfl

lemma pure_bind (a : α) (f : α → Traced ω ε β) : ((pure a : Traced ω ε α) >>= f) = f a := rfl

/-- Three steps one after the other. -/
lemma bind_assoc {γ : Type} (x : Traced ω ε α) (f : α → Traced ω ε β) (g : β → Traced ω ε γ) :
    x >>= f >>= g = x >>= fun a => f a >>= g := by
  obtain ⟨result, log⟩ := x
  cases result with
  | error e => rfl
  | ok a =>
      rw [mk_bind, mk_bind]
      cases hf : f a with
      | mk result' log' =>
          cases result' with
          | error e => rfl
          | ok b =>
              rw [mk_bind, mk_bind, List.append_assoc]

/-- What a computation returns that cannot fail. -/
def value (x : Traced ω Empty α) : α :=
  match x.result with
  | .ok a => a
  | .error e => e.elim

/-! ## Forgetting the log -/

@[simp] lemma result_pure (a : α) : (pure a : Traced ω ε α).result = .ok a := rfl

@[simp] lemma result_lift (x : Except ε α) : (lift x : Traced ω ε α).result = x := rfl

@[simp] lemma result_tell (w : ω) (x : Except ε α) : (tell w x).result = x := rfl

@[simp] lemma result_bind (x : Traced ω ε α) (f : α → Traced ω ε β) :
    (x >>= f).result = x.result >>= fun a => (f a).result := by
  show (x.seq f).result = _
  rw [seq]
  cases x.result with
  | ok a => rfl
  | error e => rfl

@[simp] lemma result_ite (p : Prop) [Decidable p] (x y : Traced ω ε α) :
    (if p then x else y).result = if p then x.result else y.result := by
  split_ifs <;> rfl

/-- What the first step logged is in the log. -/
lemma mem_log_bind {x : Traced ω ε α} {w : ω} (h : w ∈ x.log) (f : α → Traced ω ε β) :
    w ∈ (x >>= f).log := by
  show w ∈ (x.seq f).log
  rw [seq]
  cases x.result with
  | ok a => exact List.mem_append_left _ h
  | error e => exact h

/-- What the second step logged is in the log, if the first returned. -/
lemma mem_log_bind_right {x : Traced ω ε α} {a : α} (hx : x.result = .ok a) {w : ω}
    {f : α → Traced ω ε β} (h : w ∈ (f a).log) : w ∈ (x >>= f).log := by
  show w ∈ (x.seq f).log
  rw [seq, hx]
  exact List.mem_append_right _ h

/-- A last step that returns adds nothing to the log. -/
lemma log_bind_pure (x : Traced ω ε α) (g : α → β) :
    (x >>= fun a => (pure (g a) : Traced ω ε β)).log = x.log := by
  obtain ⟨result, log⟩ := x
  cases result with
  | error e => rfl
  | ok a => exact List.append_nil log

/-- Everything logged satisfies `P`, and what is returned satisfies `Q`. -/
structure Spec (P : ω → Prop) (Q : α → Prop) (x : Traced ω ε α) : Prop where
  log : ∀ w ∈ x.log, P w
  result : ∀ a, x.result = .ok a → Q a

namespace Spec

variable {P : ω → Prop} {Q : α → Prop} {R : β → Prop} {x : Traced ω ε α} {f : α → Traced ω ε β}

protected lemma pure {a : α} (h : Q a) : Spec P Q (pure a : Traced ω ε α) :=
  ⟨nofun, fun _ hb => Except.ok.inj hb ▸ h⟩

protected lemma lift {y : Except ε α} (h : ∀ a, y = .ok a → Q a) :
    Spec P Q (lift y : Traced ω ε α) := ⟨nofun, h⟩

protected lemma tell {w : ω} {y : Except ε α} (hw : P w) (h : ∀ a, y = .ok a → Q a) :
    Spec P Q (tell w y) :=
  ⟨fun _ hv => List.mem_singleton.mp hv ▸ hw, h⟩

lemma imp {Q' : α → Prop} (h : Spec P Q x) (himp : ∀ a, Q a → Q' a) : Spec P Q' x :=
  ⟨h.log, fun a ha => himp a (h.result a ha)⟩

/-- Two steps, where the second is known to start from what the first returned. -/
lemma bind_of (hx : Spec P Q x) (hf : ∀ a, x.result = .ok a → Q a → Spec P R (f a)) :
    Spec P R (x >>= f) := by
  show Spec P R (x.seq f)
  rw [seq]
  cases hres : x.result with
  | error e => exact ⟨hx.log, nofun⟩
  | ok a =>
      have hfa := hf a hres (hx.result a hres)
      refine ⟨fun w hw => ?_, hfa.result⟩
      rcases List.mem_append.mp hw with hw | hw
      · exact hx.log w hw
      · exact hfa.log w hw

/-- **Two steps.** -/
protected lemma bind (hx : Spec P Q x) (hf : ∀ a, Q a → Spec P R (f a)) : Spec P R (x >>= f) :=
  hx.bind_of fun a _ => hf a

/-- Two steps, where nothing is said about what the first returns. -/
lemma then_ (hx : Spec P (fun _ => True) x) (hf : ∀ a, Spec P R (f a)) : Spec P R (x >>= f) :=
  hx.bind fun a _ => hf a

/-- A step that logs nothing and about which nothing is said. -/
lemma lift_then {y : Except ε α} (hf : ∀ a, Spec P R (f a)) :
    Spec P R ((lift y : Traced ω ε α) >>= f) :=
  (Spec.lift (Q := fun _ => True) fun _ _ => trivial).bind fun a _ => hf a

end Spec

/-- Everything logged satisfies `P`, what is returned satisfies `Q`, and a failure satisfies `E`. -/
structure Ends (P : ω → Prop) (Q : α → Prop) (E : ε → Prop) (x : Traced ω ε α) : Prop
    extends Spec P Q x where
  error : ∀ e, x.result = .error e → E e

namespace Ends

variable {P : ω → Prop} {Q : α → Prop} {R : β → Prop} {E : ε → Prop} {x : Traced ω ε α}
  {f : α → Traced ω ε β}

protected lemma pure {a : α} (h : Q a) : Ends P Q E (pure a : Traced ω ε α) :=
  ⟨Spec.pure h, nofun⟩

/-- A failure that logs nothing. -/
lemma fail {e : ε} (h : E e) : Ends P Q E (lift (.error e) : Traced ω ε α) :=
  ⟨Spec.lift nofun, fun _ he => Except.error.inj he ▸ h⟩

/-- **Two steps.** -/
protected lemma bind (hx : Ends P Q E x) (hf : ∀ a, Q a → Ends P R E (f a)) :
    Ends P R E (x >>= f) := by
  refine ⟨hx.toSpec.bind fun a ha => (hf a ha).toSpec, fun e he => ?_⟩
  rw [result_bind] at he
  cases hres : x.result with
  | error e' =>
      rw [hres] at he
      exact Except.error.inj he ▸ hx.error e' hres
  | ok a =>
      rw [hres] at he
      exact (hf a (hx.result a hres)).error e he

end Ends

/-! ## Relying on the log -/

/-- Where everything logged satisfies `A`, it satisfies `P` as well, and what is returned satisfies
`Q`.  `A` is about what the environment asked for, and `P` about what was done. -/
def Relies (A P : ω → Prop) (Q : α → Prop) (x : Traced ω ε α) : Prop :=
  (∀ w ∈ x.log, A w) → Spec P Q x

namespace Relies

variable {A P : ω → Prop} {Q : α → Prop} {R : β → Prop} {x : Traced ω ε α} {f : α → Traced ω ε β}

lemma of_spec (h : Spec P Q x) : Relies A P Q x := fun _ => h

protected lemma pure {a : α} (h : Q a) : Relies A P Q (pure a : Traced ω ε α) :=
  of_spec (Spec.pure h)

protected lemma tell {w : ω} {y : Except ε α} (hw : A w → P w) (h : ∀ a, A w → y = .ok a → Q a) :
    Relies A P Q (tell w y) := by
  intro hlog
  have hA : A w := hlog w (List.mem_singleton.mpr rfl)
  exact Spec.tell (hw hA) fun a => h a hA

/-- **Two steps.** -/
protected lemma bind (hx : Relies A P Q x) (hf : ∀ a, Q a → Relies A P R (f a)) :
    Relies A P R (x >>= f) := by
  intro hlog
  have hfirst := hx fun w hw => hlog w (mem_log_bind hw f)
  exact hfirst.bind_of fun a hres ha => hf a ha fun w hw => hlog w (mem_log_bind_right hres hw)

end Relies

/-- Where everything logged satisfies `A`, the computation returns, and what it returns satisfies
`Q`. -/
def Yields (A : ω → Prop) (Q : α → Prop) (x : Traced ω ε α) : Prop :=
  (∀ w ∈ x.log, A w) → ∃ a, x.result = .ok a ∧ Q a

namespace Yields

variable {A : ω → Prop} {Q : α → Prop} {R : β → Prop} {x : Traced ω ε α} {f : α → Traced ω ε β}

protected lemma pure {a : α} (h : Q a) : Yields A Q (pure a : Traced ω ε α) :=
  fun _ => ⟨a, rfl, h⟩

protected lemma lift {y : Except ε α} {a : α} (hy : y = .ok a) (h : Q a) :
    Yields A Q (lift y : Traced ω ε α) := fun _ => ⟨a, hy, h⟩

protected lemma tell {w : ω} {y : Except ε α} (h : A w → ∃ a, y = .ok a ∧ Q a) :
    Yields A Q (tell w y) := fun hlog => h (hlog w (List.mem_singleton.mpr rfl))

lemma imp {Q' : α → Prop} (h : Yields A Q x) (himp : ∀ a, Q a → Q' a) : Yields A Q' x := by
  intro hlog
  obtain ⟨a, hres, ha⟩ := h hlog
  exact ⟨a, hres, himp a ha⟩

/-- **Two steps.** -/
protected lemma bind (hx : Yields A Q x) (hf : ∀ a, Q a → Yields A R (f a)) :
    Yields A R (x >>= f) := by
  intro hlog
  obtain ⟨a, hres, ha⟩ := hx fun w hw => hlog w (mem_log_bind hw f)
  obtain ⟨b, hres', hb⟩ := hf a ha fun w hw => hlog w (mem_log_bind_right hres hw)
  refine ⟨b, ?_, hb⟩
  rw [result_bind, hres]
  exact hres'

end Yields

end Traced

end Library
