import Linkage.Proofs.Runs

/-!
# Linkage.Proofs.Agreement — actions that do the same on related assemblies

`Agree S R p q a b` compares `p` on `a` with `q` on `b`, with whatever journals: both end with values that `S` relates,
or both fail with the same fault, and in any case they leave `R`-related assemblies.  `Blind R p` is the case of one
action: it cannot tell `R`-related assemblies apart.  The rules follow the ways in which actions are put together.
-/

namespace Linkage.Act

variable {α β γ δ ε : Type}

/-- Both are values that `S` relates, or both are the same fault. -/
def Matches (S : β → γ → Prop) : Except (Fault α) β → Except (Fault α) γ → Prop
  | .ok x, .ok y => S x y
  | .error e, .error e' => e = e'
  | _, _ => False

theorem matches_refl (r : Except (Fault α) β) : Matches Eq r r := by
  cases r with
  | ok x => exact rfl
  | error e => exact rfl

theorem Matches.eq {r r' : Except (Fault α) β} (h : Matches Eq r r') : r = r' := by
  cases r with
  | ok x =>
    cases r' with
    | ok y => exact congrArg Except.ok h
    | error e => exact h.elim
  | error e =>
    cases r' with
    | ok y => exact h.elim
    | error e' => exact congrArg Except.error h

/-- On `a` and on `b`, `p` and `q` answer alike and leave related assemblies. -/
def Agree (S : β → γ → Prop) (R : Assembly α → Assembly α → Prop) (p : Act α β) (q : Act α γ) (a b : Assembly α) :
    Prop := Runs p a fun r a' => Runs q b fun r' b' => Matches S r r' ∧ R a' b'

section Rules

variable {S : β → γ → Prop} {R : Assembly α → Assembly α → Prop} {p : Act α β} {q : Act α γ} {a b : Assembly α}

theorem agree_pure {x : β} {y : γ} (hxy : S x y) (hab : R a b) : Agree S R (pure x) (pure y) a b :=
  runs_pure (runs_pure ⟨hxy, hab⟩)

theorem agree_throw (e : Fault α) (hab : R a b) : Agree S R (throw e) (throw e) a b :=
  runs_throw (runs_throw ⟨rfl, hab⟩)

theorem agree_ofExcept (r : Except (Fault α) β) (hab : R a b) : Agree Eq R (ofExcept r) (ofExcept r) a b :=
  runs_ofExcept (runs_ofExcept ⟨matches_refl r, hab⟩)

theorem agree_change {f g : Assembly α → Assembly α} (h : R (f a) (g b)) : Agree Eq R (change f) (change g) a b :=
  runs_change (runs_change ⟨rfl, h⟩)

theorem agree_report {channel channel' : Channel} {level level' : Level} {message message' : Message α}
    (hab : R a b) : Agree Eq R (report channel level message) (report channel' level' message') a b :=
  runs_report (runs_report ⟨rfl, hab⟩)

/-- Both read the assembly first. -/
theorem agree_read {f : Assembly α → Act α β} {g : Assembly α → Act α γ} (h : Agree S R (f a) (g b) a b) :
    Agree S R (assembly >>= f) (assembly >>= g) a b :=
  runs_read (Runs.mono h fun _ _ h' => runs_read h')

theorem agree_traced [Scalar α] {channel : Channel} {operation : String} {call : Assembly α → Call α}
    {result : Assembly α → β → Option (Value α)} {result' : Assembly α → γ → Option (Value α)}
    (h : Agree S R p q a b) (hwritable : Writable call result := by exact ⟨fun _ _ => rfl, fun _ _ _ => rfl⟩)
    (hwritable' : Writable call result' := by exact ⟨fun _ _ => rfl, fun _ _ _ => rfl⟩) :
    Agree S R (traced channel operation call result p) (traced channel operation call result' q) a b :=
  runs_traced (Runs.mono h fun _ _ h' => runs_traced h' hwritable') hwritable

/-- Where two actions agree and what follows them agrees on all they may leave, the sequences agree. -/
theorem agree_bind {T : δ → ε → Prop} {f : β → Act α δ} {g : γ → Act α ε} (h : Agree S R p q a b)
    (hf : ∀ x y a' b', S x y → R a' b' → Agree T R (f x) (g y) a' b') : Agree T R (p >>= f) (q >>= g) a b := by
  refine runs_bind (Runs.mono h fun r a' hq => ?_)
  cases r with
  | error e =>
    rw [then_error]
    refine runs_bind (hq.mono fun r' b' hmatch => ?_)
    cases r' with
    | ok y => exact hmatch.1.elim
    | error e' => exact hmatch
  | ok x =>
    rw [then_ok]
    intro j
    refine runs_bind (hq.mono fun r' b' hmatch => ?_)
    cases r' with
    | ok y => exact hf x y a' b' hmatch.1 hmatch.2 j
    | error e' => exact hmatch.1.elim

end Rules

/-! ### One action on two assemblies -/

section Blind

variable {R : Assembly α → Assembly α → Prop} {p : Act α β} {f : β → Act α γ}

/-- An action that answers the same on `R`-related assemblies, and leaves them `R`-related. -/
def Blind (R : Assembly α → Assembly α → Prop) (p : Act α β) : Prop := ∀ a b, R a b → Agree Eq R p p a b

theorem blind_pure (x : β) : Blind R (pure x : Act α β) := fun _ _ hab => agree_pure rfl hab

theorem blind_throw (e : Fault α) : Blind R (throw e : Act α β) := fun _ _ hab => agree_throw e hab

theorem blind_read {f : Assembly α → Act α β} (h : ∀ a b, R a b → Agree Eq R (f a) (f b) a b) :
    Blind R (assembly >>= f) := fun a b hab => agree_read (h a b hab)

theorem Blind.outcome (h : Blind R p) : Blind R (outcome p) := by
  refine fun a b hab => runs_outcome ((h a b hab).mono fun r a' hr => ?_)
  exact runs_outcome (hr.mono fun r' b' hr' => ⟨hr'.1.eq, hr'.2⟩)

theorem Blind.traced [Scalar α] {channel : Channel} {operation : String} {call : Assembly α → Call α}
    {result : Assembly α → β → Option (Value α)} (h : Blind R p)
    (hwritable : Writable call result := by exact ⟨fun _ _ => rfl, fun _ _ _ => rfl⟩) :
    Blind R (traced channel operation call result p) := fun a b hab => agree_traced (h a b hab) hwritable hwritable

theorem Blind.bind (hp : Blind R p) (hf : ∀ x, Blind R (f x)) : Blind R (p >>= f) := fun a b hab =>
  agree_bind (hp a b hab) fun x y a' b' hxy hab' => by
    subst hxy
    exact hf x a' b' hab'

end Blind

end Linkage.Act
