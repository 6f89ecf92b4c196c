import Convnet.Error

namespace Convnet

variable {β γ : Type}

theorem bind_eq_ok {x : Result β} {f : β → Result γ} {c : γ} :
    (x >>= f) = .ok c ↔ ∃ b, x = .ok b ∧ f b = .ok c := by
  cases x <;> simp [bind, Except.bind]

theorem bind_eq_error {x : Result β} {f : β → Result γ} {e : Error} :
    (x >>= f) = .error e ↔ x = .error e ∨ ∃ b, x = .ok b ∧ f b = .error e := by
  cases x <;> simp [bind, Except.bind]

@[simp] theorem ok_bind (b : β) (f : β → Result γ) : ((.ok b : Result β) >>= f) = f b := rfl

@[simp] theorem error_bind (e : Error) (f : β → Result γ) :
    ((.error e : Result β) >>= f) = .error e := rfl

@[simp] theorem pure_eq_ok (b : β) : (pure b : Result β) = .ok b := rfl

theorem pure_eq_ok_iff {b c : β} : (pure b : Result β) = .ok c ↔ c = b :=
  ⟨fun h => (Except.ok.inj h).symm, fun h => congrArg Except.ok h.symm⟩

@[simp] theorem throw_eq_error (e : Error) : (throw e : Result β) = .error e := rfl

@[simp] theorem require_true : require true = .ok () := rfl

@[simp] theorem require_false : require false = .error .misuse := rfl

theorem require_bind_eq_ok {b : Bool} {f : Unit → Result γ} {c : γ} :
    (require b >>= f) = .ok c ↔ b = true ∧ f () = .ok c := by
  cases b <;> simp

theorem requireWord_bind_eq_ok {b : Bool} {f : Unit → Result γ} {c : γ} :
    (requireWord b >>= f) = .ok c ↔ b = true ∧ f () = .ok c := by
  cases b <;> simp [requireWord]

theorem requireWord_eq_error {b : Bool} {e : Error} : requireWord b = .error e ↔ b = false ∧ e = .overflow := by
  cases b <;> simp [requireWord, eq_comm]

theorem require_pure (b : Bool) (c : β) :
    (require b >>= fun _ => pure c : Result β) = if b then .ok c else .error .misuse := by
  cases b <;> rfl

theorem requireWord_pure (b : Bool) (c : β) :
    (requireWord b >>= fun _ => pure c : Result β) = if b then .ok c else .error .overflow := by
  cases b <;> rfl

theorem exists_ok_ite {P : Prop} [Decidable P] {b : β} {e : Error} :
    (∃ c, (if P then .ok b else .error e : Result β) = .ok c) ↔ P := by
  split
  case isTrue h => exact iff_of_true ⟨b, rfl⟩ h
  case isFalse h => exact iff_of_false nofun h

theorem bind_ne_misuse {x : Result β} {f : β → Result γ} (hx : x ≠ .error .misuse)
    (hf : ∀ b, f b ≠ .error .misuse) : (x >>= f) ≠ .error .misuse := by
  cases x with
  | error e => simpa using hx
  | ok b => exact hf b

theorem map_ne_misuse {x : Result β} {f : β → γ} (hx : x ≠ .error .misuse) : x.map f ≠ .error .misuse := by
  cases x with
  | error e => simpa [Except.map] using hx
  | ok b => nofun

end Convnet
