import Convnet.Proofs.Result
import Convnet.Session

namespace Convnet.Action

variable {ω β γ : Type} {s s' : Session ω}

theorem on_pure (b : β) (s : Session ω) : (pure b : Action ω β).on s = (.ok b, s) := rfl

theorem on_get (s : Session ω) : (get : Action ω (Session ω)).on s = (.ok s, s) := rfl

theorem on_set (t s : Session ω) : (set t : Action ω PUnit).on s = (.ok ⟨⟩, t) := rfl

theorem on_lift (r : Result β) (s : Session ω) : (liftM r : Action ω β).on s = (r, s) := rfl

theorem on_reading (f : Disk → Result β) (s : Session ω) : (reading f).on s = (f s.disk, s) := rfl

theorem on_bind (a : Action ω β) (f : β → Action ω γ) (s : Session ω) :
    (a >>= f).on s = match a.on s with
      | (.ok b, s') => (f b).on s'
      | (.error e, s') => (.error e, s') := by
  change (match a s with | (r, s') => ExceptT.bindCont f r s') = match a s with
      | (.ok b, s') => f b s'
      | (.error e, s') => (.error e, s')
  obtain ⟨r, s'⟩ := a s
  cases r <;> rfl

theorem pure_on_eq_ok {b c : β} : (pure b : Action ω β).on s = (.ok c, s') ↔ c = b ∧ s' = s := by
  rw [on_pure, Prod.mk.injEq, Except.ok.injEq, eq_comm, @eq_comm _ s]

theorem lift_on_eq_ok {r : Result β} {b : β} : (liftM r : Action ω β).on s = (.ok b, s') ↔ r = .ok b ∧ s' = s := by
  rw [on_lift, Prod.mk.injEq, @eq_comm _ s]

theorem reading_on_eq_ok {f : Disk → Result β} {b : β} :
    (reading f).on s = (.ok b, s') ↔ f s.disk = .ok b ∧ s' = s := by
  rw [on_reading, Prod.mk.injEq, @eq_comm _ s]

theorem bind_on_eq_ok {a : Action ω β} {f : β → Action ω γ} {c : γ} {s'' : Session ω} :
    (a >>= f).on s = (.ok c, s'') ↔ ∃ b s', a.on s = (.ok b, s') ∧ (f b).on s' = (.ok c, s'') := by
  rw [on_bind]
  obtain ⟨r, s'⟩ := a.on s
  constructor
  · cases r with
    | ok b => exact fun h => ⟨b, s', rfl, h⟩
    | error e => nofun
  · rintro ⟨b, s₁, hb, h⟩
    cases hb
    exact h

theorem changing_on_eq_ok {f : Disk → Result Disk} :
    (changing f).on s = (.ok (), s') ↔ ∃ d, f s.disk = .ok d ∧ s' = { s with disk := d } := by
  rw [changing, bind_on_eq_ok]
  constructor
  · rintro ⟨t, s₁, ht, h⟩
    cases ht
    obtain ⟨d, s₂, hd, h⟩ := bind_on_eq_ok.mp h
    obtain ⟨hd, rfl⟩ := lift_on_eq_ok.mp hd
    cases h
    exact ⟨d, hd, rfl⟩
  · rintro ⟨d, hd, rfl⟩
    exact ⟨s, s, rfl, bind_on_eq_ok.mpr ⟨d, s, lift_on_eq_ok.mpr ⟨hd, rfl⟩, rfl⟩⟩

theorem save_on_eq_ok {path : String} {v : Json} :
    (save path v).on s = (.ok (), s') ↔ ∃ d, s.disk.write path v.pretty.toUTF8 = .ok d ∧ s' = { s with disk := d } :=
  changing_on_eq_ok

theorem save_ne_misuse (path : String) (v : Json) (s : Session ω) : ((save path v).on s).1 ≠ .error .misuse := by
  rw [save, changing, on_bind, on_get]
  dsimp only
  rw [on_bind, on_lift, Disk.write]
  cases s.disk.writable? path with
  | none => exact fun h => nomatch Except.error.inj h
  | some names => exact fun h => nomatch h

/-- A step that leaves all files as they are, even when it fails. -/
def Leaves (a : Action ω β) : Prop := ∀ s, (a.on s).2.disk = s.disk

theorem Leaves.disk {a : Action ω β} {r : Result β} (ha : a.Leaves) (h : a.on s = (r, s')) : s'.disk = s.disk := by
  rw [← ha s, h]

theorem leaves_lift (r : Result β) : (liftM r : Action ω β).Leaves := fun _ => rfl

theorem leaves_pure (b : β) : (pure b : Action ω β).Leaves := fun _ => rfl

section Writing

variable [Writer ω]

/-- Whether every text can be printed. -/
def Takes (ω : Type) [Writer ω] : Prop := ∀ (out : ω) text, ∃ out', Writer.write out text = some out'

theorem leaves_say (text : String) : (say text : Action ω Unit).Leaves := by
  intro s
  rw [say, on_bind, on_get]
  dsimp only
  cases Writer.write s.out text <;> rfl

theorem leaves_sayLine (text : String) : (sayLine text : Action ω Unit).Leaves := leaves_say _

theorem takes_string : Takes String := fun out text => ⟨out ++ text, rfl⟩

theorem sayLine_answers (h : Takes ω) (text : String) (s : Session ω) :
    ∃ out, (sayLine text).on s = (.ok (), { s with out := out }) := by
  obtain ⟨out, hout⟩ := h s.out (text ++ "\n")
  refine ⟨out, ?_⟩
  rw [sayLine, say, on_bind, on_get]
  dsimp only
  rw [hout]
  rfl

end Writing

end Convnet.Action
