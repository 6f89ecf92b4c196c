import Mathlib
import Convnet.Plot.Canvas
import Convnet.Proofs.Result

namespace Convnet

@[simp] theorem isSigned_iff {v : Int} : isSigned v = true ↔ -2 ^ 63 ≤ v ∧ v < 2 ^ 63 := by
  simp [isSigned]

section Needs

variable {β γ : Type} {f g : β → Result β} {P Q : Prop}

/-- A step that answers just where something holds, whatever it is taken from, and is a misuse elsewhere. -/
def Needs (f : β → Result β) (P : Prop) : Prop :=
  ∀ b, (P → ∃ b', f b = .ok b') ∧ (¬ P → f b = .error .misuse)

theorem Needs.answers (h : Needs f P) (b : β) : (∃ b', f b = .ok b') ↔ P := by
  refine ⟨fun ⟨b', hb⟩ => ?_, (h b).1⟩
  by_contra hP
  rw [(h b).2 hP] at hb
  cases hb

theorem needs_ok (g : β → β) : Needs (fun b => .ok (g b)) True := fun b => ⟨fun _ => ⟨g b, rfl⟩, absurd trivial⟩

theorem needs_require (h : Bool) (g : β → β) : Needs (fun b => require h >>= fun _ => .ok (g b)) (h = true) := by
  cases h with
  | false => exact fun b => ⟨fun h => absurd h Bool.false_ne_true, fun _ => rfl⟩
  | true => exact fun b => ⟨fun _ => ⟨g b, rfl⟩, absurd rfl⟩

theorem Needs.bind (hf : Needs f P) (hg : Needs g Q) : Needs (fun b => f b >>= g) (P ∧ Q) := by
  intro b
  by_cases hP : P
  · obtain ⟨b', hb⟩ := (hf b).1 hP
    simpa only [hb, ok_bind, hP, true_and] using hg b'
  · refine ⟨fun h => absurd h.1 hP, fun _ => ?_⟩
    simp only [(hf b).2 hP, error_bind]

theorem Needs.foldlM {f : β → γ → Result β} {P : γ → Prop} (hf : ∀ c, Needs (f · c) (P c)) (cs : List γ) :
    Needs (fun b => cs.foldlM f b) (∀ c ∈ cs, P c) := by
  induction cs with
  | nil => exact fun b => ⟨fun _ => ⟨b, rfl⟩, fun h => absurd nofun h⟩
  | cons c cs ih => simpa only [List.foldlM_cons, List.forall_mem_cons] using (hf c).bind ih

theorem Needs.require (hf : Needs f P) (h : Bool) : Needs (fun b => require h >>= fun _ => f b) (h = true ∧ P) := by
  cases h with
  | false => exact fun b => ⟨fun h => absurd h.1 Bool.false_ne_true, fun _ => rfl⟩
  | true => simpa only [require_true, ok_bind, true_and] using hf

theorem Needs.signed {f : Int → β → Result β} {v : Int} (hf : Needs (f v) P) :
    Needs (fun b => signed v >>= fun w => f w b) (isSigned v = true ∧ P) := by
  simpa only [Convnet.signed, bind_assoc, pure_eq_ok, ok_bind] using hf.require (isSigned v)

end Needs

namespace Canvas

namespace Pen

def swap (p : Pen) : Pen := ⟨p.y, p.x, -p.balance⟩

end Pen

namespace Walk

variable {k : Walk} {p q : Pen} {ps : List Pen} {fuel n : Nat}

def next? (k : Walk) (p : Pen) : Option Pen :=
  if p.x = k.goalX ∧ p.y = k.goalY then none
  else
    let sideways := -k.spanY ≤ 2 * p.balance
    let upright := 2 * p.balance ≤ k.spanX
    some ⟨if sideways then p.x + k.stepX else p.x, if upright then p.y + k.stepY else p.y,
      p.balance - (if sideways then k.spanY else 0) + (if upright then k.spanX else 0)⟩

def numbers (k : Walk) (p : Pen) : List Int :=
  if p.x = k.goalX ∧ p.y = k.goalY then []
  else
    let across := p.balance - (if -k.spanY ≤ 2 * p.balance then k.spanY else 0)
    [2 * p.balance, across, across + (if 2 * p.balance ≤ k.spanX then k.spanX else 0)]

theorem next_eq (k : Walk) (p : Pen) :
    k.next p = if (k.numbers p).all isSigned then .ok (k.next? p) else .error .misuse := by
  rw [next, numbers, next?]
  by_cases h : p.x = k.goalX ∧ p.y = k.goalY
  · simp only [if_pos h]
    rfl
  · have hsideways : (if -k.spanY ≤ 2 * p.balance then p.balance - k.spanY else p.balance) =
        p.balance - (if -k.spanY ≤ 2 * p.balance then k.spanY else 0) := by split <;> simp
    have hupright : ∀ v : Int, (if 2 * p.balance ≤ k.spanX then v + k.spanX else v) =
        v + (if 2 * p.balance ≤ k.spanX then k.spanX else 0) := fun v => by split <;> simp
    simp only [if_neg h, signed_bind, hsideways, hupright, List.all_cons, List.all_nil, Bool.and_true, Bool.and_eq_true,
      ite_and]
    rfl

/-- The loop without a bound on its rounds: the pens from one on until the goal, if the loop comes to it. -/
inductive Course (k : Walk) : Pen → List Pen → Prop
  | stop {p : Pen} : k.next? p = none → k.Course p [p]
  | step {p q : Pen} {ps : List Pen} : k.next? p = some q → k.Course q ps → k.Course p (p :: ps)

def pens (k : Walk) : Nat → Pen → List Pen
  | 0, _ => []
  | fuel + 1, p => p ::
    match k.next? p with
    | none => []
    | some q => k.pens fuel q

theorem Course.pens_eq (h : k.Course p ps) (hf : ps.length ≤ fuel) : k.pens fuel p = ps := by
  induction h generalizing fuel with
  | stop hn =>
      obtain ⟨fuel, rfl⟩ := Nat.exists_eq_add_of_le' hf
      rw [List.length_singleton, Walk.pens, hn]
  | @step p q ps hn _ ih =>
      obtain ⟨fuel, rfl⟩ := Nat.exists_eq_add_of_le' (Nat.le_of_add_left_le hf)
      rw [Walk.pens, hn]
      exact congrArg (p :: ·) (ih (Nat.le_of_succ_le_succ hf))

section Visits

variable {β : Type} {f : β → Int × Int → Result β} {P : Int × Int → Prop}

theorem visit_succ (b : β) : k.visit f (fuel + 1) p b = f b p.position >>= fun b => k.next p >>= fun
    | none => .ok b
    | some q => k.visit f fuel q b := rfl

/-- While its numbers have their bits, the loop visits the pens of the exact walk. -/
theorem visit_eq (h : ∀ q ∈ k.pens fuel p, (k.numbers q).all isSigned = true) (b : β) :
    k.visit f fuel p b = ((k.pens fuel p).map Pen.position).foldlM f b := by
  induction fuel generalizing p b with
  | zero => rfl
  | succ fuel ih =>
      rw [pens, List.forall_mem_cons] at h
      rw [visit_succ, pens, List.map_cons, List.foldlM_cons]
      refine bind_congr fun b => ?_
      rw [next_eq, if_pos h.1, ok_bind]
      cases hn : k.next? p with
      | none => rfl
      | some q =>
          rw [hn] at h
          exact ih h.2 b

theorem visit_needs (hf : ∀ q, Needs (f · q) (P q)) : Needs (fun b => k.visit f fuel p b)
    (∀ q ∈ k.pens fuel p, P q.position ∧ (k.numbers q).all isSigned = true) := by
  induction fuel generalizing p with
  | zero => exact fun b => ⟨fun _ => ⟨b, rfl⟩, fun h => absurd nofun h⟩
  | succ fuel ih =>
      simp only [visit_succ, pens, List.forall_mem_cons, and_assoc, next_eq]
      refine (hf p.position).bind ?_
      cases (k.numbers p).all isSigned with
      | false => exact fun b => ⟨fun h => absurd h.1 Bool.false_ne_true, fun _ => rfl⟩
      | true =>
          cases hn : k.next? p with
          | none => simpa [hn] using needs_ok id
          | some q => simpa [hn] using ih

end Visits

theorem course_of_next {f : Nat → Pen} (hnext : ∀ i < n, k.next? (f i) = some (f (i + 1)))
    (hlast : k.next? (f n) = none) : k.Course (f 0) ((List.range (n + 1)).map f) := by
  induction n generalizing f with
  | zero => exact .stop hlast
  | succ n ih =>
      rw [List.range_succ_eq_map, List.map_cons, List.map_map]
      exact .step (hnext 0 n.succ_pos) (ih (f := f ∘ Nat.succ) (fun i hi => hnext (i + 1) (Nat.succ_lt_succ hi)) hlast)

def swap (k : Walk) : Walk := ⟨k.goalY, k.goalX, k.spanY, k.spanX, k.stepY, k.stepX⟩

theorem between_swap (x0 y0 x1 y1 : Int) : between y0 x0 y1 x1 = (between x0 y0 x1 y1).swap := rfl

theorem next?_swap : k.swap.next? p.swap = (k.next? p).map Pen.swap := by
  have hsideways : -k.spanX ≤ 2 * -p.balance ↔ 2 * p.balance ≤ k.spanX := by omega
  have hupright : 2 * -p.balance ≤ k.spanY ↔ -k.spanY ≤ 2 * p.balance := by omega
  simp only [next?, swap, Pen.swap, and_comm (a := p.y = k.goalY), hsideways, hupright]
  by_cases h : p.x = k.goalX ∧ p.y = k.goalY
  · rw [if_pos h, if_pos h, Option.map_none]
  · rw [if_neg h, if_neg h, Option.map_some]
    congr 2
    ring

theorem Course.swap (h : k.Course p ps) : k.swap.Course p.swap (ps.map Pen.swap) := by
  induction h with
  | stop hn => exact .stop (by rw [next?_swap, hn, Option.map_none])
  | step hn _ ih => exact .step (by rw [next?_swap, hn, Option.map_some]) ih

/-- How often the second axis has been stepped after `n` rounds: the ideal line, rounded to the nearest pixel and
up between two. -/
def rise (a b n : Nat) : Nat := (2 * b * n + a) / (2 * a)

section Rise

variable {a b : Nat}

theorem le_rise (ha : 0 < a) {m : Nat} : m ≤ rise a b n ↔ 2 * (a * m) ≤ 2 * (b * n) + a := by
  rw [rise, Nat.le_div_iff_mul_le (Nat.mul_pos two_pos ha)]
  refine iff_of_eq (congrArg₂ _ ?_ ?_) <;> ring

theorem rise_zero (a b : Nat) : rise a b 0 = 0 := by
  refine Nat.div_eq_zero_iff.mpr ?_
  omega

theorem rise_of_mul_eq (ha : 0 < a) {m : Nat} (h : b * n = a * m) : rise a b n = m := by
  refine eq_of_forall_le_iff fun i => ?_
  rw [le_rise ha, h]
  constructor
  · intro hi
    by_contra him
    have hsucc := Nat.mul_le_mul_left a (Nat.succ_le_of_lt (not_le.mp him))
    rw [Nat.mul_succ] at hsucc
    omega
  · intro hi
    exact (Nat.mul_le_mul_left 2 (Nat.mul_le_mul_left a hi)).trans (Nat.le_add_right _ a)

theorem rise_goal (hba : b ≤ a) : rise a b a = b := by
  rcases Nat.eq_zero_or_pos a with rfl | ha
  · rw [Nat.le_zero.mp hba, rise_zero]
  · exact rise_of_mul_eq ha (Nat.mul_comm b a)

theorem rise_mono {i : Nat} (h : i ≤ n) : rise a b i ≤ rise a b n :=
  Nat.div_le_div_right (Nat.add_le_add_right (Nat.mul_le_mul_left _ h) a)

theorem rise_near (ha : 0 < a) : 2 * (a * rise a b n) ≤ 2 * (b * n) + a ∧
    2 * (b * n) + a < 2 * (a * rise a b n) + 2 * a := by
  refine ⟨(le_rise ha).mp le_rfl, ?_⟩
  have h : ¬ rise a b n + 1 ≤ rise a b n := Nat.not_succ_le_self _
  rw [le_rise ha, Nat.mul_succ] at h
  omega

theorem rise_succ (ha : 0 < a) (hba : b ≤ a) : rise a b (n + 1) =
    if 2 * (a * (rise a b n + 1)) ≤ 2 * (b * (n + 1)) + a then rise a b n + 1 else rise a b n := by
  have hle : rise a b (n + 1) ≤ rise a b n + 1 := by
    refine Nat.le_of_lt_succ (lt_of_not_ge fun h => ?_)
    have hup := (le_rise ha).mp h
    have hnear := (rise_near (b := b) (n := n) ha).2
    rw [Nat.mul_succ, Nat.mul_succ, Nat.mul_succ] at hup
    omega
  split
  case isTrue h => exact le_antisymm hle ((le_rise ha).mpr h)
  case isFalse h =>
    rw [← le_rise ha, not_le] at h
    exact le_antisymm (Nat.le_of_lt_succ h) (rise_mono n.le_succ)

theorem rise_succ_cases (ha : 0 < a) (hba : b ≤ a) :
    rise a b (n + 1) = rise a b n ∨ rise a b (n + 1) = rise a b n + 1 := by
  rw [rise_succ ha hba]
  exact (ite_eq_or_eq ..).symm

end Rise

section Flat

variable {x0 y0 x1 y1 : Int} {a b : Nat}

structure Flat (k : Walk) (x0 y0 : Int) (a b : Nat) : Prop where
  spanX : k.spanX = a
  spanY : k.spanY = b
  stepX : k.stepX = 1 ∨ k.stepX = -1
  stepY : k.stepY = 1 ∨ k.stepY = -1
  goalX : k.goalX = x0 + k.stepX * a
  goalY : k.goalY = y0 + k.stepY * b
  le : b ≤ a

theorem flat_between (h : (y1 - y0).natAbs ≤ (x1 - x0).natAbs) :
    (between x0 y0 x1 y1).Flat x0 y0 (x1 - x0).natAbs (y1 - y0).natAbs where
  spanX := rfl
  spanY := rfl
  stepX := ite_eq_or_eq ..
  stepY := ite_eq_or_eq ..
  goalX := by simp only [between]; split <;> omega
  goalY := by simp only [between]; split <;> omega
  le := h

def flatPen (k : Walk) (x0 y0 : Int) (a b n : Nat) : Pen where
  x := x0 + k.stepX * n
  y := y0 + k.stepY * rise a b n
  balance := a * (1 + rise a b n) - b * (1 + n)

namespace Flat

variable (hk : k.Flat x0 y0 a b)

include hk

theorem pen_sideways (ha : 0 < a) : -k.spanY ≤ 2 * (k.flatPen x0 y0 a b n).balance := by
  have hnear := (rise_near (b := b) (n := n) ha).2
  have hle := hk.le
  rw [hk.spanY, flatPen]
  zify at hnear hle
  linarith

theorem pen_upright : 2 * (k.flatPen x0 y0 a b n).balance ≤ k.spanX ↔
    2 * (a * (rise a b n + 1)) ≤ 2 * (b * (n + 1)) + a := by
  rw [hk.spanX, flatPen]
  zify
  constructor
  · intro h
    linarith
  · intro h
    linarith

theorem pen_away (hn : n < a) : (k.flatPen x0 y0 a b n).x ≠ k.goalX := by
  simp only [hk.goalX, flatPen]
  rcases hk.stepX with hs | hs
  · rw [hs]
    omega
  · rw [hs]
    omega

theorem pen_next (hn : n < a) : k.next? (k.flatPen x0 y0 a b n) = some (k.flatPen x0 y0 a b (n + 1)) := by
  have ha : 0 < a := Nat.zero_lt_of_lt hn
  have hrise := rise_succ (n := n) ha hk.le
  rw [next?, if_neg fun h => hk.pen_away hn h.1]
  simp only [if_pos (hk.pen_sideways ha)]
  -- the loop steps the second axis in just the rounds in which the rounded line rises
  by_cases hup : 2 * (k.flatPen x0 y0 a b n).balance ≤ k.spanX
  · rw [if_pos (hk.pen_upright.mp hup)] at hrise
    rw [if_pos hup, if_pos hup, hk.spanX, hk.spanY]
    simp only [flatPen, hrise, Option.some.injEq, Pen.mk.injEq]
    push_cast
    refine ⟨?_, ?_, ?_⟩ <;> ring
  · rw [if_neg fun h => hup (hk.pen_upright.mpr h)] at hrise
    rw [if_neg hup, if_neg hup, hk.spanY]
    simp only [flatPen, hrise, Option.some.injEq, Pen.mk.injEq]
    push_cast
    refine ⟨?_, trivial, ?_⟩ <;> ring

theorem pen_goal : k.next? (k.flatPen x0 y0 a b a) = none := by
  refine if_pos ⟨hk.goalX.symm, ?_⟩
  rw [hk.goalY, flatPen, rise_goal hk.le]

theorem course : k.Course (k.flatPen x0 y0 a b 0) ((List.range (a + 1)).map (k.flatPen x0 y0 a b)) :=
  course_of_next (fun _ => hk.pen_next) hk.pen_goal

/-- The balance never leaves three spans of the longer axis. -/
theorem pen_balance (hn : n ≤ a) : (2 * (k.flatPen x0 y0 a b n).balance).natAbs ≤ 3 * a := by
  rcases Nat.eq_zero_or_pos a with rfl | ha
  · obtain rfl := Nat.le_zero.mp hk.le
    simp [flatPen]
  have hle := hk.le
  have hnear := rise_near (b := b) (n := n) ha
  rw [flatPen]
  zify at hnear hle ⊢
  rw [abs_le]
  constructor
  · linarith
  · linarith

end Flat

end Flat

end Walk

/-- Whether a position is on a segment or parted from it, along the second axis, by half a pixel at most. -/
def Beside (x0 y0 x1 y1 : Int) (p : Int × Int) : Prop :=
  ∃ t : ℚ, 0 ≤ t ∧ t ≤ 1 ∧ (p.1 : ℚ) = x0 + t * (x1 - x0) ∧ |(p.2 : ℚ) - (y0 + t * (y1 - y0))| ≤ 1 / 2

theorem beside_start (x0 y0 x1 y1 : Int) : Beside x0 y0 x1 y1 (x0, y0) :=
  ⟨0, le_rfl, zero_le_one, by ring, by norm_num⟩

theorem beside_of_near {x0 y0 dx dy : Int} {a b n m : Nat} (hdy : dy = 1 ∨ dy = -1) (ha : 0 < a) (hn : n ≤ a)
    (h : 2 * (a * m) ≤ 2 * (b * n) + a) (h' : 2 * (b * n) ≤ 2 * (a * m) + a) :
    Beside x0 y0 (x0 + dx * a) (y0 + dy * b) (x0 + dx * n, y0 + dy * m) := by
  have hq : (0 : ℚ) < a := Nat.cast_pos.mpr ha
  have hgap : ((m : ℚ) - n / a * b) = (a * m - b * n) / a := by
    field_simp
  have hhalf : |(m : ℚ) - n / a * b| ≤ 1 / 2 := by
    rw [hgap, abs_div, abs_of_pos hq, div_le_iff₀ hq, abs_le]
    have h₁ : 2 * ((a : ℚ) * m) ≤ 2 * (b * n) + a := by exact_mod_cast h
    have h₂ : 2 * ((b : ℚ) * n) ≤ 2 * (a * m) + a := by exact_mod_cast h'
    constructor
    · linarith
    · linarith
  refine ⟨n / a, div_nonneg n.cast_nonneg a.cast_nonneg, div_le_one_of_le₀ (Nat.cast_le.mpr hn) a.cast_nonneg, ?_, ?_⟩
  · push_cast
    field_simp
    ring
  · have hunit : |(dy : ℚ)| = 1 := by
      rcases hdy with rfl | rfl <;> simp
    have hsplit : ((y0 + dy * m : Int) : ℚ) - (y0 + n / a * ((y0 + dy * b : Int) - y0)) = dy * (m - n / a * b) := by
      push_cast
      ring
    rw [hsplit, abs_mul, hunit, one_mul]
    exact hhalf

/-- A line as it is to be: as many positions as the longer axis asks for, from the beginning to the end, in steps to
neighbours that never lead away from the end, and the longer axis stepped each time. -/
structure Straight (x0 y0 x1 y1 : Int) (ps : List (Int × Int)) : Prop where
  length : ps.length = max (x1 - x0).natAbs (y1 - y0).natAbs + 1
  first : ps.head? = some (x0, y0)
  last : ps.getLast? = some (x1, y1)
  neighbours : ps.IsChain fun p q => (q.1 - p.1).natAbs ≤ 1 ∧ (q.2 - p.2).natAbs ≤ 1
  nearer : ps.IsChain fun p q => (x1 - q.1).natAbs ≤ (x1 - p.1).natAbs ∧ (y1 - q.2).natAbs ≤ (y1 - p.2).natAbs
  inside : ∀ p ∈ ps, (min x0 x1 ≤ p.1 ∧ p.1 ≤ max x0 x1) ∧ min y0 y1 ≤ p.2 ∧ p.2 ≤ max y0 y1
  sideways : (y1 - y0).natAbs ≤ (x1 - x0).natAbs →
    (ps.IsChain fun p q => q.1 - p.1 = (x1 - x0).sign) ∧ ∀ p ∈ ps, Beside x0 y0 x1 y1 p
  upwards : (x1 - x0).natAbs ≤ (y1 - y0).natAbs →
    (ps.IsChain fun p q => q.2 - p.2 = (y1 - y0).sign) ∧ ∀ p ∈ ps, Beside y0 x0 y1 x1 p.swap

theorem Straight.swap {x0 y0 x1 y1 : Int} {ps : List (Int × Int)} (h : Straight x0 y0 x1 y1 ps) :
    Straight y0 x0 y1 x1 (ps.map Prod.swap) where
  length := by rw [List.length_map, h.length, max_comm]
  first := by rw [List.head?_map, h.first, Option.map_some, Prod.swap_prod_mk]
  last := by rw [List.getLast?_map, h.last, Option.map_some, Prod.swap_prod_mk]
  neighbours := (List.isChain_map _).mpr (h.neighbours.imp fun _ _ => And.symm)
  nearer := (List.isChain_map _).mpr (h.nearer.imp fun _ _ => And.symm)
  inside := List.forall_mem_map.mpr fun p hp => (h.inside p hp).symm
  sideways hle := ⟨(List.isChain_map _).mpr (h.upwards hle).1, List.forall_mem_map.mpr (h.upwards hle).2⟩
  upwards hle := ⟨(List.isChain_map _).mpr (h.sideways hle).1, List.forall_mem_map.mpr (h.sideways hle).2⟩

namespace Walk

variable {k : Walk} {x0 y0 : Int} {a b n : Nat}

theorem natAbs_step {s : Int} (hs : s = 1 ∨ s = -1) (m : Nat) : (s * m).natAbs = m := by
  rcases hs with rfl | rfl <;> omega

theorem sign_step {s : Int} (hs : s = 1 ∨ s = -1) {m : Nat} (hm : 0 < m) : (s * m).sign = s := by
  rcases hs with rfl | rfl
  · exact Int.sign_eq_one_of_pos (by omega)
  · exact Int.sign_eq_neg_one_of_neg (by omega)

theorem isChain_positions {R : Int × Int → Int × Int → Prop}
    (h : ∀ n < a, R (k.flatPen x0 y0 a b n).position (k.flatPen x0 y0 a b (n + 1)).position) :
    (((List.range (a + 1)).map (k.flatPen x0 y0 a b)).map Pen.position).IsChain R := by
  rw [List.isChain_map, List.isChain_map]
  exact (List.isChain_range_succ _ a).mpr h

theorem forall_positions {P : Int × Int → Prop} (h : ∀ n ≤ a, P (k.flatPen x0 y0 a b n).position) :
    ∀ p ∈ ((List.range (a + 1)).map (k.flatPen x0 y0 a b)).map Pen.position, P p := by
  refine List.forall_mem_map.mpr (List.forall_mem_map.mpr fun n hn => h n ?_)
  exact Nat.le_of_lt_succ (List.mem_range.mp hn)

namespace Flat

variable (hk : k.Flat x0 y0 a b)

include hk

theorem distanceX : (k.goalX - x0).natAbs = a := by
  rw [hk.goalX, add_sub_cancel_left, natAbs_step hk.stepX]

theorem distanceY : (k.goalY - y0).natAbs = b := by
  rw [hk.goalY, add_sub_cancel_left, natAbs_step hk.stepY]

theorem rise_le (hn : n ≤ a) : rise a b n ≤ b := (rise_mono hn).trans_eq (rise_goal hk.le)

theorem position_next (hn : n < a) : let p := (k.flatPen x0 y0 a b n).position
    let q := (k.flatPen x0 y0 a b (n + 1)).position
    q.1 - p.1 = k.stepX ∧ (q.2 - p.2).natAbs ≤ 1 ∧ (k.goalX - q.1).natAbs ≤ (k.goalX - p.1).natAbs ∧
      (k.goalY - q.2).natAbs ≤ (k.goalY - p.2).natAbs := by
  have hle : rise a b (n + 1) ≤ b := hk.rise_le hn
  have hcases := rise_succ_cases (n := n) (Nat.zero_lt_of_lt hn) hk.le
  simp only [flatPen, Pen.position, hk.goalX, hk.goalY]
  rcases hk.stepX with hx | hx
  · rcases hk.stepY with hy | hy
    · rw [hx, hy]
      omega
    · rw [hx, hy]
      omega
  · rcases hk.stepY with hy | hy
    · rw [hx, hy]
      omega
    · rw [hx, hy]
      omega

theorem position_inside (hn : n ≤ a) : let p := (k.flatPen x0 y0 a b n).position
    (min x0 k.goalX ≤ p.1 ∧ p.1 ≤ max x0 k.goalX) ∧ min y0 k.goalY ≤ p.2 ∧ p.2 ≤ max y0 k.goalY := by
  have hle : rise a b n ≤ b := hk.rise_le hn
  simp only [flatPen, Pen.position, hk.goalX, hk.goalY]
  constructor
  · rcases hk.stepX with hx | hx <;> rw [hx] <;> omega
  · rcases hk.stepY with hy | hy <;> rw [hy] <;> omega

theorem position_beside (hn : n ≤ a) :
    Beside x0 y0 k.goalX k.goalY (k.flatPen x0 y0 a b n).position := by
  rcases Nat.eq_zero_or_pos a with rfl | ha
  · obtain rfl := Nat.le_zero.mp hn
    simpa [flatPen, Pen.position, rise_zero] using beside_start x0 y0 k.goalX k.goalY
  · have hnear := rise_near (b := b) (n := n) ha
    rw [hk.goalX, hk.goalY]
    exact beside_of_near hk.stepY ha hn hnear.1 (by omega)

omit hk in
theorem position_beside_diagonal (hk : k.Flat x0 y0 a a) (hn : n ≤ a) :
    Beside y0 x0 k.goalY k.goalX (k.flatPen x0 y0 a a n).position.swap := by
  rcases Nat.eq_zero_or_pos a with rfl | ha
  · obtain rfl := Nat.le_zero.mp hn
    simpa [flatPen, Pen.position, rise_zero] using beside_start y0 x0 k.goalY k.goalX
  · have hdiagonal : rise a a n = n := rise_of_mul_eq ha rfl
    rw [hk.goalX, hk.goalY]
    simp only [flatPen, Pen.position, hdiagonal, Prod.swap_prod_mk]
    exact beside_of_near hk.stepX ha hn (Nat.le_add_right _ _) (Nat.le_add_right _ _)

theorem straight : Straight x0 y0 k.goalX k.goalY
    (((List.range (a + 1)).map (k.flatPen x0 y0 a b)).map Pen.position) where
  length := by
    rw [hk.distanceX, hk.distanceY, max_eq_left hk.le, List.length_map, List.length_map, List.length_range]
  first := by simp [List.head?_range, flatPen, Pen.position, rise_zero]
  last := by simp [List.getLast?_range, flatPen, Pen.position, rise_goal hk.le, hk.goalX, hk.goalY]
  neighbours := isChain_positions fun n hn => by
    obtain ⟨hx, hy, -⟩ := hk.position_next hn
    refine ⟨?_, hy⟩
    rw [hx]
    rcases hk.stepX with hs | hs <;> rw [hs] <;> rfl
  nearer := isChain_positions fun n hn => (hk.position_next hn).2.2
  inside := forall_positions fun n hn => hk.position_inside hn
  sideways _ := by
    refine ⟨isChain_positions fun n hn => ?_, forall_positions fun n hn => hk.position_beside hn⟩
    rw [(hk.position_next hn).1, hk.goalX, add_sub_cancel_left, sign_step hk.stepX (Nat.zero_lt_of_lt hn)]
  upwards h := by
    rw [hk.distanceX, hk.distanceY] at h
    obtain rfl : a = b := le_antisymm h hk.le
    refine ⟨isChain_positions fun n hn => ?_, forall_positions fun n hn => hk.position_beside_diagonal hn⟩
    have ha : 0 < a := Nat.zero_lt_of_lt hn
    have hdiagonal : ∀ m, rise a a m = m := fun m => rise_of_mul_eq ha rfl
    rw [hk.goalY, add_sub_cancel_left, sign_step hk.stepY ha]
    simp only [flatPen, Pen.position, hdiagonal]
    push_cast
    ring

end Flat

theorem swap_start (x0 y0 x1 y1 : Int) : (start x0 y0 x1 y1).swap = start y0 x0 y1 x1 := by
  simp only [start, Pen.swap, between_swap x0 y0 x1 y1, Walk.swap]
  congr 1
  ring

theorem flatPen_start (x0 y0 x1 y1 : Int) :
    (between x0 y0 x1 y1).flatPen x0 y0 (x1 - x0).natAbs (y1 - y0).natAbs 0 = start x0 y0 x1 y1 := by
  simp [flatPen, rise_zero, start, between]

theorem exists_course (x0 y0 x1 y1 : Int) : ∃ pens, (between x0 y0 x1 y1).Course (start x0 y0 x1 y1) pens ∧
    Straight x0 y0 x1 y1 (pens.map Pen.position) ∧
    ∀ p ∈ pens, (2 * p.balance).natAbs ≤ 3 * max (x1 - x0).natAbs (y1 - y0).natAbs := by
  -- a line that is steep is one that is flat after an exchange of the axes
  wlog hle : (y1 - y0).natAbs ≤ (x1 - x0).natAbs generalizing x0 y0 x1 y1
  · obtain ⟨pens, hcourse, hstraight, hbalance⟩ := this y0 x0 y1 x1 (le_of_not_ge hle)
    refine ⟨pens.map Pen.swap, ?_, ?_, List.forall_mem_map.mpr fun p hp => ?_⟩
    · rw [between_swap, ← swap_start]
      exact hcourse.swap
    · have hmap : (pens.map Pen.swap).map Pen.position = (pens.map Pen.position).map Prod.swap := by
        rw [List.map_map, List.map_map]
        rfl
      rw [hmap]
      exact hstraight.swap
    · rw [max_comm, Pen.swap, mul_neg, Int.natAbs_neg]
      exact hbalance p hp
  · have hk := flat_between hle
    have hcourse := hk.course
    rw [flatPen_start] at hcourse
    refine ⟨_, hcourse, hk.straight, List.forall_mem_map.mpr fun n hn => ?_⟩
    rw [max_eq_left hle]
    exact hk.pen_balance (Nat.le_of_lt_succ (List.mem_range.mp hn))

end Walk

/-- The pens of a line whose numbers have no bound. -/
def linePens (x0 y0 x1 y1 : Int) : List Pen :=
  (Walk.between x0 y0 x1 y1).pens (lineFuel x0 y0 x1 y1) (Walk.start x0 y0 x1 y1)

def linePositions (x0 y0 x1 y1 : Int) : List (Int × Int) := (linePens x0 y0 x1 y1).map Pen.position

theorem course_linePens (x0 y0 x1 y1 : Int) :
    (Walk.between x0 y0 x1 y1).Course (Walk.start x0 y0 x1 y1) (linePens x0 y0 x1 y1) ∧
    Straight x0 y0 x1 y1 (linePositions x0 y0 x1 y1) ∧
    ∀ p ∈ linePens x0 y0 x1 y1, (2 * p.balance).natAbs ≤ 3 * max (x1 - x0).natAbs (y1 - y0).natAbs := by
  obtain ⟨pens, hcourse, hstraight, hbalance⟩ := Walk.exists_course x0 y0 x1 y1
  have hpens : linePens x0 y0 x1 y1 = pens := by
    refine hcourse.pens_eq ?_
    rw [← List.length_map Pen.position, hstraight.length]
    exact Nat.succ_le_succ (max_le (Nat.le_add_right _ _) (Nat.le_add_left _ _))
  rw [linePositions, hpens]
  exact ⟨hcourse, hstraight, hbalance⟩

theorem straight_linePositions (x0 y0 x1 y1 : Int) : Straight x0 y0 x1 y1 (linePositions x0 y0 x1 y1) :=
  (course_linePens x0 y0 x1 y1).2.1

section Drawn

variable {x y w h x0 y0 x1 y1 : Int} {thickness : Nat} {colour : Colour} {c c' : Canvas}

def Bounded (x y w h : Int) : Prop := isSigned (y + h) = true ∧ (0 < h → isSigned (x + w) = true)

theorem fill_needs (x y w h : Int) (colour : Colour) :
    Needs (fun c : Canvas => c.fill x y w h colour) (Bounded x y w h) := by
  have hbounded : (isSigned (y + h) && (decide (h ≤ 0) || isSigned (x + w))) = true ↔ Bounded x y w h := by
    rw [Bounded, Bool.and_eq_true, Bool.or_eq_true, decide_eq_true_eq, ← not_lt, ← imp_iff_not_or]
  exact propext hbounded ▸ needs_require _ _

def SquareBounded (x y : Int) (side : Nat) : Prop := isSigned x = true ∧ isSigned y = true ∧ Bounded x y side side

theorem fillSquare_needs (x y : Int) (side : Nat) (colour : Colour) :
    Needs (fun c : Canvas => c.fillSquare x y side colour) (SquareBounded x y side) :=
  .signed (f := fun u (c : Canvas) => signed y >>= fun v => c.fill u v side side colour)
    (.signed (f := fun v (c : Canvas) => c.fill x v side side colour) (fill_needs x y side side colour))

def StampBounded (thickness : Nat) (p : Int × Int) : Prop :=
  SquareBounded (p.1 - (thickness / 2 : Nat)) (p.2 - (thickness / 2 : Nat)) (max thickness 1)

theorem stamp_needs (thickness : Nat) (colour : Colour) (p : Int × Int) :
    Needs (fun c : Canvas => c.stamp thickness colour p) (StampBounded thickness p) :=
  fillSquare_needs _ _ _ colour

/-- The numbers that the loop of a line counts with have 64 bits. -/
def LineCounted (x0 y0 x1 y1 : Int) : Prop :=
  (isSigned (Walk.between x0 y0 x1 y1).spanX && isSigned (Walk.between x0 y0 x1 y1).spanY) = true ∧
    ∀ p ∈ linePens x0 y0 x1 y1, ((Walk.between x0 y0 x1 y1).numbers p).all isSigned = true

/-- The numbers of a line have 64 bits: those of its pens, and the edges of their squares. -/
def LineBounded (x0 y0 x1 y1 : Int) (thickness : Nat) : Prop :=
  (isSigned (Walk.between x0 y0 x1 y1).spanX && isSigned (Walk.between x0 y0 x1 y1).spanY) = true ∧
    ∀ p ∈ linePens x0 y0 x1 y1, StampBounded thickness p.position ∧
      ((Walk.between x0 y0 x1 y1).numbers p).all isSigned = true

theorem line_needs (x0 y0 x1 y1 : Int) (thickness : Nat) (colour : Colour) :
    Needs (fun c : Canvas => c.line x0 y0 x1 y1 thickness colour) (LineBounded x0 y0 x1 y1 thickness) :=
  (Walk.visit_needs (stamp_needs thickness colour)).require _

theorem LineBounded.counted (h : LineBounded x0 y0 x1 y1 thickness) : LineCounted x0 y0 x1 y1 :=
  ⟨h.1, fun p hp => (h.2 p hp).2⟩

theorem LineCounted.line_eq (h : LineCounted x0 y0 x1 y1) (c : Canvas) : c.line x0 y0 x1 y1 thickness colour =
    (linePositions x0 y0 x1 y1).foldlM (fun c p => c.stamp thickness colour p) c := by
  rw [line, h.1, require_true, ok_bind, Walk.visit_eq h.2, linePositions, linePens]

theorem foldlM_of_line (h : c.line x0 y0 x1 y1 thickness colour = .ok c') :
    (linePositions x0 y0 x1 y1).foldlM (fun c p => c.stamp thickness colour p) c = .ok c' := by
  rw [← (((line_needs x0 y0 x1 y1 thickness colour).answers c).mp ⟨c', h⟩).counted.line_eq c, h]

theorem Walk.numbers_signed {k : Walk} {p : Pen} {n : Nat} (hx : 0 ≤ k.spanX ∧ k.spanX ≤ n)
    (hy : 0 ≤ k.spanY ∧ k.spanY ≤ n) (hp : (2 * p.balance).natAbs ≤ 3 * n) (hn : 3 * n < 2 ^ 63) :
    (k.numbers p).all isSigned = true := by
  rw [numbers]
  split
  · rfl
  · simp only [List.all_cons, List.all_nil, Bool.and_true, Bool.and_eq_true, isSigned_iff]
    refine ⟨by omega, ?_, ?_⟩
    · split <;> omega
    · split <;> split <;> omega

theorem stampBounded_of_between {p : Int × Int} (hx : -2 ^ 63 + thickness ≤ p.1 ∧ p.1 + thickness + 1 < 2 ^ 63)
    (hy : -2 ^ 63 + thickness ≤ p.2 ∧ p.2 + thickness + 1 < 2 ^ 63) : StampBounded thickness p := by
  simp only [StampBounded, SquareBounded, Bounded, isSigned_iff]
  omega

theorem lineCounted_of_near (hnear : 3 * max (x1 - x0).natAbs (y1 - y0).natAbs < 2 ^ 63) :
    LineCounted x0 y0 x1 y1 := by
  refine ⟨?_, fun p hp => ?_⟩
  · simp only [Walk.between, Bool.and_eq_true, isSigned_iff]
    omega
  · refine Walk.numbers_signed ?_ ?_ ((course_linePens x0 y0 x1 y1).2.2 p hp) hnear <;>
      simp only [Walk.between] <;> omega

theorem LineCounted.bounded (h : LineCounted x0 y0 x1 y1)
    (hroom : ∀ v ∈ [x0, y0, x1, y1], -2 ^ 63 + (thickness : Int) ≤ v ∧ v + thickness + 1 < 2 ^ 63) :
    LineBounded x0 y0 x1 y1 thickness := by
  refine ⟨h.1, fun p hp => ⟨?_, h.2 p hp⟩⟩
  simp only [List.forall_mem_cons, List.not_mem_nil, false_imp_iff, implies_true, and_true] at hroom
  obtain ⟨hx0, hy0, hx1, hy1⟩ := hroom
  obtain ⟨hx, hy⟩ := (straight_linePositions x0 y0 x1 y1).inside p.position (List.mem_map_of_mem hp)
  exact stampBounded_of_between (by omega) (by omega)

theorem lineBounded_of_near (hnear : 3 * max (x1 - x0).natAbs (y1 - y0).natAbs < 2 ^ 63)
    (hroom : ∀ v ∈ [x0, y0, x1, y1], -2 ^ 63 + (thickness : Int) ≤ v ∧ v + thickness + 1 < 2 ^ 63) :
    LineBounded x0 y0 x1 y1 thickness :=
  (lineCounted_of_near hnear).bounded hroom

/-- The pens of a line, from its beginning to its end, are on a straight line. While the numbers of the loop have 64
bits, which is so between ends that are not too far from each other, it comes from each of them to the next one, and
stamps the pen at their positions; if one of the numbers has more bits, the line is a misuse. It is drawn as long as
there is room for the pen at both ends. -/
theorem line_straight (x0 y0 x1 y1 : Int) :
    (Walk.between x0 y0 x1 y1).Course (Walk.start x0 y0 x1 y1) (linePens x0 y0 x1 y1) ∧
    Straight x0 y0 x1 y1 (linePositions x0 y0 x1 y1) ∧
    (3 * max (x1 - x0).natAbs (y1 - y0).natAbs < 2 ^ 63 → LineCounted x0 y0 x1 y1) ∧
    (LineCounted x0 y0 x1 y1 → ∀ p ∈ linePens x0 y0 x1 y1,
      (Walk.between x0 y0 x1 y1).next p = .ok ((Walk.between x0 y0 x1 y1).next? p)) ∧
    ∀ (thickness : Nat) (colour : Colour) (c : Canvas),
      (LineCounted x0 y0 x1 y1 → c.line x0 y0 x1 y1 thickness colour =
        (linePositions x0 y0 x1 y1).foldlM (fun c p => c.stamp thickness colour p) c) ∧
      (¬ LineCounted x0 y0 x1 y1 → c.line x0 y0 x1 y1 thickness colour = .error .misuse) ∧
      (LineCounted x0 y0 x1 y1 →
        (∀ v ∈ [x0, y0, x1, y1], -2 ^ 63 + (thickness : Int) ≤ v ∧ v + thickness + 1 < 2 ^ 63) →
        ∃ c', c.line x0 y0 x1 y1 thickness colour = .ok c') := by
  refine ⟨(course_linePens x0 y0 x1 y1).1, straight_linePositions x0 y0 x1 y1, lineCounted_of_near, fun h p hp => ?_,
    fun thickness colour c => ⟨fun h => h.line_eq c, fun h => ?_, fun h hroom => ?_⟩⟩
  · rw [Walk.next_eq, if_pos (h.2 p hp)]
  · exact (line_needs x0 y0 x1 y1 thickness colour c).2 fun hb => h hb.counted
  · exact (line_needs x0 y0 x1 y1 thickness colour c).1 (h.bounded hroom)

theorem line_straight_steep : LineCounted 0 0 2 (-5) ∧
    linePositions 0 0 2 (-5) = [(0, 0), (0, -1), (1, -2), (1, -3), (2, -4), (2, -5)] ∧
    Straight 0 0 2 (-5) (linePositions 0 0 2 (-5)) ∧
    ∃ c, (blank 4 4 ⟨0, 0, 0⟩).line 0 0 2 (-5) 1 ⟨1, 7, 254⟩ = .ok c := by
  obtain ⟨-, hstraight, hnear, -, hline⟩ := line_straight 0 0 2 (-5)
  have hcounted := hnear (by decide)
  exact ⟨hcounted, by decide, hstraight, (hline 1 ⟨1, 7, 254⟩ (blank 4 4 ⟨0, 0, 0⟩)).2.2 hcounted (by decide)⟩

/-- Twice the balance of a line over `2 ^ 62` pixels is no signed number of 64 bits, and the loop ends in its first
round; a line `2 ^ 32` pixels to the right of the canvas is drawn over it. -/
theorem line_misuse : (blank 4 1 ⟨0, 0, 0⟩).line 0 0 (2 ^ 62) 0 1 ⟨1, 7, 254⟩ = .error .misuse ∧
    (blank 4 1 ⟨0, 0, 0⟩).line (2 ^ 32) 0 (2 ^ 32 + 3) 0 1 ⟨1, 7, 254⟩ = .ok (blank 4 1 ⟨1, 7, 254⟩) := by
  refine ⟨?_, by decide⟩
  refine (line_needs 0 0 (2 ^ 62) 0 1 _ _).2 fun h => ?_
  have hstart : Walk.start 0 0 (2 ^ 62) 0 ∈ linePens 0 0 (2 ^ 62) 0 := List.mem_cons_self
  exact absurd (h.2 _ hstart).2 (by decide)

end Drawn

end Convnet.Canvas
