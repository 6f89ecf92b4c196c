import Convnet.Proofs.Epochs
import Convnet.Proofs.Reload

namespace Convnet

variable {α : Type} [Scalar α] {σ : Type} [RandomSource σ]

omit [RandomSource σ] in
theorem Layer.roomy_withParameters {l : Layer α} (h : l.Roomy) (ps : List (Parameter α)) :
    (l.ready.withParameters ps).Roomy := by
  cases l with
  | conv | dense => rcases ps with _ | ⟨a, _ | ⟨b, _ | _⟩⟩ <;> exact h
  | pool | flatten | dropout | pointwise => exact h

namespace Network

omit [RandomSource σ] in
theorem deal_roomy {ls : List (Layer α)} (h : ∀ l ∈ ls, l.Roomy) (ps : List (Parameter α)) :
    ∀ l ∈ deal ls ps, l.Roomy := by
  induction ls generalizing ps with
  | nil => simp [deal]
  | cons l ls ih =>
      rw [List.forall_mem_cons] at h
      rw [deal, List.forall_mem_cons]
      exact ⟨Layer.roomy_withParameters h.1 _, ih h.2 _⟩

/-- A batch has at least one sample, which has passed through all layers. -/
theorem trainBatch_retains {net net' : Network α} {d : Dataset α} {indices : List Nat} {o o' : Optimizer α}
    {s s' : σ} {t : Tally α} (h : net.trainBatch d indices o s = .ok (net', o', s', t)) :
    net'.metadata = net.metadata ∧ ∀ l ∈ net'.layers, l.Roomy := by
  obtain ⟨hne, mid, hrun, hstep⟩ := trainBatch_eq_ok.mp h
  obtain ⟨hk, hr⟩ := trainSamples_retains hrun
  obtain ⟨ps, -, rfl⟩ := applyGradients_eq_ok.mp hstep
  exact ⟨hk.metadata, deal_roomy (hr.resolve_left hne) ps⟩

def Given (σ : Type) [RandomSource σ] (train : Dataset α) (P : Network α → Prop) : Prop :=
  ∀ (net net' : Network α) indices o o' (s s' : σ) t, net.trainBatch train indices o s = .ok (net', o', s', t) → P net'

theorem Given.kept {train : Dataset α} {P : Network α → Prop} (h : Given σ train P) : Kept σ train P :=
  fun net net' indices o o' s s' t _ hone => h net net' indices o o' s s' t hone

end Network

namespace Run

variable {τ : Type} {schedule : Schedule} {send : Receiver α τ} {train : Dataset α}
  {validation : Option (Dataset α)} {P : Network α → Prop} {r r' : Run α σ τ}

theorem batches_given (hP : Network.Given σ train P) {epoch total j : Nat} {parts : List (List Nat)} (hne : parts ≠ [])
    {tally tally' : Tally α} (h : batches schedule send train epoch total j parts r tally = .ok (r', tally')) :
    P r'.network := by
  obtain ⟨indices, rest, rfl⟩ := List.exists_cons_of_ne_nil hne
  obtain ⟨r₁, tally₁, hone, h⟩ := batches_cons.mp h
  have hr₁ : P r₁.network := by
    obtain ⟨net, o, s, one, hbatch, -, rfl⟩ := batch_eq_ok.mp hone
    have hnet := hP _ _ _ _ _ _ _ _ hbatch
    split <;> exact hnet
  split at h
  · rw [h.1]
    exact hr₁
  · exact (batches_invariant hP.kept (j + 1) rest tally₁ hr₁).2 r' tally' h

theorem epoch_given (hP : Network.Given σ train P) {number : Nat} (hne : r.shuffled.parts schedule ≠ [])
    (h : r.epoch schedule send train validation number = .ok r') : P r'.network := by
  obtain ⟨r₁, tally, hrun, h⟩ := epoch_eq_ok.mp h
  have hr₁ := batches_given hP hne hrun
  split at h
  · rwa [h]
  · obtain ⟨measured, -, rfl⟩ := close_eq_ok.mp h
    exact hr₁

theorem epochs_given (hP : Network.Given σ train P) {n k : Nat} (hne : r.shuffled.parts schedule ≠ [])
    (h : epochs schedule send train validation (n + 1) k r = .ok r') : P r'.network := by
  obtain ⟨r₁, hone, h⟩ := epochs_succ.mp h
  have hr₁ := epoch_given hP hne hone
  split at h
  · rwa [h]
  · exact epochs_invariant hP.kept hr₁ h

omit [Scalar α] [RandomSource σ] in
theorem parts_ne_nil (hp : r.Permutes train) (hne : train.isEmpty = false) : r.parts schedule ≠ [] := by
  intro hnil
  have horder : r.order.toList = [] := by
    rw [← flatten_pieces schedule.batchSize r.order.toList]
    exact (congrArg List.flatten hnil).trans List.flatten_nil
  have hsize := hp.length_eq
  rw [horder, List.length_nil, List.length_range] at hsize
  simp [Dataset.isEmpty] at hne
  exact hne (Array.eq_empty_of_size_eq_zero hsize.symm)

end Run

theorem Network.fit_retains {τ : Type} {net : Network α} {train : Dataset α} {validation : Option (Dataset α)}
    {o : Optimizer α} {schedule : Schedule} {source : σ} {send : Receiver α τ} {receiver : τ} {r : Run α σ τ}
    (he : schedule.epochs ≠ 0) (h : net.fit train validation o schedule source send receiver = .ok r) :
    r.network.metadata = net.metadata ∧ ∀ l ∈ r.network.layers, l.Roomy := by
  obtain ⟨v, hcheck, h⟩ := bind_eq_ok.mp h
  have hne : train.isEmpty = false := (checkFit_eq_ok_iff.mp hcheck).1.1
  obtain ⟨n, hn⟩ := Nat.exists_eq_succ_of_ne_zero he
  have hmeta : Kept σ train fun k => k.metadata = net.metadata :=
    fun _ _ _ _ _ _ _ _ hk hone => (trainBatch_retains hone).1.trans hk
  refine ⟨Run.epochs_invariant hmeta rfl h, ?_⟩
  rw [hn] at h
  have hgiven : Given σ train fun k => ∀ l ∈ k.layers, l.Roomy := by
    intro _ _ _ _ _ _ _ _ hone
    exact (trainBatch_retains hone).2
  have hstart : (Run.start net o source train receiver).Permutes train := by
    rw [Run.Permutes, Run.start, Array.toList_range]
  exact Run.epochs_given hgiven (Run.parts_ne_nil (Run.shuffled_permutes hstart) hne) h

end Convnet
