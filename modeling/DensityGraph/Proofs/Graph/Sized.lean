import DensityGraph.Proofs.Graph.Later
import DensityGraph.Proofs.Graph.Model
import DensityGraph.Proofs.Graph.Reached
/-!
# Sizes of variables

A variable keeps the shape and the length of free vectors that it is built with, and the
length is the one that its constraint needs for the shape.
-/

namespace DensityGraph
namespace Workspace

variable {v w : Workspace} {e : Edit} {x : NodeId} {n n' : Node} {b : Interval}
  {c : Constraint} {size : Nat}

def HasFreeSizes (w : Workspace) : Prop :=
  forall x n b c size, w.node? x = some n -> n.role = .latent b c size ->
    n.dim.IsDim ∧ (c.freeSize? (n.dim.map Int.ofNat)).map Int.toNat = some size

theorem isDistribution_of_latent (h : n.role = .latent b c size) : n.isDistribution = false := by
  apply Node.isDistribution_eq_false
  intro d
  rw [h]
  rintro ⟨⟩

theorem HasFreeSizes.edit (h : w.HasFreeSizes) (hadmits : w.Admits e) :
    (w.edit e).HasFreeSizes := by
  intro x n' b c size hn' hlatent
  rcases node?_edit hadmits hn' with ⟨n, hn, hchanges⟩ | ⟨_, hcreates⟩
  · have hrole := role_of_not_isDistribution hchanges (isDistribution_of_latent hlatent)
    rw [hchanges.dim]
    exact h x n b c size hn (hrole.symm.trans hlatent)
  · rcases hcreates.made with ⟨_, hmade⟩ | ⟨_, m, arguments, o, extras, _, hrole, _⟩
    · cases hmade with
      | data t hdim => cases hlatent
      | latent dim v b' c' size' hdim hfits hsize hvalue =>
          cases hlatent
          exact ⟨hdim, hsize⟩
      | distribution dim v d => cases hlatent
    · rw [hrole] at hlatent
      cases hlatent

theorem HasFreeSizes.update (h : w.HasFreeSizes) {id : NodeId} {f : Node → Node}
    (hdim : forall n, (f n).dim = n.dim)
    (hf : forall n b c size, (f n).role = .latent b c size -> n.role = .latent b c size) :
    (w.update id f).HasFreeSizes := by
  intro x n' b c size hn' hlatent
  rcases node?_update_some hn' with ⟨n, hn, rfl⟩
  by_cases hx : x = id
  · rw [if_pos hx] at hlatent ⊢
    rw [hdim]
    exact h x n b c size hn (hf n b c size hlatent)
  · rw [if_neg hx] at hlatent ⊢
    exact h x n b c size hn hlatent

theorem HasFreeSizes.spoiled (h : w.HasFreeSizes) {c : Call} (hspoils : w.spoils c = true) :
    (w.spoiled c).HasFreeSizes := by
  cases c with
  | addTarget id target =>
      apply h.update
      · exact fun n => Node.dim_mapDistribution n _
      · intro n b c size hrole
        unfold Node.mapDistribution at hrole
        split at hrole
        · cases hrole
        · exact hrole
  | addParent child v =>
      apply h.update
      · intro n
        unfold Node.addStray
        split <;> rfl
      · intro n b c size hrole
        unfold Node.addStray at hrole
        split at hrole <;> exact hrole
  | removeParent child v => exact h.update (fun _ => rfl) fun _ _ _ _ hrole => hrole
  | _ => cases hspoils

theorem hasFreeSizes_of_reached {allowed : Workspace → Call → Prop} (h : w.Reached allowed) :
    w.HasFreeSizes := by
  apply (h.preserves (I := HasFreeSizes) ?_ ?_ ?_).2.2
  · intro settings wide x n b c size hn
    cases hn
  · intro u v c e hv _ _ hadmits _
    exact hv.edit hadmits
  · intro v c hv _ hspoils
    exact hv.spoiled hspoils

end Workspace
end DensityGraph
