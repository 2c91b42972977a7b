import DensityGraph.Proofs.Graph.Reached
/-!
# Ranges of distributions

A distribution is declared with a support that is not empty, and a truncation has been
checked against it.  Neither is changed by anything that is done to the graph afterwards, so
that in all workspaces that are reached every truncation is a smaller interval within the
support.
-/

namespace DensityGraph

namespace Distribution

variable {d d' : Distribution} {e : Edit} {x : NodeId}

theorem Ranged.of_same (h : d.Ranged) (hfamily : d'.family = d.family)
    (hsupport : d'.support = d.support) (htruncation : d'.truncation = d.truncation) :
    d'.Ranged := by
  constructor
  · rw [hsupport]
    exact h.support
  · rw [hsupport, htruncation, hfamily]
    exact h.truncation

theorem Ranged.keeps (h : d.Ranged) (hkeeps : e.Keeps x d d') : d'.Ranged :=
  h.of_same hkeeps.family hkeeps.support hkeeps.truncation

theorem range_of_none (h : d.truncation = none) : d.range = d.support := by
  unfold range
  rw [h]
  rfl

theorem range_of_some {t : Interval} (h : d.truncation = some t) : d.range = t := by
  unfold range
  rw [h]
  rfl

theorem Ranged.lt_range (h : d.Ranged) : d.range.lower < d.range.upper := by
  cases htruncation : d.truncation with
  | none =>
      rw [range_of_none htruncation]
      exact h.support
  | some t =>
      rw [range_of_some htruncation]
      exact (h.truncation t htruncation).1.ordered

end Distribution

namespace Workspace

variable {w : Workspace} {e : Edit} {x : NodeId} {n n' : Node} {d : Distribution} {c : Call}

def HasRanges (w : Workspace) : Prop :=
  forall x n d, w.node? x = some n -> n.distribution? = some d -> d.Ranged

theorem ranged_of_creates (h : e.Creates x n) (hd : n.distribution? = some d) : d.Ranged := by
  rcases h.made with ⟨_, hmade⟩ | ⟨b, m, arguments, o, extras, _, hrole, _⟩
  · cases hmade with
    | data t _ => cases hd
    | latent dim v b c size _ _ _ => cases hd
    | distribution dim v d₀ _ _ _ _ hranged =>
        cases hd
        exact hranged
  · unfold Node.distribution? at hd
    rw [hrole] at hd
    cases hd

theorem HasRanges.edit (h : w.HasRanges) (hadmits : w.Admits e) : (w.edit e).HasRanges := by
  intro x n' d hn' hd
  rcases node?_edit hadmits hn' with ⟨n, hn, hchanges⟩ | ⟨_, hcreates⟩
  · rcases distribution?_of_changes hchanges with ⟨f, hkeeps, hmap⟩
    rw [hmap, Option.map_eq_some_iff] at hd
    rcases hd with ⟨d₀, hd₀, hsame⟩
    rw [← hsame]
    exact (h x n d₀ hn hd₀).keeps (hkeeps d₀)
  · exact ranged_of_creates hcreates hd

theorem HasRanges.update (h : w.HasRanges) {id : NodeId} {f : Node → Node}
    (hf : forall n d', (f n).distribution? = some d' ->
      ∃ d, n.distribution? = some d ∧ d'.family = d.family ∧ d'.support = d.support ∧
        d'.truncation = d.truncation) : (w.update id f).HasRanges := by
  intro x n' d' hn' hd'
  rcases node?_update_some hn' with ⟨n, hn, hsame⟩
  rw [hsame] at hd'
  split at hd'
  · rcases hf n d' hd' with ⟨d, hd, hfamily, hsupport, htruncation⟩
    exact (h x n d hn hd).of_same hfamily hsupport htruncation
  · exact h x n d' hn hd'

theorem HasRanges.spoiled (h : w.HasRanges) (hspoils : w.spoils c = true) :
    (w.spoiled c).HasRanges := by
  cases c with
  | addTarget id target =>
      apply h.update
      intro n d' hd'
      rw [Node.distribution?_of_mapDistribution rfl, Option.map_eq_some_iff] at hd'
      rcases hd' with ⟨d, hd, hsame⟩
      rw [← hsame]
      exact ⟨d, hd, rfl, rfl, rfl⟩
  | addParent child v =>
      apply h.update
      intro n d' hd'
      unfold Node.addStray at hd'
      split at hd' <;> exact ⟨d', hd', rfl, rfl, rfl⟩
  | removeParent child v => exact h.update fun n d' hd' => ⟨d', hd', rfl, rfl, rfl⟩
  | _ => cases hspoils

theorem hasRanges_of_reached {allowed : Workspace → Call → Prop} (h : w.Reached allowed) :
    w.HasRanges := by
  have hall := h.preserves (I := HasRanges)
    (fun _ _ _ _ _ hn => by cases hn)
    (fun _ _ _ _ hv _ _ hadmits _ => hv.edit hadmits)
    (fun _ _ hv _ hspoils => hv.spoiled hspoils)
  exact hall.2.2

end Workspace
end DensityGraph
