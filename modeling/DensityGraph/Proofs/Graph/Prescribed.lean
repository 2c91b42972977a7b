import DensityGraph.Proofs.Graph.Model
/-!
# Distributions of models

A distribution node and its target have the same shape.  For families of matrices the
shape is that of a square matrix, and a distribution that has only the parameters it was
declared with has single numbers and a square matrix of scales among them.
-/

namespace DensityGraph

namespace Workspace

variable {w : Workspace} {e : Edit} {x : NodeId} {n n' : Node} {d : Distribution}

structure Prescribes (w : Workspace) (n : Node) (d : Distribution) : Prop where
  target : forall t, d.target = some t -> ∃ m, w.node? t = some m ∧ m.dim = n.dim
  square : d.family.isMatrix = true -> ∃ k, n.dim = [k, k]
  truncation : d.family.isMatrix = true -> d.truncation = none
  parameters : d.family.isMatrix = true -> forall q, q ∈ d.parameters ->
    ∃ m, w.node? q.2 = some m ∧ m.dim.Scales q.1

def Prescribed (w : Workspace) : Prop :=
  forall x n d, w.node? x = some n -> n.distribution? = some d -> w.Prescribes n d

structure Suits (w : Workspace) (n : Node) (d : Distribution) : Prop where
  target : forall t, d.target = some t -> ∃ m, w.node? t = some m ∧ m.dim = n.dim
  square : d.family.isMatrix = true -> ∃ k, n.dim = [k, k]
  truncation : d.family.isMatrix = true -> d.truncation = none

theorem Prescribes.suits (h : w.Prescribes n d) : w.Suits n d :=
  ⟨h.target, h.square, h.truncation⟩

theorem suits_of_changes
    (h : forall d, n.distribution? = some d -> w.Suits n d) (hadmits : w.Admits e)
    (hn : w.node? x = some n) (hchanges : e.Changes x n n') (hd : n'.distribution? = some d) :
    (w.edit e).Suits n' d := by
  rcases distribution?_of_changes hchanges with ⟨f, hkeeps, hmap⟩
  rw [hmap, Option.map_eq_some_iff] at hd
  rcases hd with ⟨d₀, hd₀, rfl⟩
  have hold := h d₀ hd₀
  have hkept := hkeeps d₀
  constructor
  · intro t ht
    rw [hchanges.dim]
    apply exists_dim_edit (P := fun dim => dim = n.dim) hadmits
    apply exists_target_edit hadmits hn hchanges _ t
    · unfold Node.target?
      rw [hmap, hd₀]
      exact ht
    · intro s hs
      apply hold.target s
      unfold Node.target? at hs
      rwa [hd₀] at hs
  · intro hmatrix
    rw [hchanges.dim]
    rw [hkept.family] at hmatrix
    exact hold.square hmatrix
  · intro hmatrix
    rw [hkept.family] at hmatrix
    rw [hkept.truncation]
    exact hold.truncation hmatrix

theorem prescribes_of_changes (h : w.Prescribed) (hadmits : w.Admits e)
    (htakes : forall id p name, e = .parameter id p name -> w.Takes id p name)
    (hn : w.node? x = some n) (hchanges : e.Changes x n n') (hd : n'.distribution? = some d) :
    (w.edit e).Prescribes n' d := by
  have hsuits := suits_of_changes (fun d hd => (h x n d hn hd).suits) hadmits hn hchanges hd
  rcases distribution?_of_changes hchanges with ⟨f, hkeeps, hmap⟩
  rw [hmap, Option.map_eq_some_iff] at hd
  rcases hd with ⟨d₀, hd₀, rfl⟩
  have hkept := hkeeps d₀
  refine ⟨hsuits.target, hsuits.square, hsuits.truncation, ?_⟩
  intro hmatrix q hq
  rw [hkept.family] at hmatrix
  apply exists_dim_edit (P := fun dim => dim.Scales q.1) hadmits
  rcases hkept.parameters q hq with hmem | hnew
  · exact (h x n d₀ hn hd₀).parameters hmatrix q hmem
  · rcases htakes x q.2 q.1 hnew with ⟨m, hm, _, hscales⟩
    exact ⟨m, hm, hscales d₀.family ⟨n, d₀, hn, hd₀, rfl⟩ hmatrix⟩

theorem prescribes_of_creates (hcreates : e.Creates x n) (hd : n.distribution? = some d) :
    w.Prescribes n d := by
  rcases hcreates.made with ⟨_, hmade⟩ | ⟨b, m, arguments, o, extras, _, hrole, _⟩
  · cases hmade with
    | data t _ => cases hd
    | latent dim v b c size _ _ _ => cases hd
    | distribution dim v d₀ _ htarget hparameters hmatrix _ =>
        cases hd
        constructor
        · intro t ht
          rw [htarget] at ht
          cases ht
        · intro htrue
          exact (hmatrix htrue).1
        · intro htrue
          exact (hmatrix htrue).2
        · intro _ q hq
          rw [hparameters] at hq
          cases hq
  · unfold Node.distribution? at hd
    rw [hrole] at hd
    cases hd

theorem suits_of_built {allowed : Workspace → Call → Prop} (h : w.Built allowed) :
    forall x n d, w.node? x = some n -> n.distribution? = some d -> w.Suits n d := by
  apply h.preserves (I := fun w =>
    forall x n d, w.node? x = some n -> n.distribution? = some d -> w.Suits n d)
  · intro settings wide x n d hn
    cases hn
  · intro u v c e hv hc hedits hadmits hmakes x n' d hn' hd
    rcases node?_edit hadmits hn' with ⟨n, hn, hchanges⟩ | ⟨_, hcreates⟩
    · exact suits_of_changes (fun d hd => hv x n d hn hd) hadmits hn hchanges hd
    · exact (prescribes_of_creates hcreates hd).suits

theorem Prescribed.edit (h : w.Prescribed) (hadmits : w.Admits e)
    (htakes : forall id p name, e = .parameter id p name -> w.Takes id p name) :
    (w.edit e).Prescribed := by
  intro x n' d hn' hd
  rcases node?_edit hadmits hn' with ⟨n, hn, hchanges⟩ | ⟨_, hcreates⟩
  · exact prescribes_of_changes h hadmits htakes hn hchanges hd
  · exact prescribes_of_creates hcreates hd

/-- The calls that a model is built by, without parameters given by hand. -/
def ModelsDeclared (w : Workspace) (c : Call) : Prop :=
  w.Models c ∧ forall id x name, c ≠ .addParameter id x name

theorem prescribed_of_built (h : w.Built ModelsDeclared) : w.Prescribed := by
  apply h.preserves
  · intro settings wide x n d hn
    cases hn
  · intro u v c e hv hc hedits hadmits hmakes
    apply hv.edit hadmits
    rintro id p name rfl
    rcases hmakes with htakes | ⟨y, hcall, _⟩
    · exact htakes
    · exact absurd hcall (hc.2 id y name)

end Workspace
end DensityGraph
