import DensityGraph.Operation.Apply
/-!
# Densities among arguments

A density stands in place of a tensor where an argument is a distribution.  Matching leaves it
as it is.  What an operation makes of its arguments depends on no other densities than these,
and they are all that it can pass a failure on from.
-/

namespace DensityGraph

variable {α : Type} [Scalar α] {args : List (Argument α)}
  {densities densities' : NodeId → Argument α → Except Failure (Tensor α)}

namespace Argument

variable {id : NodeId}

theorem density_mem_of_reconcile {ys : List (Argument α)}
    (h : Batched.reconcile args = .ok ys) (hid : Argument.density id ∈ ys) :
    Argument.density id ∈ args := by
  unfold Batched.reconcile at h
  split at h
  · cases h
    exact hid
  · rename_i n _
    cases h
    rcases List.mem_map.mp hid with ⟨a, ha, hsame⟩
    unfold Batched.toRows at hsame
    split at hsame
    · rename_i hone
      cases a with
      | density other => cases hone
      | tensor t => cases hsame
      | extra x => cases hsame
    · rw [← hsame]
      exact ha
  · cases h

omit [Scalar α] in
theorem operand_congr (h : forall id, Argument.density id ∈ args -> densities id = densities' id) :
    args.map (Argument.operand densities) = args.map (Argument.operand densities') := by
  apply List.map_congr_left
  intro a ha
  cases a with
  | density id => exact congrArg Operand.density (h id ha)
  | tensor t => rfl
  | extra x => rfl

end Argument

namespace Operation

variable [CustomCode α] {o : Operation}

theorem apply_congr (h : forall id, Argument.density id ∈ args -> densities id = densities' id) :
    o.apply densities args = o.apply densities' args := by
  cases o with
  | named o => rfl
  | custom f =>
      unfold apply CustomFunction.apply
      rw [Argument.operand_congr h]

theorem failure_of_apply {P : Failure → Prop} {failure : Failure}
    (hrefused : forall r, P (.refused r))
    (hdensities : forall id, Argument.density id ∈ args ->
      forall x f, densities id x = .error f -> P f)
    (h : o.apply densities args = .error failure) : P failure := by
  cases o with
  | named o =>
      change Refusal.lift (o.apply args) = .error failure at h
      cases hresult : o.apply args with
      | ok t =>
          rw [hresult] at h
          cases h
      | error r =>
          rw [hresult] at h
          cases h
          exact hrefused r
  | custom f =>
      change f.apply densities args = .error failure at h
      unfold CustomFunction.apply at h
      cases hresult : CustomCode.apply f (args.map (Argument.operand densities)) with
      | ok t =>
          rw [hresult] at h
          cases h
      | error fault =>
          rw [hresult] at h
          cases h
          cases fault with
          | own r => exact hrefused r
          | passed failure =>
              rcases CustomCode.exists_density hresult with ⟨density, x, hmem, hx⟩
              rcases List.mem_map.mp hmem with ⟨a, ha, hsame⟩
              cases a with
              | density id =>
                  cases hsame
                  exact hdensities id ha x failure hx
              | tensor t => cases hsame
              | extra y => cases hsame

end Operation

/-!
# Densities of other nodes

The number of the node that a density belongs to makes no difference, as long as the density
is the same.
-/

namespace Argument

def rename (σ : NodeId → NodeId) : Argument α → Argument α
  | density id => density (σ id)
  | a => a

variable {σ : NodeId → NodeId} {a : Argument α}

theorem batch?_rename : Batched.batch? (a.rename σ) = Batched.batch? a := by
  cases a <;> rfl

theorem toTensor_rename : (a.rename σ).toTensor = a.toTensor := by
  cases a <;> rfl

omit [Scalar α] in
theorem toSizes_rename : (a.rename σ).toSizes = a.toSizes := by
  cases a <;> rfl

theorem toRows_rename (n : Nat) :
    Batched.toRows n (a.rename σ) = (Batched.toRows n a).rename σ := by
  unfold Batched.toRows
  rw [batch?_rename]
  split
  · cases a <;> rfl
  · rfl

theorem reconcile_rename : Batched.reconcile (args.map (rename σ)) =
    (Batched.reconcile args).map (List.map (rename σ)) := by
  have hsizes : Batched.sizes (args.map (rename σ)) = Batched.sizes args := by
    have hbatch : (Batched.batch? ∘ rename σ : Argument α → Option Nat) = Batched.batch? :=
      funext fun _ => batch?_rename
    unfold Batched.sizes
    rw [List.filterMap_map, hbatch]
  unfold Batched.reconcile
  rw [hsizes]
  split
  · rfl
  · change Except.ok _ = Except.ok _
    rw [List.map_map, List.map_map]
    exact congrArg Except.ok (List.map_congr_left fun a _ => toRows_rename _)
  · rfl

end Argument

theorem NamedOperation.apply_rename {σ : NodeId → NodeId} (o : NamedOperation) :
    o.apply (args.map (Argument.rename σ)) = o.apply args := by
  match args with
  | [] => rfl
  | [x] => cases o <;> simp only [List.map, apply, Argument.toTensor_rename]
  | [x, y] =>
      cases o <;> simp only [List.map, apply, Argument.toTensor_rename, Argument.toSizes_rename]
  | x :: y :: z :: rest => cases o <;> rfl

theorem Operation.apply_rename [CustomCode α] {σ : NodeId → NodeId} (o : Operation)
    (h : forall id, Argument.density id ∈ args -> densities' (σ id) = densities id) :
    o.apply densities' (args.map (Argument.rename σ)) = o.apply densities args := by
  cases o with
  | named o => exact congrArg Refusal.lift o.apply_rename
  | custom f =>
      have hoperands : (args.map (Argument.rename σ)).map (Argument.operand densities') =
          args.map (Argument.operand densities) := by
        rw [List.map_map]
        apply List.map_congr_left
        intro a ha
        cases a with
        | density id => exact congrArg Operand.density (h id ha)
        | tensor t => rfl
        | extra x => rfl
      unfold apply CustomFunction.apply
      rw [hoperands]

@[reducible]
def CustomCode.refusing (α : Type) : CustomCode α where
  apply _ _ := .error (.own .type)
  exists_density := nofun

end DensityGraph
