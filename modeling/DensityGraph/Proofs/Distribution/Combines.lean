import DensityGraph.Proofs.Distribution.RowWise
/-!
# Shapes that have a density

Whether a distribution has a density at tensors depends on their shapes alone.  Those of an
elementwise family have to broadcast, and a matrix of scales has to be as large as the target.
-/

namespace DensityGraph

namespace Shape

variable {s t u : Shape} {ds : List Shape}

theorem exists_joins (hs : Stretches s u) (ht : Stretches t u) :
    ∃ v, Joins s t v ∧ Stretches v u := by
  induction hs generalizing t with
  | nil =>
      cases ht
      exact ⟨[], Joins.nil, List.Forall₂.nil⟩
  | @cons m k s u hm _ ih =>
      cases ht with
      | @cons n _ t _ hn hrest =>
          rcases ih hrest with ⟨v, hv, hstretches⟩
          have haxis : ∃ j, joinAxis? m n = some j ∧ (j = 1 ∨ j = k) := by
            unfold joinAxis?
            grind
          rcases haxis with ⟨j, hj, hjk⟩
          exact ⟨j :: v, Joins.cons hj hv, List.Forall₂.cons hjk hstretches⟩

theorem exists_meets (hs : Stretches s u) (hds : forall d, d ∈ ds -> Stretches d u) :
    ∃ v, Meets s ds v ∧ Stretches v u := by
  induction ds generalizing s with
  | nil => exact ⟨s, Meets.nil s, hs⟩
  | cons d ds ih =>
      rcases exists_joins hs (hds d List.mem_cons_self) with ⟨v, hv, hstretches⟩
      rcases ih hstretches (fun e he => hds e (List.mem_cons_of_mem d he)) with
        ⟨r, hr, hlast⟩
      exact ⟨r, Meets.cons hv hr, hlast⟩

end Shape

namespace Distribution

open Tensor

variable {α : Type} [Scalar α] {d : Distribution} {ds : List Shape} {dim : Shape} {k : Nat}
  {p : Precision} {ts : List (Tensor α)} {y : Tensor α} {u : Shape}

structure Combines (d : Distribution) (ds : List Shape) : Prop where
  broadcast : d.family.isMatrix = false -> ∃ u, forall e, e ∈ ds -> e.Stretches u
  scales : d.family = .wishart -> ds.getLast? = ds.head?

theorem mapAll_rowWise_of_stretches (f : List α → α) (hne : ds ≠ [])
    (h : forall e, e ∈ ds -> e.Stretches u) :
    ∃ v, RowWise (mapAll f) ds v ∧ v.Stretches u := by
  cases ds with
  | nil => exact absurd rfl hne
  | cons e ds =>
      rcases Shape.exists_meets (h e List.mem_cons_self)
        (fun e' he' => h e' (List.mem_cons_of_mem e he')) with ⟨v, hv, hstretches⟩
      exact ⟨v, ⟨_, mapAll_rows f hv⟩, hstretches⟩

theorem logs_rowWise_of_stretches (hmatrix : d.family.isMatrix = false) (hne : ds ≠ [])
    (h : forall e, e ∈ ds -> e.Stretches u) :
    ∃ v, RowWise (α := α) (d.logs dim) ds v ∧ v.Stretches u := by
  rcases mapAll_rowWise_of_stretches (α := α) _ hne h with ⟨v, hrows, hv⟩
  refine ⟨v, hrows.congr ?_, hv⟩
  intro ts hts
  apply logs_of_isMatrix_false hmatrix
  rintro rfl
  exact hne (List.length_eq_zero_iff.mp hts.symm)

theorem mass_rowWise_of_stretches {t : Interval} (haligned : Aligned d ds)
    (h : forall e, e ∈ ds -> e.Stretches u) :
    ∃ v, RowWise (α := α) (fun ts => d.mass p t ts.tail) ds v ∧ v.Stretches u := by
  have hlength := haligned.length
  cases ds with
  | nil => exact absurd hlength.symm (Nat.succ_ne_zero _)
  | cons e ds =>
      have hne : ds ≠ [] := by
        rintro rfl
        exact parameterNames_ne_nil haligned.family
          (List.length_eq_zero_iff.mp (Nat.succ.inj hlength).symm)
      rcases mapAll_rowWise_of_stretches (α := α) _ hne
        (fun e' he' => h e' (List.mem_cons_of_mem e he')) with ⟨v, hrows, hv⟩
      exact ⟨v, hrows.tail e, hv⟩

theorem Combines.rowWise (h : d.Combines ds) (haligned : Aligned d ds) :
    RowWise (α := α) (d.total p dim) ds [] := by
  cases hmatrix : d.family.isMatrix with
  | true =>
      rcases haligned.matrix hmatrix with ⟨hsquares, htruncation⟩
      rw [total_of_truncation_none htruncation]
      apply RowWise.sumEvent
      cases hfamily : d.family with
      | lkj => exact logs_rowWise_lkj hfamily hsquares haligned.length
      | wishart => exact logs_rowWise_scales hfamily hsquares haligned.length (h.scales hfamily)
      | _ =>
          rw [hfamily] at hmatrix
          cases hmatrix
  | false =>
      rcases h.broadcast hmatrix with ⟨u, hu⟩
      rcases logs_rowWise_of_stretches (α := α) hmatrix haligned.ne_nil hu with
        ⟨v, hlogs, hv⟩
      cases htruncation : d.truncation with
      | none =>
          rw [total_of_truncation_none htruncation]
          exact hlogs.sumEvent
      | some t =>
          rw [total_of_truncation_some htruncation]
          rcases mass_rowWise_of_stretches (α := α) (p := p) (t := t) haligned hu with
            ⟨v', hmass, hv'⟩
          rcases Shape.exists_joins hv hv' with ⟨r, hr, _⟩
          exact (hlogs.elementwise (· - ·) hmass hr).sumEvent

theorem combines_of_total (haligned : Aligned d ds)
    (hts : List.Forall₂ (fun t e => t.shape = k :: e) ts ds)
    (hok : d.total p dim ts = .ok y) : d.Combines ds := by
  have hlogs : ∃ r, d.logs dim ts = .ok r := by
    rcases total_cases hok with ⟨_, r, hr, _⟩ | ⟨_, r, _, _, _, hr, _⟩
    · exact ⟨r, hr⟩
    · exact ⟨r, hr⟩
  rcases hlogs with ⟨r, hr⟩
  constructor
  · intro hmatrix
    rcases haligned.level hmatrix with ⟨axes, haxes⟩
    cases hts with
    | nil => exact absurd rfl haligned.ne_nil
    | @cons t e ts ds ht hrest =>
        rw [logs_of_isMatrix_false hmatrix (List.cons_ne_nil t ts)] at hr
        have hlength : forall e', e' ∈ ds -> e'.length = e.length := by
          intro e' he'
          rw [haxes e' (List.mem_cons_of_mem e he'), haxes e List.mem_cons_self]
        rcases meets_of_mapAll ht hrest hlength hr with ⟨u, hu⟩
        exact ⟨u, hu.stretches⟩
  · intro hfamily
    have hmatrix : d.family.isMatrix = true := by
      rw [hfamily]
      rfl
    exact scales_of_logs hfamily (haligned.matrix hmatrix).1 haligned.length hts hr

end Distribution
end DensityGraph
