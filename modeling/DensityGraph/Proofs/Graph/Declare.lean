import DensityGraph.Graph.Declare
import DensityGraph.Proofs.Constraint.FreeSize
import DensityGraph.Proofs.Graph.Parents
import DensityGraph.Proofs.Graph.Target
import DensityGraph.Proofs.Number.Rounding
/-!
# Declarations by edits

A declaration puts a distribution node and its first target under new numbers, attaches
the target, and names the parameters, which are older than the distribution or data.
-/

namespace DensityGraph

/-- Parameters of matrix families are single numbers, apart from a square matrix of
scales. -/
structure Shape.Scales (name : String) (dim : Shape) : Prop where
  square : name = "sigma" -> ∃ k, dim = [k, k]
  single : name ≠ "sigma" -> dim = [1, 1]

/-- Whether a node may become a parameter of a distribution. -/
def Workspace.Takes (w : Workspace) (id p : NodeId) (name : String) : Prop :=
  ∃ m, w.node? p = some m ∧ (p < id ∨ m.isData = true) ∧
    forall f, w.HasFamily id f -> f.isMatrix = true -> m.dim.Scales name

def Edit.Declares (w : Workspace) : Edit → Prop
  | place _ _ => True
  | attach _ t _ => w.has Node.isSource t = true
  | parameter id p name => w.Takes id p name
  | e => e.isGrowth = true

namespace Workspace

variable {u v w : Workspace}

structure DeclaresTo (w v : Workspace) : Prop where
  edits : Edits Edit.Declares w v
  targeted : w.Targeted -> v.Targeted

theorem DeclaresTo.trans (h : u.DeclaresTo v) (h' : v.DeclaresTo w) : u.DeclaresTo w :=
  ⟨h.edits.trans h'.edits, fun hu => h'.targeted (h.targeted hu)⟩

theorem GrowsTo.declaresTo (h : w.GrowsTo v) : w.DeclaresTo v := by
  refine ⟨?_, h.targeted⟩
  apply h.mono
  intro u e he
  cases e with
  | reserve => rfl
  | report _ => rfl
  | place _ _ => trivial
  | _ => cases he

theorem declaresTo_attach {id t : NodeId} {n : Node} {nv : NodeValue} (hgrown : w.GrowsTo v)
    (hplace : v.Admits (.place id n)) (hsource : v.has Node.isSource t = true)
    (hattach : (v.edit (.place id n)).Admits (.attach id t nv)) :
    w.DeclaresTo ((v.edit (.place id n)).edit (.attach id t nv)) := by
  have hsource' : (v.edit (.place id n)).has Node.isSource t = true := by
    rcases exists_node_of_has hsource with ⟨m, hm, hkind⟩
    have hne : id ≠ t := by
      rintro rfl
      rw [hplace.2.1] at hm
      cases hm
    rw [edit, has_of_node? ((node?_put_of_ne v n hne).trans hm)]
    exact hkind
  constructor
  · apply hgrown.declaresTo.edits.trans
    apply (Edits.single hplace trivial).trans
    exact Edits.single hattach hsource'
  · intro hw
    exact (hgrown.targeted hw).attach hplace (Or.inr ⟨n, rfl⟩) hattach

theorem declaresTo_parameter {id p : NodeId} {name : String}
    (hadmits : w.Admits (.parameter id p name)) (htakes : w.Takes id p name) :
    w.DeclaresTo (w.edit (.parameter id p name)) := by
  refine ⟨Edits.single hadmits htakes, ?_⟩
  intro hw
  exact hw.edit hadmits rfl

end Workspace

namespace Action

open Workspace

variable {w : Workspace}

/-!
# What is only read
-/

theorem ends_checkDims (parameters : List NodeId) (target : Value) :
    Ends (checkDims parameters target) w
      (fun d w' => w' = w ∧ ∃ ds, w.dims? parameters = some ds ∧
        (target = .none ∧ Dim.shared ds none = .ok d ∨
          ∃ t, target.toDim = .ok t ∧ Dim.shared ds (some t) = .ok d)) Fails := by
  unfold checkDims
  apply Ends.bind (ends_dims parameters)
  intro ds v hv
  rcases hv with ⟨rfl, hds⟩
  split
  · exact trivial
  · rename_i hnone
    split
    · exact ends_pure.mpr ⟨rfl, ds, hds, Or.inl ⟨rfl, hnone⟩⟩
    · apply ends_bind_ofExcept
      intro t ht
      split
      · exact trivial
      · rename_i hshared
        exact ends_pure.mpr ⟨rfl, ds, hds, Or.inr ⟨t, ht, hshared⟩⟩

theorem ends_fixedNumber (name : String) (v : Value) :
    Ends (fixedNumber name v) w (fun x w' => w' = w ∧ x.isFinite = true) Fails := by
  unfold fixedNumber
  apply ends_bind_ofRefusal
  intro content _
  simp only
  split
  · exact trivial
  · split
    · split
      · refine ends_when trivial ?_
        intro hfinite
        exact ends_pure.mpr ⟨rfl, hfinite⟩
      · exact trivial
    · rw [ends_ite]
      exact ⟨fun _ => trivial, fun _ => trivial⟩
    · rw [ends_ite]
      exact ⟨fun _ => trivial, fun _ => trivial⟩

theorem ends_checkScalar (name : String) (id : NodeId) :
    Ends (checkScalar name id) w
      (fun _ w' => w' = w ∧ ∃ n, w.node? id = some n ∧ n.dim = [1, 1]) Fails := by
  unfold checkScalar
  apply ends_bind_node
  intro n hn
  simp only
  refine ends_unless trivial ?_
  intro hdim
  exact ends_pure.mpr ⟨rfl, n, hn, Classical.not_not.mp hdim⟩

theorem growsTo_report (w : Workspace) (m : Message) : w.GrowsTo (w.report m) :=
  Edits.single (e := .report m) trivial rfl

/-- Only a family with a distribution function can be truncated, and only to a part of its
support. -/
theorem ends_checkTruncation (name : GivenName) (support : Interval) (hasCdf : Bool) (v : Value) :
    Ends (checkTruncation name support hasCdf v) w
      (fun t w' => w.GrowsTo w' ∧
        forall i, t = some i -> i.Truncates support ∧ hasCdf = true) Fails := by
  unfold checkTruncation
  split
  · exact ends_pure.mpr ⟨Edits.refl w, nofun⟩
  · split
    · exact trivial
    · exact trivial
    · rename_i t _
      simp only
      refine ends_when trivial ?_
      intro hordered
      rw [ends_ite]
      constructor
      · intro _
        refine ends_requireText (fun _ => trivial) ?_
        intro _
        rw [ends_bind, ends_report, ends_pure]
        exact ⟨growsTo_report w _, nofun⟩
      · intro hproper
        refine ends_unless trivial ?_
        intro hwithin
        refine ends_when trivial ?_
        intro hcdf
        refine ends_pure.mpr ⟨Edits.refl w, ?_⟩
        rintro i ⟨⟩
        simp only [Bool.or_eq_true, decide_eq_true_eq, not_or] at hwithin
        exact ⟨⟨hordered, hwithin.1, hwithin.2, eq_false_of_ne_true hproper⟩, hcdf⟩

theorem lt_support (family : Family) : family.support.lower < family.support.upper := by
  cases family <;> decide +kernel

theorem lt_whole : Interval.whole.lower < Interval.whole.upper := by
  decide +kernel

theorem hasCdf_of_isMatrix {family : Family} (h : family.isMatrix = true) :
    family.hasCdf = false := by
  cases family <;> first | rfl | cases h

/-!
# New distributions
-/

theorem square_of_freeSize? {c : Constraint} (hmatrix : c.isMatrix = true) {dim : Shape}
    (h : (c.freeSize? (dim.map Int.ofNat)).isSome = true) : ∃ m, dim = [m, m] := by
  cases hside : Constraint.squareSide? (dim.map Int.ofNat) with
  | none => cases c <;> simp_all [Constraint.freeSize?, Constraint.isMatrix]
  | some m => exact ⟨m, (Constraint.exists_side hside).1⟩

theorem ends_newTarget (family : Family) {dim : Shape} (hdim : dim.IsDim) (range : Interval) :
    Ends (newTarget family dim range) w
      (fun id w' => (w.GrowsTo w' ∧ w'.has Node.isSource id = true ∧
        forall other, other < w.nodes.length -> w'.node? other = w.node? other) ∧
        (family.isMatrix = true -> ∃ m, dim = [m, m])) Fails := by
  have hmatrix : forall {asked : Constraint}, asked.isMatrix = true -> Ends (do
      let b ← bounds (.float Interval.whole.lower) (.float Interval.whole.upper)
      putVariable b (← constraintOf b (.text asked.tag)) dim) w
      (fun id w' => (w.GrowsTo w' ∧ w'.has Node.isSource id = true ∧
        forall other, other < w.nodes.length -> w'.node? other = w.node? other) ∧
        ∃ m, dim = [m, m]) Fails := by
    intro asked hasked
    apply ends_constrained
    intro b c _ hc hfits
    apply (ends_putVariable hfits hdim).imp
    intro _ _ h
    refine ⟨h.1, ?_⟩
    rcases hc with ⟨hnone, _⟩ | ⟨htext, _⟩
    · cases hnone
    · rw [Constraint.tag_injective (Value.text.inj htext)] at hasked
      exact square_of_freeSize? hasked h.2
  unfold newTarget
  simp only
  split
  · exact (hmatrix rfl).imp fun _ _ h => ⟨h.1, fun _ => h.2⟩
  · exact (hmatrix rfl).imp fun _ _ h => ⟨h.1, fun _ => h.2⟩
  · rename_i hlkj hwishart
    apply ends_constrained
    intro b c _ _ hfits
    apply (ends_putVariable hfits hdim).imp
    intro _ _ h
    refine ⟨h.1, ?_⟩
    intro hmatrix
    cases family <;> first | exact (hlkj rfl).elim | exact (hwishart rfl).elim | cases hmatrix

theorem ends_newDistribution (family : Family) (name : GivenName) (isDiscrete : Bool)
    {support : Interval} (hsupport : support.lower < support.upper) (dim truncation : Value) :
    Ends (newDistribution family name isDiscrete support dim truncation) w
      (fun id w' => w.DeclaresTo w' ∧ w'.HasFamily id family ∧ w.nodes.length ≤ id) Fails := by
  unfold newDistribution
  apply Ends.bind (ends_checkTruncation name support family.hasCdf truncation)
  intro t v hv
  rcases hv with ⟨hv, htruncation⟩
  rw [ends_bind, ends_reserve]
  apply ends_bind_ofExcept
  intro d hd
  apply Ends.bind (ends_newTarget family (Value.isDim_toDim hd) (t.getD support))
  intro target u' hu'
  rcases hu' with ⟨⟨hgrows, hsource, hothers⟩, hmatrix⟩
  rw [ends_bind, ends_put]
  apply Ends.bind (ends_addTarget v.nodes.length (.node target))
  intro _ u'' hu''
  rcases hu'' with ⟨t', v', ht', hadmits, rfl⟩
  cases ht'
  rw [ends_pure]
  have hlength : v.nodes.length < v.reserve.nodes.length := by
    simp [Workspace.reserve]
  have hlength' : v.nodes.length < u'.nodes.length :=
    Nat.lt_of_lt_of_le hlength (Edits.length_le hgrows)
  have hnew : u'.node? v.nodes.length = none := by
    rw [hothers _ hlength, node?_reserve]
    exact node?_length v
  have huncut : family.isMatrix = true -> t = none := by
    intro htrue
    rw [Option.eq_none_iff_forall_ne_some]
    intro i hi
    have hcdf := (htruncation i hi).2
    rw [hasCdf_of_isMatrix htrue] at hcdf
    cases hcdf
  have hplaced : u'.Admits (.place v.nodes.length (Node.lone d (NodeValue.blank d)
      (.distribution ⟨family, name, isDiscrete, support, t, [], none, target⟩))) :=
    ⟨hlength', hnew, Node.Made.distribution d (NodeValue.blank d)
      ⟨family, name, isDiscrete, support, t, [], none, target⟩ (Value.isDim_toDim hd) rfl rfl
        (fun htrue => ⟨hmatrix htrue, huncut htrue⟩) ⟨hsupport, htruncation⟩
        (NodeValue.shape_blank d)⟩
  have hreserve : v.GrowsTo v.reserve := Edits.single (e := .reserve) trivial rfl
  have hgrown : w.GrowsTo u' := (Edits.trans hv hreserve).trans hgrows
  have hfamily : (u'.edit (.place v.nodes.length (Node.lone d (NodeValue.blank d)
      (.distribution ⟨family, name, isDiscrete, support, t, [], none, target⟩)))).HasFamily
        v.nodes.length family :=
    ⟨_, _, node?_put_self _ _ hlength', rfl, rfl⟩
  exact ⟨declaresTo_attach hgrown hplaced hsource hadmits, hfamily.edit hadmits,
    Edits.length_le hv⟩

/-!
# Parameters
-/

def Fits (w : Workspace) (family : Family) (name : String) (x : Value) : Prop :=
  (∃ p m, x = .node p ∧ w.node? p = some m ∧
    (family.isMatrix = true -> m.dim.Scales name)) ∨
  isNode x = false ∧ family.isMatrix = false

theorem Fits.edits {P : Workspace → Edit → Prop} {v : Workspace} {family : Family}
    {name : String} {x : Value} (h : Fits w family name x) (hedits : Edits P w v) :
    Fits v family name x := by
  rcases h with ⟨p, m, hx, hm, hdim⟩ | hother
  · rcases hedits.exists_node? hm with ⟨m', hm', hsame, _⟩
    left
    refine ⟨p, m', hx, hm', ?_⟩
    rw [hsame]
    exact hdim
  · exact Or.inr hother

theorem Fits.takes {family : Family} {name : String} {x : Value} {id p : NodeId}
    (h : Fits w family name x) (hfamily : w.HasFamily id family) (hp : w.StandsFor x p)
    (hold : forall q, x = .node q -> q < id) : w.Takes id p name := by
  have hsame : forall f, w.HasFamily id f -> f = family := by
    rintro f ⟨n, d, hn, hd, rfl⟩
    rcases hfamily with ⟨n', d', hn', hd', rfl⟩
    rw [hn] at hn'
    cases hn'
    rw [hd] at hd'
    cases hd'
    rfl
  rcases h with ⟨q, m, rfl, hm, hdim⟩ | ⟨hnode, hmatrix⟩
  · rcases hp with hq | ⟨hnot, _⟩
    · cases hq
      refine ⟨m, hm, Or.inl (hold _ rfl), ?_⟩
      intro f hf
      rw [hsame f hf]
      exact hdim
    · cases hnot
  · rcases hp with rfl | ⟨_, hdata⟩
    · cases hnode
    · rcases exists_node_of_has hdata with ⟨m, hm, hkind⟩
      refine ⟨m, hm, Or.inr hkind, ?_⟩
      intro f hf htrue
      rw [hsame f hf, hmatrix] at htrue
      cases htrue

theorem Fits.lt_length {family : Family} {name : String} {q : NodeId}
    (h : Fits w family name (.node q)) : q < w.nodes.length := by
  rcases h with ⟨p, m, hx, hm, _⟩ | ⟨hnode, _⟩
  · cases hx
    apply lt_length_of_isSome
    rw [hm]
    rfl
  · cases hnode

theorem ends_addParameters {id : NodeId} {family : Family} (hfamily : w.HasFamily id family)
    (parameters : List (String × Value))
    (hfits : forall p, p ∈ parameters -> Fits w family p.1 p.2)
    (hold : forall p q, p ∈ parameters -> p.2 = .node q -> q < id) :
    Ends (addParameters id parameters) w (fun _ w' => w.DeclaresTo w') Fails := by
  unfold addParameters
  apply Ends.forM (P := fun _ w' => w.DeclaresTo w') (GrowsTo.declaresTo (Edits.refl w))
  intro done parameter rest v hsplit hv
  have hmem : parameter ∈ parameters := by
    rw [hsplit]
    exact List.mem_append.mpr (Or.inr List.mem_cons_self)
  have hfit : Fits v family parameter.1 parameter.2 := (hfits parameter hmem).edits hv.edits
  rcases parameter with ⟨name, x⟩
  rw [ends_bind]
  apply (ends_addParameter id x name).imp
  intro _ v' hv'
  rcases hv' with ⟨u, p, hgrows, hp, hadmits, rfl⟩
  have hgrown := hv.trans hgrows.declaresTo
  have htakes : u.Takes id p name :=
    (hfit.edits hgrows).takes (hgrown.edits.hasFamily hfamily) hp fun q => hold (name, x) q hmem
  exact hgrown.trans (declaresTo_parameter hadmits htakes)

theorem ends_withParameters {u : Workspace} {family : Family} {name : GivenName}
    {isDiscrete : Bool} {support : Interval} {dim truncation : Value}
    {parameters : List (String × Value)} (hsupport : support.lower < support.upper)
    (hgrown : u.GrowsTo w)
    (hfits : forall p, p ∈ parameters -> Fits w family p.1 p.2) :
    Ends (do
      let id ← newDistribution family name isDiscrete support dim truncation
      addParameters id parameters
      return id) w (fun _ w' => u.DeclaresTo w') Fails := by
  apply Ends.bind (ends_newDistribution family name isDiscrete hsupport dim truncation)
  rintro id v ⟨hdeclares, hfamily, hle⟩
  apply Ends.bind
  · apply ends_addParameters hfamily parameters
    · intro p hp
      exact (hfits p hp).edits hdeclares.edits
    · rintro ⟨name', x⟩ q hp rfl
      exact Nat.lt_of_lt_of_le (hfits (name', .node q) hp).lt_length hle
  · intro _ v' hv'
    exact ends_pure.mpr ((hgrown.declaresTo.trans hdeclares).trans hv')

/-!
# Declarations by family
-/

theorem fits_of_dims? {family : Family} (hfamily : family.isMatrix = false)
    {ids : List NodeId} {ds : List Shape} (h : w.dims? ids = some ds) {id : NodeId}
    (hid : id ∈ ids) (name : String) : Fits w family name (.node id) := by
  left
  induction ids generalizing ds with
  | nil => cases hid
  | cons first rest ih =>
      rcases exists_of_dims? h with ⟨n, es, hn, hes, _⟩
      rcases List.mem_cons.mp hid with rfl | hrest
      · refine ⟨id, n, rfl, hn, ?_⟩
        rw [hfamily]
        nofun
      · exact ih hes hrest

theorem ends_declareSimple {family : Family} (hfamily : family.isMatrix = false)
    (parameters : List Value) (dim truncation : Value) :
    Ends (declareSimple family parameters dim truncation) w
      (fun _ w' => w.DeclaresTo w') Fails := by
  unfold declareSimple
  apply Ends.bind (ends_toNodes parameters)
  intro ps v hv
  apply Ends.bind (ends_checkDims ps dim)
  intro d v' hv'
  rcases hv' with ⟨rfl, ds, hds, _⟩
  apply ends_withParameters (lt_support family) hv.1
  intro p hp
  rcases List.mem_map.mp (List.of_mem_zip hp).2 with ⟨id, hid, heq⟩
  rw [← heq]
  exact fits_of_dims? hfamily hds hid p.1

theorem ends_declareUniform (min max dim : Value) :
    Ends (declareUniform min max dim) w (fun _ w' => w.DeclaresTo w') Fails := by
  unfold declareUniform
  apply Ends.bind (ends_fixedNumber "min" min)
  intro l v hv
  rw [hv.1]
  apply Ends.bind (ends_fixedNumber "max" max)
  intro u v' hv'
  rw [hv'.1]
  simp only
  refine ends_when trivial ?_
  intro hlt
  have hsupport : (Interval.mk l u).lower < (Interval.mk l u).upper := hlt
  apply ends_bind_ofExcept
  intro d _
  apply ends_withParameters hsupport (Edits.refl w)
  intro p hp
  right
  refine ⟨?_, rfl⟩
  rcases List.mem_cons.mp hp with rfl | hp
  · rfl
  · rw [List.mem_singleton.mp hp]
    rfl

theorem ends_declareBinomial (size prob dim : Value) :
    Ends (declareBinomial size prob dim) w (fun _ w' => w.DeclaresTo w') Fails := by
  unfold declareBinomial
  apply Ends.bind (ends_fixedNumber "size" size)
  intro k v hv
  rw [hv.1]
  simp only
  refine ends_unless trivial ?_
  intro hcount
  simp only [Bool.or_eq_true, decide_eq_true_eq, not_or] at hcount
  have hsupport : (Interval.mk 0.0 k).lower < (Interval.mk 0.0 k).upper :=
    Number.pos_of_not_lt_one hv.2 hcount.1
  apply Ends.bind (ends_toNode (.float k))
  intro sizeNode v' hv'
  apply Ends.bind (ends_toNode prob)
  intro p u hu
  apply Ends.bind (ends_checkDims [p] dim)
  intro d u' hu'
  rcases hu' with ⟨rfl, ds, hds, _⟩
  apply ends_withParameters hsupport (Edits.trans hv'.1 hu.1)
  intro q hq
  rcases List.mem_cons.mp hq with rfl | hq
  · rcases hv'.2 with hnode | ⟨_, hdata⟩
    · cases hnode
    · rcases exists_node_of_has hdata with ⟨m, hm, _⟩
      exact Or.inl ⟨sizeNode, m, rfl, hu.1.node? hm, nofun⟩
  · rw [List.mem_singleton.mp hq]
    exact fits_of_dims? rfl hds List.mem_cons_self "prob"

theorem ends_declareLkj (eta dimension : Value) :
    Ends (declareLkj eta dimension) w (fun _ w' => w.DeclaresTo w') Fails := by
  unfold declareLkj
  apply Ends.bind (ends_toNode eta)
  intro e v hv
  apply Ends.bind (ends_checkScalar "eta" e)
  intro _ v' hv'
  rcases hv' with ⟨rfl, n, hn, hdim⟩
  apply ends_withParameters lt_whole hv.1
  intro p hp
  rw [List.mem_singleton.mp hp]
  refine Or.inl ⟨e, n, rfl, hn, fun _ => ⟨?_, fun _ => hdim⟩⟩
  intro hname
  exact absurd hname (show "eta" ≠ "sigma" by decide)

theorem ends_declareWishart (df sigma : Value) :
    Ends (declareWishart df sigma) w (fun _ w' => w.DeclaresTo w') Fails := by
  unfold declareWishart
  apply Ends.bind (ends_toNode df)
  intro k v hv
  apply Ends.bind (ends_toNode sigma)
  intro s v' hv'
  apply Ends.bind (ends_checkScalar "df" k)
  intro _ u hu
  rcases hu with ⟨rfl, m, hm, hdim⟩
  apply ends_bind_node
  intro n hn
  simp only
  refine ends_when trivial ?_
  intro hsquare
  apply ends_withParameters lt_whole (Edits.trans hv.1 hv'.1)
  intro p hp
  left
  rcases List.mem_cons.mp hp with rfl | hp
  · refine ⟨k, m, rfl, hm, fun _ => ⟨?_, fun _ => hdim⟩⟩
    intro hname
    exact absurd hname (show "df" ≠ "sigma" by decide)
  · rw [List.mem_singleton.mp hp]
    refine ⟨s, n, rfl, hn, fun _ => ⟨fun _ => ?_, fun hne => absurd rfl hne⟩⟩
    simp only [Bool.and_eq_true, decide_eq_true_eq] at hsquare
    match n.dim, hsquare with
    | [i, j], ⟨_, hsame⟩ =>
        have heq : i = j := Option.some.inj hsame
        exact ⟨i, by rw [heq]⟩

theorem length_bindArguments {signature : List (String × Option Value)} {args : List Value}
    {named : List (String × Value)} {xs : List Value}
    (h : bindArguments signature args named = .ok xs) : xs.length = signature.length := by
  induction signature generalizing args named xs with
  | nil =>
      cases args with
      | cons x args => simp [bindArguments] at h
      | nil =>
          cases named with
          | cons p named => simp [bindArguments] at h
          | nil =>
              simp only [bindArguments] at h
              cases h
              rfl
  | cons first rest ih =>
      rcases first with ⟨name, default⟩
      have hcons : forall {x : Value} {args' : List Value} {named' : List (String × Value)},
          (do return x :: (← bindArguments rest args' named') : Except Refusal _) = .ok xs ->
            xs.length = rest.length + 1 := by
        intro x args' named' hrest
        cases hbind : bindArguments rest args' named' with
        | error r =>
            rw [hbind] at hrest
            cases hrest
        | ok ys =>
            rw [hbind] at hrest
            cases hrest
            exact congrArg Nat.succ (ih hbind)
      unfold bindArguments at h
      simp only at h
      split at h
      · exact hcons h
      · cases h
      · exact hcons h
      · exact hcons h
      · cases h

theorem ends_declare (family : Family) (args : List Value) (named : List (String × Value)) :
    Ends (declare family args named) w (fun _ w' => w.DeclaresTo w') Fails := by
  have hbound : forall xs, xs.length = family.signature.length ->
      Ends (declareBound family xs) w (fun _ w' => w.DeclaresTo w') Fails := by
    intro xs hlength
    unfold declareBound
    split
    · rw [ends_bind, ends_get]
      apply ends_bind_ofRefusal
      intro isDiscrete _
      apply (ends_newDistribution _ _ _ lt_whole _ _).imp
      intro _ _ h
      exact h.1
    · exact ends_declareUniform _ _ _
    · exact ends_declareBinomial _ _ _
    · exact ends_declareLkj _ _
    · exact ends_declareWishart _ _
    · rename_i hlkj hwishart
      apply ends_declareSimple
      cases family with
      | lkj =>
          match xs, hlength with
          | [eta, dimension], _ => exact absurd rfl (hlkj eta dimension rfl)
      | wishart =>
          match xs, hlength with
          | [df, sigma], _ => exact absurd rfl (hwishart df sigma rfl)
      | _ => rfl
  unfold declare
  apply ends_bind_ofRefusal
  intro xs hxs
  apply Ends.bind (hbound xs (length_bindArguments hxs))
  intro id v hv
  apply Ends.bind (ends_distribution id)
  intro d v' hv'
  rw [hv'.1]
  exact ends_pure.mpr hv

end Action
end DensityGraph
